import ApiForge.Pattern.Regex

/-!
# Reading regular expressions

Groups, alternatives, repetitions, classes with set operations, escapes and inline flags. There is no look-around and
no back-reference; both are errors. What counts of an error is only that there is one.

* `items` reads alternatives up to a closing parenthesis, `classItems` a bracketed class.
* `Regex.parse?` reads a whole pattern.

There is no limit on how deep groups may nest or on how large the counted repetitions may make an expression, where an
engine refuses what passes a limit of its own.
-/

namespace ApiForge.Pattern

open Text

/-- The inline flags that change how the rest of a group is read. -/
structure Flags where
  ignoreCase : Bool := false
  multiLine : Bool := false
  dotAll : Bool := false
  verbose : Bool := false
  anyLineEnd : Bool := false
  unicode : Bool := true

/-! ## Small pieces -/

/-- Skips blanks and comments where the flags ask for it; `comment` says that a comment is open. -/
def skipVerbose (comment : Bool) : List Char → List Char
  | [] => []
  | c :: cs =>
    if comment then skipVerbose (c != '\n') cs
    else if isBlank c then skipVerbose false cs
    else if c == '#' then skipVerbose true cs
    else c :: cs

/-- The next character that counts. -/
def Flags.skip (f : Flags) (cs : List Char) : List Char := if f.verbose then skipVerbose false cs else cs

/-- The number of hexadecimal digits, if they denote a character. -/
def hexChar? (cs : List Char) : Option Char := do
  let ds ← cs.mapM hexDigit?
  let n := ds.foldl (fun a d => a * 16 + d) 0
  if n < 0xD800 || (0xDFFF < n && n < 0x110000) then return Char.ofNat n else none

/-- Reads `count` characters that count. -/
def takeCounted (f : Flags) : (count : Nat) → List Char → Option (List Char × List Char)
  | 0, cs => some ([], cs)
  | count + 1, cs =>
    match cs with
    | [] => none
    | c :: rest => (takeCounted f count (f.skip rest)).map fun (a, r) => (c :: a, r)

/-- Reads characters up to a closing brace. -/
def takeBraced (f : Flags) : (fuel : Nat) → List Char → Option (List Char × List Char)
  | 0, _ => none
  | fuel + 1, cs =>
    match f.skip cs with
    | [] => none
    | '\x7d' :: rest => some ([], rest)
    | c :: rest => (takeBraced f fuel rest).map fun (a, r) => (c :: a, r)

/-- The character of a hexadecimal escape with `digits` digits or with braces; `cs` follows the letter. -/
def hexEscape? (f : Flags) (digits : Nat) (cs : List Char) : Option (Char × List Char) := do
  match f.skip cs with
  | '\x7b' :: rest =>
    let (ds, rest) ← takeBraced f (rest.length + 1) rest
    if ds.isEmpty then none else return (← hexChar? ds, rest)
  | cs =>
    let (ds, rest) ← takeCounted f digits cs
    return (← hexChar? ds, rest)

/-- The first occurrence of one of the separators of a property and its value. -/
def splitProperty (name : List Char) : Option (List Char × Bool × List Char) :=
  match splitNe name with
  | some (a, z) => some (a, true, z)
  | none => match cut? ':' name with
    | some (a, z) => some (a, false, z)
    | none => (cut? '=' name).map fun (a, z) => (a, false, z)
where
  /-- Cuts at the first `!=`. -/
  splitNe : List Char → Option (List Char × List Char)
    | '!' :: '=' :: rest => some ([], rest)
    | c :: rest => (splitNe rest).map fun (a, z) => (c :: a, z)
    | [] => none

/-- Closes a set under case where the flags ask for it. -/
def Flags.close (f : Flags) (set : CharSet) : CharSet :=
  if !f.ignoreCase then set else if f.unicode then .fold set else .foldAscii set

/-- A set or its complement. -/
def negateIf (negated : Bool) (set : CharSet) : CharSet := if negated then .compl set else set

/-- A Unicode class; `cs` follows the letter. -/
def unicodeClass? (f : Flags) (negated : Bool) (cs : List Char) : Option (CharSet × List Char) := do
  if !f.unicode then none
  match f.skip cs with
  | [] => none
  | '\\' :: _ => none
  | '\x7b' :: rest =>
    let (name, rest) ← takeBraced f (rest.length + 1) rest
    match splitProperty name with
    | some (p, differs, v) =>
      let set ← CharSet.valued? (String.ofList p) (String.ofList v)
      return (negateIf (negated != differs) (f.close set), rest)
    | none =>
      let set ← CharSet.named? (String.ofList name)
      return (negateIf negated (f.close set), rest)
  | c :: rest =>
    let set ← CharSet.named? (String.singleton c)
    return (negateIf negated (f.close set), rest)

/-- The class of a letter such as `d`, in its Unicode or ASCII reading. -/
def perlClass (f : Flags) (c : Char) : Option CharSet :=
  let negated := isUpperAscii c
  let set := match lowerChar c with
    | 'd' => some (if f.unicode then CharSet.digit else .ofRanges [('0', '9')])
    | 's' => some (if f.unicode then .space else .spaceAscii)
    | 'w' => some (if f.unicode then .word else .wordAscii)
    | _ => none
  if negated && !f.unicode then none else set.map (negateIf negated)

/-- Punctuation that may follow a backslash: every ASCII character that is no letter, digit or angle. -/
def isEscapable (c : Char) : Bool :=
  c.toNat < 128 && !isAlnumAscii c && c != '<' && c != '>'

/-- What an escape or a single character stands for. -/
inductive Atom where
  | char (c : Char)
  | set (s : CharSet)
  | assertion (a : Assertion)

/-- A special word boundary in braces after `\b`; nothing when the brace begins a repetition. -/
def wordBoundary? (f : Flags) (cs : List Char) : Option (Assertion × List Char) :=
  let ascii := !f.unicode
  let isMark := fun (c : Char) => isLetterAscii c || c == '-'
  match cs with
  | '\x7b' :: rest =>
    match f.skip rest with
    | [] => none
    | c :: rest =>
      if isMark c then
        match takeBraced f (rest.length + 2) (c :: rest) with
        | none => none
        | some (name, rest) => match String.ofList name with
          | "start" => some (.wordStart ascii, rest)
          | "end" => some (.wordEnd ascii, rest)
          | "start-half" => some (.noWordBefore ascii, rest)
          | "end-half" => some (.noWordAfter ascii, rest)
          | _ => none
      else some (.wordEdge ascii, cs)
  | _ => some (.wordEdge ascii, cs)

/-- An escape; `cs` follows the backslash. -/
def escape? (f : Flags) (cs : List Char) : Option (Atom × List Char) := do
  let ascii := !f.unicode
  match cs with
  | [] => none
  | c :: rest =>
    if c == 'x' || c == 'u' || c == 'U' then
      let (ch, rest) ← hexEscape? f (if c == 'x' then 2 else if c == 'u' then 4 else 8) rest
      if ascii && 127 < ch.toNat then none else return (.char ch, rest)
    else if c == 'p' || c == 'P' then
      let (set, rest) ← unicodeClass? f (c == 'P') rest
      return (.set set, rest)
    else if ['d', 's', 'w', 'D', 'S', 'W'].contains c then return (.set (← perlClass f c), rest)
    else if isEscapable c then return (.char c, rest)
    else match c with
      | 'a' => return (.char (Char.ofNat 7), rest)
      | 'f' => return (.char (Char.ofNat 12), rest)
      | 't' => return (.char '\t', rest)
      | 'n' => return (.char '\n', rest)
      | 'r' => return (.char '\r', rest)
      | 'v' => return (.char (Char.ofNat 11), rest)
      | 'A' => return (.assertion .textStart, rest)
      | 'z' => return (.assertion .textEnd, rest)
      | 'b' => (wordBoundary? f rest).map fun (a, r) => (.assertion a, r)
      | 'B' => return (.assertion (.noWordEdge ascii), rest)
      | '<' => return (.assertion (.wordStart ascii), rest)
      | '>' => return (.assertion (.wordEnd ascii), rest)
      | _ => none

/-! ## Classes -/

/-- An ASCII class in `[:` and `:]`, if `cs` (after the bracket) is one. -/
def posixClass? (f : Flags) (cs : List Char) : Option (CharSet × List Char) := do
  match cs with
  | ':' :: rest =>
    let (negated, rest) := match rest with
      | '^' :: r => (true, r)
      | r => (false, r)
    let name := rest.takeWhile (· != ':')
    match rest.drop name.length with
    | ':' :: ']' :: rest =>
      let set ← CharSet.posix? (String.ofList name)
      return (negateIf negated (f.close set), rest)
    | _ => none
  | _ => none

/-- One item of a class: a character or a set. -/
def classAtom? (f : Flags) : List Char → Option (Atom × List Char)
  | [] => none
  | '\\' :: rest => match escape? f rest with
    | some (.assertion _, _) => none
    | r => r
  | c :: rest => if !f.unicode && 127 < c.toNat then none else some (.char c, rest)

/-- The set of an item. -/
def Atom.toSet : Atom → CharSet
  | .char c => .single c
  | .set s => s
  | .assertion _ => .none

/-- A range or a single item of a class. -/
def classRange? (f : Flags) (cs : List Char) : Option (CharSet × List Char) := do
  let (a, rest) ← classAtom? f cs
  let rest := f.skip rest
  match rest with
  | [] => none
  | '-' :: more =>
    match f.skip more with
    | ']' :: _ => return (a.toSet, rest)
    | '-' :: _ => return (a.toSet, rest)
    | [] => none
    | more =>
      let (z, rest) ← classAtom? f more
      match a, z with
      | .char lo, .char hi => if lo.toNat ≤ hi.toNat then return (.range lo.toNat hi.toNat, rest) else none
      | _, _ => none
  | _ => return (a.toSet, rest)

/-- The set operators of classes. -/
inductive SetOp where
  | inter
  | diff
  | symmDiff

/-- Joins what stands before an operator with what stands after it. -/
def joinSets (f : Flags) : Option (CharSet × SetOp) → CharSet → CharSet
  | none, right => right
  | some (left, op), right =>
    let left := f.close left
    let right := f.close right
    match op with
    | .inter => .inter left right
    | .diff => .diff left right
    | .symmDiff => .symmDiff left right

/-- Literal hyphens at the start of a class, and then a literal closing bracket if there was no hyphen. -/
def classStart (f : Flags) (set : CharSet) (seen : Bool) : (fuel : Nat) → List Char → Option (CharSet × List Char)
  | 0, _ => none
  | fuel + 1, cs =>
    match cs with
    | [] => none
    | '-' :: rest => classStart f (.union set (.single '-')) true fuel (f.skip rest)
    | ']' :: rest =>
      if seen then some (set, cs)
      else match f.skip rest with
        | [] => none
        | rest => some (.union set (.single ']'), rest)
    | _ => some (set, cs)

/-- The head of a class, after its bracket: whether it is negated, and the items read so far. -/
def classHead (f : Flags) (cs : List Char) : Option (Bool × CharSet × List Char) := do
  let cs := f.skip cs
  let (negated, cs) := match cs with
    | '^' :: rest => (true, f.skip rest)
    | cs => (false, cs)
  let (set, rest) ← classStart f .none false (cs.length + 1) cs
  return (negated, set, rest)

/-- The rest of a class up to its closing bracket: `left` stands before the last operator, `set` after it. -/
def classItems (f : Flags) : (fuel : Nat) → (negated : Bool) → Option (CharSet × SetOp) → CharSet → List Char →
    Option (CharSet × List Char)
  | 0, _, _, _, _ => none
  | fuel + 1, negated, left, set, cs =>
    match f.skip cs with
    | [] => none
    | '[' :: rest =>
      match posixClass? f rest with
      | some (s, rest) => classItems f fuel negated left (.union set s) rest
      | none => do
        let (neg, inner, rest) ← classHead f rest
        let (s, rest) ← classItems f fuel neg none inner rest
        classItems f fuel negated left (.union set s) rest
    | ']' :: rest =>
      let whole := negateIf negated (f.close (joinSets f left set))
      if negated && !f.unicode then none else some (whole, rest)
    | '&' :: '&' :: rest => classItems f fuel negated (some (joinSets f left set, .inter)) .none rest
    | '-' :: '-' :: rest => classItems f fuel negated (some (joinSets f left set, .diff)) .none rest
    | '~' :: '~' :: rest => classItems f fuel negated (some (joinSets f left set, .symmDiff)) .none rest
    | cs => do
      let (s, rest) ← classRange? f cs
      classItems f fuel negated left (.union set s) rest

/-- A bracketed class; `cs` follows the bracket. -/
def class? (f : Flags) (cs : List Char) : Option (CharSet × List Char) := do
  let (negated, set, rest) ← classHead f cs
  classItems f (rest.length + 1) negated none set rest

/-! ## Groups and repetitions -/

/-- Sets one flag; the greedy flag changes nothing that counts. -/
def Flags.set? (f : Flags) (value : Bool) : Char → Option Flags
  | 'i' => some { f with ignoreCase := value }
  | 'm' => some { f with multiLine := value }
  | 's' => some { f with dotAll := value }
  | 'x' => some { f with verbose := value }
  | 'R' => some { f with anyLineEnd := value }
  | 'u' => some { f with unicode := value }
  | 'U' => some f
  | _ => none

/-- Inline flags up to `)` or `:`; no flag occurs twice, and `-` occurs at most once and before a flag. -/
def flags? (f : Flags) (seen : List Char) (negating : Bool) : List Char → Option (Flags × Bool × List Char)
  | [] => none
  | c :: cs =>
    if c == ')' || c == ':' then
      if seen.head? == some '-' || (c == ')' && seen.isEmpty) then none else some (f, c == ')', cs)
    else if seen.contains c then none
    else if c == '-' then flags? f (c :: seen) true cs
    else match f.set? (!negating) c with
      | some f => flags? f (c :: seen) negating cs
      | none => none

/-- The name of a group up to its closing angle. -/
def groupName? (cs : List Char) : Option (List Char × List Char) := do
  let (name, rest) ← cut? '>' cs
  let isAlpha := fun (c : Char) => c == '_' || alphabetic.holds c
  match name with
  | [] => none
  | c :: more =>
    if isAlpha c && more.all fun c => isAlpha c || ['.', '[', ']'].contains c || inCategories "IJK" c then
      return (name, rest)
    else none

/-- A decimal number with blanks around it, at most 32 bits wide; nothing when there are no digits. -/
def count? (f : Flags) (cs : List Char) : Option (Option Nat × List Char) :=
  let cs := cs.dropWhile isBlank
  let rec digits : (fuel : Nat) → List Char → List Char × List Char
    | 0, cs => ([], cs)
    | fuel + 1, cs => match cs with
      | c :: rest =>
        if isDigitAscii c then
          let (ds, r) := digits fuel (f.skip rest)
          (c :: ds, r)
        else ([], cs)
      | [] => ([], [])
  let (ds, rest) := digits (cs.length + 1) cs
  let rest := rest.dropWhile isBlank
  let n := decimalValue ds
  if ds.isEmpty then some (none, rest)
  else if 4294967295 < n then none
  else some (some n, f.skip rest)

/-- Drops the mark of a reluctant repetition. -/
def dropReluctant : List Char → List Char
  | '?' :: rest => rest
  | cs => cs

/-- The bounds of a counted repetition; `cs` follows the brace. -/
def bounds? (f : Flags) (cs : List Char) : Option (Nat × Option Nat × List Char) := do
  let cs := f.skip cs
  if cs.isEmpty then none
  let (low, rest) ← count? f cs
  match rest with
  | ',' :: rest =>
    match f.skip rest with
    | '\x7d' :: rest => return (← low, none, dropReluctant (f.skip rest))
    | rest =>
      let low ← low
      let (high, rest) ← count? f rest
      let high ← high
      match rest with
      | '\x7d' :: rest => if low ≤ high then return (low, some high, dropReluctant (f.skip rest)) else none
      | _ => none
  | '\x7d' :: rest =>
    let low ← low
    return (low, some low, dropReluctant (f.skip rest))
  | _ => none

/-- The expression of one character. -/
def Flags.char (f : Flags) (c : Char) : Regex := .chars (f.close (.single c))

/-- The expression of the dot. -/
def Flags.dot? (f : Flags) : Option Regex :=
  if !f.unicode then none
  else if f.dotAll then some (.chars .all)
  else if f.anyLineEnd then some (.chars (.compl (.union (.single '\n') (.single '\r'))))
  else some (.chars (.compl (.single '\n')))

/-- The condition of `^`. -/
def Flags.caret (f : Flags) : Assertion :=
  if !f.multiLine then .textStart else if f.anyLineEnd then .anyLineStart else .lineStart

/-- The condition of `$`. -/
def Flags.dollar (f : Flags) : Assertion :=
  if !f.multiLine then .textEnd else if f.anyLineEnd then .anyLineEnd else .lineEnd

/-- The expression of an atom. -/
def Atom.toRegex (f : Flags) : Atom → Regex
  | .char c => f.char c
  | .set s => .chars s
  | .assertion a => .assert a

/-- What has been read of a group: the alternatives before the last bar, and the parts after it, both backwards. A
part is missing where only flags were set. -/
structure Progress where
  alternatives : List Regex := []
  parts : List (Option Regex) := []

/-- Adds a part. -/
def Progress.push (p : Progress) (r : Option Regex) : Progress := { p with parts := r :: p.parts }

/-- Closes the current alternative. -/
def Progress.bar (p : Progress) : Progress :=
  ⟨Regex.sequence (p.parts.reverse.filterMap id) :: p.alternatives, []⟩

/-- The expression of the group. -/
def Progress.finish (p : Progress) : Regex := Regex.choice p.bar.alternatives.reverse

/-- Replaces the last part by a repetition of it; there must be one. -/
def Progress.repeatLast? (p : Progress) (low : Nat) (high : Option Nat) : Option Progress :=
  match p.parts with
  | some r :: rest => some { p with parts := some (r.repeated low high) :: rest }
  | _ => none

/-- What follows the parenthesis that opens a group. -/
inductive GroupHead where
  /-- A body under these flags, with the name of the group if it has one. -/
  | body (flags : Flags) (name : Option (List Char)) (rest : List Char)
  /-- Flags for the rest of the enclosing group. -/
  | setFlags (flags : Flags) (rest : List Char)

/-- The head of a group; `cs` follows the parenthesis. -/
def groupHead? (f : Flags) (cs : List Char) : Option GroupHead :=
  match f.skip cs with
  | '?' :: '=' :: _ => none
  | '?' :: '!' :: _ => none
  | '?' :: '<' :: '=' :: _ => none
  | '?' :: '<' :: '!' :: _ => none
  | '?' :: 'P' :: '<' :: rest => (groupName? rest).map fun (name, rest) => .body f (some name) rest
  | '?' :: '<' :: rest => (groupName? rest).map fun (name, rest) => .body f (some name) rest
  | '?' :: rest => (flags? f [] false rest).map fun (g, closed, rest) =>
    if closed then .setFlags g rest else .body g none rest
  | rest => some (.body f none rest)

/-- Reads a group's body up to a closing parenthesis or the end; `names` are the group names seen so far. -/
def items : (fuel : Nat) → Flags → List (List Char) → Progress → List Char →
    Option (Regex × List (List Char) × List Char)
  | 0, _, _, _, _ => none
  | fuel + 1, f, names, p, cs =>
    match f.skip cs with
    | [] => some (p.finish, names, [])
    | ')' :: rest => some (p.finish, names, ')' :: rest)
    | '|' :: rest => items fuel f names p.bar rest
    | '(' :: rest => do
      match ← groupHead? f rest with
      | .setFlags f rest => items fuel f names (p.push none) rest
      | .body g name rest =>
        if name.any names.contains then none
        let (r, names, rest) ← items fuel g (name.toList ++ names) {} rest
        match rest with
        | ')' :: rest => items fuel f names (p.push (some r)) rest
        | _ => none
    | '[' :: rest => do
      let (set, rest) ← class? f rest
      items fuel f names (p.push (some (.chars set))) rest
    | '?' :: rest => do items fuel f names (← p.repeatLast? 0 (some 1)) (dropReluctant rest)
    | '*' :: rest => do items fuel f names (← p.repeatLast? 0 none) (dropReluctant rest)
    | '+' :: rest => do items fuel f names (← p.repeatLast? 1 none) (dropReluctant rest)
    | '\x7b' :: rest => do
      let (low, high, rest) ← bounds? f rest
      items fuel f names (← p.repeatLast? low high) rest
    | '\\' :: rest => do
      let (a, rest) ← escape? f rest
      items fuel f names (p.push (some (a.toRegex f))) rest
    | '.' :: rest => do items fuel f names (p.push (some (← f.dot?))) rest
    | '^' :: rest => items fuel f names (p.push (some (.assert f.caret))) rest
    | '$' :: rest => items fuel f names (p.push (some (.assert f.dollar))) rest
    | c :: rest => items fuel f names (p.push (some (f.char c))) rest

/-- The expression of a pattern. -/
def Regex.parse? (source : String) : Option Regex :=
  let cs := source.toList
  match items (cs.length + 1) {} [] {} cs with
  | some (r, _, []) => some r
  | _ => none

end ApiForge.Pattern
