import ApiForge.Text.Ascii

/-!
# Tokens of YAML text

The text is cut into tokens from left to right. Indentation becomes explicit: a deeper column opens a block collection
and a shallower one closes it. A key without a mark is found only at its colon; the token for the key is then put in
front of what was read since the key began.

* `Cursor` walks over the text and knows line and column.
* `Scan` is the state of the scanner, `Scan.token` reads the next token.
* `tokens?` gives all tokens of a text.
-/

namespace ApiForge.Yaml

open Text

/-- A token. -/
inductive Token where
  | streamEnd
  | versionDirective
  | tagDirective (handle lead : String)
  | documentStart
  | documentEnd
  | blockSequenceStart
  | blockMappingStart
  | blockEnd
  | flowSequenceStart
  | flowSequenceEnd
  | flowMappingStart
  | flowMappingEnd
  | blockEntry
  | flowEntry
  | key
  | value
  | alias (name : String)
  | anchor (name : String)
  | tag (handle ending : String)
  | scalar (text : String) (plain : Bool)
  deriving DecidableEq, Inhabited

/-! ## Characters -/

/-- A line break. -/
def isBreak (c : Char) : Bool :=
  c == '\n' || c == '\r' || c.toNat == 0x85 || c.toNat == 0x2028 || c.toNat == 0x2029

/-- A blank or a tab. -/
def isBlankChar (c : Char) : Bool := c == ' ' || c == '\t'

/-- A character that may stand in a text. -/
def isAllowed (c : Char) : Bool :=
  let n := c.toNat
  n == 9 || n == 10 || n == 13 || (0x20 ≤ n && n ≤ 0x7E) || n == 0x85 || (0xA0 ≤ n && n ≤ 0xFFFD) || 0x10000 ≤ n

/-- The mark that may stand in front of a line; it takes a column. -/
def byteOrderMark : Char := Char.ofNat 0xFEFF

/-- A character of an anchor or a tag handle. -/
def isNameChar (c : Char) : Bool := isAlnumAscii c || c == '_' || c == '-'

/-- A position in a text. -/
structure Cursor where
  rest : List Char
  index : Nat := 0
  line : Nat := 0
  column : Nat := 0

namespace Cursor

/-- The character `n` places ahead. -/
def peek (c : Cursor) (n : Nat) : Option Char := c.rest[n]?

/-- Whether the character `n` places ahead is `x`. -/
def has (c : Cursor) (x : Char) (n : Nat) : Bool := c.peek n == some x

/-- Whether a blank, a break or the end lies `n` places ahead. -/
def blankAt (c : Cursor) (n : Nat) : Bool := (c.peek n).all fun x => isBlankChar x || isBreak x

/-- Whether a break or the end lies ahead. -/
def breakHere (c : Cursor) : Bool := (c.peek 0).all isBreak

/-- One character further. -/
def skip (c : Cursor) : Cursor :=
  match c.rest with
  | [] => c
  | _ :: rest => { c with rest, index := c.index + 1, column := c.column + 1 }

/-- `n` characters further. -/
def skipN (c : Cursor) : Nat → Cursor
  | 0 => c
  | n + 1 => c.skip.skipN n

/-- Past a line break, with the character that it stands for. -/
def takeBreak (c : Cursor) : Char × Cursor :=
  match c.rest with
  | '\r' :: '\n' :: rest => ('\n', ⟨rest, c.index + 2, c.line + 1, 0⟩)
  | x :: rest =>
    (if x.toNat == 0x2028 || x.toNat == 0x2029 then x else '\n', ⟨rest, c.index + 1, c.line + 1, 0⟩)
  | [] => ('\n', c)

/-- Past the characters that satisfy `p`, with these characters. -/
def takeWhile (c : Cursor) (p : Char → Bool) : List Char × Cursor :=
  let taken := c.rest.takeWhile p
  (taken, c.skipN taken.length)

/-- Past the characters that satisfy `p`. -/
def skipWhile (c : Cursor) (p : Char → Bool) : Cursor := (c.takeWhile p).2

/-- Whether a mark of three equal characters stands alone at the start of a line. -/
def marker (c : Cursor) (x : Char) : Bool :=
  c.column == 0 && c.has x 0 && c.has x 1 && c.has x 2 && c.blankAt 3

/-- Whether a document begins or ends here. -/
def documentMarker (c : Cursor) : Bool := c.marker '-' || c.marker '.'

end Cursor

/-! ## The scanner -/

/-- A place where a key without a mark may have begun. -/
structure KeyStart where
  required : Bool
  token : Nat
  index : Nat
  line : Nat
  column : Nat

/-- The state of the scanner. -/
structure Scan where
  cursor : Cursor
  indent : Int := -1
  indents : List Int := []
  flow : Nat := 0
  keyAllowed : Bool := true
  /-- One place for each open flow collection and one for the block, innermost first. -/
  keys : List (Option KeyStart) := [none]
  tokens : Array Token := #[]

namespace Scan

/-- Appends a token. -/
def push (s : Scan) (t : Token) : Scan := { s with tokens := s.tokens.push t }

/-- Inserts a token before the one with a given number. -/
def insertAt (s : Scan) (i : Nat) (t : Token) : Scan := { s with tokens := s.tokens.insertIdxIfInBounds i t }

/-- Moves the cursor. -/
def moveTo (s : Scan) (cursor : Cursor) : Scan := { s with cursor }

/-- Opens a block collection at a column that is deeper than the current one. -/
def rollIndent (s : Scan) (column : Nat) (place : Option Nat) (t : Token) : Scan :=
  if s.flow == 0 && s.indent < column then
    let s := { s with indents := s.indent :: s.indents, indent := column }
    match place with
    | some i => s.insertAt i t
    | none => s.push t
  else s

/-- Closes the block collections that are deeper than a column. -/
def closeBlocks (column : Int) : (indents : List Int) → Scan → Scan
  | [], s => s
  | outer :: more, s =>
    if column < s.indent then closeBlocks column more { s.push .blockEnd with indent := outer, indents := more } else s

/-- Closes block collections, outside flow collections. -/
def unrollIndent (s : Scan) (column : Int) : Scan := if s.flow == 0 then closeBlocks column s.indents s else s

/-- Drops the current possible key; a key that must be one may not be dropped. -/
def removeKey (s : Scan) : Option Scan :=
  match s.keys with
  | some k :: rest => if k.required then none else some { s with keys := none :: rest }
  | _ => some s

/-- Notes that a key may begin here. -/
def saveKey (s : Scan) : Option Scan :=
  if s.keyAllowed then do
    let required := s.flow == 0 && s.indent == s.cursor.column
    let s ← s.removeKey
    let k : KeyStart := ⟨required, s.tokens.size, s.cursor.index, s.cursor.line, s.cursor.column⟩
    return { s with keys := some k :: s.keys.tail }
  else some s

/-- Whether a possible key lies too far back: on another line or more than 1024 characters away. -/
def isStale (s : Scan) (k : KeyStart) : Bool := k.line < s.cursor.line || k.index + 1024 < s.cursor.index

/-- Drops the possible keys that lie too far back. -/
def dropStale (s : Scan) : Option Scan := do
  let keys ← s.keys.mapM fun
    | none => some none
    | some k => if s.isStale k then (if k.required then none else some none) else some (some k)
  return { s with keys }

/-- Past blanks, comments and line breaks. -/
def toNextToken : (fuel : Nat) → Scan → Scan
  | 0, s => s
  | fuel + 1, s =>
    let tabs := s.flow != 0 || !s.keyAllowed
    let c := if s.cursor.column == 0 && s.cursor.has byteOrderMark 0 then s.cursor.skip else s.cursor
    let c := c.skipWhile fun x => x == ' ' || (x == '\t' && tabs)
    let c := if c.has '#' 0 then c.skipWhile (!isBreak ·) else c
    match c.peek 0 with
    | some x =>
      if isBreak x then
        toNextToken fuel { s with cursor := c.takeBreak.2, keyAllowed := s.keyAllowed || s.flow == 0 }
      else s.moveTo c
    | none => s.moveTo c

/-! ## Scalars -/

/-- Blanks and breaks between the parts of a scalar, all backwards. -/
structure Gap where
  blanks : List Char := []
  /-- The first line break. -/
  first : List Char := []
  /-- Further line breaks. -/
  more : List Char := []
  broken : Bool := false

/-- What a gap contributes to a scalar: one break becomes a blank, further breaks are kept. -/
def Gap.text (g : Gap) : List Char :=
  if g.broken then
    if g.first == ['\n'] then (if g.more.isEmpty then [' '] else g.more) else g.more ++ g.first
  else g.blanks

/-- Reads blanks and breaks; a tab in the indentation of a plain scalar is refused. -/
def readGap (minColumn : Option Int) : (fuel : Nat) → Gap → Cursor → Option (Gap × Cursor)
  | 0, _, _ => none
  | fuel + 1, g, c =>
    match c.peek 0 with
    | none => some (g, c)
    | some x =>
      if isBlankChar x then
        if g.broken && x == '\t' && minColumn.any ((c.column : Int) < ·) then none
        else readGap minColumn fuel (if g.broken then g else { g with blanks := x :: g.blanks }) c.skip
      else if isBreak x then
        let (b, c) := c.takeBreak
        readGap minColumn fuel (if g.broken then { g with more := b :: g.more }
          else { g with blanks := [], first := [b], broken := true }) c
      else some (g, c)

/-- Whether a plain scalar ends at this character. -/
def endsPlain (flow : Bool) (c : Cursor) : Bool :=
  (c.has ':' 0 && c.blankAt 1) ||
    (flow && (c.peek 0).any fun x => x == ',' || x == '[' || x == ']' || x == '\x7b' || x == '\x7d')

/-- Whether a colon stands before an indicator inside a flow collection, which is refused. -/
def badColon (flow : Bool) (c : Cursor) : Bool :=
  flow && c.has ':' 0 && (c.peek 1).any fun x => [',', '?', '[', ']', '\x7b', '\x7d'].contains x

/-- Reads characters of a plain scalar up to a blank or its end. -/
def plainRun (flow : Bool) : (fuel : Nat) → List Char → Cursor → Option (List Char × Cursor)
  | 0, _, _ => none
  | fuel + 1, acc, c =>
    match c.peek 0 with
    | none => some (acc, c)
    | some x =>
      if isBlankChar x || isBreak x then some (acc, c)
      else if badColon flow c then none
      else if endsPlain flow c then some (acc, c)
      else plainRun flow fuel (x :: acc) c.skip

/-- Reads a plain scalar; `gap` is what was read since its last character. -/
def plainParts (flow : Bool) (minColumn : Int) :
    (fuel : Nat) → List Char → Gap → Cursor → Option (List Char × Gap × Cursor)
  | 0, _, _, _ => none
  | fuel + 1, acc, g, c => do
    if c.documentMarker || c.has '#' 0 then return (acc, g, c)
    let (run, c') ← plainRun flow (c.rest.length + 1) [] c
    let (acc, g) := if run.isEmpty then (acc, g) else (run ++ g.text ++ acc, {})
    match c'.peek 0 with
    | some x =>
      if isBlankChar x || isBreak x then
        let (g, c) ← readGap (some minColumn) (c'.rest.length + 1) g c'
        if !flow && (c.column : Int) < minColumn then return (acc, g, c)
        plainParts flow minColumn fuel acc g c
      else return (acc, g, c')
    | none => return (acc, g, c')

/-- Reads a plain scalar. -/
def plainScalar (s : Scan) : Option Scan := do
  let s ← s.saveKey
  let flow := s.flow != 0
  let (acc, g, c) ← plainParts flow (s.indent + 1) (s.cursor.rest.length + 1) [] {} s.cursor
  let s := { s with cursor := c, keyAllowed := g.broken }
  return s.push (.scalar (String.ofList acc.reverse) true)

/-- The character of a one-letter escape in double quotes. -/
def escapeOf? (x : Char) : Option Char :=
  match x with
  | '0' => some (Char.ofNat 0)
  | 'a' => some (Char.ofNat 7)
  | 'b' => some (Char.ofNat 8)
  | 't' => some '\t'
  | '\t' => some '\t'
  | 'n' => some '\n'
  | 'v' => some (Char.ofNat 11)
  | 'f' => some (Char.ofNat 12)
  | 'r' => some '\r'
  | 'e' => some (Char.ofNat 27)
  | ' ' => some ' '
  | '"' => some '"'
  | '/' => some '/'
  | '\\' => some '\\'
  | 'N' => some (Char.ofNat 0x85)
  | '_' => some (Char.ofNat 0xA0)
  | 'L' => some (Char.ofNat 0x2028)
  | 'P' => some (Char.ofNat 0x2029)
  | _ => none

/-- The number of digits of a hexadecimal escape. -/
def hexLength? (x : Char) : Option Nat :=
  match x with
  | 'x' => some 2
  | 'u' => some 4
  | 'U' => some 8
  | _ => none

/-- Reads an escape, at the character after the backslash. -/
def escape? (c : Cursor) : Option (Char × Cursor) := do
  let x ← c.peek 0
  match hexLength? x with
  | none => return (← escapeOf? x, c.skip)
  | some len =>
    let digits ← (c.rest.drop 1 |>.take len).mapM hexDigit?
    if digits.length != len then none
    let n := digits.foldl (fun a d => a * 16 + d) 0
    if (0xD800 ≤ n && n ≤ 0xDFFF) || 0x10FFFF < n then none
    return (Char.ofNat n, c.skipN (len + 1))

/-- Reads characters in quotes up to a blank or the closing quote; an escaped line break ends the run as well. -/
def quotedRun (single : Bool) : (fuel : Nat) → List Char → Cursor → Option (List Char × Bool × Cursor)
  | 0, _, _ => none
  | fuel + 1, acc, c =>
    match c.peek 0 with
    | none => none
    | some x =>
      if isBlankChar x || isBreak x then some (acc, false, c)
      else if single then
        if x == '\'' then
          if c.has '\'' 1 then quotedRun single fuel ('\'' :: acc) (c.skipN 2) else some (acc, false, c)
        else quotedRun single fuel (x :: acc) c.skip
      else if x == '"' then some (acc, false, c)
      else if x == '\\' then
        if (c.peek 1).any isBreak then some (acc, true, c.skip.takeBreak.2)
        else match escape? c.skip with
          | some (e, c) => quotedRun single fuel (e :: acc) c
          | none => none
      else quotedRun single fuel (x :: acc) c.skip

/-- Reads a quoted scalar after its opening quote. -/
def quotedParts (single : Bool) : (fuel : Nat) → List Char → Cursor → Option (List Char × Cursor)
  | 0, _, _ => none
  | fuel + 1, acc, c => do
    if c.documentMarker then none
    let (acc, escaped, c) ← quotedRun single (c.rest.length + 1) acc c
    if !escaped && c.has (if single then '\'' else '"') 0 then return (acc, c.skip)
    let (g, c) ← readGap none (c.rest.length + 1) { broken := escaped } c
    quotedParts single fuel (g.text ++ acc) c

/-- Reads a quoted scalar. -/
def quotedScalar (s : Scan) (single : Bool) : Option Scan := do
  let s ← s.saveKey
  let (acc, c) ← quotedParts single (s.cursor.rest.length + 1) [] s.cursor.skip
  return { s with cursor := c, keyAllowed := false }.push (.scalar (String.ofList acc.reverse) false)

/-- Past the indentation and the empty lines of a block scalar: the breaks (backwards), the deepest column met and the
position. An indentation of zero is not yet known. -/
def blockBreaks (indent : Nat) : (fuel : Nat) → List Char → Nat → Cursor → Option (List Char × Nat × Cursor)
  | 0, _, _, _ => none
  | fuel + 1, acc, deepest, c =>
    let isIndent := fun (c : Cursor) => indent == 0 || c.column < indent
    let rec eat : Nat → Cursor → Cursor
      | 0, c => c
      | n + 1, c => if isIndent c && c.has ' ' 0 then eat n c.skip else c
    let c := eat (c.rest.length + 1) c
    let deepest := max deepest c.column
    if isIndent c && c.has '\t' 0 then none
    else match c.peek 0 with
      | some x =>
        if isBreak x then
          let (b, c) := c.takeBreak
          blockBreaks indent fuel (b :: acc) deepest c
        else some (acc, deepest, c)
      | none => some (acc, deepest, c)

/-- The lines of a block scalar: `acc` is its text so far, `first` the break after the last line, `more` the breaks
after that, and `blank` says that the last line began with a blank. All texts are backwards. -/
def blockLines (folded : Bool) (indent : Nat) : (fuel : Nat) → (acc first more : List Char) → (blank : Bool) →
    Cursor → Option (List Char × List Char × List Char × Cursor)
  | 0, _, _, _, _, _ => none
  | fuel + 1, acc, first, more, blank, c => do
    if c.column != indent || c.rest.isEmpty then return (acc, first, more, c)
    let startsBlank := (c.peek 0).any isBlankChar
    let acc :=
      if folded && first == ['\n'] && !blank && !startsBlank then (if more.isEmpty then ' ' :: acc else more ++ acc)
      else more ++ first ++ acc
    let (line, c) := c.takeWhile (!isBreak ·)
    let acc := line.reverse ++ acc
    let (first, c) := if c.rest.isEmpty then ([], c) else
      let (b, c) := c.takeBreak
      ([b], c)
    let (more, _, c) ← blockBreaks indent (c.rest.length + 1) [] 0 c
    blockLines folded indent fuel acc first more startsBlank c

/-- What is done with the breaks at the end of a block scalar. -/
inductive Chomping where
  | strip
  | clip
  | keep
  deriving DecidableEq

/-- The mark for the breaks at the end. -/
def chomping? (c : Cursor) : Option Chomping :=
  if c.has '+' 0 then some .keep else if c.has '-' 0 then some .strip else none

/-- The indentation mark of a block scalar; zero is refused. -/
def increment? (c : Cursor) : Option (Option Nat) :=
  match c.peek 0 with
  | some x => if x == '0' then none else some (if isDigitAscii x then some (x.toNat - 48) else none)
  | none => some none

/-- The marks after the indicator of a block scalar, in either order. -/
def blockHeader? (c : Cursor) : Option (Chomping × Nat × Cursor) := do
  match chomping? c with
  | some ch =>
    let c := c.skip
    match ← increment? c with
    | some n => return (ch, n, c.skip)
    | none => return (ch, 0, c)
  | none =>
    match ← increment? c with
    | some n =>
      let c := c.skip
      match chomping? c with
      | some ch => return (ch, n, c.skip)
      | none => return (.clip, n, c)
    | none => return (.clip, 0, c)

/-- Reads a block scalar. -/
def blockScalar (s : Scan) (folded : Bool) : Option Scan := do
  let s ← s.removeKey
  let (chomping, increment, c) ← blockHeader? s.cursor.skip
  let c := c.skipWhile isBlankChar
  let c := if c.has '#' 0 then c.skipWhile (!isBreak ·) else c
  if !c.breakHere then none
  let c := if c.rest.isEmpty then c else c.takeBreak.2
  let outer := s.indent.toNat
  let given := if increment == 0 then 0 else outer + increment
  let (more, deepest, c) ← blockBreaks given (c.rest.length + 1) [] 0 c
  let indent := if given != 0 then given else max (max deepest (s.indent + 1).toNat) 1
  let (acc, first, more, c) ← blockLines folded indent (c.rest.length + 2) [] [] more false c
  let acc := if chomping == .strip then acc else first ++ acc
  let acc := if chomping == .keep then more ++ acc else acc
  return { s with cursor := c, keyAllowed := true }.push (.scalar (String.ofList acc.reverse) false)

/-! ## Other tokens -/

/-- Reads an anchor or an alias. -/
def anchorOrAlias (s : Scan) (isAlias : Bool) : Option Scan := do
  let s ← s.saveKey
  let (name, c) := s.cursor.skip.takeWhile isNameChar
  let ended := c.blankAt 0 ||
    (c.peek 0).any fun x => ['?', ':', ',', ']', '\x7d', '%', '@', Char.ofNat 96].contains x
  if name.isEmpty || !ended then none
  let text := String.ofList name
  return { s with cursor := c, keyAllowed := false }.push (if isAlias then .alias text else .anchor text)

/-- Whether a character may stand in a tag; flow indicators only between angles. -/
def isUriChar (verbatim : Bool) (x : Char) : Bool :=
  isNameChar x || [';', '/', '?', ':', '@', '&', '=', '+', '$', '.', '!', '~', '*', '\'', '(', ')'].contains x ||
    (verbatim && [',', '[', ']'].contains x)

/-- Reads the characters of a tag, with escapes as bytes of ASCII characters. -/
def tagUri (verbatim : Bool) : (fuel : Nat) → List Char → Cursor → Option (List Char × Cursor)
  | 0, _, _ => none
  | fuel + 1, acc, c =>
    match c.peek 0 with
    | some '%' =>
      match (c.rest.drop 1 |>.take 2).mapM hexDigit? with
      | some [a, b] => tagUri verbatim fuel (Char.ofNat (a * 16 + b) :: acc) (c.skipN 3)
      | _ => none
    | some x => if isUriChar verbatim x then tagUri verbatim fuel (x :: acc) c.skip else some (acc.reverse, c)
    | none => some (acc.reverse, c)

/-- Reads a tag: its handle and what follows it. -/
def tagParts? (c : Cursor) : Option (String × String × Cursor) := do
  let fuel := c.rest.length + 1
  if c.has '<' 1 then
    let (uri, c) ← tagUri true fuel [] (c.skipN 2)
    if uri.isEmpty || !c.has '>' 0 then none
    return ("", String.ofList uri, c.skip)
  let (name, after) := c.skip.takeWhile isNameChar
  if after.has '!' 0 then
    let (uri, c) ← tagUri false fuel [] after.skip
    if uri.isEmpty then none
    return ("!" ++ String.ofList name ++ "!", String.ofList uri, c)
  let (uri, c) ← tagUri false fuel name.reverse after
  if uri.isEmpty then return ("", "!", c)
  return ("!", String.ofList uri, c)

/-- Reads a tag. -/
def tagToken (s : Scan) : Option Scan := do
  let s ← s.saveKey
  let (handle, ending, c) ← tagParts? s.cursor
  if !c.blankAt 0 && !(s.flow != 0 && c.has ',' 0) then none
  return { s with cursor := c, keyAllowed := false }.push (.tag handle ending)

/-- The rest of a directive's line, which may hold a comment only. -/
def directiveEnd? (c : Cursor) : Option Cursor :=
  let c := c.skipWhile isBlankChar
  let c := if c.has '#' 0 then c.skipWhile (!isBreak ·) else c
  if !c.breakHere then none else some (if c.rest.isEmpty then c else c.takeBreak.2)

/-- Reads a directive. -/
def directive (s : Scan) : Option Scan := do
  let s ← (s.unrollIndent (-1)).removeKey
  let (name, c) := s.cursor.skip.takeWhile isNameChar
  if name.isEmpty || !c.blankAt 0 then none
  let c := c.skipWhile isBlankChar
  match String.ofList name with
  | "YAML" =>
    let (major, c) := c.takeWhile isDigitAscii
    if !c.has '.' 0 then none
    let (minor, c) := c.skip.takeWhile isDigitAscii
    if major != ['1'] || (minor != ['1'] && minor != ['2']) then none
    let c ← directiveEnd? c
    return { s with cursor := c, keyAllowed := false }.push .versionDirective
  | "TAG" =>
    if !c.has '!' 0 then none
    let (inner, c) := c.skip.takeWhile isNameChar
    let handle := if c.has '!' 0 then "!" ++ String.ofList inner ++ "!" else "!" ++ String.ofList inner
    let c := if c.has '!' 0 then c.skip else c
    if handle != "!" && !handle.toList.getLast? == some '!' then none
    if !(c.peek 0).any isBlankChar then none
    let c := c.skipWhile isBlankChar
    let (uri, c) ← tagUri true (c.rest.length + 1) [] c
    if uri.isEmpty || !c.blankAt 0 then none
    let c ← directiveEnd? c
    return { s with cursor := c, keyAllowed := false }.push (.tagDirective handle (String.ofList uri))
  | _ => none

/-- Reads a document mark. -/
def documentToken (s : Scan) (t : Token) : Option Scan := do
  let s ← (s.unrollIndent (-1)).removeKey
  return { s with cursor := s.cursor.skipN 3, keyAllowed := false }.push t

/-- Opens a flow collection. -/
def flowStart (s : Scan) (t : Token) : Option Scan := do
  let s ← s.saveKey
  return { s with keys := none :: s.keys, flow := s.flow + 1, cursor := s.cursor.skip, keyAllowed := true }.push t

/-- Closes a flow collection. -/
def flowEnd (s : Scan) (t : Token) : Option Scan := do
  let s ← s.removeKey
  let keys := if s.flow == 0 then s.keys else s.keys.tail
  return { s with keys, flow := s.flow - 1, cursor := s.cursor.skip, keyAllowed := false }.push t

/-- Separates the entries of a flow collection. -/
def flowEntryToken (s : Scan) : Option Scan := do
  let s ← s.removeKey
  return { s with cursor := s.cursor.skip, keyAllowed := true }.push .flowEntry

/-- Begins an entry of a block sequence or a marked key, which opens its collection if need be. -/
def blockMark (s : Scan) (opening t : Token) (allowedAfter : Bool) : Option Scan := do
  if s.flow == 0 && !s.keyAllowed then none
  let s ← (s.rollIndent s.cursor.column none opening).removeKey
  return { s with cursor := s.cursor.skip, keyAllowed := allowedAfter }.push t

/-- Begins a value: after a key without a mark, which is now known to be one, or after a marked key. -/
def valueToken (s : Scan) : Option Scan := do
  match s.keys with
  | some k :: rest =>
    let s := (s.insertAt k.token .key).rollIndent k.column (some k.token) .blockMappingStart
    return { s with keys := none :: rest, keyAllowed := false, cursor := s.cursor.skip }.push .value
  | _ =>
    if s.flow == 0 && !s.keyAllowed then none
    let s := s.rollIndent s.cursor.column none .blockMappingStart
    return { s with keyAllowed := s.flow == 0, cursor := s.cursor.skip }.push .value

/-- Ends the stream. -/
def streamEnd (s : Scan) : Option Scan := do
  let s ← (s.unrollIndent (-1)).removeKey
  return s.push .streamEnd

/-- Whether a plain scalar may begin here. -/
def startsPlain (s : Scan) (x : Char) : Bool :=
  let c := s.cursor
  let indicators : List Char := ['-', '?', ':', ',', '[', ']', '\x7b', '\x7d', '#', '&', '*', '!', '|', '>', '\'', '"',
    '%', '@', Char.ofNat 96]
  (!c.blankAt 0 && !indicators.contains x) ||
    (x == '-' && !(c.peek 1).any isBlankChar) ||
    (s.flow == 0 && (x == '?' || x == ':') && !c.blankAt 1)

/-- Reads the token at the cursor, which stands on its first character. -/
def token (s : Scan) (x : Char) : Option Scan :=
  let c := s.cursor
  if c.column == 0 && x == '%' then s.directive
  else if c.marker '-' then s.documentToken .documentStart
  else if c.marker '.' then s.documentToken .documentEnd
  else if x == '[' then s.flowStart .flowSequenceStart
  else if x == '\x7b' then s.flowStart .flowMappingStart
  else if x == ']' then s.flowEnd .flowSequenceEnd
  else if x == '\x7d' then s.flowEnd .flowMappingEnd
  else if x == ',' then s.flowEntryToken
  else if x == '-' && c.blankAt 1 then s.blockMark .blockSequenceStart .blockEntry true
  else if x == '?' && (s.flow != 0 || c.blankAt 1) then s.blockMark .blockMappingStart .key (s.flow == 0)
  else if x == ':' && (s.flow != 0 || c.blankAt 1) then s.valueToken
  else if x == '*' then s.anchorOrAlias true
  else if x == '&' then s.anchorOrAlias false
  else if x == '!' then s.tagToken
  else if x == '|' && s.flow == 0 then s.blockScalar false
  else if x == '>' && s.flow == 0 then s.blockScalar true
  else if x == '\'' then s.quotedScalar true
  else if x == '"' then s.quotedScalar false
  else if s.startsPlain x then s.plainScalar
  else none

/-- Reads tokens to the end of the text. -/
def run : (fuel : Nat) → Scan → Option Scan
  | 0, _ => none
  | fuel + 1, s => do
    let s ← (toNextToken (s.cursor.rest.length + 1) s).dropStale
    match s.cursor.peek 0 with
    | none => s.streamEnd
    | some x =>
      let s ← (s.unrollIndent s.cursor.column).token x
      run fuel s

end Scan

/-- The tokens of a text. -/
def tokens? (text : String) : Option (List Token) :=
  let cs := text.toList
  if cs.all isAllowed then (Scan.run (cs.length + 2) { cursor := { rest := cs } }).map (·.tokens.toList) else none

end ApiForge.Yaml
