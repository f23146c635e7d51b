import ApiForge.Text.Ascii
import ApiForge.Text.Basic
import ApiForge.Toml.Basic

/-!
# Reading TOML

* `Toml.parse?` reads the tables of a text. Headers of lists of tables are refused, as settings have none.
-/

namespace ApiForge.Toml

open Text

/-- A character that may stand in a text or a comment. -/
def isTextChar (c : Char) : Bool := c == '\t' || (0x20 ≤ c.toNat && c.toNat != 0x7F)

/-- A blank or a tab. -/
def isSpace (c : Char) : Bool := c == ' ' || c == '\t'

/-- Drops blanks. -/
def skipSpace (cs : List Char) : List Char := cs.dropWhile isSpace

/-- What follows a line break. -/
def afterBreak? : List Char → Option (List Char)
  | '\n' :: cs => some cs
  | '\r' :: '\n' :: cs => some cs
  | _ => none

/-- Drops a comment. -/
def skipComment : List Char → List Char
  | '#' :: cs => cs.dropWhile isTextChar
  | cs => cs

/-- Drops blanks, comments and line breaks. -/
def skipLines : (fuel : Nat) → List Char → List Char
  | 0, cs => cs
  | fuel + 1, cs =>
    let rest := skipComment (skipSpace cs)
    match afterBreak? rest with
    | some more => skipLines fuel more
    | none => rest

/-! ## Texts -/

/-- A character by the digits of its code point. -/
def coded? (count : Nat) (cs : List Char) : Option (Char × List Char) := do
  let digits := cs.take count
  if digits.length != count then none
  let point ← digits.foldlM (fun n c => (hexDigit? c).map (n * 16 + ·)) 0
  if point < 0xD800 || (0xDFFF < point && point ≤ 0x10FFFF) then return (Char.ofNat point, cs.drop count) else none

/-- The character that stands behind a backslash. -/
def escaped? : List Char → Option (Char × List Char)
  | 'b' :: cs => some (Char.ofNat 8, cs)
  | 't' :: cs => some ('\t', cs)
  | 'n' :: cs => some ('\n', cs)
  | 'f' :: cs => some (Char.ofNat 12, cs)
  | 'r' :: cs => some ('\r', cs)
  | 'e' :: cs => some (Char.ofNat 27, cs)
  | '"' :: cs => some ('"', cs)
  | '\\' :: cs => some ('\\', cs)
  | 'x' :: cs => coded? 2 cs
  | 'u' :: cs => coded? 4 cs
  | 'U' :: cs => coded? 8 cs
  | _ => none

/-- How a text is written. -/
structure Style where
  mark : Char
  /-- Whether a backslash begins a code. -/
  escapes : Bool
  /-- Whether the text may go over several lines and ends with three marks. -/
  multiline : Bool

/-- Drops blanks and line breaks behind a backslash at the end of a line. -/
def skipContinuation (cs : List Char) : Option (List Char) :=
  (afterBreak? (skipSpace cs)).map fun rest => rest.dropWhile fun c => isSpace c || c == '\n' || c == '\r'

/-- Reads a text up to its end. -/
def textBody (style : Style) : (fuel : Nat) → List Char → Option (List Char × List Char)
  | 0, _ => none
  | _ + 1, [] => none
  | fuel + 1, c :: cs =>
    if c == style.mark then
      if style.multiline then
        let marks := (c :: cs).takeWhile (· == style.mark)
        if marks.length < 3 then do
          let (tail, rest) ← textBody style fuel cs
          return (c :: tail, rest)
        else
          let kept := min (marks.length - 3) 2
          some (marks.take kept, (c :: cs).drop (kept + 3))
      else some ([], cs)
    else if c == '\\' && style.escapes then
      match if style.multiline then skipContinuation cs else none with
      | some rest => textBody style fuel rest
      | none => do
        let (x, rest) ← escaped? cs
        let (tail, rest) ← textBody style fuel rest
        return (x :: tail, rest)
    else match if style.multiline then afterBreak? (c :: cs) else none with
      | some rest => do
        let (tail, rest) ← textBody style fuel rest
        return ('\n' :: tail, rest)
      | none =>
        if isTextChar c then do
          let (tail, rest) ← textBody style fuel cs
          return (c :: tail, rest)
        else none

/-- Reads a text with its marks; only some may go over several lines. -/
def text? (multiline : Bool) (cs : List Char) : Option (String × List Char) :=
  match cs with
  | c :: rest =>
    if c == '"' || c == '\'' then do
      let long := multiline && (afterLead? [c, c] rest).isSome
      let body := if long then let body := rest.drop 2; (afterBreak? body).getD body else rest
      let (tail, rest) ← textBody ⟨c, c == '"', long⟩ (body.length + 1) body
      return (String.ofList tail, rest)
    else none
  | [] => none

/-! ## Keys and values -/

/-- A character of a key without marks. -/
def isKeyChar (c : Char) : Bool := isAlnumAscii c || c == '_' || c == '-'

/-- Reads one part of a key. -/
def keyPart? (cs : List Char) : Option (String × List Char) :=
  match cs with
  | '"' :: _ | '\'' :: _ => text? false cs
  | _ =>
    let name := cs.takeWhile isKeyChar
    if name.isEmpty then none else some (String.ofList name, cs.drop name.length)

/-- Reads a key, whose parts are divided by points. -/
def key? : (fuel : Nat) → List Char → Option (List String × List Char)
  | 0, _ => none
  | fuel + 1, cs => do
    let (part, rest) ← keyPart? (skipSpace cs)
    match skipSpace rest with
    | '.' :: more =>
      let (parts, rest) ← key? fuel more
      return (part :: parts, rest)
    | rest => return ([part], rest)

/-- What follows an equals sign. -/
def afterEquals? : List Char → Option (List Char)
  | '=' :: cs => some (skipSpace cs)
  | _ => none

mutual

/-- Reads a value. -/
def value? : (fuel : Nat) → List Char → Option (Toml × List Char)
  | 0, _ => none
  | fuel + 1, cs =>
    match cs with
    | '"' :: _ | '\'' :: _ => (text? true cs).map fun (t, rest) => (.text t, rest)
    | '[' :: rest => (items? fuel rest).map fun (xs, rest) => (.list xs, rest)
    | '\x7b' :: rest => (entries? fuel [] rest).map fun (es, rest) => (.table .inline es, rest)
    | _ => none

/-- Reads the items of a list, and its end. -/
def items? : (fuel : Nat) → List Char → Option (List Toml × List Char)
  | 0, _ => none
  | fuel + 1, cs =>
    match skipLines (cs.length + 1) cs with
    | ']' :: rest => some ([], rest)
    | start => do
      let (x, rest) ← value? fuel start
      match skipLines (rest.length + 1) rest with
      | ',' :: rest =>
        let (xs, rest) ← items? fuel rest
        return (x :: xs, rest)
      | ']' :: rest => return ([x], rest)
      | _ => none

/-- Reads the entries of a table in braces, and its end. -/
def entries? : (fuel : Nat) → Entries → List Char → Option (Entries × List Char)
  | 0, _, _ => none
  | fuel + 1, es, cs =>
    match skipLines (cs.length + 1) cs with
    | '\x7d' :: rest => some (es, rest)
    | start => do
      let (key, rest) ← key? (start.length + 1) start
      let (v, rest) ← value? fuel (← afterEquals? rest)
      let es ← insertDotted key v es
      match skipLines (rest.length + 1) rest with
      | ',' :: rest => entries? fuel es rest
      | '\x7d' :: rest => return (es, rest)
      | _ => none

end

/-! ## Lines -/

/-- What follows the end of a line, which may have a comment. -/
def endOfLine? (cs : List Char) : Option (List Char) :=
  match skipComment (skipSpace cs) with
  | [] => some []
  | rest => afterBreak? rest

/-- Reads the lines of a text, where `path` leads to the table of the last header. -/
def lines? : (fuel : Nat) → (path : List String) → Entries → List Char → Option Entries
  | 0, _, _, _ => none
  | fuel + 1, path, es, cs =>
    match skipLines (cs.length + 1) cs with
    | [] => some es
    | '[' :: '[' :: _ => none
    | '[' :: rest => do
      let (key, rest) ← key? (rest.length + 1) rest
      let (es, rest) ← match rest with
        | ']' :: rest => (openTable key es).map (·, rest)
        | _ => none
      lines? fuel key es (← endOfLine? rest)
    | start => do
      let (key, rest) ← key? (start.length + 1) start
      let (v, rest) ← value? (rest.length + 1) (← afterEquals? rest)
      let es ← updateAt (insertDotted key v) path es
      lines? fuel path es (← endOfLine? rest)

/-- The entries of a text, which may begin with a byte order mark. -/
def parse? (text : String) : Option Entries :=
  let cs := match text.toList with
    | c :: cs => if c.toNat == 0xFEFF then cs else c :: cs
    | [] => []
  lines? (cs.length + 1) [] [] cs

end ApiForge.Toml
