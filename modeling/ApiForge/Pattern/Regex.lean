import ApiForge.Pattern.CharSet

/-!
# Regular expressions

Only the question whether a text contains a match is asked, so an expression is run as the set of expressions that are
left after each character.

* `Regex.acceptsEmpty` says whether an expression matches nothing at a place of a text.
* `Regex.step` gives the expressions left after a character.
* `Regex.occursIn` searches a text from every position.

An expression stands for the texts it matches and for nothing of how an engine stores it: there is no bound on the
states of a search, and which of several matches is found is not asked.
-/

namespace ApiForge.Pattern

/-- A place in a text: the characters before and after it. -/
structure Cursor where
  before : Option Char
  after : Option Char

/-- A condition on a place. -/
inductive Assertion where
  | textStart
  | textEnd
  | lineStart
  | lineEnd
  /-- Line ends are `\r`, `\n` and `\r\n`. -/
  | anyLineStart
  | anyLineEnd
  /-- Conditions on word characters before and after; the flag restricts words to ASCII. -/
  | wordEdge (ascii : Bool)
  | noWordEdge (ascii : Bool)
  | wordStart (ascii : Bool)
  | wordEnd (ascii : Bool)
  | noWordBefore (ascii : Bool)
  | noWordAfter (ascii : Bool)
  deriving DecidableEq

/-- Whether a neighbouring character belongs to a word. -/
def isWordAt (ascii : Bool) : Option Char → Bool
  | none => false
  | some c => if ascii then CharSet.wordAscii.has c else isWordChar c

/-- Whether a condition holds at a place. -/
def Assertion.holds (at_ : Cursor) : Assertion → Bool
  | textStart => at_.before.isNone
  | textEnd => at_.after.isNone
  | lineStart => at_.before.isNone || at_.before == some '\n'
  | lineEnd => at_.after.isNone || at_.after == some '\n'
  | anyLineStart =>
    at_.before.isNone || at_.before == some '\n' || (at_.before == some '\r' && at_.after != some '\n')
  | anyLineEnd => at_.after.isNone || at_.after == some '\r' || (at_.after == some '\n' && at_.before != some '\r')
  | wordEdge ascii => isWordAt ascii at_.before != isWordAt ascii at_.after
  | noWordEdge ascii => isWordAt ascii at_.before == isWordAt ascii at_.after
  | wordStart ascii => !isWordAt ascii at_.before && isWordAt ascii at_.after
  | wordEnd ascii => isWordAt ascii at_.before && !isWordAt ascii at_.after
  | noWordBefore ascii => !isWordAt ascii at_.before
  | noWordAfter ascii => !isWordAt ascii at_.after

/-- A regular expression. -/
inductive Regex where
  | empty
  | chars (set : CharSet)
  | assert (condition : Assertion)
  | seq (first second : Regex)
  | alt (left right : Regex)
  | star (body : Regex)
  deriving DecidableEq

namespace Regex

/-- One expression after another; the empty expression is dropped. -/
def andThen : Regex → Regex → Regex
  | empty, s => s
  | r, empty => r
  | r, s => seq r s

/-- Expressions one after another. -/
def sequence (rs : List Regex) : Regex := rs.foldr andThen empty

/-- One of several expressions. -/
def choice : List Regex → Regex
  | [] => empty
  | [r] => r
  | r :: rs => alt r (choice rs)

/-- At most `n` times. -/
def upTo (r : Regex) : Nat → Regex
  | 0 => empty
  | n + 1 => alt empty (andThen r (upTo r n))

/-- Exactly `n` times and then `rest`. -/
def times (r : Regex) (rest : Regex) : Nat → Regex
  | 0 => rest
  | n + 1 => andThen r (times r rest n)

/-- At least `low` times and, with a bound, at most `high` times. -/
def repeated (r : Regex) (low : Nat) : (high : Option Nat) → Regex
  | none => times r (star r) low
  | some high => times r (upTo r (high - low)) low

/-- Whether the expression matches nothing at a place. -/
def acceptsEmpty (at_ : Cursor) : Regex → Bool
  | empty => true
  | chars _ => false
  | assert condition => condition.holds at_
  | seq r s => r.acceptsEmpty at_ && s.acceptsEmpty at_
  | alt r s => r.acceptsEmpty at_ || s.acceptsEmpty at_
  | star _ => true

/-- The expressions left after matching the character after a place. -/
def step (at_ : Cursor) (c : Char) : Regex → List Regex
  | empty => []
  | chars set => if set.has c then [empty] else []
  | assert _ => []
  | seq r s => (r.step at_ c).map (·.andThen s) ++ (if r.acceptsEmpty at_ then s.step at_ c else [])
  | alt r s => r.step at_ c ++ s.step at_ c
  | star r => (r.step at_ c).map (·.andThen (star r))

/-- Whether one of the expressions `left`, or `r` from some position on, matches within the rest of a text. -/
def search (r : Regex) (before : Option Char) (left : List Regex) : List Char → Bool
  | [] => (r :: left).any (acceptsEmpty ⟨before, none⟩)
  | c :: cs =>
    let here : Cursor := ⟨before, some c⟩
    let states := (r :: left).eraseDups
    states.any (acceptsEmpty here) || search r (some c) (states.flatMap (step here c)) cs

/-- Whether a text contains a match. -/
def occursIn (r : Regex) (text : String) : Bool := search r none [] text.toList

end Regex

end ApiForge.Pattern
