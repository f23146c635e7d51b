/-!
# Runs of code points

A property of characters is kept as runs: the first code point of each run with the value that holds up to the next
run. The tables are written as text, `key` by `key`, each with the length of its run in base 36; a length of one is
left out.

* `Runs.decode` reads such a text.
* `Runs.at?` finds the value of a code point by bisection.
-/

namespace ApiForge.Text

/-- The digit of a character in base 36. -/
def digit36? (c : Char) : Option Nat :=
  if '0' ≤ c && c ≤ '9' then some (c.toNat - 48)
  else if 'a' ≤ c && c ≤ 'z' then some (c.toNat - 87)
  else none

/-- The number of a text in base 36. -/
def value36 (cs : List Char) : Nat :=
  cs.foldl (fun n c => n * 36 + (digit36? c).getD 0) 0

/-- Consecutive runs of code points, by their first code points. -/
structure Runs (α : Type) where
  starts : Array (Nat × α)

namespace Runs

variable {α : Type}

/-- Closes the run that begins at `start` under `key` and has the length written by `size`. -/
def close (read : List Char → Option α) (acc : Array (Nat × α)) (start : Nat) (key size : List Char) :
    Array (Nat × α) × Nat :=
  match read key with
  | none => (acc, start)
  | some a => (acc.push (start, a), start + (if size.isEmpty then 1 else value36 size))

/-- Reads runs whose keys have `width` characters, none of them a digit in base 36. -/
def decode (width : Nat) (read : List Char → Option α) (table : String) : Runs α :=
  let step := fun (st : Array (Nat × α) × Nat × List Char × List Char) (c : Char) =>
    let (acc, start, key, size) := st
    if (digit36? c).isSome then (acc, start, key, size ++ [c])
    else if key.length < width then (acc, start, key ++ [c], size)
    else
      let (acc, start) := close read acc start key size
      (acc, start, [c], [])
  let (acc, start, key, size) := table.toList.foldl step (#[], 0, [], [])
  ⟨(close read acc start key size).1⟩

/-- The last index from `lo` below `hi` whose run begins at or before `n`. -/
def bisect (starts : Array (Nat × α)) (n : Nat) : (fuel lo hi : Nat) → Nat
  | 0, lo, _ => lo
  | fuel + 1, lo, hi =>
    if hi ≤ lo + 1 then lo
    else
      let mid := (lo + hi) / 2
      match starts[mid]? with
      | some (s, _) => if s ≤ n then bisect starts n fuel mid hi else bisect starts n fuel lo mid
      | none => lo

/-- The value of a code point. -/
def at? (r : Runs α) (n : Nat) : Option α :=
  (r.starts[bisect r.starts n 24 0 r.starts.size]?).map (·.2)

end Runs

end ApiForge.Text
