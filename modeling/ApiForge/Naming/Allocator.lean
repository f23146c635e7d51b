/-!
# Unique names

An allocator remembers the names in use. A name that is in use is given out with the least number from 2 on that makes
it new. The number is found by counting, and a counter has 32 bits: a call whose counter overflows gives out nothing.

* `Allocator.allocate?` gives out a name, unless the counter overflows.
* `Allocator.allocate` is `allocate?` for those who have no failure to report: beyond the reach of the counter it goes on
  through candidates, of which there is one more than names in use.
-/

namespace ApiForge.Naming

/-- The names in use. -/
structure Allocator where
  taken : List String := []

namespace Allocator

/-- Whether a name is in use. -/
def isTaken (a : Allocator) (name : String) : Bool := a.taken.contains name

/-- Marks a name as in use, and says whether it was new. -/
def reserve (a : Allocator) (name : String) : Bool × Allocator :=
  if a.isTaken name then (false, a) else (true, ⟨name :: a.taken⟩)

/-- The greatest number of a counter, which has 32 bits and a sign. -/
def lastNumber : Nat := 2147483647

/-- The first of the names with a number from `counter` on that is not in use. The counter can be raised `left` times,
and nothing is found where it would have to be raised once more. -/
def search (a : Allocator) (name : String) (counter : Nat) : (left : Nat) → Option String
  | 0 => if a.isTaken (name ++ toString counter) then none else some (name ++ toString counter)
  | left + 1 =>
    if a.isTaken (name ++ toString counter) then search a name (counter + 1) left else some (name ++ toString counter)

/-- The name that is given out, unless the counter overflows. -/
def fresh? (a : Allocator) (name : String) : Option String :=
  if a.isTaken name then a.search name 2 (lastNumber - 2) else some name

/-- Gives out a new name, unless the counter overflows. -/
def allocate? (a : Allocator) (name : String) : Option (String × Allocator) :=
  (a.fresh? name).map fun n => (n, ⟨n :: a.taken⟩)

/-- The candidates for a name that is in use. -/
def candidates (a : Allocator) (name : String) : List String :=
  (List.range (a.taken.length + 1)).map fun i => name ++ toString (i + 2)

/-- The name that is given out; beyond the reach of the counter, the first candidate that is new. -/
def fresh (a : Allocator) (name : String) : String :=
  (a.fresh? name).getD (((a.candidates name).find? (!a.isTaken ·)).getD name)

/-- Gives out a new name. -/
def allocate (a : Allocator) (name : String) : String × Allocator :=
  let n := a.fresh name
  (n, ⟨n :: a.taken⟩)

end Allocator

end ApiForge.Naming
