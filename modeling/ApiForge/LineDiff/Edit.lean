import ApiForge.LineDiff.Line

/-!
# Edit scripts

An edit script describes how one list of lines becomes another: runs that stay, runs that go and runs that come, in
order. The script is found by splitting both sides at the middle of a shortest edit path, again and again.

* `Script.raw` is the script as found.
* `Script.tidy` slides insertions and brings edits of one kind together.
* `Script.grouped` joins a deletion and an insertion at one place to a replacement.
-/

namespace ApiForge.LineDiff

/-- What an edit does. -/
inductive Kind where
  | equal
  | delete
  | insert
  | replace
  deriving DecidableEq

/-- A run of lines on both sides; a deletion has no new lines and an insertion no old ones. -/
structure Edit where
  kind : Kind
  old : Nat
  oldLen : Nat
  new : Nat
  newLen : Nat
  deriving DecidableEq

namespace Edit

/-- Lines that stay. -/
def equal (old new len : Nat) : Edit := ⟨.equal, old, len, new, len⟩

/-- Lines that go. -/
def delete (old len new : Nat) : Edit := ⟨.delete, old, len, new, 0⟩

/-- Lines that come. -/
def insert (old new len : Nat) : Edit := ⟨.insert, old, 0, new, len⟩

/-- The end of the run on the old side. -/
def oldEnd (e : Edit) : Nat := e.old + e.oldLen

/-- The end of the run on the new side. -/
def newEnd (e : Edit) : Nat := e.new + e.newLen

/-- The run moved towards the start. -/
def moveUp (e : Edit) (n : Nat) : Edit := { e with old := e.old - n, new := e.new - n }

/-- The run moved towards the end. -/
def moveDown (e : Edit) (n : Nat) : Edit := { e with old := e.old + n, new := e.new + n }

/-- Whether the run holds no line. -/
def isEmpty (e : Edit) : Bool := e.oldLen == 0 && e.newLen == 0

/-- Two runs of one kind as one, beginning where the first begins. -/
def join (a b : Edit) : Edit := { a with oldLen := a.oldLen + b.oldLen, newLen := a.newLen + b.newLen }

end Edit

/-! ## Common runs -/

/-- The number of equal lines from two positions on, at most `limit`. -/
def commonFront (old new : Array String) : (limit : Nat) → (i j : Nat) → Nat
  | 0, _, _ => 0
  | limit + 1, i, j =>
    match old[i]?, new[j]? with
    | some a, some b => if a == b then commonFront old new limit (i + 1) (j + 1) + 1 else 0
    | _, _ => 0

/-- The number of equal lines before two positions, at most `limit`. -/
def commonBack (old new : Array String) : (limit : Nat) → (i j : Nat) → Nat
  | limit + 1, i + 1, j + 1 =>
    match old[i]?, new[j]? with
    | some a, some b => if a == b then commonBack old new limit i j + 1 else 0
    | _, _ => 0
  | _, _, _ => 0

/-! ## The middle of an edit path -/

/-- A part of both sides. -/
structure Window where
  old : Nat
  oldLen : Nat
  new : Nat
  newLen : Nat

/-- The furthest positions on the diagonals, stored from the diagonal `-offset` on. -/
structure Frontier where
  offset : Nat
  cells : Array Nat

namespace Frontier

/-- The frontier of a search that reaches diagonals up to `offset` away. -/
def empty (offset : Nat) : Frontier := ⟨offset, Array.replicate (2 * offset + 1) 0⟩

/-- The furthest position on a diagonal. -/
def get (f : Frontier) (k : Int) : Nat := (f.cells[(k + f.offset).toNat]?).getD 0

/-- Records the furthest position on a diagonal. -/
def set (f : Frontier) (k : Int) (x : Nat) : Frontier :=
  { f with cells := f.cells.setIfInBounds (k + f.offset).toNat x }

/-- Where a path with `d` edits enters the diagonal `k`. -/
def entry (f : Frontier) (d k : Int) : Nat :=
  if k == -d || (k != d && f.get (k - 1) < f.get (k + 1)) then f.get (k + 1) else f.get (k - 1) + 1

end Frontier

/-- The diagonals `d, d - 2, …, -d`. -/
def diagonals (d : Nat) : List Int := (List.range (d + 1)).map fun (i : Nat) => (d : Int) - 2 * (i : Int)

/-- Advances the search from the start along the diagonals; a meeting with the search from the end is the split. -/
def forward (old new : Array String) (w : Window) (d : Nat) (back : Frontier) :
    List Int → Frontier → Except (Nat × Nat) Frontier
  | [], f => .ok f
  | k :: ks, f =>
    let delta : Int := (w.oldLen : Int) - w.newLen
    let x := f.entry d k
    let y := ((x : Int) - k).toNat
    let far := if x < w.oldLen && y < w.newLen then
        x + commonFront old new (min (w.oldLen - x) (w.newLen - y)) (w.old + x) (w.new + y)
      else x
    let f := f.set k far
    if delta % 2 != 0 && (k - delta).natAbs + 1 ≤ d && w.oldLen ≤ far + back.get (-(k - delta)) then
      .error (w.old + x, w.new + y)
    else forward old new w d back ks f

/-- Advances the search from the end along the diagonals. -/
def backward (old new : Array String) (w : Window) (d : Nat) (front : Frontier) :
    List Int → Frontier → Except (Nat × Nat) Frontier
  | [], f => .ok f
  | k :: ks, f =>
    let delta : Int := (w.oldLen : Int) - w.newLen
    let x := f.entry d k
    let y := ((x : Int) - k).toNat
    let run := if x < w.oldLen && y < w.newLen then
        commonBack old new (min (w.oldLen - x) (w.newLen - y)) (w.old + w.oldLen - x) (w.new + w.newLen - y)
      else 0
    let f := f.set k (x + run)
    if delta % 2 == 0 && (k - delta).natAbs ≤ d && w.oldLen ≤ x + run + front.get (-(k - delta)) then
      .error (w.old + w.oldLen - (x + run), w.new + w.newLen - (y + run))
    else backward old new w d front ks f

/-- Searches from both ends with one edit more per round until the searches meet. -/
def meet? (old new : Array String) (w : Window) :
    (rounds d : Nat) → Frontier → Frontier → Option (Nat × Nat)
  | 0, _, _, _ => none
  | rounds + 1, d, f, b =>
    match forward old new w d b (diagonals d) f with
    | .error split => some split
    | .ok f => match backward old new w d f (diagonals d) b with
      | .error split => some split
      | .ok b => meet? old new w rounds (d + 1) f b

/-- Where to split a window whose sides differ at both ends. -/
def split? (old new : Array String) (w : Window) : Option (Nat × Nat) :=
  let rounds := (w.oldLen + w.newLen + 1) / 2 + 1
  meet? old new w rounds 0 (.empty (rounds + 1)) (.empty (rounds + 1))

/-! ## Scripts -/

/-- The script of a window: common runs at both ends, and the two halves between them. -/
def scriptOf (old new : Array String) : (fuel : Nat) → Window → List Edit
  | 0, w => [.delete w.old w.oldLen w.new, .insert w.old w.new w.newLen]
  | fuel + 1, w =>
    let front := commonFront old new (min w.oldLen w.newLen) w.old w.new
    let w' : Window := ⟨w.old + front, w.oldLen - front, w.new + front, w.newLen - front⟩
    let back := commonBack old new (min w'.oldLen w'.newLen) (w'.old + w'.oldLen) (w'.new + w'.newLen)
    let v : Window := ⟨w'.old, w'.oldLen - back, w'.new, w'.newLen - back⟩
    let middle :=
      if v.oldLen == 0 && v.newLen == 0 then []
      else if v.newLen == 0 then [.delete v.old v.oldLen v.new]
      else if v.oldLen == 0 then [.insert v.old v.new v.newLen]
      else match split? old new v with
        | some (i, j) =>
          scriptOf old new fuel ⟨v.old, i - v.old, v.new, j - v.new⟩ ++
            scriptOf old new fuel ⟨i, v.old + v.oldLen - i, j, v.new + v.newLen - j⟩
        | none => [.delete v.old v.oldLen v.new, .insert v.old v.new v.newLen]
    (if front == 0 then [] else [.equal w.old w.new front]) ++ middle ++
      (if back == 0 then [] else [.equal (v.old + v.oldLen) (v.new + v.newLen) back])

/-- The script that turns `old` into `new`. -/
def Script.raw (old new : Array String) : List Edit :=
  scriptOf old new (old.size + new.size + 1) ⟨0, old.size, 0, new.size⟩

/-! ## Sliding edits -/

/-- An edit between the edits above it (nearest first) and below it. -/
structure Place where
  above : List Edit
  edit : Edit
  below : List Edit

/-- Moves an edit up: an insertion slides over equal lines, edits of one kind join, other neighbours swap. -/
def slideUp (old new : Array String) : (fuel : Nat) → Place → Place
  | 0, p => p
  | fuel + 1, p =>
    match p.above with
    | [] => p
    | prev :: rest =>
      if prev.kind == .equal then
        let run := commonBack old new (min prev.oldLen p.edit.newLen) prev.oldEnd p.edit.newEnd
        if 0 < run then
          let below := match p.below with
            | next :: more =>
              if next.kind == .equal then
                ⟨.equal, next.old - run, next.oldLen + run, next.new - run, next.newLen + run⟩ :: more
              else .equal (prev.oldEnd - run) (p.edit.newEnd - run) run :: next :: more
            | [] => [.equal (prev.oldEnd - run) (p.edit.newEnd - run) run]
          let prev := { prev with oldLen := prev.oldLen - run, newLen := prev.newLen - run }
          slideUp old new fuel ⟨if prev.isEmpty then rest else prev :: rest, p.edit.moveUp run, below⟩
        else if prev.isEmpty then slideUp old new fuel ⟨rest, p.edit, p.below⟩
        else p
      else if prev.kind == p.edit.kind then slideUp old new fuel ⟨rest, prev.join p.edit, p.below⟩
      else slideUp old new fuel ⟨rest, p.edit, prev :: p.below⟩

/-- Moves an edit down, by the same rules. -/
def slideDown (old new : Array String) : (fuel : Nat) → Place → Place
  | 0, p => p
  | fuel + 1, p =>
    match p.below with
    | [] => p
    | next :: rest =>
      if next.kind == .equal then
        let run := commonFront old new (min next.oldLen p.edit.newLen) next.old p.edit.new
        if 0 < run then
          let above := match p.above with
            | prev :: more =>
              if prev.kind == .equal then
                { prev with oldLen := prev.oldLen + run, newLen := prev.newLen + run } :: more
              else .equal next.old p.edit.new run :: prev :: more
            | [] => [.equal next.old p.edit.new run]
          let next : Edit := ⟨.equal, next.old + run, next.oldLen - run, next.new + run, next.newLen - run⟩
          slideDown old new fuel ⟨above, p.edit.moveDown run, if next.isEmpty then rest else next :: rest⟩
        else if next.isEmpty then slideDown old new fuel ⟨p.above, p.edit, rest⟩
        else p
      else if next.kind == p.edit.kind then slideDown old new fuel ⟨p.above, p.edit.join next, rest⟩
      else slideDown old new fuel ⟨next :: p.above, p.edit, rest⟩

/-- Slides every edit of one kind, from the first to the last. -/
def slideKind (old new : Array String) (kind : Kind) (steps : Nat) :
    (fuel : Nat) → List Edit → List Edit → List Edit
  | 0, above, below => above.reverse ++ below
  | _ + 1, above, [] => above.reverse
  | fuel + 1, above, e :: below =>
    if e.kind == kind then
      let p := slideDown old new steps (slideUp old new steps ⟨above, e, below⟩)
      slideKind old new kind steps fuel (p.edit :: p.above) p.below
    else slideKind old new kind steps fuel (e :: above) below

/-- The script after sliding the deletions and then the insertions. -/
def Script.tidy (old new : Array String) (script : List Edit) : List Edit :=
  let steps := 2 * (old.size + new.size + script.length + 1)
  let fuel := steps * (script.length + 1)
  slideKind old new .insert steps fuel [] (slideKind old new .delete steps fuel [] script)

/-! ## Replacements -/

/-- A deletion and an insertion at one place. -/
def changed : Option Edit → Option Edit → List Edit
  | some d, some i => [⟨.replace, d.old, d.oldLen, i.new, i.newLen⟩]
  | some d, none => [d]
  | none, some i => [i]
  | none, none => []

/-- Adds an edit to one met before at the same place. -/
def extend (before : Option Edit) (e : Edit) : Option Edit :=
  match before with
  | some b => some (b.join e)
  | none => some e

/-- Joins equal runs, and deletions with the insertions next to them. -/
def regroup : (eq del ins : Option Edit) → List Edit → List Edit
  | eq, del, ins, [] => eq.toList ++ changed del ins
  | eq, del, ins, e :: es =>
    match e.kind with
    | .equal => changed del ins ++ regroup (extend eq e) none none es
    | .delete => eq.toList ++ regroup none (extend del e) ins es
    | .insert => eq.toList ++ regroup none del (extend ins e) es
    | .replace => eq.toList ++ changed del ins ++ e :: regroup none none none es

/-- The script with replacements. -/
def Script.grouped (old new : Array String) : List Edit :=
  regroup none none none (Script.tidy old new (Script.raw old new))

end ApiForge.LineDiff
