import ApiForge.Text.Basic
import ApiForge.Yaml.Node
import ApiForge.Yaml.Scalar

/-!
# YAML documents as JSON values

Aliases are replaced by what they stand for. Nesting and the number of aliases followed are limited, so a short text
cannot stand for an endless value.

* `parse?` reads a document.
-/

namespace ApiForge.Yaml

mutual

/-- The nodes that carry an anchor, in the order of the text, each in front of what it holds. -/
def Node.anchored : Node → List (Nat × Node)
  | .scalar p t plain => named p (.scalar p t plain)
  | .sequence p items => named p (.sequence p items) ++ anchoredItems items
  | .mapping p entries => named p (.mapping p entries) ++ anchoredEntries entries
  | .alias _ => []
where
  /-- The node under its number, if it has one. -/
  named (p : Property) (n : Node) : List (Nat × Node) := p.anchor.toList.map fun a => (a, n)

/-- The anchored nodes of a list of nodes. -/
def anchoredItems : List Node → List (Nat × Node)
  | [] => []
  | n :: ns => n.anchored ++ anchoredItems ns

/-- The anchored nodes of a list of entries. -/
def anchoredEntries : List (Node × Node) → List (Nat × Node)
  | [] => []
  | (k, v) :: es => k.anchored ++ v.anchored ++ anchoredEntries es

end

mutual

/-- How many marks a node takes: one for a scalar or an alias, and a beginning and an end for a collection. -/
def Node.weight : Node → Nat
  | .scalar _ _ _ | .alias _ => 1
  | .sequence _ items => itemsWeight items + 2
  | .mapping _ entries => entriesWeight entries + 2

/-- The weight of a list of nodes. -/
def itemsWeight : List Node → Nat
  | [] => 0
  | n :: ns => n.weight + itemsWeight ns

/-- The weight of a list of entries. -/
def entriesWeight : List (Node × Node) → Nat
  | [] => 0
  | (k, v) :: es => k.weight + v.weight + entriesWeight es

end

/-- The node that an alias stands for, and how many more aliases may be followed. Of several nodes with one number the
last one counts. -/
def follow (anchored : List (Nat × Node)) (jumps : Nat) : Node → Option (Node × Nat)
  | .alias a =>
    match jumps with
    | 0 => none
    | jumps + 1 => (anchored.reverse.find? (·.1 == a)).map fun (_, n) => (n, jumps)
  | n => some (n, jumps)

/-- A tag of the text's own making, which no value has. -/
def isLocalTag (p : Property) : Bool := p.tag.any (Text.startsWith "!")

/-- The value of a scalar. -/
def scalar? (p : Property) (text : String) (plain : Bool) : Option Json :=
  if isLocalTag p then none
  else match p.tag with
    | some tag => tagged? tag text
    | none => if plain then plain? text else some (.str text)

/-- The text of a key, which has to be a scalar. -/
def keyText? (anchored : List (Nat × Node)) (jumps : Nat) (n : Node) : Option (String × Nat) :=
  match follow anchored jumps n with
  | some (.scalar _ text _, jumps) => some (text, jumps)
  | _ => none

/-- The value of a node, whose collections are nested at most `depth` deep. -/
def value? (anchored : List (Nat × Node)) : (depth jumps : Nat) → Node → Option (Json × Nat)
  | 0, jumps, n =>
    match follow anchored jumps n with
    | some (.scalar p text plain, jumps) => (scalar? p text plain).map (·, jumps)
    | _ => none
  | depth + 1, jumps, n =>
    match follow anchored jumps n with
    | some (.scalar p text plain, jumps) => (scalar? p text plain).map (·, jumps)
    | some (.sequence p items, jumps) => do
      if isLocalTag p then none
      let (vs, jumps) ← items.foldlM (fun (vs, jumps) n => do
        let (v, jumps) ← value? anchored depth jumps n
        return (v :: vs, jumps)) ([], jumps)
      return (.arr vs.reverse, jumps)
    | some (.mapping p entries, jumps) => do
      if isLocalTag p then none
      let (ms, jumps) ← entries.foldlM (fun ((ms, jumps) : Json.Members × Nat) (k, n) => do
        let (key, jumps) ← keyText? anchored jumps k
        let (v, jumps) ← value? anchored depth jumps n
        return (ms.insert key v, jumps)) ([], jumps)
      return (.obj ms, jumps)
    | _ => none

/-- How deep collections may be nested. -/
def maxDepth : Nat := 128

/-- The value of the only document of a text. -/
def parse? (text : String) : Option Json := do
  let root ← document? text
  let (v, _) ← value? root.anchored maxDepth (root.weight * 100) root
  return v

end ApiForge.Yaml
