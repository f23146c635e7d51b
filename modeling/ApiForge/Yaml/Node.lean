import ApiForge.Yaml.Token

/-!
# Nodes of YAML text

The tokens of a text are put together to a tree. A node may carry an anchor and a tag. Anchors are numbered in the order
in which they are set, counting the different names in use; an alias keeps the number that its name has at that point.

* `Node` is the tree.
* `document?` reads the one document of a text.
-/

namespace ApiForge.Yaml

/-- What may stand in front of a node. -/
structure Property where
  anchor : Option Nat := none
  tag : Option String := none
  deriving Inhabited

/-- A node. -/
inductive Node where
  | scalar (property : Property) (text : String) (plain : Bool)
  | sequence (property : Property) (items : List Node)
  | mapping (property : Property) (entries : List (Node × Node))
  | alias (anchor : Nat)
  deriving Inhabited

/-- A node without content. -/
def Node.empty : Node := .scalar {} "" true

/-- What is left to read, and the names that have been given out. -/
structure Stream where
  tokens : List Token
  anchors : List (String × Nat) := []
  /-- The beginnings of tags by their handles. -/
  handles : List (String × String) := []

namespace Stream

/-- The next token. -/
def next (s : Stream) : Token := s.tokens.headD .streamEnd

/-- Past the next token. -/
def skip (s : Stream) : Stream := { s with tokens := s.tokens.tail }

/-- Gives a name to the node that begins here. -/
def name (s : Stream) (name : String) : Nat × Stream :=
  let number := s.anchors.length
  (number, { s with anchors := (name, number) :: s.anchors.filter (·.1 != name) })

/-- The full tag of a handle and an ending. -/
def fullTag? (s : Stream) (handle ending : String) : Option String :=
  if handle.isEmpty then some ending
  else (s.handles.find? (·.1 == handle)).map fun (_, lead) => lead ++ ending

/-- The anchor and the tag at the beginning of a node, in either order; nothing when the tag has no meaning. -/
def property? (s : Stream) : Option (Option String × Option String × Stream) :=
  match s.next with
  | .anchor a =>
    match s.skip.next with
    | .tag h e => (s.fullTag? h e).map fun t => (some a, some t, s.skip.skip)
    | _ => some (some a, none, s.skip)
  | .tag h e =>
    (s.fullTag? h e).map fun t =>
      match s.skip.next with
      | .anchor a => (some a, some t, s.skip.skip)
      | _ => (none, some t, s.skip)
  | _ => some (none, none, s)

end Stream

/-! ## Reading nodes -/

/-- Where a node stands, which decides what it may be. -/
inductive Place where
  /-- An item of a block sequence, or the whole document. -/
  | block
  /-- A key or a value of a block mapping; here a sequence may stand at the depth of its keys. -/
  | entry
  /-- Inside a flow collection. -/
  | flow
  deriving DecidableEq

/-- Whether a key or value of a block mapping is left out before this token. -/
def endsEntry (t : Token) : Bool := t == .key || t == .value || t == .blockEnd

mutual

/-- Reads a node. -/
def node (place : Place) : (fuel : Nat) → Stream → Option (Node × Stream)
  | 0, _ => none
  | fuel + 1, s =>
    match s.next with
    | .alias a => (s.anchors.find? (·.1 == a)).map fun (_, number) => (.alias number, s.skip)
    | _ => do
      let (anchor, tag, s) ← s.property?
      let (number, s) := match anchor with
        | some a => let (n, s) := s.name a; (some n, s)
        | none => (none, s)
      let property : Property := ⟨number, tag⟩
      let inBlock := place != .flow
      match s.next with
      | .scalar text plain =>
        return (.scalar ⟨number, tag.filter (· != "!")⟩ text plain, s.skip)
      | .flowSequenceStart =>
        let (items, s) ← flowItems fuel true s.skip
        return (.sequence property items, s)
      | .flowMappingStart =>
        let (entries, s) ← flowEntries fuel true s.skip
        return (.mapping property entries, s)
      | .blockEntry =>
        if place == .entry then
          let (items, s) ← sameDepthItems fuel s
          return (.sequence property items, s)
        else if anchor.isSome || tag.isSome then return (.scalar property "" true, s)
        else none
      | .blockSequenceStart =>
        if inBlock then
          let (items, s) ← blockItems fuel s.skip
          return (.sequence property items, s)
        else if anchor.isSome || tag.isSome then return (.scalar property "" true, s)
        else none
      | .blockMappingStart =>
        if inBlock then
          let (entries, s) ← blockEntries fuel s.skip
          return (.mapping property entries, s)
        else if anchor.isSome || tag.isSome then return (.scalar property "" true, s)
        else none
      | _ => if anchor.isSome || tag.isSome then return (.scalar property "" true, s) else none

/-- Reads the items of a block sequence, and its end. -/
def blockItems : (fuel : Nat) → Stream → Option (List Node × Stream)
  | 0, _ => none
  | fuel + 1, s =>
    match s.next with
    | .blockEntry => do
      let s := s.skip
      let (item, s) ← if s.next == .blockEntry || s.next == .blockEnd then some (.empty, s) else node .block fuel s
      let (items, s) ← blockItems fuel s
      return (item :: items, s)
    | .blockEnd => some ([], s.skip)
    | _ => none

/-- Reads the items of a sequence that stands at the depth of the keys around it. -/
def sameDepthItems : (fuel : Nat) → Stream → Option (List Node × Stream)
  | 0, _ => none
  | fuel + 1, s =>
    match s.next with
    | .blockEntry => do
      let s := s.skip
      let (item, s) ← if s.next == .blockEntry || endsEntry s.next then some (.empty, s) else node .block fuel s
      let (items, s) ← sameDepthItems fuel s
      return (item :: items, s)
    | _ => some ([], s)

/-- Reads the entries of a block mapping, and its end. -/
def blockEntries : (fuel : Nat) → Stream → Option (List (Node × Node) × Stream)
  | 0, _ => none
  | fuel + 1, s =>
    match s.next with
    | .key => do
      let s := s.skip
      let (key, s) ← if endsEntry s.next then some (.empty, s) else node .entry fuel s
      let (value, s) ←
        if s.next != .value then some (.empty, s)
        else if endsEntry s.skip.next then some (.empty, s.skip)
        else node .entry fuel s.skip
      let (entries, s) ← blockEntries fuel s
      return ((key, value) :: entries, s)
    | .blockEnd => some ([], s.skip)
    | _ => none

/-- Reads the items of a flow sequence, and its end. -/
def flowItems : (fuel : Nat) → (first : Bool) → Stream → Option (List Node × Stream)
  | 0, _, _ => none
  | fuel + 1, first, s =>
    if s.next == .flowSequenceEnd then some ([], s.skip)
    else if !first && s.next != .flowEntry then none
    else do
      let s := if first then s else s.skip
      match s.next with
      | .flowSequenceEnd => return ([], s.skip)
      | .key =>
        let (entry, s) ← flowPair fuel s.skip
        let (items, s) ← flowItems fuel false s
        return (.mapping {} [entry] :: items, s)
      | _ =>
        let (item, s) ← node .flow fuel s
        let (items, s) ← flowItems fuel false s
        return (item :: items, s)

/-- Reads a single entry that stands as an item of a flow sequence. A token that takes the place of its key is lost. -/
def flowPair : (fuel : Nat) → Stream → Option ((Node × Node) × Stream)
  | 0, _ => none
  | fuel + 1, s => do
    let (key, s) ←
      if s.next == .value || s.next == .flowEntry || s.next == .flowSequenceEnd then some (.empty, s.skip)
      else node .flow fuel s
    let (value, s) ←
      if s.next != .value then some (.empty, s)
      else if s.skip.next == .flowEntry || s.skip.next == .flowSequenceEnd then some (.empty, s.skip)
      else node .flow fuel s.skip
    return ((key, value), s)

/-- Reads the entries of a flow mapping, and its end. -/
def flowEntries : (fuel : Nat) → (first : Bool) → Stream → Option (List (Node × Node) × Stream)
  | 0, _, _ => none
  | fuel + 1, first, s =>
    if s.next == .flowMappingEnd then some ([], s.skip)
    else if !first && s.next != .flowEntry then none
    else do
      let s := if first then s else s.skip
      match s.next with
      | .flowMappingEnd => return ([], s.skip)
      | .key =>
        let s := s.skip
        let (key, s) ←
          if s.next == .value || s.next == .flowEntry || s.next == .flowMappingEnd then some (.empty, s)
          else node .flow fuel s
        let (value, s) ←
          if s.next != .value then some (.empty, s)
          else if s.skip.next == .flowEntry || s.skip.next == .flowMappingEnd then some (.empty, s.skip)
          else node .flow fuel s.skip
        let (entries, s) ← flowEntries fuel false s
        return ((key, value) :: entries, s)
      | _ =>
        let (key, s) ← node .flow fuel s
        let (entries, s) ← flowEntries fuel false s
        return ((key, .empty) :: entries, s)

end

/-! ## The document -/

/-- Reads the directives in front of a document: at most one version, and one beginning for each handle. -/
def directives? (version : Bool) (handles : List (String × String)) :
    List Token → Option (List (String × String) × List Token)
  | .versionDirective :: rest => if version then none else directives? true handles rest
  | .tagDirective handle lead :: rest =>
    if handles.any (·.1 == handle) then none else directives? version (handles ++ [(handle, lead)]) rest
  | rest => some (handles, rest)

/-- The handles that every document knows, unless it gives them another meaning. -/
def standardHandles : List (String × String) := [("!", "!"), ("!!", "tag:yaml.org,2002:")]

/-- Whether only ends of documents are left. -/
def atEnd (ts : List Token) : Bool := ts.dropWhile (· == .documentEnd) |>.headD .streamEnd |> (· == .streamEnd)

/-- Whether a document has no content before this token. -/
def endsDocument : Token → Bool
  | .versionDirective | .tagDirective _ _ | .documentStart | .documentEnd | .streamEnd => true
  | _ => false

/-- The root of the only document of a text; an empty text has an empty document. -/
def document? (text : String) : Option Node := do
  let ts ← tokens? text
  if ts.headD .streamEnd == .streamEnd then return .empty
  let (handles, rest) ← directives? false [] ts
  let marked := rest.headD .streamEnd == .documentStart
  if !marked && rest.length != ts.length then none
  let content := if marked then rest.tail else rest
  let stream : Stream := { tokens := content, handles := handles ++ standardHandles }
  let (root, s) ←
    if marked && endsDocument stream.next then some (Node.empty, stream)
    else node .block (4 * ts.length + 4) stream
  if atEnd s.tokens then return root else none

end ApiForge.Yaml
