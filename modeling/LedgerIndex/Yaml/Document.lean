import LedgerIndex.Yaml.Layout
import LedgerIndex.Yaml.Node

/-! # From tokens to a document

A node is an alias, or a scalar or collection with its anchor and tag.  Where a node is missing, an
empty plain scalar stands for it.  A text holds one document at most. -/

namespace LedgerIndex.Yaml

/-- What remains of the tokens, the declared tag handles, and the anchors so far. -/
structure ReadState where
  tokens : List Token
  handles : List (String × String) := []
  anchors : Anchors := {}

/-- A reader of tokens that may refuse them. -/
abbrev Read (α : Type) : Type := StateT ReadState Option α

namespace Read

def peek : Read (Option Token) := do
  return (← get).tokens.head?

def skip : Read Unit :=
  modify fun s => { s with tokens := s.tokens.tail }

/-- Passes over the next token if it is a given one. -/
def take? (token : Token) : Read Bool := do
  if (← peek) = some token then
    skip
    return true
  else return false

/-- Passes over a token that has to be there. -/
def expect (token : Token) : Read Unit := do
  if ← take? token then return () else failure

/-- The next token is one of some, or there is none. -/
def atOneOf (tokens : List Token) : Read Bool := do
  match ← peek with
  | some token => return tokens.contains token
  | none => return true

/-! ### Properties of nodes -/

def anchor? : Read (Option String) := do
  match ← peek with
  | some (.anchor name) => do skip; return some name
  | _ => return none

/-- The text of a handle in full. -/
def expansion? (handle : String) : Read (Option String) := do
  match Entries.get? handle (← get).handles with
  | some text => return some text
  | none =>
    if handle = "!" then return some "!"
    else if handle = "!!" then return some "tag:yaml.org,2002:"
    else return none

/-- A tag, if there is one: its handle and its name. -/
def tag? : Read (Option (String × String)) := do
  match ← peek with
  | some (.tag handle name) => do skip; return some (handle, name)
  | _ => return none

/-- A tag in full; its handle has to be known. -/
def fullTag : Option (String × String) → Read (Option String)
  | none => return none
  | some (handle, name) => do
    if handle = "" then return some name
    else match ← expansion? handle with
      | some text => return some (text ++ name)
      | none => failure

/-- The anchor and the tag of a node, in either order. -/
def properties : Read (Option String × Option String) := do
  match ← anchor? with
  | some name => return (some name, ← fullTag (← tag?))
  | none =>
    let tag ← tag?
    let name ← if tag.isSome then anchor? else pure none
    return (name, ← fullTag tag)

/-- The number of the anchored node that begins. -/
def declare : Option String → Read (Option Nat)
  | none => return none
  | some name => do
    let number := (← get).anchors.begun
    modify fun s => { s with anchors := s.anchors.declare name }
    return some number

/-- Records an anchored node under its number. -/
def record (number : Option Nat) (node : Node) : Read Node := do
  match number with
  | some number => modify fun s => { s with anchors := s.anchors.record number node }
  | none => pure ()
  return node

/-- The tag of a scalar that is there; the tag `!` then says nothing. -/
def scalarTag (tag : Option String) : Option String :=
  if tag = some "!" then none else tag

/-! ### Nodes -/

mutual

/-- A node.  Block collections are nodes only where `block` is set, and entries without a collection
of their own only where `bare` is. -/
def node (block bare : Bool) : Nat → Read Node
  | 0 => failure
  | fuel + 1 => do
    match ← peek with
    | some (.alias name) =>
      skip
      match (← get).anchors.slot? name with
      | some slot => return .alias slot
      | none => failure
    | _ =>
      let (anchor, tag) ← properties
      let number ← declare anchor
      match ← peek with
      | some .entry =>
        if bare then record number (.sequence (← bareItems fuel))
        else record number (← missing anchor tag)
      | some (.scalar text plain) =>
        skip
        record number (.scalar ⟨text, plain, scalarTag tag⟩)
      | some .flowSequence => skip; record number (.sequence (← flowItems true fuel))
      | some .flowMapping => skip; record number (.mapping (← flowEntries true fuel))
      | some .blockSequence =>
        if block then
          skip
          record number (.sequence (← blockItems fuel))
        else record number (← missing anchor tag)
      | some .blockMapping =>
        if block then
          skip
          record number (.mapping (← blockEntries fuel))
        else record number (← missing anchor tag)
      | _ => record number (← missing anchor tag)

/-- A node that is missing behind its anchor or tag. -/
def missing (anchor tag : Option String) : Read Node :=
  if anchor.isSome || tag.isSome then return .scalar { text := "", tag := tag }
  else failure

/-- A node, unless one of some tokens stands in its place. -/
def nodeUnless (tokens : List Token) (block bare : Bool) : Nat → Read Node
  | 0 => failure
  | fuel + 1 => do if ← atOneOf tokens then return .empty else node block bare fuel

/-- The items of a block sequence. -/
def blockItems : Nat → Read (List Node)
  | 0 => failure
  | fuel + 1 => do
    if ← take? .blockEnd then return []
    else
      expect .entry
      let item ← nodeUnless [.entry, .blockEnd] true false fuel
      return item :: (← blockItems fuel)

/-- The items of a sequence that is not indented against the key before it. -/
def bareItems : Nat → Read (List Node)
  | 0 => failure
  | fuel + 1 => do
    if ← take? .entry then
      let item ← nodeUnless [.entry, .key, .value, .blockEnd] true false fuel
      return item :: (← bareItems fuel)
    else return []

/-- The entries of a block mapping. -/
def blockEntries : Nat → Read (List (Node × Node))
  | 0 => failure
  | fuel + 1 => do
    if ← take? .blockEnd then return []
    else
      expect .key
      let key ← nodeUnless [.key, .value, .blockEnd] true true fuel
      let value ←
        if ← take? .value then nodeUnless [.key, .value, .blockEnd] true true fuel
        else pure .empty
      return (key, value) :: (← blockEntries fuel)

/-- The items of a flow sequence; a key among them makes a mapping of one entry. -/
def flowItems (first : Bool) : Nat → Read (List Node)
  | 0 => failure
  | fuel + 1 => do
    if ← take? .flowSequenceEnd then return []
    else
      if first then pure () else expect .flowEntry
      if ← take? .key then
        let key ←
          if ← atOneOf [.value, .flowEntry, .flowSequenceEnd] then do skip; pure .empty
          else node false false fuel
        let value ←
          if ← take? .value then nodeUnless [.flowEntry, .flowSequenceEnd] false false fuel
          else pure .empty
        return .mapping [(key, value)] :: (← flowItems false fuel)
      else if ← take? .flowSequenceEnd then return []
      else
        let item ← node false false fuel
        return item :: (← flowItems false fuel)

/-- The entries of a flow mapping. -/
def flowEntries (first : Bool) : Nat → Read (List (Node × Node))
  | 0 => failure
  | fuel + 1 => do
    if ← take? .flowMappingEnd then return []
    else
      if first then pure () else expect .flowEntry
      if ← take? .key then
        let key ← nodeUnless [.value, .flowEntry, .flowMappingEnd] false false fuel
        let value ←
          if ← take? .value then nodeUnless [.flowEntry, .flowMappingEnd] false false fuel
          else pure .empty
        return (key, value) :: (← flowEntries false fuel)
      else if ← take? .flowMappingEnd then return []
      else
        let key ← node false false fuel
        return (key, .empty) :: (← flowEntries false fuel)

end

/-! ### Documents -/

/-- At most `fuel` directives: one version, and every handle once. -/
def directives : Nat → Bool → Read Unit
  | 0, _ => failure
  | fuel + 1, versioned => do
    match ← peek with
    | some (.version major minor) =>
      if versioned || major != 1 || (minor != 1 && minor != 2) then failure
      else
        skip
        directives fuel true
    | some (.tagHandle handle expansion) =>
      if (Entries.get? handle (← get).handles).isSome then failure
      else
        skip
        modify fun s => { s with handles := Entries.put handle expansion s.handles }
        directives fuel versioned
    | _ => return ()

/-- The root of a document with its marks. -/
def root (fuel : Nat) : Read Node := do
  match ← peek with
  | some (.version ..) | some (.tagHandle ..) | some .documentStart =>
    directives fuel false
    expect .documentStart
    match ← peek with
    | some (.version ..) | some (.tagHandle ..) | some .documentStart | some .documentEnd | none =>
      return .empty
    | _ => node true false fuel
  | _ => node true false fuel

/-- The document of a whole text; no tokens at all make an empty one. -/
def document (fuel : Nat) : Read Document := do
  if (← peek).isNone then return { root := .empty }
  else
    let root ← root fuel
    let rest := (← get).tokens.dropWhile (· == .documentEnd)
    if rest = [] then return { root := root, anchors := (← get).anchors } else failure

end Read

/-- The document that a text holds, if it is well formed. -/
def Document.ofText? (text : String) : Option Document := do
  let tokens ← Token.ofChars? text.toList
  let (document, _) ← (Read.document (4 * tokens.length + 8)).run { tokens := tokens }
  return document

end LedgerIndex.Yaml
