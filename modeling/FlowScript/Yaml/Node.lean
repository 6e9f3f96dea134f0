import FlowScript.Yaml.Lexer

/-!
# The nodes of a YAML document

The tree of the first document of a text. Aliases keep the name they are written with next to the
node they stand for, and every scalar has the tag that was written or that its style implies.
-/

namespace FlowScript.Yaml

/-- A node of a document. A plain scalar without a tag has none. -/
inductive Node where
  | scalar (tag : Option String) (style : Style) (text : List Char)
  | sequence (items : List Node)
  | mapping (entries : List (Node × Node))
  | alias (name : String) (target : Node)

instance : Inhabited Node := ⟨.scalar none .plain []⟩

/-- An anchor: its number, its name, and its node once that is complete. -/
structure Anchor where
  number : Nat
  name : String
  node : Option Node

/-- The state of the parser. -/
structure Parser where
  /-- The tokens that are left. -/
  tokens : List Token
  /-- The fault after these tokens, if the text has one. -/
  fault : Option Fault
  /-- The anchors so far, the latest first. -/
  anchors : List Anchor := []
  /-- What the handles of tags stand for. -/
  handles : List (String × String) := []

/-- A step of the parser. -/
abbrev Parsing := StateT Parser (Except Fault)

namespace Parsing

/-- The next token. A fault within the two tokens after it is met at once. -/
def peek : Parsing Token := do
  let p ← get
  match p.tokens, p.fault with
  | t :: _ :: _ :: _, _ => return t
  | _, some fault => throw fault
  | t :: _, none => return t
  | [], none => return .streamEnd

/-- Leaves the next token behind. -/
def skip : Parsing Unit :=
  modify (fun p => { p with tokens := p.tokens.drop 1 })

/-- Starts the node of an anchor. -/
def beginAnchor (name : Option String) : Parsing Nat := do
  let number := (← get).anchors.length
  match name with
  | none => return number
  | some name =>
    modify (fun p => { p with anchors := ⟨number, name, none⟩ :: p.anchors })
    return number

/-- Completes the node of an anchor. -/
def endAnchor (name : Option String) (number : Nat) (node : Node) : Parsing Node := do
  if name.isSome then
    let complete (a : Anchor) : Anchor :=
      if a.number == number then { a with node := some node } else a
    modify (fun p => { p with anchors := p.anchors.map complete })
  return node

/-- The node that an alias stands for. -/
def resolveAlias (name : String) : Parsing Node := do
  match (← get).anchors.find? (fun a => a.name == name) with
  | none => throw ⟨"unknown anchor '" ++ name ++ "' referenced"⟩
  | some a =>
    match a.node with
    | none => throw ⟨"anchor '" ++ name ++ "' value contains itself"⟩
    | some node => return .alias name node

/-- The tag that a handle and a suffix spell. -/
def resolveTag (handle suffix : String) : Parsing String := do
  if handle.isEmpty then return suffix
  match (← get).handles.lookup handle with
  | some stem => return stem ++ suffix
  | none =>
    if handle == "!" then return "!" ++ suffix
    else if handle == "!!" then return "tag:yaml.org,2002:" ++ suffix
    else throw ⟨"found undefined tag handle"⟩

/-- Reads the anchor and the tag in front of a node, in either order. -/
def properties : Parsing (Option String × Option String) := do
  match ← peek with
  | .anchor name =>
    skip
    match ← peek with
    | .tag handle suffix =>
      skip
      return (some name, some (← resolveTag handle suffix))
    | _ => return (some name, none)
  | .tag handle suffix =>
    skip
    let tag ← resolveTag handle suffix
    match ← peek with
    | .anchor name =>
      skip
      return (some name, some tag)
    | _ => return (none, some tag)
  | _ => return (none, none)

/-- A node that is left out. -/
def emptyNode : Node := .scalar none .plain []

mutual

/-- Reads a node. Blocks are allowed when `block` is set, and the items of a key's value may stand
at the indentation of the key when `indentless` is set. -/
def node : Nat → (block indentless : Bool) → Parsing Node
  | 0, _, _ => throw ⟨"nested too deeply"⟩
  | fuel + 1, block, indentless => do
    match ← peek with
    | .alias name =>
      skip
      resolveAlias name
    | _ =>
      let (anchor, tag) ← properties
      let number ← beginAnchor anchor
      match ← peek with
      | .scalar text style =>
        skip
        endAnchor anchor number (.scalar tag style text)
      | .flowSequenceStart =>
        skip
        endAnchor anchor number (.sequence (← flowItems fuel true))
      | .flowMappingStart =>
        skip
        endAnchor anchor number (.mapping (← flowEntries fuel true))
      | t =>
        if indentless && t = .blockEntry then
          endAnchor anchor number (.sequence (← indentlessItems fuel))
        else if block && t = .blockSequenceStart then
          skip
          endAnchor anchor number (.sequence (← blockItems fuel))
        else if block && t = .blockMappingStart then
          skip
          endAnchor anchor number (.mapping (← blockEntries fuel))
        else if anchor.isSome || tag.isSome then
          endAnchor anchor number (.scalar tag .plain [])
        else throw ⟨"did not find expected node content"⟩

/-- Reads the items of a block. -/
def blockItems : Nat → Parsing (List Node)
  | 0 => throw ⟨"nested too deeply"⟩
  | fuel + 1 => do
    match ← peek with
    | .blockEntry =>
      skip
      let t ← peek
      let item ← if t = .blockEntry || t = .blockEnd then pure emptyNode else node fuel true false
      return item :: (← blockItems fuel)
    | .blockEnd =>
      skip
      return []
    | _ => throw ⟨"did not find expected '-' indicator"⟩

/-- Reads items that stand at the indentation of their key. -/
def indentlessItems : Nat → Parsing (List Node)
  | 0 => throw ⟨"nested too deeply"⟩
  | fuel + 1 => do
    match ← peek with
    | .blockEntry =>
      skip
      let t ← peek
      let item ←
        if t = .blockEntry || t = .key || t = .value || t = .blockEnd then pure emptyNode
        else node fuel true false
      return item :: (← indentlessItems fuel)
    | _ => return []

/-- Reads the entries of a block. -/
def blockEntries : Nat → Parsing (List (Node × Node))
  | 0 => throw ⟨"nested too deeply"⟩
  | fuel + 1 => do
    match ← peek with
    | .key =>
      skip
      let t ← peek
      let key ←
        if t = .key || t = .value || t = .blockEnd then pure emptyNode else node fuel true true
      let value ← blockValue fuel
      return (key, value) :: (← blockEntries fuel)
    | .blockEnd =>
      skip
      return []
    | _ => throw ⟨"did not find expected key"⟩

/-- Reads the value of an entry of a block. -/
def blockValue : Nat → Parsing Node
  | 0 => throw ⟨"nested too deeply"⟩
  | fuel + 1 => do
    match ← peek with
    | .value =>
      skip
      let t ← peek
      if t = .key || t = .value || t = .blockEnd then return emptyNode
      else node fuel true true
    | _ => return emptyNode

/-- Reads the items between square brackets. -/
def flowItems : Nat → (first : Bool) → Parsing (List Node)
  | 0, _ => throw ⟨"nested too deeply"⟩
  | fuel + 1, first => do
    if (← peek) = .flowSequenceEnd then
      skip
      return []
    if !first then
      if (← peek) = .flowEntry then skip
      else throw ⟨"did not find expected ',' or ']'"⟩
    match ← peek with
    | .flowSequenceEnd =>
      skip
      return []
    | .key =>
      skip
      let t ← peek
      let key ←
        if t = .value || t = .flowEntry || t = .flowSequenceEnd then do
          skip
          pure emptyNode
        else node fuel false false
      let value ← flowValue fuel .flowSequenceEnd
      return .mapping [(key, value)] :: (← flowItems fuel false)
    | _ =>
      let item ← node fuel false false
      return item :: (← flowItems fuel false)

/-- Reads the value of an entry between brackets that `close` ends. -/
def flowValue : Nat → (close : Token) → Parsing Node
  | 0, _ => throw ⟨"nested too deeply"⟩
  | fuel + 1, close => do
    match ← peek with
    | .value =>
      skip
      let t ← peek
      if t = .flowEntry || t = close then return emptyNode
      else node fuel false false
    | _ => return emptyNode

/-- Reads the entries between curly brackets. -/
def flowEntries : Nat → (first : Bool) → Parsing (List (Node × Node))
  | 0, _ => throw ⟨"nested too deeply"⟩
  | fuel + 1, first => do
    if (← peek) = .flowMappingEnd then
      skip
      return []
    if !first then
      if (← peek) = .flowEntry then skip
      else throw ⟨"did not find expected ',' or '\x7d'"⟩
    match ← peek with
    | .flowMappingEnd =>
      skip
      return []
    | .key =>
      skip
      let t ← peek
      let key ←
        if t = .value || t = .flowEntry || t = .flowMappingEnd then pure emptyNode
        else node fuel false false
      let value ← flowValue fuel .flowMappingEnd
      return (key, value) :: (← flowEntries fuel false)
    | _ =>
      let key ← node fuel false false
      return (key, emptyNode) :: (← flowEntries fuel false)

end

/-- Reads the directives in front of a document. -/
def directives : Nat → (versionSeen : Bool) → Parsing Unit
  | 0, _ => return
  | fuel + 1, versionSeen => do
    match ← peek with
    | .version major minor =>
      if versionSeen then throw ⟨"found duplicate %YAML directive"⟩
      if major != 1 || minor != 1 then throw ⟨"found incompatible YAML document"⟩
      skip
      directives fuel true
    | .tagHandle handle stem =>
      if (← get).handles.any (fun h => h.1 == handle) then
        throw ⟨"found duplicate %TAG directive"⟩
      modify (fun p => { p with handles := (handle, stem) :: p.handles })
      skip
      directives fuel versionSeen
    | _ => return

/-- A token that starts a document explicitly. -/
def startsExplicitly : Token → Bool
  | .version .. | .tagHandle .. | .documentStart => true
  | _ => false

/-- Reads the first document; none when the text has none. -/
def document (fuel : Nat) : Parsing (Option Node) := do
  let t ← peek
  if t = .streamEnd then return none
  let root ←
    if startsExplicitly t then do
      directives fuel false
      if (← peek) ≠ .documentStart then throw ⟨"did not find expected <document start>"⟩
      skip
      let t ← peek
      if startsExplicitly t || t = .documentEnd || t = .streamEnd then pure emptyNode
      else node fuel true false
    else node fuel true false
  -- what follows has to be readable as far as the end of the document can be told
  let _ ← peek
  return some root

end Parsing

/-- The root node of the first document of a text; none when there is no document. -/
def parse (text : List Char) : Except Fault (Option Node) :=
  let (tokens, fault) := tokens text
  let fuel := 4 * tokens.length + 4
  match StateT.run (Parsing.document fuel) { tokens := tokens, fault := fault } with
  | .ok (root, _) => .ok root
  | .error e => .error e

end FlowScript.Yaml
