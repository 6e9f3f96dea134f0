import FlowScript.Flow.Basic
import FlowScript.Json.Written
import FlowScript.Text.Letter
import FlowScript.Text.Quoted

/-!
# Flow documents

The JSON shape of a flow. Reading is lenient where the shape allows it: member names are compared
without case, unknown members are skipped, null leaves a value as it was and repeated members are
merged. A value of the wrong type is remembered while reading goes on, and the first one decides the
error. Lists and records are read where they stand in the text, because the rows of a preview are
kept as they are written.

## Main definitions

- `Flow.ofWritten` reads a flow from a written document.
- `Flow.toTree` writes one.
-/

namespace FlowScript

open Json Text

/-- A value whose type is not the one that the shape wants there. -/
structure Mismatch where
  /-- What stands there. -/
  found : String
  /-- The name of the wanted type. -/
  wanted : String
  /-- The innermost record around the value, empty at the top. -/
  record : String := ""
  /-- The members that lead to the value. -/
  path : List String := []

/-- The wording of a mismatch. -/
def Mismatch.message (m : Mismatch) : String :=
  "json: cannot unmarshal " ++ m.found
    ++ (if m.path.isEmpty then " into Go value"
      else " into Go struct field " ++ m.record ++ "." ++ String.intercalate "." m.path)
    ++ " of type " ++ m.wanted

/-- Why a document does not have the wanted shape. -/
inductive DocumentError where
  /-- The text is not JSON. -/
  | malformed (fault : Json.Fault)
  /-- Some value has a type that the shape does not allow there. -/
  | mismatch (m : Mismatch)
  /-- A node names a kind that is not supported. -/
  | unknownKind (node kind : String)
  /-- What a node carries does not have the shape that its kind calls for. -/
  | payload (node kind : String) (cause : DocumentError)

/-- The wording of a reading error. -/
def DocumentError.message : DocumentError → String
  | malformed fault => fault.message
  | mismatch m => m.message
  | unknownKind node kind => "node " ++ quoted node ++ ": unknown node kind: " ++ quoted kind
  | payload node kind cause =>
    "node " ++ quoted node ++ ": decoding " ++ kind ++ " data: " ++ cause.message

/-- Where a reading is: the record around it and the members that lead there. -/
structure Place where
  record : String := ""
  path : List String := []

/-- A reading in progress: it knows its place and keeps the first error. -/
abbrev Reading := ReaderT Place (StateM (Option DocumentError))

namespace Reading

/-- Does something in the place of a member of a record. -/
def inside {α : Type} (record member : String) (reading : Reading α) : Reading α :=
  fun place => reading ⟨record, place.path ++ [member]⟩

/-- Remembers an error, unless there was one before. A mismatch is told from here. -/
def complain (e : DocumentError) : Reading Unit := fun place => do
  let e : DocumentError :=
    match e with
    | .mismatch m => .mismatch { m with record := place.record, path := place.path ++ m.path }
    | e => e
  modify (fun first => first.or (some e))

/-- Keeps a value and remembers that what was written for it has the wrong type. -/
def refuse {α : Type} (found wanted : String) (old : α) : Reading α := do
  complain (.mismatch { found, wanted })
  return old

/-- What a value is, in the words of messages. -/
def sort : Tree → String
  | .null => "null"
  | .bool _ => "bool"
  | .number _ => "number"
  | .string _ => "string"
  | .array _ => "array"
  | .object _ => "object"

/-- The words for a number that does not fit. -/
def misfit (spelling : List Char) : String :=
  "number " ++ String.ofList spelling

/-- Fills a text of a named type. -/
def textOf (wanted old : String) : Tree → Reading String
  | .null => return old
  | .string body => return String.ofList (unescape body)
  | t => refuse (sort t) wanted old

/-- Fills a text. -/
def text (old : String) (t : Tree) : Reading String :=
  textOf "string" old t

/-- The name of the type of numbers. -/
def realType : String := "float64"

/-- Fills a number. -/
def real (old : Double) : Tree → Reading Double
  | .null => return old
  | .number spelling =>
    match Binary64.read spelling with
    | .number x => return .finite x
    | _ => refuse (misfit spelling) realType old
  | t => refuse (sort t) realType old

/-- The integer that a number spells without a point or an exponent, in the range of 64 bits. -/
def wholeNumber? (spelling : List Char) : Option Int :=
  let (negative, digits) :=
    match spelling with
    | '-' :: rest => (true, rest)
    | rest => (false, rest)
  if digits.all isDigit then
    let n := digitsValue digits
    if negative then if n ≤ Nat.pow 2 63 then some (-(n : Int)) else none
    else if n < Nat.pow 2 63 then some n else none
  else none

/-- Fills an integer of a named type. -/
def intOf (wanted : String) (old : Int) : Tree → Reading Int
  | .null => return old
  | .number spelling =>
    match wholeNumber? spelling with
    | some n => return n
    | none => refuse (misfit spelling) wanted old
  | t => refuse (sort t) wanted old

/-- Fills any data. -/
def value (old : Value) (t : Tree) : Reading Value :=
  match Value.ofTree t with
  | .ok v => return v
  | .error spelling => refuse (misfit spelling) realType old

/-- Fills items from left to right, each starting from the item that stood in its place. -/
def items {α : Type} (fresh : α) (fill : α → Written → Reading α) :
    List α → List Written → Reading (List α)
  | _, [] => return []
  | [], w :: rest => do
    let a ← fill fresh w
    return a :: (← items fresh fill [] rest)
  | old :: olds, w :: rest => do
    let a ← fill old w
    return a :: (← items fresh fill olds rest)

/-- Fills a list of a named type; null makes it absent. -/
def list {α : Type} (wanted : String) (fresh : α) (fill : α → Written → Reading α)
    (old : Option (List α)) (w : Written) : Reading (Option (List α)) :=
  match w.tree with
  | .null => return none
  | .array _ => do return some (← items fresh fill (old.getD []) w.items)
  | t => refuse (sort t) wanted old

/-- Fills a record of a named type member by member. -/
def record {α : Type} (wanted : String) (fill : α → String → Written → Reading α) (old : α)
    (w : Written) : Reading α :=
  match w.tree with
  | .null => return old
  | .object _ =>
    w.members.foldlM (fun a (key, value) => fill a (String.ofList (unescape key)) value) old
  | t => refuse (sort t) wanted old

/-- Fills an entry that may be null. -/
def entry {α : Type} (fresh : α) (fill : α → Written → Reading α) (old : Option α) (w : Written) :
    Reading (Option α) :=
  match w.tree with
  | .null => return none
  | _ => do return some (← fill (old.getD fresh) w)

/-- Fills a list of texts. -/
def texts (old : Option (List String)) (w : Written) : Reading (Option (List String)) :=
  list "[]string" "" (fun old w => text old w.tree) old w

/-- Runs a reading from the start: its value, or the first error. -/
def run {α : Type} (reading : Reading α) : Except DocumentError α :=
  match StateT.run (ReaderT.run reading {}) none with
  | (a, none) => .ok a
  | (_, some e) => .error e

end Reading

open Reading

/-- Fills one member of a position. -/
def Position.fill (p : Position) (key : String) (w : Written) : Reading Position :=
  let at_ {α : Type} : String → Reading α → Reading α := inside "Position"
  if sameFold key "x" then at_ "x" do return { p with x := ← real p.x w.tree }
  else if sameFold key "y" then at_ "y" do return { p with y := ← real p.y w.tree }
  else return p

/-- Fills a position. -/
def Position.read : Position → Written → Reading Position :=
  record "model.Position" Position.fill

/-- Fills one member of a viewport. -/
def Viewport.fill (v : Viewport) (key : String) (w : Written) : Reading Viewport :=
  let at_ {α : Type} : String → Reading α → Reading α := inside "Viewport"
  if sameFold key "x" then at_ "x" do return { v with x := ← real v.x w.tree }
  else if sameFold key "y" then at_ "y" do return { v with y := ← real v.y w.tree }
  else if sameFold key "zoom" then at_ "zoom" do return { v with zoom := ← real v.zoom w.tree }
  else return v

/-- Fills a viewport. -/
def Viewport.read : Viewport → Written → Reading Viewport :=
  record "model.Viewport" Viewport.fill

/-- Fills one member of a port. -/
def Port.fill (p : Port) (key : String) (w : Written) : Reading Port :=
  let at_ {α : Type} : String → Reading α → Reading α := inside "Port"
  if sameFold key "id" then at_ "id" do return { p with id := ← text p.id w.tree }
  else if sameFold key "name" then at_ "name" do return { p with name := ← text p.name w.tree }
  else if sameFold key "originalName" then
    at_ "originalName" do return { p with sourceName := ← text p.sourceName w.tree }
  else if sameFold key "nodeId" then at_ "nodeId" do return { p with nodeId := ← text p.nodeId w.tree }
  else if sameFold key "type" then
    at_ "type" do
      let name ← textOf "model.Direction" p.direction.name w.tree
      return { p with direction := Direction.ofName name }
  else return p

/-- Fills a port that may be null. -/
def Port.read : Option Port → Written → Reading (Option Port) :=
  entry {} (record "model.Port" Port.fill)

/-- Fills one member of a connection. -/
def Connection.fill (c : Connection) (key : String) (w : Written) : Reading Connection :=
  let at_ {α : Type} : String → Reading α → Reading α := inside "Connection"
  if sameFold key "id" then at_ "id" do return { c with id := ← text c.id w.tree }
  else if sameFold key "sourceNodeId" then
    at_ "sourceNodeId" do return { c with sourceNode := ← text c.sourceNode w.tree }
  else if sameFold key "sourceOutputId" then
    at_ "sourceOutputId" do return { c with sourcePort := ← text c.sourcePort w.tree }
  else if sameFold key "targetNodeId" then
    at_ "targetNodeId" do return { c with targetNode := ← text c.targetNode w.tree }
  else if sameFold key "targetInputId" then
    at_ "targetInputId" do return { c with targetPort := ← text c.targetPort w.tree }
  else return c

/-- Fills a connection that may be null. -/
def Connection.read : Option Connection → Written → Reading (Option Connection) :=
  entry {} (record "model.Connection" Connection.fill)

/-- Fills one member of the payload of a function node. -/
def FunctionData.fill (d : FunctionData) (key : String) (w : Written) : Reading FunctionData :=
  let at_ {α : Type} : String → Reading α → Reading α := inside "FunctionData"
  if sameFold key "code" then at_ "code" do return { d with code := ← text d.code w.tree }
  else if sameFold key "templateId" then
    at_ "templateId" do return { d with templateId := ← text d.templateId w.tree }
  else if sameFold key "description" then
    at_ "description" do return { d with description := ← text d.description w.tree }
  else return d

/-- Fills one member of a preview. The rows are kept as they stand in the text. -/
def FilePreview.fill (p : FilePreview) (key : String) (w : Written) : Reading FilePreview :=
  let at_ {α : Type} : String → Reading α → Reading α := inside "FilePreview"
  if sameFold key "headers" then at_ "headers" do return { p with headers := ← texts p.headers w }
  else if sameFold key "firstRow" then
    at_ "firstRow" do return { p with firstRow := ← texts p.firstRow w }
  else if sameFold key "lastRow" then
    at_ "lastRow" do return { p with lastRow := (← texts (some p.lastRow) w).getD [] }
  else if sameFold key "rowCount" then
    at_ "rowCount" do return { p with rowCount := ← intOf "int" p.rowCount w.tree }
  else if sameFold key "error" then at_ "error" do return { p with error := ← text p.error w.tree }
  else if sameFold key "jsonData" then return { p with rows := some w.text }
  else return p

/-- Fills one member of the payload of a tabular input. -/
def FileData.fill (d : FileData) (key : String) (w : Written) : Reading FileData :=
  let at_ {α : Type} : String → Reading α → Reading α := inside "FileInputData"
  if sameFold key "fileName" then at_ "fileName" do return { d with fileName := ← text d.fileName w.tree }
  else if sameFold key "fileSize" then
    at_ "fileSize" do return { d with fileSize := ← intOf "int64" d.fileSize w.tree }
  else if sameFold key "filePreview" then
    at_ "filePreview" do
      let fill := record "model.FilePreview" FilePreview.fill
      return { d with preview := ← entry {} fill d.preview w }
  else if sameFold key "description" then
    at_ "description" do return { d with description := ← text d.description w.tree }
  else return d

/-- Fills one member of the payload of a sub-flow node. -/
def SubFlowData.fill (d : SubFlowData) (key : String) (w : Written) : Reading SubFlowData :=
  let at_ {α : Type} : String → Reading α → Reading α := inside "SubFlowData"
  if sameFold key "subFlowId" then
    at_ "subFlowId" do return { d with subFlowId := ← text d.subFlowId w.tree }
  else if sameFold key "description" then
    at_ "description" do return { d with description := ← text d.description w.tree }
  else return d

/-- Fills one member of the payload of an output node. -/
def OutputData.fill (d : OutputData) (key : String) (w : Written) : Reading OutputData :=
  let at_ {α : Type} : String → Reading α → Reading α := inside "OutputData"
  if sameFold key "outputValue" then
    at_ "outputValue" do return { d with value := ← Reading.value d.value w.tree }
  else if sameFold key "outputType" then
    at_ "outputType" do
      return { d with valueKind := ← textOf "model.OutputValueKind" d.valueKind w.tree }
  else if sameFold key "description" then
    at_ "description" do return { d with description := ← text d.description w.tree }
  else return d

/-- A node while it is read: what it carries waits until its kind is known. -/
structure NodeDraft where
  node : Node := {}
  payload : Written := default

/-- Fills a list of ports. -/
def portList (old : List (Option Port)) (w : Written) : Reading (List (Option Port)) := do
  return (← list "[]*model.Port" none Port.read (some old) w).getD []

/-- Fills one member of a node. -/
def NodeDraft.fill (d : NodeDraft) (key : String) (w : Written) : Reading NodeDraft :=
  let n := d.node
  let at_ {α : Type} : String → Reading α → Reading α := inside "nodeJSON"
  if sameFold key "id" then at_ "id" do return { d with node := { n with id := ← text n.id w.tree } }
  else if sameFold key "type" then
    at_ "type" do
      let name ← textOf "model.NodeKind" n.kind.name w.tree
      return { d with node := { n with kind := NodeKind.ofName name } }
  else if sameFold key "name" then
    at_ "name" do return { d with node := { n with name := ← text n.name w.tree } }
  else if sameFold key "position" then
    at_ "position" do
      return { d with node := { n with position := ← Position.read n.position w } }
  else if sameFold key "inputs" then
    at_ "inputs" do return { d with node := { n with inputs := ← portList n.inputs w } }
  else if sameFold key "outputs" then
    at_ "outputs" do return { d with node := { n with outputs := ← portList n.outputs w } }
  else if sameFold key "data" then return { d with payload := w }
  else return d

/-- The payload of a kind from what is written for it. -/
def NodeKind.readPayload (kind : NodeKind) (nodeId : String) (w : Written) :
    Except DocumentError Payload :=
  let fitting {α : Type} (reading : Reading α) : Except DocumentError α :=
    (run reading).mapError (.payload nodeId kind.name)
  match kind with
  | .function => (fitting (record "model.FunctionData" FunctionData.fill {} w)).map .function
  | .csvInput | .excelInput => (fitting (record "model.FileInputData" FileData.fill {} w)).map .file
  | .subFlow => (fitting (record "model.SubFlowData" SubFlowData.fill {} w)).map .subFlow
  | .output => (fitting (record "model.OutputData" OutputData.fill {} w)).map .output
  | .other name => .error (.unknownKind nodeId name)

/-- Reads a node: first its own members, then what it carries, by its kind. -/
def Node.ofWritten (w : Written) : Except DocumentError Node := do
  let draft ← run (record "model.nodeJSON" NodeDraft.fill {} w)
  let payload ← draft.node.kind.readPayload draft.node.id draft.payload
  return { draft.node with payload := some payload }

/-- Reads an entry of the list of nodes. -/
def nodeEntry (_ : Option Node) (w : Written) : Reading (Option Node) :=
  match w.tree with
  | .null => return none
  | _ =>
    match Node.ofWritten w with
    | .ok n => return some n
    | .error e => do
      complain e
      return none

/-- Fills one member of a flow. -/
def Flow.fill (f : Flow) (key : String) (w : Written) : Reading Flow :=
  let at_ {α : Type} : String → Reading α → Reading α := inside "Flow"
  if sameFold key "id" then at_ "id" do return { f with id := ← text f.id w.tree }
  else if sameFold key "name" then at_ "name" do return { f with name := ← text f.name w.tree }
  else if sameFold key "nodes" then
    at_ "nodes" do
      return { f with nodes := (← list "[]*model.Node" none nodeEntry (some f.nodes) w).getD [] }
  else if sameFold key "connections" then
    at_ "connections" do
      let found ← list "[]*model.Connection" none Connection.read (some f.connections) w
      return { f with connections := found.getD [] }
  else if sameFold key "viewport" then
    at_ "viewport" do return { f with viewport := ← Viewport.read f.viewport w }
  else if sameFold key "createdAt" then
    at_ "createdAt" do return { f with createdAt := ← text f.createdAt w.tree }
  else return f

/-- Reads a flow from a written document. -/
def Flow.ofWritten (w : Written) : Except DocumentError Flow :=
  run (record "model.Flow" Flow.fill {} w)

/-- Reads a flow from a text that holds one document and nothing else. -/
def Flow.ofJson (cs : List Char) : Except DocumentError Flow := do
  Flow.ofWritten (← (Written.ofText cs).mapError .malformed)

/-- Why a flow has no written form. -/
inductive WriteError where
  /-- The rows of a preview in a node are not JSON. -/
  | rows (node : String) (fault : Json.Fault)
  /-- A coordinate of a node is not finite. -/
  | position (x : Double)
  /-- A coordinate of the viewport is not finite. -/
  | viewport (x : Double)

/-- The wording of a writing error. -/
def WriteError.message : WriteError → String
  | rows node fault => "json: error calling MarshalJSON for type *model.Node: node " ++ quoted node
    ++ ": encoding data: json: error calling MarshalJSON for type json.RawMessage: " ++ fault.message
  | position x => "json: error calling MarshalJSON for type *model.Node: " ++ x.unsupported
  | viewport x => x.unsupported

/-- The written form of a coordinate; one that is not finite has none. -/
def Double.toTree : Double → Except Double Tree
  | finite x => .ok (.real x)
  | x => .error x

/-- The written form of named coordinates. -/
def coordinates (members : List (String × Double)) : Except Double Tree := do
  return .record (← members.mapM (fun (key, x) => do return (key, ← x.toTree)))

/-- The written form of a position. -/
def Position.toTree (p : Position) : Except Double Tree :=
  coordinates [("x", p.x), ("y", p.y)]

/-- The written form of a viewport. -/
def Viewport.toTree (v : Viewport) : Except Double Tree :=
  coordinates [("x", v.x), ("y", v.y), ("zoom", v.zoom)]

/-- The written form of a port. -/
def Port.toTree (p : Port) : Tree :=
  .record [("id", .text p.id), ("name", .text p.name), ("originalName", .text p.sourceName),
    ("nodeId", .text p.nodeId), ("type", .text p.direction.name)]

/-- The written form of a connection. -/
def Connection.toTree (c : Connection) : Tree :=
  .record [("id", .text c.id), ("sourceNodeId", .text c.sourceNode),
    ("sourceOutputId", .text c.sourcePort), ("targetNodeId", .text c.targetNode),
    ("targetInputId", .text c.targetPort)]

/-- The written form of an entry that may be null. -/
def entryTree {α : Type} (write : α → Tree) : Option α → Tree
  | none => .null
  | some a => write a

/-- The written form of a list that may be absent. -/
def textsTree : Option (List String) → Tree
  | none => .null
  | some items => .texts items

/-- The written form of a preview. Its rows have to be a JSON document, unless they are empty. -/
def FilePreview.toTree (p : FilePreview) : Except Json.Fault Tree := do
  let rows ←
    match p.rows with
    | none | some [] => pure []
    | some spelling => do pure [("jsonData", ← Json.parse spelling)]
  return .record ([("headers", textsTree p.headers), ("firstRow", textsTree p.firstRow)]
    ++ (if p.lastRow.isEmpty then [] else [("lastRow", .texts p.lastRow)])
    ++ [("rowCount", .int p.rowCount)] ++ textUnlessEmpty "error" p.error ++ rows)

/-- The written form of a payload. -/
def Payload.toTree : Payload → Except Json.Fault Tree
  | function d =>
    .ok (.record ([("code", .text d.code)] ++ textUnlessEmpty "templateId" d.templateId
      ++ textUnlessEmpty "description" d.description))
  | file d => do
    let preview ←
      match d.preview with
      | none => pure []
      | some p => do pure [("filePreview", ← p.toTree)]
    return .record (textUnlessEmpty "fileName" d.fileName
      ++ (if d.fileSize = 0 then [] else [("fileSize", .int d.fileSize)])
      ++ preview ++ textUnlessEmpty "description" d.description)
  | subFlow d =>
    .ok (.record (textUnlessEmpty "subFlowId" d.subFlowId
      ++ textUnlessEmpty "description" d.description))
  | output d =>
    .ok (.record ([("outputValue", d.value.toTree)] ++ textUnlessEmpty "outputType" d.valueKind
      ++ textUnlessEmpty "description" d.description))
  | hollow _ => .ok .null

/-- The written form of a node. -/
def Node.toTree (n : Node) : Except WriteError Tree := do
  let payload ←
    match n.payload with
    | none => pure []
    | some p => do pure [("data", ← p.toTree.mapError (.rows n.id))]
  let position ← n.position.toTree.mapError .position
  return .record ([("id", .text n.id), ("type", .text n.kind.name), ("name", .text n.name),
    ("position", position), ("inputs", .array (n.inputs.map (entryTree Port.toTree))),
    ("outputs", .array (n.outputs.map (entryTree Port.toTree)))] ++ payload)

/-- The written form of an entry of the list of nodes. -/
def nodeEntryTree : Option Node → Except WriteError Tree
  | none => .ok .null
  | some n => n.toTree

/-- The written form of a flow. -/
def Flow.toTree (f : Flow) : Except WriteError Tree := do
  let nodes ← f.nodes.mapM nodeEntryTree
  let viewport ← f.viewport.toTree.mapError .viewport
  return .record ([("id", .text f.id), ("name", .text f.name),
    ("nodes", if f.nodesListed then .array nodes else .null),
    ("connections", if f.connectionsListed then
      .array (f.connections.map (entryTree Connection.toTree)) else .null),
    ("viewport", viewport)]
    ++ textUnlessEmpty "createdAt" f.createdAt)

end FlowScript
