import FlowScript.Script.Collect

/-!
# The blocks of the driver

Each node has a block of lines in the function that runs the flow. A function node calls its
function with what its inputs are wired to, a tabular input loads its table, an output node shows
what it gets.
-/

namespace FlowScript.Script

open Text

/-- One level of indentation. -/
def indent : String := "    "

/-- The variable that feeds an input port, if its connection leads to a known output. -/
def resolve? (f : Flow) (c : Collected) (nodeId portId : String) : Option String :=
  match f.incoming? nodeId portId with
  | none => none
  | some wire => c.valueOf? wire.sourceNode wire.sourcePort

/-- One argument of a call and the comment after it, if any. -/
structure Argument where
  text : String
  comment : Option String := none

/-- The parameter that an input port stands for. -/
def Port.parameter (p : Port) : String :=
  if p.sourceName == "" then p.name else p.sourceName

/-- The stars at the front of a parameter. -/
def starsOf (parameter : String) : String :=
  String.ofList (parameter.toList.takeWhile (· == '*'))

/-- The arguments for the input ports, with what each port is wired to. Positional arguments come
first; after a bare star or an input without a wire every argument is given by name. A starred
parameter without a wire is left out. -/
def arguments : (keyword : Bool) → List (Port × Option String) → List Argument
  | _, [] => []
  | keyword, (p, source) :: rest =>
    let parameter := Port.parameter p
    if parameter == "/" then arguments keyword rest
    else if parameter == "*" then arguments true rest
    else if (starsOf parameter).isEmpty then
      match source with
      | none =>
        { text := sanitize parameter ++ "=None"
          comment := some ("TODO: provide a value for input '" ++ remarkText p.name ++ "'") }
          :: arguments true rest
      | some target =>
        { text := if keyword then sanitize parameter ++ "=" ++ target else target }
          :: arguments keyword rest
    else
      match source with
      | none => arguments keyword rest
      | some target => { text := starsOf parameter ++ target } :: arguments keyword rest

/-- The input ports that are passed as `None` because they have no wire. -/
def unconnected (inputs : List (Port × Option String)) : List Port :=
  (inputs.filter (fun (p, source) =>
    source.isNone && Port.parameter p != "/" && (starsOf (Port.parameter p)).isEmpty)).map (·.1)

/-- The lines of a call. Arguments share one line unless one of them has a comment, which would
swallow what follows it. -/
def callText (function : String) (args : List Argument) : List String :=
  if args.all (fun a => a.comment.isNone) then
    [function ++ "(" ++ String.intercalate ", " (args.map (·.text)) ++ ")"]
  else
    let line (a : Argument) : String :=
      indent ++ a.text ++ "," ++
        match a.comment with
        | none => ""
        | some comment => "  # " ++ comment
    (function ++ "(") :: (args.map line ++ [")"])

/-- The lines of a call with the variables it assigns. -/
def assigned (targets : List String) : List String → List String
  | [] => []
  | first :: rest =>
    if targets.isEmpty then first :: rest
    else (String.intercalate ", " targets ++ " = " ++ first) :: rest

/-- The input ports of a node with what they are wired to. -/
def wiredInputs (f : Flow) (c : Collected) (n : Node) : List (Port × Option String) :=
  n.inputPorts.map (fun p => (p, resolve? f c n.id p.id))

/-- The lines of a function node. -/
def callLines (f : Flow) (c : Collected) (p : Placed) : List String :=
  match (c.calls.lookup p.place).getD none with
  | none => ["# node has no code, nothing to call"]
  | some function =>
    let targets := p.node.outputPorts.map (fun o => (c.valueOf? p.node.id o.id).getD "")
    assigned targets (callText function (arguments false (wiredInputs f c p.node)))

/-- The lines of a tabular input. -/
def tableLines (c : Collected) (p : Placed) : List String :=
  let v := tableVariable p.name
  match c.rows.lookup p.place with
  | some rows =>
    [v ++ "_json_data_str = " ++ String.ofList (stringLiteral rows),
      v ++ " = pd.DataFrame(json.loads(" ++ v ++ "_json_data_str))"]
  | none =>
    let source :=
      match p.node.file? with
      | none => "(no source file set)"
      | some file =>
        if file.fileName.isEmpty then "(no source file set)"
        else "(source file: '" ++ remarkText file.fileName ++ "')"
    if p.node.kind = .excelInput then
      [v ++ " = pd.read_excel(\"your_excel_file_path.xlsx\")"
        ++ "  # TODO: replace with the real Excel file path " ++ source]
    else
      [v ++ " = pd.read_csv(\"your_csv_file_path.csv\")"
        ++ "  # TODO: replace with the real CSV file path " ++ source]

/-- The lines of a sub-flow node: a reminder, since sub-flows are not expanded. -/
def subFlowLines (p : Placed) : List String :=
  let reference :=
    match p.node.subFlow? with
    | none => "unknown sub-flow"
    | some sub => if sub.subFlowId.isEmpty then "unknown sub-flow" else remarkText sub.subFlowId
  ["# Sub-flow: " ++ remarkText p.node.name ++ " (flow ID: " ++ reference ++ ")",
    "# sub_flow_output_" ++ p.name ++ " = run_sub_flow_" ++ p.name
      ++ "(...)  # TODO: sub-flows are not expanded"]

/-- The variable of an output node. -/
def sinkVariable (nodeName : String) : String :=
  "output_value_for_" ++ nodeName

/-- The lines of an output node. A figure is printed as one marked line, everything else by name. -/
def sinkLines (f : Flow) (c : Collected) (p : Placed) : List String :=
  let name := p.node.name
  match p.node.inputPorts with
  | [] =>
    ["print(" ++ String.ofList (stringLiteral (name ++ ": no input connected").toList) ++ ")"]
  | input :: _ =>
    let v := sinkVariable p.name
    let source := (resolve? f c p.node.id input.id).getD
      ("None  # no source connected to " ++ remarkText name)
    [v ++ " = " ++ source,
      "if isinstance(" ++ v ++ ", plt.Figure):",
      indent ++ "buf = BytesIO()",
      indent ++ v ++ ".savefig(buf, format='png')",
      indent ++ "plt.close(" ++ v ++ ")",
      indent ++ "buf.seek(0)",
      indent ++ "img_str = base64.b64encode(buf.getvalue()).decode('utf-8')",
      indent ++ "print(f\"" ++ figureMark ++ "\x7bimg_str\x7d\")",
      "else:",
      indent ++ "print(f\"" ++ String.ofList (formatText name.toList) ++ ": \x7b" ++ v ++ "\x7d\")"]

/-- The lines of a node between its two comments. -/
def bodyLines (f : Flow) (c : Collected) (p : Placed) : List String :=
  match p.node.kind with
  | .csvInput | .excelInput => tableLines c p
  | .subFlow => subFlowLines p
  | .function => callLines f c p
  | .output => sinkLines f c p
  | .other kind =>
    ["# unsupported node type " ++ quoted (remarkText kind) ++ ", skipped"]

/-- A line as it stands in the driver. An empty line gets no indentation. -/
def indented (line : String) : String :=
  String.intercalate "\n"
    ((lines line).map (fun part => if part.isEmpty then "" else indent ++ part))

/-- The block of a node. -/
def block (f : Flow) (c : Collected) (p : Placed) : String :=
  let name := remarkText p.node.name
  let all := ("# --- Begin node: " ++ name ++ " (ID: " ++ remarkText p.node.id ++ ") ---")
    :: (bodyLines f c p ++ ["# --- End node: " ++ name ++ " ---"])
  String.intercalate "\n" (all.map indented)

/-- The findings for the inputs of a node that are passed as `None`. -/
def inputNotes (f : Flow) (c : Collected) (p : Placed) : List Diagnostic :=
  match p.node.kind, (c.calls.lookup p.place).getD none with
  | .function, some _ =>
    (unconnected (wiredInputs f c p.node)).map (fun port =>
      { code := .unconnectedInput, severity := .info, nodeId := p.node.id
        message := "node " ++ quoted p.node.name ++ ": input " ++ quoted port.name
          ++ " is not connected and is passed as None" })
  | _, _ => []

end FlowScript.Script
