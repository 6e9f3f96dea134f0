import FlowScript.Flow.Issue
import FlowScript.Report.Paint
import FlowScript.Run.Runner

/-!
# Reports

What a compilation and a run tell the user: the problems of the flow, the findings of the compiler and
one summary line, whose paint is that of the gravest finding; and what the script printed.
-/

namespace FlowScript

/-- A line without paint. -/
def plainLine (line : String) : String := line ++ "\n"

/-- The paint of a summary. -/
def summaryPaint (issues warnings notes : Nat) : Paint :=
  if 0 < issues then .red
  else if 0 < warnings then .yellow
  else if 0 < notes then .cyan
  else .green

/-- The report on a compilation of the flow that came from a source. -/
def compileReport (colored : Bool) (source : String) (f : Flow) (issues : List Issue)
    (r : Compiled) : String :=
  let packages := packagesOf r.imports
  let warnings := r.warnings.length
  let notes := r.diagnostics.length - warnings
  let head :=
    Paint.bold.inner colored "flowc - Compile Report"
      ++ Paint.bold.inner colored "======================"
      ++ plainLine ("Flow: " ++ f.name ++ " (" ++ source ++ ")")
      ++ plainLine ("Nodes: " ++ toString f.nodes.length ++ ", connections: "
        ++ toString f.connections.length)
      ++ plainLine ("Imports: " ++ toString r.imports.length)
      ++ (if packages.isEmpty then ""
        else Paint.cyan.whole colored ("Packages: [" ++ String.intercalate " " packages ++ "]"))
      ++ plainLine ""
  let problems :=
    if issues.isEmpty then ""
    else
      Paint.red.inner colored "FLOW ISSUES:"
        ++ String.join (issues.map (fun i =>
          Paint.yellow.whole colored ("  " ++ i.kind.name) ++ plainLine ("    " ++ i.message)))
        ++ plainLine ""
  let findings :=
    if r.diagnostics.isEmpty then ""
    else
      Paint.bold.inner colored "DIAGNOSTICS:"
        ++ String.join (r.diagnostics.map (fun d =>
          (if d.severity = .warning then Paint.yellow else Paint.cyan).whole colored
            ("  [" ++ d.severity.name ++ "] " ++ d.code.name)
            ++ plainLine ("    " ++ d.message)))
        ++ plainLine ""
  let summary :=
    (summaryPaint issues.length warnings notes).whole colored
      ("Summary: " ++ toString r.order.length ++ " node(s) compiled, " ++ toString issues.length
        ++ " issue(s), " ++ toString warnings ++ " warning(s), " ++ toString notes ++ " note(s)")
  let verdict :=
    if issues.isEmpty && warnings == 0 then Paint.green.inner colored "✓ Flow compiled cleanly"
    else ""
  head ++ problems ++ findings ++ summary ++ verdict

/-- The report on a run: what the script printed, then its figures and the warnings. -/
def runReport (colored : Bool) (o : Output) (files : List String) : String :=
  String.join (o.lines.map plainLine)
    ++ (if o.figures.isEmpty then ""
      else
        plainLine "" ++ Paint.bold.whole colored ("Figures: " ++ toString o.figures.length)
          ++ String.join (files.map (fun path => Paint.green.whole colored ("  " ++ path))))
    ++ String.join (o.warnings.map (fun w => Paint.yellow.whole colored ("Warning: " ++ w)))

end FlowScript
