import FlowScript.Json.Value
import FlowScript.Script.Collect
import FlowScript.Text.Base64

/-!
# Output of a run

What a script prints, as lines of text and figures. A figure is one line: a mark and the bytes of an
image in base 64. Blank lines are dropped. A figure line without bytes is dropped too, and one whose
bytes cannot be read stays a line of text and gives a warning.
-/

namespace FlowScript

open Text

/-- An image that a script printed. -/
structure Figure where
  /-- Figures are counted from one. -/
  index : Nat
  image : List UInt8
  /-- The image as the address of an inline resource. -/
  address : String

/-- The interpreted output of a run. -/
structure Output where
  lines : List String := []
  figures : List Figure := []
  warnings : List String := []

namespace Output

/-- The lines of text. -/
def text (o : Output) : String :=
  String.intercalate "\n" o.lines

/-- A line of this many bytes, or of more, cannot be read. -/
def lineLimit : Nat := 64 * 1024 * 1024

/-- The size in bytes of the longest line of a text, the line breaks not counted. -/
def longestLine (text : String) : Nat :=
  let (current, longest) := text.toList.foldl
    (fun (current, longest) c =>
      if c == '\n' then (0, max current longest) else (current + c.utf8Size, longest))
    (0, 0)
  max current longest

/-- Adds one printed line to the output, which holds its items in reverse. -/
def addLine (o : Output) (line : List Char) : Output :=
  match dropFront? Script.figureMark.toList line with
  | none => if allBlank line then o else { o with lines := String.ofList line :: o.lines }
  | some rest =>
    let payload := strip rest
    let index := o.figures.length + 1
    if payload.isEmpty then o
    else
      match Base64.decode payload with
      | .error offset =>
        { o with
          lines := String.ofList line :: o.lines
          warnings := ("figure " ++ toString index ++ ": " ++ Base64.faultMessage offset)
            :: o.warnings }
      | .ok image =>
        let address := "data:image/png;base64," ++ String.ofList payload
        { o with figures := ⟨index, image, address⟩ :: o.figures }

/-- The printed lines of a text. A break at the very end starts no line, and up to two carriage
returns before a break belong to it. -/
def printedLines (text : List Char) : List (List Char) :=
  let pieces := cut '\n' text
  let pieces := if pieces.getLast?.all (·.isEmpty) then pieces.dropLast else pieces
  pieces.map (fun piece => dropBack ['\r'] (dropBack ['\r'] piece))

/-- Interprets what a script printed; none when some line is too long. -/
def ofText? (text : String) : Option Output :=
  if lineLimit ≤ longestLine text then none
  else
    let o := (printedLines text.toList).foldl addLine {}
    some ⟨o.lines.reverse, o.figures.reverse, o.warnings.reverse⟩

end Output

/-- The JSON form of a figure. -/
def Figure.toTree (f : Figure) : Json.Tree :=
  .record [("index", .int f.index), ("dataUri", .text f.address)]

/-- The JSON form of an output. -/
def Output.toTree (o : Output) : Json.Tree :=
  .record ([("lines", .texts o.lines), ("figures", .array (o.figures.map Figure.toTree))]
    ++ if o.warnings.isEmpty then [] else [("warnings", .texts o.warnings)])

end FlowScript
