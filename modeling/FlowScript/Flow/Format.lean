import FlowScript.Flow.Document
import FlowScript.Yaml.Printer

/-!
# File formats of flows

A flow is stored as indented JSON or as YAML of the same shape. YAML is read by way of JSON, so both
formats accept the same flows. What reads and prints YAML is exchangeable.
-/

namespace FlowScript

open Text

/-- The formats of flow files. -/
inductive Format where
  | json
  | yaml
  deriving DecidableEq

/-- The name of a format. -/
def Format.name : Format → String
  | json => "json"
  | yaml => "yaml"

/-- The part of a path from its last dot on, if that is in the last segment. -/
def extension (path : String) : String :=
  let back := path.toList.reverse.takeWhile (· != '/')
  if back.contains '.' then String.ofList ('.' :: (back.takeWhile (· != '.')).reverse) else ""

/-- The format that the extension of a path implies. -/
def Format.ofPath? (path : String) : Option Format :=
  let ext := lower (extension path)
  if ext = ".json" then some .json
  else if ext = ".yaml" || ext = ".yml" then some .yaml
  else none

/-- Why a text is not a flow in a format. -/
inductive DecodeError where
  /-- The text is not YAML. -/
  | yaml (fault : Yaml.Fault)
  /-- The text is YAML that has no JSON form. -/
  | noJson (fault : Yaml.Fault)
  /-- The document is not a flow. -/
  | document (e : DocumentError)

/-- The wording of a decoding error. -/
def DecodeError.message : DecodeError → String
  | yaml fault => "parsing yaml: " ++ fault.message
  | noJson fault => "converting yaml: " ++ fault.message
  | document e => "decoding flow: " ++ e.message

/-- What flows are stored with: a reader of YAML and a printer of data as YAML. -/
structure Yaml.Library where
  read : List Char → Except Fault Data
  render : Json.Value → List Char

/-- The reader and the printer of this library. -/
def Yaml.library : Library := ⟨read, render⟩

/-- Reads a flow from a text, with a library for YAML. The JSON by way of which YAML is read has its
markup escaped. -/
def Flow.decodeWith (yaml : Yaml.Library) (text : List Char) : Format → Except DecodeError Flow
  | .json => (Flow.ofJson text).mapError .document
  | .yaml => do
    let data ← (yaml.read text).mapError .yaml
    let tree ← data.toTree.mapError .noJson
    (Flow.ofJson (tree.compact .escaped)).mapError .document

/-- Reads a flow from a text. -/
def Flow.decode (text : List Char) (format : Format) : Except DecodeError Flow :=
  Flow.decodeWith Yaml.library text format

/-- Why a flow cannot be written. -/
inductive EncodeError where
  | unwritable (e : WriteError)
  /-- The document is nested too deeply. -/
  | tooDeep
  /-- A number in the document, given by its spelling, is too large for data. -/
  | tooLarge (spelling : List Char)

/-- The wording of an encoding error. -/
def EncodeError.message (e : EncodeError) : String :=
  "encoding flow: " ++
    match e with
    | unwritable e => e.message
    | tooDeep => Json.Fault.tooDeep.message
    | tooLarge spelling =>
      { found := Reading.misfit spelling, wanted := Reading.realType : Mismatch }.message

/-- Writes a flow as a text, with a library for YAML. YAML is printed from the data of the
document. -/
def Flow.encodeWith (yaml : Yaml.Library) (f : Flow) (format : Format) :
    Except EncodeError (List Char) := do
  let tree ← f.toTree.mapError .unwritable
  if !tree.isReadable then throw .tooDeep
  match format with
  | .json => return tree.indented .escaped 0 ++ ['\n']
  | .yaml => return yaml.render (← (Json.Value.ofTree tree).mapError .tooLarge)

/-- Writes a flow as a text. -/
def Flow.encode (f : Flow) (format : Format) : Except EncodeError (List Char) :=
  f.encodeWith Yaml.library format

end FlowScript
