import FlowScript.Flow.Edit
import FlowScript.Text.Letter
import FlowScript.Text.Quoted
import FlowScript.Yaml.Data

/-!
# Catalogs of templates

A catalog offers ready-made functions. Its items are written as YAML. An item becomes a template: the
imports of the two array libraries move to the top when they are declared or used, and imports of
sibling functions are dropped in favour of a list of the templates that the code needs.
-/

namespace FlowScript

open Text

/-- One item of a catalog as it is written. -/
structure CatalogItem where
  name : String := ""
  description : String := ""
  code : String := ""
  dependencies : List String := []

/-- A ready-made function. -/
structure Template where
  id : String
  name : String
  description : String
  code : String
  inputs : List String
  outputs : List String
  /-- The packages that the code imports. -/
  packages : List String
  /-- Other templates that the code calls. -/
  requires : List String

namespace Template

/-- A library whose import is kept at the top of the code: its name and its usual short name. -/
structure Library where
  name : String
  shortName : String

/-- The libraries whose imports are kept at the top, in this order. -/
def libraries : List Library := [⟨"numpy", "np"⟩, ⟨"pandas", "pd"⟩]

/-- The line that imports a library. -/
def Library.importLine (l : Library) : String :=
  "import " ++ l.name ++ " as " ++ l.shortName

/-- Some occurrence of `front` is not preceded by a character of a word. -/
def usesName (front : List Char) : (inWord : Bool) → List Char → Bool
  | _, [] => false
  | inWord, c :: cs =>
    (!inWord && startsWith front (c :: cs)) || usesName front (isWordChar c) cs

/-- The code refers to a member of a library by its short name. -/
def Library.isUsed (l : Library) (code : List Char) : Bool :=
  usesName (l.shortName.toList ++ ['.']) false code

/-- The line does nothing but import a library under its short name. -/
def isLibraryImport (line : List Char) : Bool :=
  let parts := (cutWhere isSpace line).filter (fun part => !part.isEmpty)
  libraries.any (fun l =>
    parts == ["import".toList, l.name.toList, "as".toList, l.shortName.toList])

/-- The line imports from a sibling. -/
def isSiblingImport (line : List Char) : Bool :=
  match dropFront? "from".toList (line.dropWhile isSpace) with
  | none => false
  | some rest =>
    let name := rest.dropWhile isSpace
    name.length < rest.length && name.head? == some '.'

/-- The code of an item below the given header. -/
def normalCode (header : List String) (code : List Char) : String :=
  let body := (cut '\n' (unixLines code)).filter (fun line =>
    !isLibraryImport line && !isSiblingImport line)
  let body := strip (dropBack [';'] (strip (glue ['\n'] body)))
  trim (String.intercalate "\n" (header ++ [String.ofList body]))

/-- The template of an item. -/
def ofItem (item : CatalogItem) : Template :=
  let declared (l : Library) : Bool := item.dependencies.any (fun d => lower d == l.name)
  let needed := libraries.filter (fun l => l.isUsed item.code.toList || declared l)
  let code := normalCode (needed.map Library.importLine) item.code.toList
  let sig := Signature.ofSource code
  { id := "base_" ++ item.name
    name := item.name
    description := item.description
    code := code
    inputs := sig.inputs
    outputs := sig.outputs
    packages := needed.map (·.name)
    requires := item.dependencies.filter (fun d => !(libraries.map (·.name)).contains (lower d)) }

/-- A new node with the function of a template. -/
def newNode (t : Template) (position : Position) (supply : Supply) :
    Except EditError Node × Supply :=
  Node.new .function t.name position
    { code := t.code, templateId := t.id, description := t.description } supply

/-- The JSON form of a template. -/
def toTree (t : Template) : Json.Tree :=
  let unlessEmpty (key : String) (items : List String) : List (String × Json.Tree) :=
    if items.isEmpty then [] else [(key, .texts items)]
  .record ([("id", .text t.id), ("name", .text t.name), ("description", .text t.description),
      ("code", .text t.code), ("inputs", .texts t.inputs), ("outputs", .texts t.outputs)]
    ++ unlessEmpty "packages" t.packages ++ unlessEmpty "requires" t.requires)

end Template

/-- Templates with different names, in order. -/
structure Catalog where
  templates : List Template := []

/-- Why items make no catalog. -/
inductive CatalogError where
  | yaml (fault : Yaml.Fault)
  | unnamed
  | duplicate (name : String)

/-- The wording of a catalog error. -/
def CatalogError.message : CatalogError → String
  | yaml fault => "parsing catalog: " ++ fault.message
  | unnamed => "catalog entry without a name"
  | duplicate name => "duplicate catalog entry " ++ name

/-- Why a template cannot be provided. -/
inductive TemplateError where
  | unknown (name : String)
  /-- A template needs one that does not exist. -/
  | unknownNeed (name need : String)
  | selfDependent (name : String)

/-- The wording of a template error. -/
def TemplateError.message : TemplateError → String
  | unknown name => "unknown template: " ++ quoted name
  | unknownNeed name need => "template " ++ name ++ ": unknown template: " ++ quoted need
  | selfDependent name => "template " ++ name ++ " depends on itself"

namespace Catalog

/-- The template with a name. -/
def get? (c : Catalog) (name : String) : Option Template :=
  c.templates.find? (fun t => t.name == name)

/-- The first item without a name, or with the name of an earlier one, is refused. -/
def checkNames (seen : List String) : List CatalogItem → Except CatalogError Unit
  | [] => .ok ()
  | item :: rest =>
    if item.name.isEmpty then .error .unnamed
    else if seen.contains item.name then .error (.duplicate item.name)
    else checkNames (item.name :: seen) rest

/-- The catalog of some items. -/
def ofItems (items : List CatalogItem) : Except CatalogError Catalog := do
  checkNames [] items
  return ⟨items.map Template.ofItem⟩

/-- Visits a template: those that it needs are finished before it. The finished names are listed last
one first; a name that is under way must not be met again. Every step down takes one from the
depth. -/
def visit (c : Catalog) : (depth : Nat) → (underWay finished : List String) → Template →
    Except TemplateError (List String)
  | 0, _, finished, _ => .ok finished
  | depth + 1, underWay, finished, t =>
    if underWay.contains t.name then .error (.selfDependent t.name)
    else if finished.contains t.name then .ok finished
    else do
      let finished ← t.requires.foldlM
        (fun finished need =>
          match c.get? need with
          | none => .error (.unknownNeed t.name need)
          | some d => c.visit depth (t.name :: underWay) finished d)
        finished
      return t.name :: finished

/-- The names of the templates that a template needs, directly or not, each after those that it needs
itself. -/
def requires (c : Catalog) (t : Template) : Except TemplateError (List String) := do
  let finished ← c.visit (c.templates.length + 2) [] [] t
  return (finished.drop 1).reverse

end Catalog

namespace CatalogItem

/-- The text that a node stands for in a text field; null leaves the field out. -/
def textOf : Nat → Yaml.Node → Except Yaml.Fault (Option String)
  | 0, _ => .error ⟨"nested too deeply"⟩
  | depth + 1, n =>
    match n with
    | .scalar tag style text => do
      match ← Yaml.scalarAtom (Yaml.scalarTag tag style text) text with
      | .null => return none
      | .text s => return some s
      | _ => return some (String.ofList text)
    | .alias _ target => textOf depth target
    | _ => .error ⟨"cannot unmarshal into string"⟩

/-- The texts of a list field; null stands for no list and is left out among the items. -/
def textsOf : Nat → Yaml.Node → Except Yaml.Fault (List String)
  | 0, _ => .error ⟨"nested too deeply"⟩
  | depth + 1, n =>
    match n with
    | .sequence items => do return (← items.mapM (textOf depth)).filterMap id
    | .alias _ target => textsOf depth target
    | n => do
      match ← textOf (depth + 1) n with
      | none => return []
      | some _ => throw ⟨"cannot unmarshal into a list"⟩

/-- Sets one field; other keys are passed over without a look at their value. -/
def setField (depth : Nat) (item : CatalogItem) (key : String) (value : Yaml.Node) :
    Except Yaml.Fault CatalogItem :=
  match key with
  | "name" => do return { item with name := (← textOf depth value).getD item.name }
  | "description" => do return { item with description := (← textOf depth value).getD item.description }
  | "code" => do return { item with code := (← textOf depth value).getD item.code }
  | "dependencies" => do return { item with dependencies := ← textsOf depth value }
  | _ => return item

/-- The item that a node describes; null describes none. -/
def ofNode : Nat → Yaml.Node → Except Yaml.Fault (Option CatalogItem)
  | 0, _ => .error ⟨"nested too deeply"⟩
  | depth + 1, n =>
    match n with
    | .mapping entries => do
      let (fields, _) ← Yaml.gather (depth + 1) [] entries
      return some (← fields.foldlM (fun item (key, value) => item.setField depth key value) {})
    | .alias _ target => ofNode depth target
    | n => do
      match ← textOf (depth + 1) n with
      | none => return none
      | some _ => throw ⟨"cannot unmarshal into an item"⟩

/-- The items that a document lists. -/
def listOf : Nat → Yaml.Node → Except Yaml.Fault (List CatalogItem)
  | 0, _ => .error ⟨"nested too deeply"⟩
  | depth + 1, n =>
    match n with
    | .sequence items => do return (← items.mapM (ofNode depth)).filterMap id
    | .alias _ target => listOf depth target
    | n => do
      match ← textOf (depth + 1) n with
      | none => return []
      | some _ => throw ⟨"cannot unmarshal into a list"⟩

end CatalogItem

/-- Reads a catalog from YAML. -/
def Catalog.ofYaml (text : List Char) : Except CatalogError Catalog := do
  let items : Except Yaml.Fault (List CatalogItem) := do
    match ← Yaml.parse text with
    | none => return []
    | some n => CatalogItem.listOf (n.depth + 2) n
  Catalog.ofItems (← items.mapError .yaml)

end FlowScript
