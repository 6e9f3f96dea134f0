import FlowScript.Decimal.Layout
import FlowScript.Json.Syntax

/-!
# JSON data

A document as data: numbers are double precision numbers, and an object is its members sorted by
key, the last of several members with one key counting. `Value.ofTree` forgets the spelling of a
written document and `Value.toTree` chooses one.
-/

namespace FlowScript.Json

open Text

/-- JSON data. The members of an object are sorted by key and have different keys. -/
inductive Value where
  | null
  | bool (value : Bool)
  | number (value : Binary64)
  | string (value : String)
  | array (items : List Value)
  | object (members : List (String × Value))

instance : Inhabited Value := ⟨.null⟩

/-- Puts a member into sorted members; a member with the same key is replaced. -/
def insertMember {α : Type} (key : String) (value : α) :
    List (String × α) → List (String × α)
  | [] => [(key, value)]
  | (k, v) :: rest =>
    if key < k then (key, value) :: (k, v) :: rest
    else if key = k then (key, value) :: rest
    else (k, v) :: insertMember key value rest

mutual

/-- The data of a written document, or the spelling of the first number that is too large. -/
def Value.ofTree : Tree → Except (List Char) Value
  | .null => .ok .null
  | .bool b => .ok (.bool b)
  | .number text =>
    match Binary64.read text with
    | .number x => .ok (.number x)
    | _ => .error text
  | .string body => .ok (.string (String.ofList (unescape body)))
  | .array items => (ofItems items).map .array
  | .object members => (ofMembers [] members).map .object

/-- The data of the items of a list. -/
def ofItems : List Tree → Except (List Char) (List Value)
  | [] => .ok []
  | item :: rest =>
    match Value.ofTree item, ofItems rest with
    | .ok v, .ok vs => .ok (v :: vs)
    | .error e, _ | .ok _, .error e => .error e

/-- The data of the members of an object, put into sorted members one by one. -/
def ofMembers (done : List (String × Value)) :
    List (List Char × Tree) → Except (List Char) (List (String × Value))
  | [] => .ok done
  | (key, value) :: rest =>
    match Value.ofTree value with
    | .ok v => ofMembers (insertMember (String.ofList (unescape key)) v done) rest
    | .error e => .error e

end

/-- The data of a written document, or none when some number is too large. -/
def Value.ofTree? (t : Tree) : Option Value :=
  (Value.ofTree t).toOption

/-- The string of a document for a text. -/
def Tree.text (s : String) : Tree :=
  .string (escape .plain s.toList)

/-- The number of a document for an integer. -/
def Tree.int (n : Int) : Tree :=
  .number (signedDecimal n)

/-- The number of a document for a double precision number. -/
def Tree.real (x : Binary64) : Tree :=
  .number (NumberLayout.document.render x)

/-- An object with keys in ASCII letters. -/
def Tree.record (members : List (String × Tree)) : Tree :=
  .object (members.map (fun (key, value) => (escape .plain key.toList, value)))

/-- A list of texts. -/
def Tree.texts (items : List String) : Tree :=
  .array (items.map Tree.text)

mutual

/-- The written form of data. -/
def Value.toTree : Value → Tree
  | .null => .null
  | .bool b => .bool b
  | .number x => .real x
  | .string s => .text s
  | .array items => .array (toItems items)
  | .object members => .object (toMembers members)

/-- The written form of the items of a list. -/
def toItems : List Value → List Tree
  | [] => []
  | v :: rest => v.toTree :: toItems rest

/-- The written form of the members of an object. -/
def toMembers : List (String × Value) → List (List Char × Tree)
  | [] => []
  | (key, v) :: rest => (escape .plain key.toList, v.toTree) :: toMembers rest

end

/-- A member that is left out when the text is empty. -/
def textUnlessEmpty (key s : String) : List (String × Tree) :=
  if s.isEmpty then [] else [(key, .text s)]

end FlowScript.Json
