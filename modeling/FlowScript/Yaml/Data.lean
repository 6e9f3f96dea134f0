import FlowScript.Decimal.Layout
import FlowScript.Json.Value
import FlowScript.Text.Base64
import FlowScript.Text.Search
import FlowScript.Text.Utf8
import FlowScript.Time.Calendar
import FlowScript.Yaml.Node

/-!
# The data of a YAML document

What the scalars of a document stand for, and the document as data. Mappings whose keys are all
texts can become JSON; others are data too, but have no JSON form. Keys may be taken over from other
mappings by a merge key.
-/

namespace FlowScript.Yaml

open Text

/-- The data of a scalar. -/
inductive Atom where
  | null
  | bool (value : Bool)
  | int (value : Int)
  | float (value : Binary64)
  /-- An infinity or not a number. -/
  | special
  | time (value : Moment)
  | text (value : String)

/-- The tag of the data of a scalar, in its short form. -/
def Atom.tag : Atom → String
  | null => "!!null"
  | bool _ => "!!bool"
  | int _ => "!!int"
  | float _ | special => "!!float"
  | time _ => "!!timestamp"
  | text _ => "!!str"

/-- Reads digits in a base up to sixteen; at least one is needed. -/
def digitsIn? (base : Nat) (cs : List Char) : Option Nat :=
  if cs.isEmpty then none
  else
    cs.foldl
      (fun n c => do
        let n ← n
        let d ← hexValue? c
        if d < base then some (n * base + d) else none)
      (some 0)

/-- Reads an integer by the notation of its digits: hexadecimal, octal or binary after a mark, octal
after a leading zero, decimal otherwise. -/
def magnitude? (cs : List Char) : Option Nat :=
  match cs with
  | '0' :: m :: rest =>
    if m == 'x' || m == 'X' then digitsIn? 16 rest
    else if m == 'o' || m == 'O' then digitsIn? 8 rest
    else if m == 'b' || m == 'B' then digitsIn? 2 rest
    else digitsIn? 8 (m :: rest)
  | cs => digitsIn? 10 cs

/-- Reads an integer of 64 bits, with or without a sign. -/
def integer? (cs : List Char) : Option Int :=
  match cs with
  | '-' :: rest => do
    let n ← magnitude? rest
    if n ≤ Nat.pow 2 63 then some (-(n : Int)) else none
  | '+' :: rest => do
    let n ← magnitude? rest
    if n < Nat.pow 2 63 then some n else none
  | rest => do
    let n ← magnitude? rest
    if n < Nat.pow 2 64 then some n else none

/-- Reads one or two digits. -/
def shortDigits? (cs : List Char) : Option (Nat × List Char) :=
  let front := (cs.take 2).takeWhile isDigit
  if front.isEmpty then none else some (digitsValue front, cs.drop front.length)

/-- Reads a fraction of a second, if there is one. -/
def fraction (cs : List Char) : Nat × List Char :=
  match cs with
  | mark :: rest =>
    let digits := rest.takeWhile isDigit
    if (mark == '.' || mark == ',') && !digits.isEmpty then
      (Moment.nanosOf digits, rest.drop digits.length)
    else (0, cs)
  | [] => (0, [])

/-- Reads a date, or a date and a time. The time follows after the letter `t` and then has an offset,
or after a space and then has none. -/
def timestamp? (cs : List Char) : Option Moment := do
  if (cs.takeWhile isDigit).length ≠ 4 then none
  let (year, cs) ← Moment.digits? 4 cs
  let cs ← Moment.expect '-' cs
  let (month, cs) ← shortDigits? cs
  let cs ← Moment.expect '-' cs
  let (day, cs) ← shortDigits? cs
  let date : Date := ⟨year, month, day⟩
  if !date.isValid then none
  match cs with
  | [] => some ⟨date.toDays * 86400, 0, 0⟩
  | mark :: cs =>
    let (hour, cs) ← shortDigits? cs
    let cs ← Moment.expect ':' cs
    let (minute, cs) ← shortDigits? cs
    let cs ← Moment.expect ':' cs
    let (second, cs) ← shortDigits? cs
    let (nanos, cs) := fraction cs
    if 24 ≤ hour || 60 ≤ minute || 60 ≤ second then none
    let local_ : Int := date.toDays * 86400 + (hour * 3600 + minute * 60 + second : Nat)
    if mark == 'T' || mark == 't' then
      let offset ← Moment.offset? cs
      some ⟨local_ - offset, nanos, offset⟩
    else if mark == ' ' && cs.isEmpty then some ⟨local_, nanos, 0⟩
    else none

/-- Reads a decimal number with digits before or after the point. -/
def float? (cs : List Char) : Option Atom :=
  match Binary64.read cs with
  | .number x => some (.float x)
  | _ => none

/-- What a plain scalar stands for. -/
def Atom.ofPlain (cs : List Char) : Atom :=
  let s := String.ofList cs
  if ["", "~", "null", "Null", "NULL"].contains s then .null
  else if ["true", "True", "TRUE"].contains s then .bool true
  else if ["false", "False", "FALSE"].contains s then .bool false
  else if [".nan", ".NaN", ".NAN", ".inf", ".Inf", ".INF", "+.inf", "+.Inf", "+.INF", "-.inf",
      "-.Inf", "-.INF"].contains s then .special
  else
    match cs with
    | c :: _ =>
      if c == '.' then (float? cs).getD (.text s)
      else if isDigit c || c == '+' || c == '-' then
        match timestamp? cs with
        | some t => .time t
        | none =>
          let plain := cs.filter (· != '_')
          match integer? plain with
          | some n => .int n
          | none => (float? plain).getD (.text s)
      else .text s
    | [] => .null

/-- The short form of a tag. -/
def shortTag (tag : String) : String :=
  match dropFront? "tag:yaml.org,2002:".toList tag.toList with
  | some rest => "!!" ++ String.ofList rest
  | none => tag

/-- The tag of a scalar: the written one, or the one that style and text imply. -/
def scalarTag (tag : Option String) (style : Style) (text : List Char) : String :=
  match tag with
  | some t =>
    if t == "!" then if style = .plain then (Atom.ofPlain text).tag else "!!str" else shortTag t
  | none =>
    if style ≠ .plain then "!!str"
    else if text == ['<', '<'] then "!!merge"
    else (Atom.ofPlain text).tag

/-- The data of a scalar. A written tag of the core types has to fit the text, binary data is in base
64, and any other tag leaves the text as it is. -/
def scalarAtom (tag : String) (text : List Char) : Except Fault Atom :=
  let atom := Atom.ofPlain text
  if ["!!bool", "!!int", "!!float", "!!null", "!!timestamp"].contains tag then
    if atom.tag == tag then .ok atom
    else
      match tag, atom with
      | "!!float", .int n =>
        match Binary64.ofInt n with
        | some x => .ok (.float x)
        | none => .error ⟨"cannot decode a number"⟩
      | _, _ => .error ⟨"cannot decode " ++ atom.tag ++ " as a " ++ tag⟩
  else if tag == "!!binary" then
    match Base64.decode text with
    | .ok bytes => .ok (.text (String.ofList (Utf8.decode bytes)))
    | .error _ => .error ⟨"!!binary value contains invalid base64 data"⟩
  else .ok (.text (String.ofList text))

/-- A document as data. -/
inductive Data where
  | atom (value : Atom)
  | list (items : List Data)
  /-- A mapping whose keys are texts. -/
  | map (entries : List (String × Data))
  /-- A mapping with other keys. -/
  | general

/-- The short tag of a node. -/
def Node.tag : Node → String
  | .scalar tag style text => scalarTag tag style text
  | .sequence _ => "!!seq"
  | .mapping _ => "!!map"
  | .alias _ target => target.tag

/-- What two keys are compared by: the kind of the node and the text it is written with. -/
def Node.spelling : Node → Nat × List Char
  | .scalar _ _ text => (0, text)
  | .sequence _ => (1, [])
  | .mapping _ => (2, [])
  | .alias name _ => (3, name.toList)

/-- Some key stands twice. -/
def hasRepeatedKey : List (Node × Node) → Bool
  | [] => false
  | (key, _) :: rest =>
    rest.any (fun (other, _) => other.spelling == key.spelling) || hasRepeatedKey rest

/-- A plain key that takes over the entries of other mappings. -/
def Node.isMerge : Node → Bool
  | .scalar tag style text => text == ['<', '<'] && scalarTag tag style text == "!!merge"
  | _ => false

/-- The text of a key in a mapping with text keys; a null key has none. -/
def Node.keyText? : Node → Except Fault (Option String)
  | .scalar tag style text => do
    match ← scalarAtom (scalarTag tag style text) text with
    | .null => return none
    | .text s => return some s
    | _ => return some (String.ofList text)
  | .alias _ target => target.keyText?
  | _ => .error ⟨"cannot decode a key"⟩

/-- The entries of a mapping that a merge key may name. -/
def Node.mergeEntries? : Node → Option (List (Node × Node))
  | .mapping entries => some entries
  | .alias _ (.mapping entries) => some entries
  | _ => none

/-- The mappings that the value of a merge key names. -/
def Node.mergeSources : Node → Except Fault (List (List (Node × Node)))
  | .sequence items =>
    items.mapM (fun item =>
      match item.mergeEntries? with
      | some entries => .ok entries
      | none => .error ⟨"map merge requires map or sequence of maps as the value"⟩)
  | n =>
    match n.mergeEntries? with
    | some entries => .ok [entries]
    | none => .error ⟨"map merge requires map or sequence of maps as the value"⟩

/-- All entries of a mapping with text keys, its own first and then those it takes over, which do not
replace earlier ones. The values are not read yet. -/
def gather : Nat → (seen : List String) → List (Node × Node) →
    Except Fault (List (String × Node) × List String)
  | 0, seen, _ => .ok ([], seen)
  | fuel + 1, seen, entries => do
    if hasRepeatedKey entries then throw ⟨"mapping key already defined"⟩
    let (own, seen) ← entries.foldlM
      (fun (acc, seen) (key, value) => do
        if key.isMerge then return (acc, seen)
        match ← key.keyText? with
        | none => return (acc, seen)
        | some k => if seen.contains k then return (acc, seen) else return (acc ++ [(k, value)], k :: seen))
      (([] : List (String × Node)), seen)
    match entries.reverse.find? (fun (key, _) => key.isMerge) with
    | none => return (own, seen)
    | some (_, value) =>
      let sources ← value.mergeSources
      sources.foldlM
        (fun (acc, seen) source => do
          let (more, seen) ← gather fuel seen source
          return (acc ++ more, seen))
        (own, seen)

/-- Reads a node as data. The fuel bounds the depth. -/
def Node.toData : Nat → Node → Except Fault Data
  | 0, _ => .error ⟨"nested too deeply"⟩
  | fuel + 1, n =>
    match n with
    | .scalar tag style text => (scalarAtom (scalarTag tag style text) text).map .atom
    | .alias _ target => target.toData fuel
    | .sequence items => do return .list (← items.mapM (fun item => item.toData fuel))
    | .mapping entries =>
      if hasRepeatedKey entries then .error ⟨"mapping key already defined"⟩
      else if entries.all (fun (key, _) => key.tag == "!!str" || key.tag == "!!merge") then do
        let (all, _) ← gather fuel [] entries
        return .map (← all.mapM (fun (key, value) => do return (key, ← value.toData fuel)))
      else do
        for (key, value) in entries do
          if key.isMerge then
            for source in ← value.mergeSources do
              for (_, v) in source do
                let _ ← v.toData fuel
          else
            match ← key.toData fuel with
            | .atom _ => pure ()
            | _ => throw ⟨"invalid map key"⟩
            let _ ← value.toData fuel
        return .general

mutual

/-- The depth of a node. -/
def Node.depth : Node → Nat
  | .scalar .. => 1
  | .sequence items => depthOfItems items + 1
  | .mapping entries => depthOfEntries entries + 1
  | .alias _ target => target.depth + 1

/-- The greatest depth of items. -/
def depthOfItems : List Node → Nat
  | [] => 0
  | n :: rest => max n.depth (depthOfItems rest)

/-- The greatest depth of entries. -/
def depthOfEntries : List (Node × Node) → Nat
  | [] => 0
  | (k, v) :: rest => max (max k.depth v.depth) (depthOfEntries rest)

end

/-- The JSON form of a scalar. -/
def Atom.toTree : Atom → Except Fault Json.Tree
  | null => .ok .null
  | bool b => .ok (.bool b)
  | int n => .ok (.int n)
  | float x => .ok (.real x)
  | special => .error ⟨"unsupported value"⟩
  | time t => .ok (.text t.fullStamp)
  | text s => .ok (.text s)

mutual

/-- The JSON form of data, with the keys of objects in order. -/
def Data.toTree : Data → Except Fault Json.Tree
  | .atom a => a.toTree
  | .list items => do return .array (← treesOf items)
  | .map entries => do
    let members ← membersOf entries
    let sorted := members.foldl (fun acc (key, t) => Json.insertMember key t acc) []
    return .record sorted
  | .general => .error ⟨"unsupported type"⟩

/-- The JSON form of items. -/
def treesOf : List Data → Except Fault (List Json.Tree)
  | [] => .ok []
  | d :: rest => do return (← d.toTree) :: (← treesOf rest)

/-- The JSON form of entries. -/
def membersOf : List (String × Data) → Except Fault (List (String × Json.Tree))
  | [] => .ok []
  | (key, d) :: rest => do return (key, ← d.toTree) :: (← membersOf rest)

end

/-- The data of the first document of a text; null when there is none. -/
def read (text : List Char) : Except Fault Data := do
  match ← parse text with
  | none => return .atom .null
  | some n => n.toData (n.depth + 1)

end FlowScript.Yaml
