import FlowScript.Toml.Quoted
import FlowScript.Toml.Value

/-!
# TOML documents

A document is a list of statements: assignments and the headers of tables and of tables in a list.
Statements are read one after the other and then carried out on the members of the document, which
refuses to define anything twice.
-/

namespace FlowScript.Toml

/-- How a table came to be. -/
inductive Origin where
  /-- A header names something below it. -/
  | implied
  | header
  /-- The key of an assignment goes through it; the number tells the section of the assignment. -/
  | dotted (section_ : Nat)
  deriving DecidableEq

/-- What a key of a document holds while it is read. -/
inductive Item where
  | value (v : Value)
  | table (origin : Origin) (members : List (String × Item))
  /-- A list of tables; the last one is still open. -/
  | tables (earlier : List (List (String × Item))) (last : List (String × Item))

/-- The members of a table, in the order of their definition. -/
abbrev Members := List (String × Item)

/-- Puts an item in the place of the one with the same key, or at the end. -/
def Members.set (m : Members) (key : String) (item : Item) : Members :=
  if m.any (fun e => e.1 == key) then m.map (fun e => if e.1 == key then (key, item) else e)
  else m ++ [(key, item)]

/-- Defines the value at a key. Nothing is defined there yet, and each table on the way is new, implied
by a header, or made by an assignment of the same section. -/
def Members.assign (section_ : Nat) (v : Value) : List String → Members → Option Members
  | [], _ => none
  | [key], m => if (m.lookup key).isSome then none else some (m.set key (.value v))
  | key :: path, m =>
    match m.lookup key with
    | none => (Members.assign section_ v path []).map (fun inner =>
        m.set key (.table (.dotted section_) inner))
    | some (.table origin inner) =>
      if origin = .implied ∨ origin = .dotted section_ then
        (Members.assign section_ v path inner).map (fun inner => m.set key (.table origin inner))
      else none
    | some _ => none

/-- Follows the header of a table, or of a table in a list, and opens what it names. A table is opened
once. -/
def Members.open_ (listed : Bool) : List String → Members → Option Members
  | [], _ => none
  | [key], m =>
    match m.lookup key, listed with
    | none, false => some (m.set key (.table .header []))
    | none, true => some (m.set key (.tables [] []))
    | some (.table .implied inner), false => some (m.set key (.table .header inner))
    | some (.tables earlier last), true => some (m.set key (.tables (earlier ++ [last]) []))
    | _, _ => none
  | key :: path, m =>
    match m.lookup key with
    | none => (Members.open_ listed path []).map (fun inner => m.set key (.table .implied inner))
    | some (.table origin inner) =>
      (Members.open_ listed path inner).map (fun inner => m.set key (.table origin inner))
    | some (.tables earlier last) =>
      (Members.open_ listed path last).map (fun last => m.set key (.tables earlier last))
    | some (.value _) => none

/-- Changes the table that a header names. -/
def Members.within (change : Members → Option Members) : List String → Members → Option Members
  | [], m => change m
  | key :: path, m =>
    match m.lookup key with
    | some (.table origin inner) =>
      (Members.within change path inner).map (fun inner => m.set key (.table origin inner))
    | some (.tables earlier last) =>
      (Members.within change path last).map (fun last => m.set key (.tables earlier last))
    | _ => none

mutual

/-- The value that an item stands for. -/
def Item.toValue : Item → Value
  | .value v => v
  | .table _ members => .table (toValues members)
  | .tables earlier last => .array (toTables earlier ++ [.table (toValues last)])

/-- The values of members. -/
def toValues : List (String × Item) → List (String × Value)
  | [] => []
  | (key, item) :: rest => (key, item.toValue) :: toValues rest

/-- The tables of a list. -/
def toTables : List (List (String × Item)) → List Value
  | [] => []
  | members :: rest => .table (toValues members) :: toTables rest

end

/-- One statement. -/
inductive Statement where
  | assign (key : List String) (v : Value)
  | header (listed : Bool) (key : List String)

/-- A document while its statements are carried out. -/
structure Draft where
  members : Members := []
  /-- The key of the open table. -/
  current : List String := []
  /-- The number of headers so far. -/
  section_ : Nat := 0

/-- Carries out a statement. -/
def Draft.add (d : Draft) : Statement → Option Draft
  | .assign key v => do
    return { d with members := ← d.members.within (Members.assign d.section_ v key) d.current }
  | .header listed key => do
    return ⟨← d.members.open_ listed key, key, d.section_ + 1⟩

/-! ## Reading -/

/-- A blank on a line. -/
def isBlank (c : Char) : Bool :=
  c == ' ' || c == '\t'

/-- Skips blanks. -/
def skipBlanks (cs : List Char) : List Char :=
  cs.dropWhile isBlank

/-- Skips blanks, line breaks and remarks. A return that does not belong to a line break is refused. -/
def skipGaps (inRemark : Bool) : List Char → Option (List Char)
  | [] => some []
  | '\r' :: '\n' :: rest => skipGaps false rest
  | c :: rest =>
    if c == '\n' then skipGaps false rest
    else if c == '\r' then none
    else if inRemark then if isAllowed c then skipGaps true rest else none
    else if isBlank c then skipGaps false rest
    else if c == '#' then skipGaps true rest
    else some (c :: rest)

/-- Nothing but a remark is left on the line. -/
def endsLine (cs : List Char) : Bool :=
  match skipBlanks cs with
  | [] => true
  | c :: _ => c == '\n' || c == '\r' || c == '#'

/-- Reads a key: parts with points between them. The count bounds the number of parts. -/
def key? : Nat → List Char → Option (List String × List Char)
  | 0, _ => none
  | n + 1, cs => do
    let (part, rest) ← keyPart? cs
    match skipBlanks rest with
    | '.' :: rest =>
      let (parts, rest) ← key? n (skipBlanks rest)
      return (part :: parts, rest)
    | rest => return ([part], rest)

mutual

/-- Reads a value. The first argument bounds the steps of this reader and of the two below. -/
def value? : Nat → List Char → Option (Value × List Char)
  | 0, _ => none
  | n + 1, cs =>
    match cs with
    | '[' :: rest => (items? n [] rest).map (fun (items, rest) => (.array items, rest))
    | '\x7b' :: rest => (inline? n true [] rest).map (fun (m, rest) => (.table (toValues m), rest))
    | cs =>
      if cs.head? == some '"' || cs.head? == some '\'' then
        (quoted? cs).map (fun (s, rest) => (.text s, rest))
      else word? cs

/-- Reads the rest of a list. Items are divided by commas and one more may follow the last. -/
def items? : Nat → List Value → List Char → Option (List Value × List Char)
  | 0, _, _ => none
  | n + 1, done, cs => do
    match ← skipGaps false cs with
    | ']' :: rest => return (done.reverse, rest)
    | c :: rest =>
      let cs ← if done.isEmpty then some (c :: rest) else if c == ',' then skipGaps false rest else none
      match cs with
      | ']' :: rest => return (done.reverse, rest)
      | cs =>
        let (v, rest) ← value? n cs
        items? n (v :: done) rest
    | [] => none

/-- Reads the rest of a table on one line. -/
def inline? : Nat → (first : Bool) → Members → List Char → Option (Members × List Char)
  | 0, _, _, _ => none
  | n + 1, first, done, cs => do
    match skipBlanks cs with
    | '\x7d' :: rest => return (done, rest)
    | c :: rest =>
      let cs ← if first then some (c :: rest) else if c == ',' then some (skipBlanks rest) else none
      let (key, rest) ← key? n cs
      let rest ← Moment.expect '=' (skipBlanks rest)
      let (v, rest) ← value? n (skipBlanks rest)
      inline? n false (← done.assign 0 v key) rest
    | [] => none

end

/-- Reads one statement; the count bounds its steps. -/
def statement? (n : Nat) (cs : List Char) : Option (Statement × List Char) :=
  match cs with
  | '[' :: '[' :: rest => do
    let (key, rest) ← key? n (skipBlanks rest)
    let rest ← Moment.expect ']' (skipBlanks rest)
    return (.header true key, ← Moment.expect ']' rest)
  | '[' :: rest => do
    let (key, rest) ← key? n (skipBlanks rest)
    return (.header false key, ← Moment.expect ']' (skipBlanks rest))
  | cs => do
    let (key, rest) ← key? n cs
    let rest ← Moment.expect '=' (skipBlanks rest)
    let (v, rest) ← value? n (skipBlanks rest)
    return (.assign key v, rest)

/-- Reads statements, each on lines of its own, and carries them out. -/
def fill : Nat → Draft → List Char → Option Draft
  | 0, _, _ => none
  | n + 1, d, cs => do
    match ← skipGaps false cs with
    | [] => return d
    | cs =>
      let (s, rest) ← statement? (n + 1) cs
      if endsLine rest then fill n (← d.add s) rest else none

/-- The members of a document; none if it is malformed. -/
def parse? (cs : List Char) : Option (List (String × Value)) :=
  (fill (cs.length + 2) {} cs).map (fun d => toValues d.members)

end FlowScript.Toml
