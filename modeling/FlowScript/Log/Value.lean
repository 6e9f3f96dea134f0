import FlowScript.Decimal.Layout
import FlowScript.Text.Utf8
import FlowScript.Time.Calendar

/-!
# Values in log records

The attributes of a log record are names with values. A group is a value that holds attributes. Some
values are found only when they are asked for, and another moment may bring another answer; asking at
a moment settles a value.

## Main definitions

- `Value` is what is given to a log, `Settled` what it comes to at a moment.
- `Value.settled` asks a value at a moment, `settledMembers` the values of attributes.
-/

namespace FlowScript.Log

/-- A value that is no group. -/
inductive Scalar where
  | text (s : String)
  | int (n : Int)
  /-- A number of an unsigned type. -/
  | count (n : Nat)
  | real (x : Double)
  | bool (b : Bool)
  | duration (nanos : Int)
  | time (t : Moment)
  /-- The message of an error. -/
  | fault (message : String)
  | texts (items : List String)
  | none
  /-- Anything else, known by how it is printed and by its JSON form. -/
  | other (text document : String)

/-- The value of an attribute as it is given. -/
inductive Value where
  | scalar (s : Scalar)
  | group (members : List (String × Value))
  /-- An object that is looked at whenever it is written. -/
  | live (look : Nat → Scalar)
  /-- A value of a type whose values answer with another value when they are asked. -/
  | deferred (type : String) (answer : Nat → Value)

/-- The value of an attribute at one moment. -/
inductive Settled where
  | scalar (s : Scalar)
  | group (members : List (String × Settled))

/-- A name with a value. -/
abbrev Attribute := String × Value

namespace Value

/-- A text as a value. -/
def text (s : String) : Value := .scalar (.text s)

/-- A number as a value. -/
def int (n : Int) : Value := .scalar (.int n)

/-- A truth value as a value. -/
def bool (b : Bool) : Value := .scalar (.bool b)

/-- An error as a value. -/
def fault (message : String) : Value := .scalar (.fault message)

/-- A list of texts as a value. -/
def texts (items : List String) : Value := .scalar (.texts items)

/-- The value is a group without members. -/
def isEmptyGroup : Value → Bool
  | group [] => true
  | _ => false

/-- A group; members that are groups without members are left out. -/
def groupOf (members : List Attribute) : Value :=
  .group (members.filter (fun (_, v) => !v.isEmptyGroup))

/-- A value may be asked so many times until it has to answer with one that need not be asked. -/
def patience : Nat := 99

/-- The type of a value that has to be asked. -/
def asked : Value → String
  | deferred type _ => type
  | _ => ""

/-- The error in place of a value that was asked too often. -/
def evasive (type : String) : Scalar :=
  .fault ("LogValue called too many times on Value of type " ++ type)

end Value

mutual

/-- What a value comes to at a moment, when a value of the named type may be asked so many times
more. -/
def Value.settledWithin (now : Nat) (type : String) : (asks : Nat) → Value → Settled
  | _, .scalar s => .scalar s
  | _, .group members => .group (settledMembers now members)
  | _, .live look => .scalar (look now)
  | 0, .deferred _ _ => .scalar (Value.evasive type)
  | asks + 1, .deferred _ answer => (answer now).settledWithin now type asks

/-- What attributes come to at a moment. -/
def settledMembers (now : Nat) : List (String × Value) → List (String × Settled)
  | [] => []
  | (key, v) :: rest =>
    (key, v.settledWithin now v.asked Value.patience) :: settledMembers now rest

end

/-- What a value comes to at a moment. -/
def Value.settled (now : Nat) (v : Value) : Settled :=
  v.settledWithin now v.asked Value.patience

/-- An attribute without name and value is passed over. -/
def isVoid : String × Scalar → Bool
  | ("", .none) => true
  | _ => false

/-- A moment in words: date, time, offset and the name of the zone. -/
def momentText (t : Moment) : String :=
  let d := t.date
  let minutes := t.offset.natAbs / 60
  let zone := (if t.offset < 0 then '-' else '+') :: Text.padded 2 (minutes / 60)
    ++ Text.padded 2 (minutes % 60)
  String.ofList (Moment.yearChars d.year ++ '-' :: Text.padded 2 d.month ++ '-' :: Text.padded 2 d.day
    ++ ' ' :: t.timeChars ++ Moment.fractionChars t.nanos ++ ' ' :: zone ++ ' '
    :: if t.offset == 0 then "UTC".toList else zone)

/-- The bare text of a value. -/
def Scalar.show : Scalar → String
  | text s => s
  | int n => String.ofList (Text.signedDecimal n)
  | count n => String.ofList (Text.decimal n)
  | real x => x.render .brief
  | bool b => if b then "true" else "false"
  | duration nanos => Duration.text nanos
  | time t => momentText t
  | fault message => message
  | texts items => "[" ++ String.intercalate " " items ++ "]"
  | none => "<nil>"
  | other shown _ => shown

end FlowScript.Log
