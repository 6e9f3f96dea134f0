import FlowScript.Flow.Basic
import FlowScript.Flow.Identifier

/-!
# Ports from names

New ports for the names of a signature, and the ports of a node after its code changed: a port whose
source name is still there keeps its id and its display name, so that wires and renames survive.
-/

namespace FlowScript

/-- The readable part of a port id: the word characters of its name. -/
def portStem (name fallback : String) : String :=
  let stem := String.ofList (name.toList.filter isWordChar)
  if stem.isEmpty then fallback else stem

/-- A new port for a name at the given place in the list of its direction. -/
def newPort (nodeId : String) (direction : Direction) (name : String) (index : Nat)
    (supply : Supply) : Port × Supply :=
  let (side, fallback) :=
    if direction = .output then ("port_out", "output" ++ toString (index + 1))
    else ("port_in", "param" ++ toString index)
  let (short, supply) := supply.nextShort 6
  ({ id := side ++ "_" ++ nodeId ++ "_" ++ portStem name fallback ++ "_" ++ short
     name := name, sourceName := name, nodeId := nodeId, direction := direction }, supply)

/-- New ports for names, the first at place `index`. -/
def newPortsFrom (nodeId : String) (direction : Direction) (index : Nat) :
    List String → Supply → List Port × Supply
  | [], supply => ([], supply)
  | name :: rest, supply =>
    let (port, supply) := newPort nodeId direction name index supply
    let (ports, supply) := newPortsFrom nodeId direction (index + 1) rest supply
    (port :: ports, supply)

/-- New ports for a list of names. -/
def newPorts (nodeId : String) (direction : Direction) (names : List String) (supply : Supply) :
    List Port × Supply :=
  newPortsFrom nodeId direction 0 names supply

/-- The first port that is not used yet and fits a name: by its source name or, for ports that never
had one, by its display name. -/
def reusable? (existing : List Port) (used : List String) (name : String) : Option Port :=
  let free := existing.filter (fun p => !used.contains p.id)
  match free.find? (fun p => p.sourceName == name) with
  | some p => some p
  | none => free.find? (fun p => p.sourceName == "" && p.name == name)

/-- A port that is kept for a name. -/
def Port.keptFor (p : Port) (name nodeId : String) (direction : Direction) : Port :=
  { p with
    sourceName := name
    name := if p.name == "" then name else p.name
    direction := direction
    nodeId := nodeId }

/-- The ports for the names from place `index` on, when the ids in `used` are taken. -/
def reconcileFrom (existing : List Port) (direction : Direction) (nodeId : String)
    (used : List String) (index : Nat) : List String → Supply → List Port × Supply
  | [], supply => ([], supply)
  | name :: rest, supply =>
    match reusable? existing used name with
    | some p =>
      let (ports, supply) :=
        reconcileFrom existing direction nodeId (p.id :: used) (index + 1) rest supply
      (p.keptFor name nodeId direction :: ports, supply)
    | none =>
      let (p, supply) := newPort nodeId direction name index supply
      let (ports, supply) := reconcileFrom existing direction nodeId used (index + 1) rest supply
      (p :: ports, supply)

/-- The ports for a list of names, keeping the existing ports that fit. -/
def reconcilePorts (existing : List (Option Port)) (names : List String) (direction : Direction)
    (nodeId : String) (supply : Supply) : List Port × Supply :=
  reconcileFrom (existing.filterMap (fun p => p)) direction nodeId [] 0 names supply

end FlowScript
