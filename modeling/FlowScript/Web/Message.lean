import FlowScript.Json.Value
import FlowScript.Text.Letter
import FlowScript.Web.Percent

/-!
# Requests and responses

The messages of the web server, as far as they matter to it.
-/

namespace FlowScript.Web

open Text

/-- A request. -/
structure Request where
  method : String
  /-- The path and query as they were sent. -/
  target : String
  headers : List (String × String) := []
  host : String := ""
  /-- The address of the client. -/
  client : String := ""
  body : String := ""
  /-- The number of events that a subscriber waits for before it leaves. -/
  patience : Nat := 0

namespace Request

/-- The value of a header, empty if it was not sent. The case of its name does not matter. -/
def header (r : Request) (name : String) : String :=
  match r.headers.find? (fun h => lower h.1 == lower name) with
  | some h => h.2
  | none => ""

/-- The path, with its escapes replaced. -/
def path (r : Request) : String :=
  let spelled := r.target.toList.takeWhile (· != '?')
  String.ofList ((unescape? spelled).getD spelled)

/-- The query with the question mark in front of it, or nothing. -/
def query (r : Request) : String :=
  String.ofList (r.target.toList.dropWhile (· != '?'))

end Request

/-- A response. -/
structure Response where
  status : Nat := 200
  headers : List (String × String) := []
  body : String := ""

namespace Response

/-- A response in JSON. -/
def json (status : Nat) (t : Json.Tree) : Response :=
  { status
    headers := [("Content-Type", "application/json")]
    body := String.ofList (t.compact .escaped) ++ "\n" }

/-- An error in JSON. -/
def error (status : Nat) (message : String) : Response :=
  json status (.record [("error", .text message)])

/-- A line of plain text. -/
def plain (status : Nat) (line : String) : Response :=
  { status
    headers := [("Content-Type", "text/plain; charset=utf-8")]
    body := line ++ "\n" }

/-- Tells that something has moved for good. -/
def moved (location : String) : Response :=
  { status := 301, headers := [("Location", location)] }

/-- Adds a header. -/
def withHeader (r : Response) (name value : String) : Response :=
  { r with headers := r.headers ++ [(name, value)] }

end Response

end FlowScript.Web
