import FlowScript.Text.Search
import FlowScript.Web.Asset
import FlowScript.Web.Message
import FlowScript.Workspace.Path

/-!
# Paths of the web page

A path that is not in its shortest form is moved to it. The page is found under the root and not under
the name of its file, and an asset is not found with a slash at the end.
-/

namespace FlowScript.Web

open Text

/-- The shortest form of a path from the root; a slash at the end stays. -/
def cleanPath (path : List Char) : List Char :=
  if path.isEmpty then ['/']
  else
    let path := if path.head? == some '/' then path else '/' :: path
    let shortest := Path.clean path
    if path.getLast? == some '/' && shortest != ['/'] then shortest ++ ['/'] else shortest

/-- Where a request is moved to, if its path is not in its shortest form. -/
def redirection? (r : Request) : Option Response :=
  let path := r.path.toList
  let clean := cleanPath path
  if clean = path then none
  else some (.moved (String.ofList (escapePath clean) ++ r.query))

/-- The answer for a path at which there is nothing. -/
def notFound : Response := .plain 404 "404 page not found"

/-- The asset as an answer; the body is left out if only the head is asked for. -/
def Asset.response (a : Asset) (method : String) : Response :=
  { headers := [("Content-Type", a.mediaType)]
    body := if method = "HEAD" then "" else a.content }

/-- A query that is kept when a request is moved. A question mark alone is not. -/
def keptQuery (r : Request) : String :=
  if r.query = "?" then "" else r.query

/-- The answer to a request for an asset. -/
def assetResponse (r : Request) : Response :=
  let path := r.path.toList
  if endsWith ("/" ++ Asset.page.name).toList path then .moved ("./" ++ keptQuery r)
  else if path = ['/'] then Asset.page.response r.method
  else
    let name := String.ofList (dropFront ['/'] (Path.clean path))
    match Asset.all.find? (fun a => a.name == name) with
    | none => notFound
    | some a =>
      if path.getLast? == some '/' then .moved ("../" ++ name ++ keptQuery r)
      else a.response r.method

end FlowScript.Web
