import FlowScript.Text.Blank
import FlowScript.Text.Search

/-!
# Packages of a script

The modules that import lines name, and the packages that have to be installed to import them.
-/

namespace FlowScript

open Text

/-- Modules that come with the interpreter. -/
def bundledModules : List String :=
  ["sys", "os", "math", "json", "datetime", "re", "collections", "itertools", "functools", "random",
    "time", "abc", "asyncio", "builtins", "gc", "inspect", "marshal", "operator", "pickle", "pprint",
    "traceback", "types", "warnings", "weakref", "textwrap", "argparse", "base64", "configparser",
    "csv", "enum", "hashlib", "http", "logging", "pathlib", "platform", "queue", "shutil", "socket",
    "ssl", "string", "subprocess", "tempfile", "threading", "urllib", "uuid", "xml", "zipfile",
    "zlib", "contextlib", "io", "_pyodide", "typing", "dataclasses", "statistics", "decimal",
    "fractions", "copy", "glob", "struct", "heapq", "bisect", "array"]

/-- A module needs no package. -/
def isBundled (module : String) : Bool :=
  bundledModules.contains module

/-- Modules whose package has another name. -/
def renamedPackages : List (String × String) :=
  [("sklearn", "scikit-learn"), ("cv2", "opencv-python"), ("PIL", "Pillow"), ("yaml", "PyYAML"),
    ("bs4", "beautifulsoup4")]

/-- The package that provides a module. -/
def packageOf (module : String) : String :=
  (renamedPackages.lookup module).getD module

/-- The outermost module of a dotted name; none when nothing stands before the first dot. -/
def topModule? (name : List Char) : Option String :=
  let top := (strip name).takeWhile (· != '.')
  if top.isEmpty then none else some (String.ofList top)

/-- The modules that one import line names. Relative imports name none. -/
def modulesOfLine (line : String) : List String :=
  let cs := strip line.toList
  match dropFront? "import ".toList cs with
  | some names =>
    (cut ',' names).filterMap (fun part => topModule? ((strip part).takeWhile (· != ' ')))
  | none =>
    if startsWith "from ".toList cs then
      match wordsOf cs with
      | _ :: name :: _ => if name.head? == some '.' then [] else (topModule? name).toList
      | _ => []
    else []

/-- The modules that import lines name, each once, in the order of their first mention. -/
def importedModules (lines : List String) : List String :=
  ((lines.flatMap modulesOfLine).foldl
    (fun seen module => if seen.contains module then seen else module :: seen) []).reverse

/-- The packages that have to be installed for import lines. -/
def packagesOf (lines : List String) : List String :=
  ((importedModules lines).filter (fun module => !isBundled module)).map packageOf

end FlowScript
