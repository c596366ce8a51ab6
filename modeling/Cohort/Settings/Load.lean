import Cohort.Json.Parser
import Cohort.Settings.Lenient
import Cohort.Settings.Tree
import Cohort.Settings.Variable
import Cohort.Toml.Document

/-!
# Loading settings

Settings are collected from a file, which is written in JSON or in TOML, and from the
environment, which wins.

## Main definitions

* `Settings.FileFormat` — how files are written
* `Settings.fileTree` — the tree of a file
* `Settings.load` — settings from a file and the environment
-/

namespace Cohort.Settings

/-! ## Files -/

/-- How a file is written. -/
inductive FileFormat where
  | json
  | toml
  deriving DecidableEq, Repr

namespace FileFormat

/-- The ending of the names of such files. -/
def ending : FileFormat → String
  | .json => "json"
  | .toml => "toml"

/-- The tables of a text. -/
def parse? : FileFormat → String → Option Json
  | .json, text => (Json.parse? text).map Json.tidy
  | .toml, text => Toml.parse? text

/-- All formats, in the order in which they are tried. -/
def all : List FileFormat := [.toml, .json]

/-- The last part of a path. -/
def lastPart (path : String) : List Char :=
  (path.toList.reverse.takeWhile fun c => c != '/').reverse

/-- The characters after the last dot of the last part of a path. A dot at its start does not
count. -/
def ending? (path : String) : Option String :=
  let name := lastPart path
  let ending := (name.reverse.takeWhile fun c => c != '.').reverse
  if name.length ≤ ending.length + 1 then none else some (String.ofList ending)

/-- The format of a file with this name. -/
def ofName? (path : String) : Option FileFormat :=
  (ending? path).bind fun ending => all.find? fun format => format.ending == ending

end FileFormat

/-- A path written from its end, without the slashes and the single dots at that end. -/
def dropEnd : List Char → List Char
  | '/' :: rest => dropEnd rest
  | '.' :: '/' :: rest => dropEnd rest
  | ['.'] => []
  | cs => cs

/-- The path that endings are added to. A path that names only a place has none. -/
def stem? (path : String) : Option String :=
  let stem := String.ofList (dropEnd path.toList.reverse).reverse
  if stem.isEmpty || FileFormat.lastPart stem == ['.', '.'] then none else some stem

/-- The names under which a file is looked for. -/
def fileNames (path : String) : List String :=
  path ::
    match stem? path with
    | none => []
    | some stem => FileFormat.all.map fun format => stem ++ "." ++ format.ending

/-- The file that is meant by a path: the one with that name, or the first with an ending added. -/
def file? (read : String → Option String) (path : String) : Option (String × String) :=
  (fileNames path).findSome? fun name => (read name).map fun text => (name, text)

/-- Why settings cannot be loaded. -/
inductive LoadFailure where
  /-- A file is missing or malformed, or a member has a value that it cannot have. -/
  | unusable
  /-- A value is meant for a position of a list that there cannot be. -/
  | misplaced
  deriving DecidableEq, Repr

/-- The tree with a value where the text of a path says. -/
def place (tree : Json) (path : String) (value : Json) : Except LoadFailure Json :=
  match putAt? tree path value with
  | some tree => .ok tree
  | none => .error .misplaced

/-- The members at the top of a file. -/
def fileMembers? (read : String → Option String) (path : String) :
    Option (List (String × Json)) := do
  let (name, text) ← file? read path
  let format ← FileFormat.ofName? name
  match ← format.parse? text with
  | .object members => return members
  | _ => none

/-- The tree of a file. Its members are put at the paths that their keys stand for. -/
def fileTree (read : String → Option String) (path : String) : Except LoadFailure Json :=
  match fileMembers? read path with
  | none => .error .unusable
  | some members => members.foldlM (fun tree m => place tree m.1 m.2) (.object [])

/-! ## Loading -/

/-- The tree with the value of a variable. -/
def withVariable (tree : Json) (v : Variable) : Except LoadFailure Json :=
  match v.place? with
  | some path => place tree path v.json
  | none => .ok tree

/-- Settings from a file, if there is one, and the environment. -/
def load (read : String → Option String) (path : Option String) (env : List Variable) :
    Except LoadFailure Settings := do
  let tree ←
    match path with
    | none => pure (.object [])
    | some path => fileTree read path
  let tree ← env.foldlM withVariable tree
  match readWith .lenient tree with
  | some settings => return settings
  | none => throw .unusable

end Cohort.Settings
