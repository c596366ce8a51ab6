import Cohort.Command.Level
import Cohort.Settings.Variable
import Cohort.Text.Control

/-!
# Help on commands

The help on a command says what the command is for, how it is written, and what its
subcommands, arguments and options mean. Explanations stand in a column beside the
names, or below them where there is not enough room. No line is broken to fit.

The values of variables are shown as they are, and may hold control sequences. Only the
visible part of the whole help is given. Names of options are bold before that, so a
sequence that a value leaves open ends at the next name.

## Main definitions

* `Level.helpText` — the help on a command
-/

namespace Cohort

open Settings (Variable)

/-- Names of one thing and their explanation. -/
structure HelpRow where
  /-- How many spaces stand before the names. -/
  margin : Nat := 2
  names : List String
  /-- What stands behind the names. -/
  value : String := ""
  text : String
  /-- A remark after the explanation. -/
  note : String := ""

namespace HelpRow

/-- How many characters a line has. -/
def lineWidth : Nat := 100

/-- The explanation with the remark. -/
def explanation (r : HelpRow) : String :=
  if r.text.isEmpty || r.note.isEmpty then r.text ++ r.note else r.text ++ " " ++ r.note

/-- So many spaces. -/
def spaces (n : Nat) : String := String.ofList (List.replicate n ' ')

/-- The names with what stands around them, where each name is written in some way. -/
def label (write : String → String) (r : HelpRow) : String :=
  spaces r.margin ++ ", ".intercalate (r.names.map write) ++ r.value

/-- The room that the names take. -/
def width (r : HelpRow) : Nat := (r.label id).length

/-- The room that the names of all rows take, with two spaces after them. -/
def column (rows : List HelpRow) : Nat := rows.foldl (fun n r => max n (r.width + 2)) 0

/-- Too little room is left beside the names for the explanation. -/
def isCramped (column : Nat) (r : HelpRow) : Bool :=
  40 < column && column ≤ lineWidth && lineWidth - column < r.text.length + r.note.length

/-- An explanation whose later lines stand below its first one. Lines are as long as they are. -/
def block (indent : Nat) (text : String) : String :=
  String.ofList (text.toList.flatMap fun c =>
    if c = '\n' then c :: List.replicate indent ' ' else [c])

/-- A row with the explanation beside the name. -/
def beside (column : Nat) (r : HelpRow) : String :=
  r.label Text.bold ++ spaces (column - r.width) ++ block column r.explanation

/-- How far in an explanation stands below its name. -/
def indent : Nat := 10

/-- A row with the explanation below the name. -/
def below (r : HelpRow) : String :=
  r.label Text.bold ++ "\n" ++ spaces indent ++ block indent r.explanation

/-- A section of rows. -/
def section? (title : String) (rows : List HelpRow) : Option String :=
  if rows.isEmpty then none
  else
    let width := column rows
    let lines :=
      if rows.any (isCramped width) then rows.map below else rows.map (beside width)
    some (title ++ ":\n" ++ "\n".intercalate lines)

end HelpRow

namespace OptionSpec

/-- What tells of the variable of an option and of its value. -/
def note (env : List Variable) (o : OptionSpec) : String :=
  match o.variableName with
  | none => ""
  | some name => "[env: " ++ name ++ "=" ++ (Variable.value? name env).getD "" ++ "]"

/-- The row of an option. -/
def row (env : List Variable) (o : OptionSpec) : HelpRow where
  margin := 6
  names := ["--" ++ o.name]
  value :=
    match o.value with
    | none => ""
    | some value => " <" ++ value ++ ">"
  text := o.help
  note := o.note env

end OptionSpec

namespace Level

/-- The rows of all options, with those that every command has. -/
def optionRows (env : List Variable) (l : Level) : List HelpRow :=
  l.options.map (OptionSpec.row env) ++
    (if l.hasHelp then [{ names := ["-h", "--help"], text := "Print help" }] else []) ++
    (if l.version.isSome then [{ names := ["-V", "--version"], text := "Print version" }] else [])

/-- The rows of names that have no values. -/
def plainRows (names : List (String × String)) : List HelpRow :=
  names.map fun (name, text) => { names := [name], text }

/-- The help on a command. -/
def helpText (env : List Variable) (l : Level) : String :=
  let sections :=
    [HelpRow.section? "Commands" (plainRows l.commands),
      HelpRow.section? "Arguments" (plainRows l.arguments),
      HelpRow.section? "Options" (l.optionRows env)]
  Text.visible
    ("\n\n".intercalate (l.about :: ("Usage: " ++ l.usage) :: sections.filterMap id) ++ "\n")

end Level

end Cohort
