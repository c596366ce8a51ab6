/-!
# Options of a command line

A command has options with long names. Some of them are switches, the others take a
value, which stands in the same word behind an equals sign or is the next word. Words
are read one after the other up to the name of a subcommand; the first word that has no
meaning, or that asks for help, ends the reading.

A value that is a word of its own is looked at when the next option is met, so that a
request for help behind a subcommand comes before a complaint about it.

## Main definitions

* `OptionSpec`, `Level` — what a command understands
* `Level.scan` — reads the words of a command
-/

namespace Cohort

/-- An option with a long name. -/
structure OptionSpec where
  name : String
  /-- What the value is called. A switch has no value. -/
  value : Option String := none
  help : String := ""
  /-- The variable that gives the value where the option is not given. -/
  variableName : Option String := none
  accepts : String → Bool := fun _ => true

/-- A command: its options, its subcommands, and what is said about it. -/
structure Level where
  /-- The words that are written for the command itself. -/
  usage : String
  about : String
  options : List OptionSpec := []
  /-- Words that are not options, and what they mean. -/
  arguments : List (String × String) := []
  /-- The subcommands, and what is said about them. -/
  commands : List (String × String) := []
  /-- The text that tells the version. -/
  version : Option String := none
  /-- The command has an option that asks for help. -/
  hasHelp : Bool := true

/-- Why reading ends before there is a command. -/
inductive Interruption where
  /-- Help on a command is asked for. -/
  | help (level : Level)
  /-- The version is asked for. -/
  | version (text : String)
  /-- The words cannot be understood. -/
  | misuse

namespace Level

/-- What has been read so far. -/
structure Reading where
  /-- The options that were given, with their values. -/
  given : List (String × String) := []
  /-- An option with a value that has not been looked at. -/
  pending : Option (String × String) := none
  /-- An option whose value is the next word. -/
  awaiting : Option String := none

/-- The option with a name. -/
def option? (l : Level) (name : String) : Option OptionSpec :=
  l.options.find? fun o => o.name == name

/-- Takes up an option, which can be given once and must have a value that it accepts. -/
def take (l : Level) (name value : String) (r : Reading) : Except Interruption Reading :=
  if (r.given.lookup name).isSome then .error .misuse
  else if (l.option? name).all fun o => o.accepts value then
    .ok { r with given := r.given ++ [(name, value)] }
  else .error .misuse

/-- Looks at the value that has not been looked at. -/
def settle (l : Level) (r : Reading) : Except Interruption Reading :=
  match r.pending with
  | none => .ok r
  | some (name, value) => l.take name value { r with pending := none }

/-- Ends the reading, unless something before was wrong. -/
def interrupt (l : Level) (r : Reading) (i : Interruption) : Except Interruption Reading := do
  let _ ← l.settle r
  throw i

/-- Reads a long option, maybe with its value. -/
def readLong (l : Level) (name : String) (attached : Option String) (r : Reading) :
    Except Interruption Reading := do
  match l.option? name with
  | some o =>
    let r ← l.settle r
    match o.value, attached with
    | none, none => l.take name "" r
    | none, some _ => throw .misuse
    | some _, some value => l.take name value r
    | some _, none => return { r with awaiting := some name }
  | none =>
    if attached.isSome then throw .misuse
    else if name == "help" && l.hasHelp then l.interrupt r (.help l)
    else if name == "version" then l.interrupt r ((l.version.map .version).getD .misuse)
    else throw .misuse

/-- Reads a word that is neither a value nor a subcommand. -/
def readWord (l : Level) (word : String) (r : Reading) : Except Interruption Reading :=
  match word.toList with
  | '-' :: '-' :: body =>
    let name := body.takeWhile fun c => c != '='
    let attached :=
      match body.drop name.length with
      | [] => none
      | _ :: value => some (String.ofList value)
    l.readLong (String.ofList name) attached r
  | '-' :: 'h' :: _ => if l.hasHelp then l.interrupt r (.help l) else .error .misuse
  | '-' :: 'V' :: _ => l.interrupt r ((l.version.map .version).getD .misuse)
  | _ => .error .misuse

/-- A word that begins like an option. -/
def isDashed (word : String) : Bool :=
  match word.toList with
  | '-' :: _ :: _ => true
  | _ => false

/-- Reads words up to the name of a subcommand, which is given with the words behind it. -/
def scan (l : Level) : List String → Reading →
    Except Interruption (Reading × Option (String × List String))
  | [], r => if r.awaiting.isSome then .error .misuse else .ok (r, none)
  | word :: rest, r =>
    match r.awaiting with
    | some name =>
      if isDashed word then .error .misuse
      else scan l rest { r with awaiting := none, pending := some (name, word) }
    | none =>
      if (l.commands.lookup word).isSome then .ok (r, some (word, rest))
      else if word == "--" then if rest.isEmpty then .ok (r, none) else .error .misuse
      else
        match l.readWord word r with
        | .error i => .error i
        | .ok r => scan l rest r

/-- Reads the words of a command without subcommands. -/
def readAll (l : Level) (words : List String) : Except Interruption (List (String × String)) := do
  let (r, _) ← l.scan words {}
  return (← l.settle r).given

end Level

end Cohort
