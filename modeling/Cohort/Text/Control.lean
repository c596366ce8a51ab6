/-!
# Control sequences

A terminal takes some characters of a text as orders: control characters, and the
sequences that an escape character begins. What is left without them is the visible
text. Tabs, line ends and form feeds are visible too.

A sequence that is not complete goes on in the text behind it, until it is complete or
the next sequence begins.

## Main definitions

* `Text.ControlState` — how far a sequence has been read
* `Text.visible` — the visible part of a text
* `Text.bold` — a text between the sequences that turn bold letters on and off
-/

namespace Cohort.Text

/-- What has been read between the beginning of a sequence and its final character. -/
inductive SequenceHead where
  | start
  | parameters
  | intermediates
  deriving DecidableEq, Repr

/-- The head with one more character, given by its code, if that belongs to it. -/
def SequenceHead.next? : SequenceHead → Nat → Option SequenceHead
  | head, code =>
    if 0x20 ≤ code ∧ code < 0x30 then some .intermediates
    else
      match head with
      | .start => if 0x30 ≤ code ∧ code < 0x40 then some .parameters else none
      | .parameters => if 0x30 ≤ code ∧ code < 0x3c then some .parameters else none
      | .intermediates => none

/-- How far a sequence has been read. -/
inductive ControlState where
  /-- No sequence has begun. -/
  | ground
  /-- An escape character has been read. -/
  | escape
  /-- An escape character with intermediate characters has been read. -/
  | designation
  /-- A control sequence has begun. -/
  | control (head : SequenceHead)
  /-- A control sequence is malformed, and its final character is still to come. -/
  | malformed
  /-- The head of a device control text is being read. -/
  | device (head : SequenceHead)
  /-- A command to the system is being read. -/
  | command
  /-- A text for a device or for an application is being read. -/
  | data
  deriving DecidableEq, Repr

namespace ControlState

/-- A control character of ASCII. -/
def isControl (c : Char) : Bool := decide (c.toNat < 0x20) || c.toNat == 0x7f

/-- A control character that is a blank. -/
def isBlankControl (c : Char) : Bool := c == '\t' || c == '\n' || c == '\x0c' || c == '\r'

/-- A character in whose coding there is the byte that ends the text for a device. -/
def endsData (c : Char) : Bool := (String.utf8EncodeChar c).contains 0x9c

/-- The state behind a character that follows an escape character. -/
def afterEscape (c : Char) : ControlState :=
  if c = '[' then .control .start
  else if c = ']' then .command
  else if c = 'P' then .device .start
  else if c = 'X' ∨ c = '^' ∨ c = '_' then .data
  else if c.toNat < 0x30 then .designation
  else .ground

/-- The state behind a character of ASCII that is no control character. -/
def afterGraphic (s : ControlState) (c : Char) : ControlState :=
  match s with
  | .ground => .ground
  | .escape => afterEscape c
  | .designation => if c.toNat < 0x30 then .designation else .ground
  | .control head =>
    match head.next? c.toNat with
    | some head => .control head
    | none => if c.toNat < 0x40 then .malformed else .ground
  | .malformed => if c.toNat < 0x40 then .malformed else .ground
  | .device head =>
    match head.next? c.toNat with
    | some head => .device head
    | none => .data
  | .command => .command
  | .data => .data

/-- The state behind a character. An escape character always begins a sequence, and there are two
characters that always end one. -/
def next (s : ControlState) (c : Char) : ControlState :=
  if c = '\x1b' then .escape
  else if c = '\x18' ∨ c = '\x1a' then .ground
  else if isControl c then if s = .command ∧ c = '\x07' then .ground else s
  else if c.toNat < 0x80 then s.afterGraphic c
  else if s = .data ∧ endsData c then .ground
  else s

/-- A character is visible in a state. -/
def shows : ControlState → Char → Bool
  | .ground, c => !isControl c || isBlankControl c
  | .device _, _ | .command, _ | .data, _ => false
  | _, c => isBlankControl c

end ControlState

/-- The visible characters from a state on. Behind a visible character all characters are taken as
those of no sequence, up to one that is not visible. That one goes on with the sequence in which
the visible characters began, unless one of them is outside ASCII. -/
def visibleFrom (showing : Bool) (s : ControlState) : List Char → List Char
  | [] => []
  | c :: rest =>
    if (if showing then ControlState.ground else s).shows c then
      c :: visibleFrom true (if c.toNat < 0x80 then s else .ground) rest
    else visibleFrom false (s.next c) rest

/-- The visible part of a text. -/
def visible (s : String) : String := String.ofList (visibleFrom false .ground s.toList)

/-- A text between the sequences that turn bold letters on and off. -/
def bold (s : String) : String := "\x1b[1m" ++ s ++ "\x1b[0m"

end Cohort.Text
