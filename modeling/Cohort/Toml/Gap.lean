/-!
# Blanks, line ends and comments

What may stand between the parts of a TOML text. A comment ends with its line, and no
control character but the tab may stand in it.

## Main definitions

* `Toml.isPlain` — the characters of comments and of texts without escapes
* `Toml.readLineEnd?` — one line end
* `Toml.skipBlanks`, `Toml.skipGap` — blanks, and blanks with line ends and comments
-/

namespace Cohort.Toml

/-- A blank within a line. -/
def isBlank (c : Char) : Bool := c == ' ' || c == '\t'

/-- A tab, or a character that is no control character of ASCII. -/
def isPlain (c : Char) : Bool := c == '\t' || (decide (32 ≤ c.toNat) && c.toNat != 127)

/-- Drops leading blanks. -/
def skipBlanks (cs : List Char) : List Char := cs.dropWhile isBlank

/-- Reads a line end: a line feed, which may follow a carriage return. -/
def readLineEnd? : List Char → Option (List Char)
  | '\n' :: rest => some rest
  | '\r' :: '\n' :: rest => some rest
  | _ => none

/-- Drops leading blanks, line ends and comments. -/
def skipGap (inComment : Bool) : List Char → List Char
  | [] => []
  | '\n' :: rest => skipGap false rest
  | '\r' :: '\n' :: rest => skipGap false rest
  | c :: rest =>
    if inComment then if isPlain c then skipGap true rest else c :: rest
    else if isBlank c then skipGap false rest
    else if c = '#' then skipGap true rest
    else c :: rest

/-- A line ends here, maybe with a comment. -/
def atLineEnd (cs : List Char) : Bool :=
  match skipBlanks cs with
  | [] => true
  | '#' :: _ => true
  | rest => (readLineEnd? rest).isSome

end Cohort.Toml
