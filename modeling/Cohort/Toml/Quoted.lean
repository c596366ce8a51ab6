import Cohort.Json.Parser
import Cohort.Toml.Gap

/-!
# Texts in TOML

A text stands in double quotes, with escapes, or in single quotes, without them. In
three quotes of a kind it may go over several lines, and each line end in it counts as
a line feed. One or two quotes may then stand directly before the closing ones.

## Main definitions

* `Toml.readBasic?`, `Toml.readLiteral?` — texts on one line
* `Toml.readLongBasic?`, `Toml.readLongLiteral?` — texts over several lines
* `Toml.readQuoted?` — a text in any kind of quotes
-/

namespace Cohort.Toml

/-- The character with a code that was written in hexadecimal digits. -/
def ofCode? (digits : List Char) : Option Char := do
  let values ← digits.mapM Json.hexValue?
  let code := values.foldl (fun n d => 16 * n + d) 0
  if code.isValidChar then some (Char.ofNat code) else none

/-- The character of a one-letter escape. -/
def escaped? (c : Char) : Option Char := if c = '/' then none else Json.escaped? c

/-- Reads a text up to its closing quote. -/
def readBasic? : List Char → Option (List Char × List Char)
  | [] => none
  | '"' :: rest => some ([], rest)
  | '\\' :: 'u' :: a :: b :: c :: d :: rest => do
    let e ← ofCode? [a, b, c, d]
    let (s, after) ← readBasic? rest
    return (e :: s, after)
  | '\\' :: 'U' :: a :: b :: c :: d :: e :: f :: g :: h :: rest => do
    let x ← ofCode? [a, b, c, d, e, f, g, h]
    let (s, after) ← readBasic? rest
    return (x :: s, after)
  | '\\' :: c :: rest => do
    let e ← escaped? c
    let (s, after) ← readBasic? rest
    return (e :: s, after)
  | c :: rest =>
    if isPlain c && c != '\\' then (readBasic? rest).map fun (s, after) => (c :: s, after)
    else none

/-- Reads a text without escapes up to its closing quote. -/
def readLiteral? (cs : List Char) : Option (List Char × List Char) :=
  let body := cs.takeWhile fun c => isPlain c && c != '\''
  match cs.drop body.length with
  | '\'' :: rest => some (body, rest)
  | _ => none

/-- Only blanks stand before the next line end. -/
def isLineDone (cs : List Char) : Bool := (readLineEnd? (skipBlanks cs)).isSome

/-- Reads a text over several lines up to three quotes. After a backslash at the end of a line,
blanks and line ends are skipped. -/
def readLongBasic? (skipping : Bool) : List Char → Option (List Char × List Char)
  | [] => none
  | '"' :: '"' :: '"' :: '"' :: '"' :: rest => some (['"', '"'], rest)
  | '"' :: '"' :: '"' :: '"' :: rest => some (['"'], rest)
  | '"' :: '"' :: '"' :: rest => some ([], rest)
  | '\\' :: 'u' :: a :: b :: c :: d :: rest => do
    let e ← ofCode? [a, b, c, d]
    let (s, after) ← readLongBasic? false rest
    return (e :: s, after)
  | '\\' :: 'U' :: a :: b :: c :: d :: e :: f :: g :: h :: rest => do
    let x ← ofCode? [a, b, c, d, e, f, g, h]
    let (s, after) ← readLongBasic? false rest
    return (x :: s, after)
  | '\\' :: rest =>
    if isLineDone rest then readLongBasic? true rest
    else
      match rest with
      | [] => none
      | c :: rest => do
        let e ← escaped? c
        let (s, after) ← readLongBasic? false rest
        return (e :: s, after)
  | '\r' :: '\n' :: rest =>
    if skipping then readLongBasic? true rest
    else (readLongBasic? false rest).map fun (s, after) => ('\n' :: s, after)
  | c :: rest =>
    if skipping && (isBlank c || c == '\n') then readLongBasic? true rest
    else if isPlain c || c == '\n' then
      (readLongBasic? false rest).map fun (s, after) => (c :: s, after)
    else none

/-- Reads a text without escapes over several lines up to three quotes. -/
def readLongLiteral? : List Char → Option (List Char × List Char)
  | [] => none
  | '\'' :: '\'' :: '\'' :: '\'' :: '\'' :: rest => some (['\'', '\''], rest)
  | '\'' :: '\'' :: '\'' :: '\'' :: rest => some (['\''], rest)
  | '\'' :: '\'' :: '\'' :: rest => some ([], rest)
  | '\r' :: '\n' :: rest => (readLongLiteral? rest).map fun (s, after) => ('\n' :: s, after)
  | c :: rest =>
    if isPlain c || c == '\n' then
      (readLongLiteral? rest).map fun (s, after) => (c :: s, after)
    else none

/-- Drops the line end that directly follows the opening quotes. -/
def dropFirstLineEnd (cs : List Char) : List Char := (readLineEnd? cs).getD cs

/-- Reads a text in any kind of quotes. -/
def readQuoted? (cs : List Char) : Option (String × List Char) :=
  let result :=
    match cs with
    | '"' :: '"' :: '"' :: rest => readLongBasic? false (dropFirstLineEnd rest)
    | '\'' :: '\'' :: '\'' :: rest => readLongLiteral? (dropFirstLineEnd rest)
    | '"' :: rest => readBasic? rest
    | '\'' :: rest => readLiteral? rest
    | _ => none
  result.map fun (s, rest) => (String.ofList s, rest)

end Cohort.Toml
