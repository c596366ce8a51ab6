/-!
# Quoted SQL text

A text literal of a query stands between single quotes, and a quote inside it is
written twice.

## Main definitions

* `Text.quote` — the literal of a text
* `Text.readQuoted` — reads one literal from the front of a list of characters
-/

namespace Cohort.Text

/-- The mark that opens and closes a literal. -/
def quoteMark : Char := '\''

/-- The body of a literal: every quote is written twice. -/
def doubleQuotes : List Char → List Char
  | [] => []
  | c :: rest =>
    if c = quoteMark then quoteMark :: quoteMark :: doubleQuotes rest
    else c :: doubleQuotes rest

/-- The characters of the literal of a text. -/
def quoteChars (cs : List Char) : List Char := quoteMark :: doubleQuotes cs ++ [quoteMark]

/-- The literal of a text. -/
def quote (s : String) : String := String.ofList (quoteChars s.toList)

/-- Reads the body of a literal up to its closing quote, and returns what follows. A quote
that is followed by another one stands for a quote; any other quote closes the literal. -/
def readBody : List Char → Option (List Char × List Char)
  | [] => none
  | [c] => if c = quoteMark then some ([], []) else none
  | c :: d :: rest =>
    if c = quoteMark then
      if d = quoteMark then (readBody rest).map fun (body, after) => (quoteMark :: body, after)
      else some ([], d :: rest)
    else (readBody (d :: rest)).map fun (body, after) => (c :: body, after)

/-- Reads one literal from the front of `cs`: its text and what follows it. -/
def readQuoted : List Char → Option (List Char × List Char)
  | [] => none
  | c :: rest => if c = quoteMark then readBody rest else none

end Cohort.Text
