/-!
# Blanks and words

Text that people write by hand (field names, operators, dates, numbers) is read
with its surrounding blanks removed. A blank is any character with the Unicode
property White_Space.

## Main definitions

* `Text.isBlank` — the characters that separate words
* `Text.trim` — a text without its leading and trailing blanks
* `Text.words` — the maximal blank-free pieces of a text
-/

namespace Cohort.Text

/-- The characters with the Unicode property White_Space. -/
def isBlank (c : Char) : Bool :=
  let n := c.toNat
  (9 ≤ n && n ≤ 13) || n == 0x20 || n == 0x85 || n == 0xA0 || n == 0x1680 ||
    (0x2000 ≤ n && n ≤ 0x200A) || n == 0x2028 || n == 0x2029 || n == 0x202F ||
    n == 0x205F || n == 0x3000

/-- The characters left after dropping leading blanks. -/
def trimStartChars (cs : List Char) : List Char := cs.dropWhile isBlank

/-- The characters left after dropping leading and trailing blanks. -/
def trimChars (cs : List Char) : List Char :=
  (trimStartChars (trimStartChars cs).reverse).reverse

/-- A text without its leading and trailing blanks. -/
def trim (s : String) : String := String.ofList (trimChars s.toList)

/-- A text that holds nothing but blanks. -/
def isBlankText (s : String) : Bool := s.toList.all isBlank

/-- The words of `cs`, where `current` is the part of the first word already read. -/
def wordsFrom (current : List Char) : List Char → List (List Char)
  | [] => if current.isEmpty then [] else [current]
  | c :: rest =>
    if isBlank c then
      if current.isEmpty then wordsFrom [] rest else current :: wordsFrom [] rest
    else wordsFrom (current ++ [c]) rest

/-- The maximal blank-free pieces of a text, in order. -/
def words (s : String) : List String := (wordsFrom [] s.toList).map String.ofList

end Cohort.Text
