/-!
# Letter case

Names of fields, operators and schedules are compared without regard to the case
of their ASCII letters. Other letters keep their case. In names of settings the Kelvin
sign counts as well, which is the one capital outside ASCII with a small letter in it.

## Main definitions

* `Text.lower`, `Text.upper` — one case for all ASCII letters
* `Text.small` — small letters wherever they are in ASCII
-/

namespace Cohort.Text

/-- The text with ASCII capitals made small. -/
def lower (s : String) : String := String.ofList (s.toList.map Char.toLower)

/-- The text with small ASCII letters made capital. -/
def upper (s : String) : String := String.ofList (s.toList.map Char.toUpper)

/-- The small letter of a character, if that is in ASCII, and else the character. -/
def smallLetter (c : Char) : Char := if c = '\u212a' then 'k' else c.toLower

/-- The text with small letters wherever they are in ASCII. -/
def small (s : String) : String := String.ofList (s.toList.map smallLetter)

/-- Two texts are the same up to the case of their ASCII letters. -/
def sameLetters (a b : String) : Bool := lower a == lower b

end Cohort.Text
