/-!
# Letter case, ASCII only

Names and keywords are compared without regard to the case of the letters
`A`–`Z`; every other character stands for itself.
-/

namespace QueryReplay.Text

/-- The text with `A`–`Z` lowered. -/
def lower (s : String) : String :=
  String.ofList (s.toList.map Char.toLower)

/-- The text with `a`–`z` raised. -/
def upper (s : String) : String :=
  String.ofList (s.toList.map Char.toUpper)

/-- Equality up to the case of ASCII letters. -/
def sameLetters (a b : String) : Bool :=
  a.toList.map Char.toLower == b.toList.map Char.toLower

@[simp] theorem sameLetters_self (a : String) : sameLetters a a = true := by
  simp [sameLetters]

theorem sameLetters_comm (a b : String) : sameLetters a b = sameLetters b a := by
  simp [sameLetters, Bool.beq_comm]

theorem sameLetters_iff {a b : String} :
    sameLetters a b = true ↔ a.toList.map Char.toLower = b.toList.map Char.toLower := by
  simp [sameLetters]

end QueryReplay.Text
