/-!
# Reading bytes as UTF-8

Bytes that form no character are shown by the replacement character, one for
each longest run that could have begun a character.
-/

namespace QueryReplay.Text

/-- What shows bytes that form no character. -/
def replacementChar : Char := Char.ofNat 0xFFFD

/-- For a byte that begins a character of several bytes: how many follow, the
range of the first of them, and the bits it contributes. -/
def leadByte? (b : Nat) : Option (Nat × Nat × Nat × Nat) :=
  if 0xC2 ≤ b && b ≤ 0xDF then some (1, 0x80, 0xBF, b - 0xC0)
  else if b == 0xE0 then some (2, 0xA0, 0xBF, b - 0xE0)
  else if b == 0xED then some (2, 0x80, 0x9F, b - 0xE0)
  else if 0xE1 ≤ b && b ≤ 0xEF then some (2, 0x80, 0xBF, b - 0xE0)
  else if b == 0xF0 then some (3, 0x90, 0xBF, b - 0xF0)
  else if 0xF1 ≤ b && b ≤ 0xF3 then some (3, 0x80, 0xBF, b - 0xF0)
  else if b == 0xF4 then some (3, 0x80, 0x8F, b - 0xF0)
  else none

/-- Reads `count` more bytes, the first of them between `low` and `high`.
Answers the code point, if all are there, and the bytes not read. -/
def continueChar : Nat → Nat → Nat → Nat → List Nat → Option Nat × List Nat
  | 0, _, _, code, rest => (some code, rest)
  | count + 1, low, high, code, rest =>
    match rest with
    | b :: more =>
      if low ≤ b && b ≤ high then continueChar count 0x80 0xBF (code * 64 + (b - 0x80)) more
      else (none, rest)
    | [] => (none, [])

/-- The characters of a run of bytes no longer than the first argument. -/
def charsOfBytes : Nat → List Nat → List Char
  | 0, _ => []
  | _, [] => []
  | fuel + 1, b :: rest =>
    if b < 0x80 then Char.ofNat b :: charsOfBytes fuel rest
    else
      match leadByte? b with
      | none => replacementChar :: charsOfBytes fuel rest
      | some (count, low, high, code) =>
        match continueChar count low high code rest with
        | (some code, rest) => Char.ofNat code :: charsOfBytes fuel rest
        | (none, rest) => replacementChar :: charsOfBytes fuel rest

/-- The text of bytes. -/
def ofUtf8 (bytes : List Nat) : String := String.ofList (charsOfBytes bytes.length bytes)

end QueryReplay.Text
