/-!
# Texts as bytes

The system knows files by names that are bytes, and these need not be a text. `lossy` reads any bytes
as a text. What is no part of a character becomes the character `replacement`: one for each longest
start of a character that does not go on as the character should, and one for each other byte.

* `bytes`: the bytes of a text, in UTF-8.
* `lossy`: the text of bytes.
* `OsString`: a name or a path, as the system has it.
-/

namespace GoCalls

namespace Text

/-- The bytes of a text in UTF-8. -/
def bytes (s : String) : List UInt8 := s.toUTF8.data.toList

/-- The character that stands for bytes that are none. -/
def replacement : Char := '\uFFFD'

/-- A character of which the first bytes have been read, and the range of the next byte. -/
structure Partial where
  value : Nat
  missing : Nat
  low : Nat := 0x80
  high : Nat := 0xBF
  deriving DecidableEq

/-- The character that starts with a byte above ASCII. The ranges keep out what is no character. -/
def Partial.ofLead? (b : Nat) : Option Partial :=
  if 0xC2 ≤ b ∧ b ≤ 0xDF then some { value := b - 0xC0, missing := 1 }
  else if b = 0xE0 then some { value := 0, missing := 2, low := 0xA0 }
  else if b = 0xED then some { value := 0xD, missing := 2, high := 0x9F }
  else if 0xE1 ≤ b ∧ b ≤ 0xEF then some { value := b - 0xE0, missing := 2 }
  else if b = 0xF0 then some { value := 0, missing := 3, low := 0x90 }
  else if b = 0xF4 then some { value := 4, missing := 3, high := 0x8F }
  else if 0xF1 ≤ b ∧ b ≤ 0xF3 then some { value := b - 0xF0, missing := 3 }
  else none

/-- What the first byte of a character gives: the character, or its start. -/
def lossyLead (b : Nat) : List Char × Option Partial :=
  if b < 0x80 then ([Char.ofNat b], none)
  else
    match Partial.ofLead? b with
    | some p => ([], some p)
    | none => ([replacement], none)

/-- What a byte gives after the start of a character. -/
def Partial.push (p : Partial) (b : Nat) : List Char × Option Partial :=
  if p.low ≤ b ∧ b ≤ p.high then
    let value := 64 * p.value + (b - 0x80)
    if p.missing = 1 then ([Char.ofNat value], none)
    else ([], some { value, missing := p.missing - 1 })
  else
    let (found, next) := lossyLead b
    (replacement :: found, next)

/-- The characters of bytes, after the start of one if there is any. -/
def lossyFrom : Option Partial → List UInt8 → List Char
  | none, [] => []
  | some _, [] => [replacement]
  | none, b :: rest =>
    let (found, next) := lossyLead b.toNat
    found ++ lossyFrom next rest
  | some p, b :: rest =>
    let (found, next) := p.push b.toNat
    found ++ lossyFrom next rest

/-- The text of bytes. -/
def lossy (bytes : List UInt8) : String := String.ofList (lossyFrom none bytes)

end Text

/-- A name or a path as the system has it. -/
abbrev OsString := List UInt8

instance : Coe String OsString := ⟨Text.bytes⟩

end GoCalls
