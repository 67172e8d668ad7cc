/-!
# Text from bytes

Bytes are read as UTF-8.  Where they are not well formed, the longest piece that
could begin a character is replaced by one replacement character, and a byte that
begins nothing by another.
-/

namespace BulkTransfer
namespace Text

/-- The character that stands for bytes that are no text. -/
def replacement : Char := '\uFFFD'

/-- What the first byte of a character asks for: the number of further bytes, the
range of the next one, and the leading bits. -/
structure Lead where
  more : Nat
  low : Nat
  high : Nat
  bits : Nat
deriving DecidableEq, Repr

/-- Read the first byte of a character. -/
def lead? (b : Nat) : Option Lead :=
  if b < 0x80 then some ⟨0, 0x80, 0xBF, b⟩
  else if b < 0xC2 then none
  else if b < 0xE0 then some ⟨1, 0x80, 0xBF, b - 0xC0⟩
  else if b < 0xF0 then
    some ⟨2, if b = 0xE0 then 0xA0 else 0x80, if b = 0xED then 0x9F else 0xBF, b - 0xE0⟩
  else if b < 0xF5 then
    some ⟨3, if b = 0xF0 then 0x90 else 0x80, if b = 0xF4 then 0x8F else 0xBF, b - 0xF0⟩
  else none

/-- Take the further bytes of a character; the code point is missing if one of them
does not fit, and the rest then starts with that one. -/
def takeMore : Lead → Nat → List UInt8 → Option Nat × List UInt8
  | lead, 0, bytes => (some lead.bits, bytes)
  | _, _ + 1, [] => (none, [])
  | lead, more + 1, b :: bytes =>
      if lead.low ≤ b.toNat && b.toNat ≤ lead.high then
        takeMore ⟨more, 0x80, 0xBF, lead.bits * 64 + b.toNat % 64⟩ more bytes
      else (none, b :: bytes)

theorem takeMore_length (lead : Lead) (more : Nat) (bytes : List UInt8) :
    (takeMore lead more bytes).2.length ≤ bytes.length := by
  induction more generalizing lead bytes with
  | zero => simp [takeMore]
  | succ more ih =>
      cases bytes with
      | nil => simp [takeMore]
      | cons b bytes =>
          simp only [takeMore]
          split
          · exact Nat.le_trans (ih _ _) (by simp)
          · simp

/-- The characters of bytes, with replacements. -/
def lossy : List UInt8 → List Char
  | [] => []
  | b :: bytes =>
      match lead? b.toNat with
      | none => replacement :: lossy bytes
      | some lead =>
          have := takeMore_length lead lead.more bytes
          let char :=
            match (takeMore lead lead.more bytes).1 with
            | some code => Char.ofNat code
            | none => replacement
          char :: lossy (takeMore lead lead.more bytes).2
termination_by bytes => bytes.length

/-- The text of bytes, with replacements. -/
def ofBytes (bytes : ByteArray) : String :=
  String.ofList (lossy bytes.toList)

end Text
end BulkTransfer
