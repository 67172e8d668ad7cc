/-!
# Blank characters

Command lines, environment values and error messages are trimmed by one class
of blank characters: the Unicode white-space property.  The table below lists
its ranges; trimming removes the longest blank run from an end.
-/

namespace BulkTransfer
namespace Text

/-- The code points with the white-space property, as inclusive ranges. -/
def blankRanges : List (Nat × Nat) :=
  [(0x9, 0xD), (0x20, 0x20), (0x85, 0x85), (0xA0, 0xA0), (0x1680, 0x1680),
    (0x2000, 0x200A), (0x2028, 0x2029), (0x202F, 0x202F), (0x205F, 0x205F),
    (0x3000, 0x3000)]

/-- Whether a character has the white-space property. -/
def isBlank (c : Char) : Bool :=
  blankRanges.any fun range => range.1 ≤ c.toNat && c.toNat ≤ range.2

/-- Remove the blanks in front. -/
def trimLeft (s : List Char) : List Char :=
  s.dropWhile isBlank

/-- Remove the blanks at the end. -/
def trimRight (s : List Char) : List Char :=
  (s.reverse.dropWhile isBlank).reverse

/-- Remove the blanks at both ends. -/
def trim (s : List Char) : List Char :=
  trimRight (trimLeft s)

@[simp] theorem trimLeft_nil : trimLeft [] = [] := rfl

theorem trimLeft_eq_self_of_head {c : Char} {s : List Char} (h : isBlank c = false) :
    trimLeft (c :: s) = c :: s := by
  simp [trimLeft, h]

end Text
end BulkTransfer
