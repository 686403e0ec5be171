/-!
# Blank characters

Numeric text in a record may be padded.  What counts as padding is the Unicode
property White_Space: twenty-five code points, of which nineteen lie outside
ASCII.

## Main definitions

* `blankRanges` — the property, as inclusive ranges of code points
* `isBlank` — membership of a character
* `trim` — a text without the blanks at its two ends

## Design notes

The zero-width space U+200B and the byte-order mark U+FEFF are *not* blank;
the next-line control U+0085 is.  Text is handled as `List Char` throughout the
numeral reader, so `trim` is two `dropWhile`s and needs no string positions.
-/

namespace YarnPreview.Text

/-- **The blank characters**: inclusive ranges of code points, ascending and
disjoint. -/
def blankRanges : List (Nat × Nat) :=
  [(0x0009, 0x000D), (0x0020, 0x0020), (0x0085, 0x0085), (0x00A0, 0x00A0),
   (0x1680, 0x1680), (0x2000, 0x200A), (0x2028, 0x2029), (0x202F, 0x202F),
   (0x205F, 0x205F), (0x3000, 0x3000)]

/-- A character is blank when its code point lies in one of `blankRanges`. -/
def isBlank (c : Char) : Bool :=
  blankRanges.any fun range => range.1 ≤ c.toNat && c.toNat ≤ range.2

/-- A text without its leading blanks. -/
def trimStart (text : List Char) : List Char :=
  text.dropWhile isBlank

/-- A text without its trailing blanks. -/
def trimEnd (text : List Char) : List Char :=
  (text.reverse.dropWhile isBlank).reverse

/-- **Trimming**: the text without the blanks at either end.  Blanks between two
other characters stay. -/
def trim (text : List Char) : List Char :=
  trimEnd (trimStart text)

@[simp] theorem trimStart_nil : trimStart [] = [] := rfl

@[simp] theorem trimEnd_nil : trimEnd [] = [] := rfl

@[simp] theorem trim_nil : trim [] = [] := rfl

end YarnPreview.Text
