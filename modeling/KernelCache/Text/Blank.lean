/-
**Blank characters.**

The blank characters are the twenty-five of the Unicode property `White_Space`.  Trimming takes
them off the ends of a text, and the words of a text are what lies between them.

Main definitions:

* `isBlank` — the property;
* `trimStart`, `trimEnd`, `trim` — a text without the blanks at its ends;
* `words` — the non-empty pieces between blanks.
-/

set_option relaxedAutoImplicit false
set_option autoImplicit false

namespace KernelCache.Text

/-- The Unicode property `White_Space`. -/
def isBlank (c : Char) : Bool :=
  let v := c.toNat
  (0x09 ≤ v && v ≤ 0x0D) || v == 0x20 || v == 0x85 || v == 0xA0 || v == 0x1680 ||
    (0x2000 ≤ v && v ≤ 0x200A) || v == 0x2028 || v == 0x2029 || v == 0x202F || v == 0x205F ||
    v == 0x3000

/-- The text without the blanks at its start. -/
def trimStart (s : List Char) : List Char := s.dropWhile isBlank

/-- The text without the blanks at its end. -/
def trimEnd (s : List Char) : List Char := (s.reverse.dropWhile isBlank).reverse

/-- The text without the blanks at either end. -/
def trim (s : List Char) : List Char := trimEnd (trimStart s)

/-- The words of a text: its non-empty pieces between blanks. -/
def words (s : List Char) : List (List Char) := (s.splitOnP isBlank).filter (!·.isEmpty)

/-- Whether a string has nothing but blanks. -/
def isBlankText (s : String) : Bool := s.toList.all isBlank

end KernelCache.Text
