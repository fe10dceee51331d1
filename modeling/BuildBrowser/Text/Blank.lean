/-!
# Blanks — the characters with the property White_Space, and trimming

`trim` takes the blanks off both ends of a text; `dropEnd p` takes off the longest tail whose
characters all satisfy `p`, and is what trims slashes and trailing blanks too.
-/

namespace BuildBrowser.Text

/-- The characters with the Unicode property White_Space. -/
def isBlank (c : Char) : Bool :=
  let n := c.toNat
  (0x09 ≤ n && n ≤ 0x0D) || n == 0x20 || n == 0x85 || n == 0xA0 || n == 0x1680 ||
    (0x2000 ≤ n && n ≤ 0x200A) || n == 0x2028 || n == 0x2029 || n == 0x202F || n == 0x205F ||
    n == 0x3000

/-- A text without its longest tail of characters that satisfy `p`. -/
def dropEnd (p : Char → Bool) (text : List Char) : List Char :=
  (text.reverse.dropWhile p).reverse

/-- A text without its longest head and tail of characters that satisfy `p`. -/
def strip (p : Char → Bool) (text : List Char) : List Char :=
  dropEnd p (text.dropWhile p)

/-- A string without the blanks at its ends. -/
def trim (s : String) : String :=
  String.ofList (strip isBlank s.toList)

end BuildBrowser.Text
