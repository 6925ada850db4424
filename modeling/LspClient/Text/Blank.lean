/-!
# Blank characters

Two notions of blank matter here and they are not the same. Header lines,
configuration text and header values are trimmed of every character that has
the Unicode property `White_Space`; JSON text is separated by five ASCII
characters only. This file holds the first one, the second lives beside the
JSON tokens it separates.
-/

namespace LspClient.Text

/-- The property `White_Space` of the Unicode character database: five ASCII
controls, the space, and the spaces and line breaks of other scripts. -/
def isBlank (c : Char) : Bool :=
  let n := c.toNat
  (0x09 ≤ n && n ≤ 0x0D) || n == 0x20 || n == 0x85 || n == 0xA0 || n == 0x1680 ||
    (0x2000 ≤ n && n ≤ 0x200A) || n == 0x2028 || n == 0x2029 || n == 0x202F ||
    n == 0x205F || n == 0x3000

/-- The text without the blanks at its start. -/
def trimStart (cs : List Char) : List Char :=
  cs.dropWhile isBlank

/-- The text without the blanks at its end. -/
def trimEnd (cs : List Char) : List Char :=
  (trimStart cs.reverse).reverse

/-- The text without the blanks around it. -/
def trim (cs : List Char) : List Char :=
  trimEnd (trimStart cs)

end LspClient.Text
