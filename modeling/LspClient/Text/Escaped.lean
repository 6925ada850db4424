import LspClient.Text.Nonspacing
import LspClient.Text.Unassigned

/-!
# Text in logs

A text that is shown in a log stands between quotes and on one line: quotes,
backslashes and the common control characters are written with a backslash,
and every other character that cannot be seen, or that takes up no space of its
own, is written as its number.
-/

namespace LspClient.Text

/-- The characters that leave no mark of their own: controls, characters that
only format, private ones, and all that separates words, lines and paragraphs
but the space. These are the general categories `Cc`, `Cf`, `Co`, `Zs`, `Zl` and
`Zp` of the Unicode character database, version 17. -/
def invisible : CharRanges :=
  [(0x0, 0x1F), (0x7F, 0xA0), (0xAD, 0xAD), (0x600, 0x605), (0x61C, 0x61C), (0x6DD, 0x6DD),
    (0x70F, 0x70F), (0x890, 0x891), (0x8E2, 0x8E2), (0x1680, 0x1680), (0x180E, 0x180E),
    (0x2000, 0x200F), (0x2028, 0x202F), (0x205F, 0x2064), (0x2066, 0x206F), (0x3000, 0x3000),
    (0xE000, 0xF8FF), (0xFEFF, 0xFEFF), (0xFFF9, 0xFFFB), (0x110BD, 0x110BD), (0x110CD, 0x110CD),
    (0x13430, 0x1343F), (0x1BCA0, 0x1BCA3), (0x1D173, 0x1D17A), (0xE0001, 0xE0001),
    (0xE0020, 0xE007F), (0xF0000, 0xFFFFD), (0x100000, 0x10FFFD)]

/-- The property `Default_Ignorable_Code_Point`, version 17: what is drawn as
nothing unless it is supported. The fillers of Hangul have it, which are letters
otherwise. -/
def defaultIgnorable : CharRanges :=
  [(0xAD, 0xAD), (0x34F, 0x34F), (0x61C, 0x61C), (0x115F, 0x1160), (0x17B4, 0x17B5),
    (0x180B, 0x180F), (0x200B, 0x200F), (0x202A, 0x202E), (0x2060, 0x206F), (0x3164, 0x3164),
    (0xFE00, 0xFE0F), (0xFEFF, 0xFEFF), (0xFFA0, 0xFFA0), (0xFFF0, 0xFFF8), (0x1BCA0, 0x1BCA3),
    (0x1D173, 0x1D17A), (0xE0000, 0xE0FFF)]

/-- Whether a character is shown by its number. -/
def isUnseen (c : Char) : Bool :=
  invisible.holds c || defaultIgnorable.holds c || nonspacing.holds c || unassigned.holds c

/-- A character of a shown text. -/
def showChar (c : Char) : List Char :=
  if c = '"' then ['\\', '"']
  else if c = '\\' then ['\\', '\\']
  else if c = '\n' then ['\\', 'n']
  else if c = '\r' then ['\\', 'r']
  else if c = '\t' then ['\\', 't']
  else if c = '\x00' then ['\\', '0']
  else if isUnseen c then
    '\\' :: 'u' :: '{' :: Nat.toDigits 16 c.toNat ++ ['}']
  else [c]

/-- A text between quotes. -/
def shown (s : String) : String :=
  String.ofList ('"' :: s.toList.flatMap showChar ++ ['"'])

end LspClient.Text
