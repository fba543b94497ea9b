/- # Blank characters

What separates words and is trimmed from the ends of a text.  The blank characters are the
tab, the line feed, the vertical tab, the form feed and the carriage return
(`U+0009`–`U+000D`), the four information separators (`U+001C`–`U+001F`), the space, the next
line (`U+0085`) and the space, line and paragraph separators of Unicode.

Texts are lists of characters here, so that every function is a recursion over the text.
-/

namespace AmbientDecl
namespace Text

/-- A blank character separates words. -/
def isBlank (c : Char) : Bool :=
  let n := c.toNat
  (0x9 ≤ n && n ≤ 0xD) || (0x1C ≤ n && n ≤ 0x20) || n == 0x85 || n == 0xA0 || n == 0x1680 ||
    (0x2000 ≤ n && n ≤ 0x200A) || n == 0x2028 || n == 0x2029 || n == 0x202F || n == 0x205F ||
    n == 0x3000

/-- The text without its leading blanks. -/
def trimStart (cs : List Char) : List Char :=
  cs.dropWhile isBlank

/-- The text without its trailing blanks. -/
def trimEnd (cs : List Char) : List Char :=
  (cs.reverse.dropWhile isBlank).reverse

/-- The text without blanks at either end. -/
def trim (cs : List Char) : List Char :=
  trimEnd (trimStart cs)

/-- The longest leading run of characters that are not blank. -/
def firstWord (cs : List Char) : List Char :=
  cs.takeWhile fun c => !isBlank c

theorem trimStart_of_not_isBlank {c : Char} (h : isBlank c = false) (cs : List Char) :
    trimStart (c :: cs) = c :: cs := by
  simp [trimStart, h]

end Text
end AmbientDecl
