/-!
# Blanks, trimming and words

Blanks are the characters with the Unicode property White_Space: the ASCII blanks from tab to
carriage return and the space, and the spaces and separators of other blocks. Zero-width
characters such as U+200B are not among them.
-/

namespace ScriptFrontend.Text

/-- The code points that are blank. -/
def isBlankCode (n : Nat) : Bool :=
  (9 ≤ n && n ≤ 13) || n == 0x20 || n == 0x85 || n == 0xA0 || n == 0x1680 ||
    (0x2000 ≤ n && n ≤ 0x200A) || n == 0x2028 || n == 0x2029 || n == 0x202F || n == 0x205F ||
    n == 0x3000

def isBlank (c : Char) : Bool := isBlankCode c.toNat

/-- A text without the blanks at its end. -/
def trimEnd (cs : List Char) : List Char := (cs.reverse.dropWhile isBlank).reverse

/-- The words of a text: its longest runs of characters that are not blank. -/
def words (cs : List Char) : List (List Char) := (cs.splitOnP isBlank).filter (!·.isEmpty)

end ScriptFrontend.Text
