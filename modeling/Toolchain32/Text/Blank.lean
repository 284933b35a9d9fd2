/-!
# White space

`isBlank` is the white-space class of Unicode, `trim` strips it from both ends of a text and
`words` splits a text at its runs. Texts are lists of characters.
-/

namespace Toolchain32.Text

/-- The characters with the Unicode property White_Space. -/
def isBlank (c : Char) : Bool :=
  let n := c.toNat
  (9 ≤ n && n ≤ 13) || n == 0x20 || n == 0x85 || n == 0xA0 || n == 0x1680 ||
    (0x2000 ≤ n && n ≤ 0x200A) || n == 0x2028 || n == 0x2029 || n == 0x202F || n == 0x205F ||
    n == 0x3000

def trimStart (s : List Char) : List Char := s.dropWhile isBlank

def trimEnd (s : List Char) : List Char := (s.reverse.dropWhile isBlank).reverse

def trim (s : List Char) : List Char := trimEnd (trimStart s)

/-- One character put in front of a word list whose first word is still open. -/
def pushWordChar (c : Char) (acc : List Char × List (List Char)) : List Char × List (List Char) :=
  if isBlank c then ([], if acc.1.isEmpty then acc.2 else acc.1 :: acc.2) else (c :: acc.1, acc.2)

/-- The maximal runs of characters that are not white space. -/
def words (s : List Char) : List (List Char) :=
  let (first, rest) := s.foldr pushWordChar ([], [])
  if first.isEmpty then rest else first :: rest

end Toolchain32.Text
