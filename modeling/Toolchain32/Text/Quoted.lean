import Toolchain32.Text.Numeral
import Toolchain32.Text.Printable

/-!
# Quoted texts

A text in double quotes. The quote, the backslash and the usual controls are escaped by a letter,
and every other character that is not printable by its code point in braces.
-/

namespace Toolchain32.Text

/-- The letters that stand for a character after a backslash. -/
def quotedLetters : List (Char × Char) :=
  [('\x00', '0'), ('\t', 't'), ('\n', 'n'), ('\r', 'r'), ('\x22', '\x22'), ('\\', '\\')]

def quotedChar (c : Char) : String :=
  match quotedLetters.lookup c with
  | some letter => String.ofList ['\\', letter]
  | none =>
    if isPrintable c then String.singleton c
    else "\\u\x7b" ++ String.ofList (Nat.toDigits 16 c.toNat) ++ "\x7d"

def quoted (s : String) : String := "\"" ++ String.join (s.toList.map quotedChar) ++ "\""

end Toolchain32.Text
