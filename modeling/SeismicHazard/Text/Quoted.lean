import SeismicHazard.Text.Unprintable

/-!
# Quoted text

A text between double quotes, in which quotes, backslashes and the characters that have no picture
of their own are escaped. The common control characters have short escapes; the others are given by
their code point in hexadecimal digits.
-/

namespace SeismicHazard.Text

/-- A character as its code point between braces. -/
def codePoint (c : Char) : List Char :=
  '\\' :: 'u' :: '\x7b' :: (Nat.toDigits 16 c.toNat ++ ['\x7d'])

/-- A character as it is written between quotes. -/
def escape (c : Char) : List Char :=
  match c with
  | '"' => ['\\', '"']
  | '\\' => ['\\', '\\']
  | '\n' => ['\\', 'n']
  | '\r' => ['\\', 'r']
  | '\t' => ['\\', 't']
  | '\x00' => ['\\', '0']
  | c => if isUnprintable c then codePoint c else [c]

/-- The quoted form of a text. -/
def quoted (text : String) : String :=
  String.ofList ('"' :: (text.toList.flatMap escape ++ ['"']))

/-- Numbers in brackets, divided by a comma and a space. -/
def bracketed (ns : List Nat) : String :=
  "[" ++ String.intercalate ", " (ns.map (fun n => (Nat.repr n))) ++ "]"

end SeismicHazard.Text
