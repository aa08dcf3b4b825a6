import RedBlackMap.Text.Unprintable

/-!
# Quoted text

A text between double quotes. Quotes, backslashes and line breaks are written after a
backslash, and characters without a face of their own by their number in base sixteen.
-/
namespace RedBlackMap.Text

/-- A character by its number, as in `\u{1b}`. -/
def numbered (c : Char) : List Char :=
  "\\u\x7b".toList ++ Nat.toDigits 16 c.toNat ++ ['\x7d']

def escape (c : Char) : List Char :=
  match c with
  | '\x00' => ['\\', '0']
  | '\t' => ['\\', 't']
  | '\r' => ['\\', 'r']
  | '\n' => ['\\', 'n']
  | '\\' => ['\\', '\\']
  | '"' => ['\\', '"']
  | c => if isUnprintable c then numbered c else [c]

def quote (s : String) : String :=
  String.ofList ('"' :: s.toList.flatMap escape ++ ['"'])

end RedBlackMap.Text
