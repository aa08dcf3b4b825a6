import RedBlackMap.Order.Comparator
import RedBlackMap.Text.Lowercase

/-!
# Orders on strings

Strings by their bytes, by their folded characters, and by their length in bytes.
-/
namespace RedBlackMap
universe u

def utf8Bytes (s : String) : List UInt8 := s.toList.flatMap String.utf8EncodeChar

def foldedChars (expand : Char → List Char) (s : String) : List Char := s.toList.flatMap expand

/-- The string with each character replaced by its expansion. -/
def fold (expand : Char → List Char) (s : String) : String :=
  String.ofList (s.toList.flatMap expand)

namespace Comparator

/-- Lists element by element; of two lists that agree as far as they go the shorter is less. -/
def lists {κ : Type u} (cmp : Comparator κ) : Comparator (List κ) := List.compareLex cmp

def lexical : Comparator String := on (lists natural) utf8Bytes

def foldedBy (expand : Char → List Char) : Comparator String :=
  on (lists (on natural Char.toNat)) (foldedChars expand)

/-- Strings by their lowercase forms, so that case does not count. -/
def caseFolded : Comparator String := foldedBy Text.lowercase

def byByteCount : Comparator String := ofLess fun a b => a.utf8ByteSize < b.utf8ByteSize

end Comparator

end RedBlackMap
