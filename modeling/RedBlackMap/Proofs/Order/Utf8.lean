import Mathlib.Algebra.Group.Nat.Defs
import RedBlackMap.Order.Strings
import RedBlackMap.Proofs.Order.Preorder

/-!
# The order of encoded strings

A character is encoded as its digits to the base 64, the first of them with a mark that
tells how many follow. Longer encodings belong to greater code points and have greater
marks, so strings stand in one order by their code points and by their bytes.
-/
namespace RedBlackMap.Utf8

/-- The number `v` as a word of `k + 1` bytes: digits to the base 64, with `mark` added to the
first and 128 to the others. -/
def word (mark : Nat) : Nat → Nat → List UInt8
  | 0, v => [UInt8.ofNat (v + mark)]
  | k + 1, v => word mark k (v / 64) ++ [UInt8.ofNat (v % 64 + 128)]

variable {mark k v w : Nat} {as bs : List UInt8}

theorem compare_byte_lt {a b : Nat} (hab : a < b) (hb : b < 256) :
    compare (UInt8.ofNat a) (UInt8.ofNat b) = .lt := by
  rw [Std.compare_eq_lt, UInt8.lt_iff_toNat_lt, UInt8.toNat_ofNat', UInt8.toNat_ofNat',
    Nat.mod_eq_of_lt hb, Nat.mod_eq_of_lt (Nat.lt_trans hab hb)]
  exact hab

theorem compareLex_cons_lt {a b : Nat} (hab : a < b) (hb : b < 256) :
    List.compareLex compare (UInt8.ofNat a :: as) (UInt8.ofNat b :: bs) = .lt := by
  rw [List.compareLex_cons_cons, compare_byte_lt hab hb, Ordering.lt_then]

theorem compareLex_append (cs : List UInt8) :
    List.compareLex compare (cs ++ as) (cs ++ bs) = List.compareLex compare as bs := by
  induction cs with
  | nil => rfl
  | cons c cs ih =>
    rw [List.cons_append, List.cons_append, List.compareLex_cons_cons, Std.compare_self,
      Ordering.eq_then, ih]

/-- Of two words of one length the greater number has the greater word, whatever follows. -/
theorem word_lt (hvw : v < w) (hw : w / 64 ^ k + mark < 256) (as bs : List UInt8) :
    List.compareLex compare (word mark k v ++ as) (word mark k w ++ bs) = .lt := by
  induction k generalizing v w as bs with
  | zero =>
    rw [Nat.pow_zero, Nat.div_one] at hw
    exact compareLex_cons_lt (Nat.add_lt_add_right hvw mark) hw
  | succ k ih =>
    rw [word, word, List.append_assoc, List.append_assoc]
    have hdigits : v / 64 < w / 64 ∨ v / 64 = w / 64 ∧ v % 64 < w % 64 := by omega
    rcases hdigits with hlt | ⟨heq, hlt⟩
    · apply ih hlt
      rwa [Nat.div_div_eq_div_mul, ← Nat.pow_succ']
    · rw [heq, compareLex_append]
      exact compareLex_cons_lt (Nat.add_lt_add_right hlt 128) (by omega)

theorem word_eq_cons (mark k v : Nat) :
    ∃ rest, word mark k v = UInt8.ofNat (v / 64 ^ k + mark) :: rest := by
  induction k generalizing v with
  | zero => exact ⟨[], by rw [word, Nat.pow_zero, Nat.div_one]⟩
  | succ k ih =>
    obtain ⟨rest, hrest⟩ := ih (v / 64)
    refine ⟨rest ++ [UInt8.ofNat (v % 64 + 128)], ?_⟩
    rw [word, hrest, List.cons_append, Nat.div_div_eq_div_mul, ← Nat.pow_succ']

def tailLength (v : Nat) : Nat :=
  if v ≤ 0x7F then 0 else if v ≤ 0x7FF then 1 else if v ≤ 0xFFFF then 2 else 3

def leadMark : Nat → Nat
  | 0 => 0
  | 1 => 0xC0
  | 2 => 0xE0
  | _ => 0xF0

def lead (v : Nat) : Nat := v / 64 ^ tailLength v + leadMark (tailLength v)

theorem toNat_lt (c : Char) : c.toNat < 0x110000 := by
  have h := c.valid
  unfold UInt32.isValidChar Nat.isValidChar at h
  rw [← Char.toNat_val]
  omega

theorem encode_eq_word (c : Char) :
    String.utf8EncodeChar c = word (leadMark (tailLength c.toNat)) (tailLength c.toNat) c.toNat := by
  have hc := toNat_lt c
  simp only [String.utf8EncodeChar, tailLength, Char.toNat_val]
  generalize c.toNat = v at hc ⊢
  have hone : v ≤ 0x7FF → v / 64 % 32 = v / 64 := by omega
  have htwo : v ≤ 0xFFFF → v / 4096 % 16 = v / 4096 := by omega
  have hthree : v / 262144 % 8 = v / 262144 := by omega
  split_ifs with h₀ h₁ h₂
  · rfl
  · rw [hone h₁]
    rfl
  · rw [htwo h₂]
    simp [word, leadMark, Nat.div_div_eq_div_mul]
  · rw [hthree]
    simp [word, leadMark, Nat.div_div_eq_div_mul]

theorem lead_lt (hvw : v < w) (hw : w < 0x110000) (hne : tailLength v ≠ tailLength w) :
    lead v < lead w := by
  unfold lead
  revert hne
  unfold tailLength
  split_ifs <;> simp only [leadMark] <;> omega

theorem lead_lt_256 (hv : v < 0x110000) : lead v < 256 := by
  unfold lead tailLength
  split_ifs <;> simp only [leadMark] <;> omega

/-- The encoding of a smaller code point comes first, whatever follows. -/
theorem encode_lt {c d : Char} (hcd : c.toNat < d.toNat) (as bs : List UInt8) :
    List.compareLex compare (String.utf8EncodeChar c ++ as) (String.utf8EncodeChar d ++ bs) =
      .lt := by
  have hd : lead d.toNat < 256 := lead_lt_256 (toNat_lt d)
  rw [encode_eq_word, encode_eq_word]
  by_cases hlength : tailLength c.toNat = tailLength d.toNat
  · rw [hlength]
    exact word_lt hcd hd as bs
  · obtain ⟨cs, hcs⟩ := word_eq_cons (leadMark (tailLength c.toNat)) (tailLength c.toNat) c.toNat
    obtain ⟨ds, hds⟩ := word_eq_cons (leadMark (tailLength d.toNat)) (tailLength d.toNat) d.toNat
    rw [hcs, hds, ← lead, ← lead]
    exact compareLex_cons_lt (lead_lt hcd (toNat_lt d) hlength) hd

theorem encode_ne_nil (c : Char) : String.utf8EncodeChar c ≠ [] := by
  obtain ⟨rest, hrest⟩ := word_eq_cons (leadMark (tailLength c.toNat)) (tailLength c.toNat) c.toNat
  rw [encode_eq_word, hrest]
  exact List.cons_ne_nil _ _

/-- An encoded character counts before all that follows it. -/
theorem compareLex_encode (c d : Char) (as bs : List UInt8) :
    List.compareLex compare (String.utf8EncodeChar c ++ as) (String.utf8EncodeChar d ++ bs) =
      (compare c.toNat d.toNat).then (List.compareLex compare as bs) := by
  rcases Nat.lt_trichotomy c.toNat d.toNat with hlt | heq | hgt
  · rw [encode_lt hlt, Nat.compare_eq_lt.mpr hlt, Ordering.lt_then]
  · rw [Char.toNat_inj.mp heq, compareLex_append, Nat.compare_eq_eq.mpr rfl, Ordering.eq_then]
  · rw [Nat.compare_eq_gt.mpr hgt, Ordering.gt_then, Std.OrientedCmp.gt_iff_lt]
    exact encode_lt hgt bs as

end RedBlackMap.Utf8

namespace RedBlackMap.Comparator
universe u

theorem lists_cons {κ : Type u} (cmp : Comparator κ) (a b : κ) (as bs : List κ) :
    lists cmp (a :: as) (b :: bs) = (cmp a b).then (lists cmp as bs) :=
  List.compareLex_cons_cons

theorem lists_encode (cs ds : List Char) :
    lists natural (cs.flatMap String.utf8EncodeChar) (ds.flatMap String.utf8EncodeChar) =
      lists (on natural Char.toNat) cs ds := by
  induction cs generalizing ds with
  | nil =>
    cases ds with
    | nil => rfl
    | cons d ds =>
      obtain ⟨b, bs, hb⟩ := List.exists_cons_of_ne_nil (Utf8.encode_ne_nil d)
      rw [List.flatMap_cons, hb]
      rfl
  | cons c cs ih =>
    cases ds with
    | nil =>
      obtain ⟨b, bs, hb⟩ := List.exists_cons_of_ne_nil (Utf8.encode_ne_nil c)
      rw [List.flatMap_cons, hb]
      rfl
    | cons d ds =>
      rw [List.flatMap_cons, List.flatMap_cons]
      calc lists natural (String.utf8EncodeChar c ++ cs.flatMap String.utf8EncodeChar)
              (String.utf8EncodeChar d ++ ds.flatMap String.utf8EncodeChar)
          = (compare c.toNat d.toNat).then (lists natural (cs.flatMap String.utf8EncodeChar)
              (ds.flatMap String.utf8EncodeChar)) := Utf8.compareLex_encode c d _ _
        _ = (compare c.toNat d.toNat).then (lists (on natural Char.toNat) cs ds) := by rw [ih]
        _ = lists (on natural Char.toNat) (c :: cs) (d :: ds) :=
            (lists_cons (on natural Char.toNat) c d cs ds).symm

/-- Strings by their expanded characters are the expanded strings by their bytes. -/
theorem foldedBy_eq_lexical (expand : Char → List Char) (l r : String) :
    foldedBy expand l r = lexical (fold expand l) (fold expand r) := by
  have hfold (s : String) : utf8Bytes (fold expand s) =
      (foldedChars expand s).flatMap String.utf8EncodeChar := by
    rw [utf8Bytes, fold, String.toList_ofList, foldedChars]
  rw [lexical, on, hfold, hfold, lists_encode]
  rfl

example (l r : String) :
    caseFolded l r = lexical (fold Text.lowercase l) (fold Text.lowercase r) :=
  foldedBy_eq_lexical Text.lowercase l r

theorem totalPreorderOn_lexical (S : String → Prop) : TotalPreorderOn lexical S :=
  (TotalPreorderOn.of_transCmp (List.compareLex compare) fun _ => True).on utf8Bytes S
    fun _ _ => trivial

theorem totalPreorderOn_foldedBy (expand : Char → List Char) (S : String → Prop) :
    TotalPreorderOn (foldedBy expand) S := by
  have hfolded : foldedBy expand = lexical.on (fold expand) := by
    funext l r
    rw [foldedBy_eq_lexical, on]
  rw [hfolded]
  exact (totalPreorderOn_lexical fun _ => True).on (fold expand) S fun _ _ => trivial

end RedBlackMap.Comparator
