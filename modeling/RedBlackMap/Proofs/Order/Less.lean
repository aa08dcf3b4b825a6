import RedBlackMap.Proofs.Order.Preorder

/-!
# Orders of a predicate

The comparator of a "less than" predicate asks it about two keys in both directions. It is a
total preorder exactly where the predicate is a strict weak order, and it says "less" and
"equal" as the predicate does in any case.
-/
namespace RedBlackMap
universe u
variable {κ : Type u} {less : κ → κ → Bool} {a b c : κ}

namespace Comparator

theorem ofLess_eq_lt_iff : ofLess less a b = .lt ↔ less a b = true := by
  unfold ofLess
  split_ifs <;> simp_all

theorem ofLess_eq_eq_iff : ofLess less a b = .eq ↔ less a b = false ∧ less b a = false := by
  unfold ofLess
  split_ifs <;> simp_all

end Comparator

open Comparator

namespace StrictWeakOrder
variable (h : StrictWeakOrder less)
include h

theorem asymm (hab : less a b = true) : less b a = false := by
  apply Bool.eq_false_iff.mpr
  intro hba
  exact Bool.eq_false_iff.mp (h.irrefl a) (h.trans a b a hab hba)

/-- What is not less than a bound of a third is not less than the third. -/
theorem not_less_trans (hba : less b a = false) (hcb : less c b = false) : less c a = false := by
  apply Bool.eq_false_iff.mpr
  intro hca
  by_cases hab : less a b = true
  · exact Bool.eq_false_iff.mp hcb (h.trans c a b hca hab)
  by_cases hbc : less b c = true
  · exact Bool.eq_false_iff.mp hba (h.trans b c a hbc hca)
  · rw [Bool.not_eq_true] at hab hbc
    exact Bool.eq_false_iff.mp (h.incomparable_trans a b c hab hba hbc hcb).2 hca

theorem isLE_ofLess_iff : (ofLess less a b).isLE = true ↔ less b a = false := by
  unfold ofLess
  by_cases hab : less a b = true
  · simp [hab, h.asymm hab]
  · by_cases hba : less b a = true <;> simp [hab, hba]

theorem totalPreorderOn (S : κ → Prop) : TotalPreorderOn (ofLess less) S where
  refl a _ := ofLess_eq_eq_iff.mpr ⟨h.irrefl a, h.irrefl a⟩
  swap a b _ _ := by
    unfold ofLess
    by_cases hab : less a b = true
    · simp [hab, h.asymm hab]
    · by_cases hba : less b a = true <;> simp [hab, hba]
  trans a b c _ _ _ := by
    simp only [h.isLE_ofLess_iff]
    exact h.not_less_trans

end StrictWeakOrder

/-- The laws of the comparator give those of the predicate back. -/
theorem TotalPreorderOn.strictWeakOrder
    (h : TotalPreorderOn (ofLess less) fun _ => True) : StrictWeakOrder less where
  irrefl a := (ofLess_eq_eq_iff.mp (h.refl a trivial)).1
  trans a b c hab hbc := by
    rw [← ofLess_eq_lt_iff] at hab hbc ⊢
    exact h.lt_trans trivial trivial trivial hab hbc
  incomparable_trans a b c hab hba hbc hcb := by
    have hab' : ofLess less a b = .eq := ofLess_eq_eq_iff.mpr ⟨hab, hba⟩
    have hbc' : ofLess less b c = .eq := ofLess_eq_eq_iff.mpr ⟨hbc, hcb⟩
    exact ofLess_eq_eq_iff.mp (h.eq_trans trivial trivial trivial hab' hbc')

/-- A predicate makes a lawful comparator if and only if it is a strict weak order. The
comparator tells "less" and "equal" as the predicate does, lawful or not. -/
theorem Comparator.ofLess_lawful (less : κ → κ → Bool) :
    (TotalPreorderOn (ofLess less) (fun _ => True) ↔ StrictWeakOrder less) ∧
      ∀ a b, ((ofLess less).isLt a b = true ↔ less a b = true) ∧
        ((ofLess less).isEq a b = true ↔ less a b = false ∧ less b a = false) := by
  refine ⟨⟨fun h => h.strictWeakOrder, fun h => h.totalPreorderOn _⟩, fun a b => ⟨?_, ?_⟩⟩
  · rw [isLt, beq_iff_eq]
    exact ofLess_eq_lt_iff
  · rw [isEq, beq_iff_eq]
    exact ofLess_eq_eq_iff

/-- Less by more than one is irreflexive and transitive, but its "equal" is not transitive. -/
example : let cmp : Comparator Nat := ofLess fun a b => a + 1 < b
    cmp 0 1 = .eq ∧ cmp 1 2 = .eq ∧ cmp 0 2 = .lt := by decide

end RedBlackMap
