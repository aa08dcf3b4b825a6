import RedBlackMap.Binary64.Basic
import RedBlackMap.Order.Laws
import Mathlib.Tactic.SplitIfs

/-!
# Preorders on the keys in use

A comparator that is a total preorder on a set of keys has the laws of the standard
library once it is read on that set.
-/
namespace RedBlackMap
universe u v
variable {κ : Type u} {μ : Type v} {cmp : Comparator κ} {S : κ → Prop} {a b c : κ}

namespace TotalPreorderOn

/-- The comparator on the keys of the set alone. -/
theorem transCmp (h : TotalPreorderOn cmp S) :
    Std.TransCmp (cmp.on (Subtype.val : {k // S k} → κ)) where
  eq_swap {a b} := h.swap b a b.2 a.2
  isLE_trans {a b c} := h.trans a b c a.2 b.2 c.2

theorem gt_iff_lt (h : TotalPreorderOn cmp S) (ha : S a) (hb : S b) :
    cmp a b = .gt ↔ cmp b a = .lt :=
  @Std.OrientedCmp.gt_iff_lt _ _ h.transCmp.toOrientedCmp ⟨a,ha⟩ ⟨b,hb⟩

theorem eq_comm (h : TotalPreorderOn cmp S) (ha : S a) (hb : S b) :
    cmp a b = .eq ↔ cmp b a = .eq :=
  @Std.OrientedCmp.eq_comm _ _ h.transCmp.toOrientedCmp ⟨a,ha⟩ ⟨b,hb⟩

theorem lt_trans (h : TotalPreorderOn cmp S) (ha : S a) (hb : S b) (hc : S c)
    (hab : cmp a b = .lt) (hbc : cmp b c = .lt) : cmp a c = .lt :=
  @Std.TransCmp.lt_trans _ _ h.transCmp ⟨a,ha⟩ ⟨b,hb⟩ ⟨c,hc⟩ hab hbc

theorem eq_trans (h : TotalPreorderOn cmp S) (ha : S a) (hb : S b) (hc : S c)
    (hab : cmp a b = .eq) (hbc : cmp b c = .eq) : cmp a c = .eq :=
  @Std.TransCmp.eq_trans _ _ h.transCmp ⟨a,ha⟩ ⟨b,hb⟩ ⟨c,hc⟩ hab hbc

theorem congr_left (h : TotalPreorderOn cmp S) (ha : S a) (hb : S b) (hc : S c)
    (hab : cmp a b = .eq) : cmp a c = cmp b c :=
  @Std.TransCmp.congr_left _ _ h.transCmp ⟨a,ha⟩ ⟨b,hb⟩ ⟨c,hc⟩ hab

theorem congr_right (h : TotalPreorderOn cmp S) (ha : S a) (hb : S b) (hc : S c)
    (hbc : cmp b c = .eq) : cmp a b = cmp a c :=
  @Std.TransCmp.congr_right _ _ h.transCmp ⟨a,ha⟩ ⟨b,hb⟩ ⟨c,hc⟩ hbc

/-- A comparator with the laws of the standard library has them on every set. -/
theorem of_transCmp (cmp : Comparator κ) [Std.TransCmp cmp] (S : κ → Prop) :
    TotalPreorderOn cmp S where
  refl _ _ := Std.ReflCmp.compare_self
  swap _ _ _ _ := Std.OrientedCmp.eq_swap
  trans _ _ _ _ _ _ := Std.TransCmp.isLE_trans

theorem on (h : TotalPreorderOn cmp S) (f : μ → κ) (T : μ → Prop) (hT : ∀ a, T a → S (f a)) :
    TotalPreorderOn (cmp.on f) T where
  refl a ha := h.refl (f a) (hT a ha)
  swap a b ha hb := h.swap (f a) (f b) (hT a ha) (hT b hb)
  trans a b c ha hb hc := h.trans (f a) (f b) (f c) (hT a ha) (hT b hb) (hT c hc)

theorem congr {cmp' : Comparator κ} (h : TotalPreorderOn cmp S)
    (heq : ∀ a b, S a → S b → cmp' a b = cmp a b) : TotalPreorderOn cmp' S where
  refl a ha := by rw [heq a a ha ha, h.refl a ha]
  swap a b ha hb := by rw [heq b a hb ha, heq a b ha hb, h.swap a b ha hb]
  trans a b c ha hb hc := by
    rw [heq a b ha hb, heq b c hb hc, heq a c ha hc]
    exact h.trans a b c ha hb hc

end TotalPreorderOn

namespace Comparator

theorem isLE_byRemainder (m a b : Int) : (byRemainder m a b).isLE = true ↔ a % m ≤ b % m := by
  simp only [byRemainder, ofLess, decide_eq_true_eq]
  split_ifs <;> simp <;> omega

/-- Integers with the same remainder are different spellings of one key. -/
theorem totalPreorderOn_byRemainder (m : Int) (S : Int → Prop) :
    TotalPreorderOn (byRemainder m) S where
  refl a _ := by simp [byRemainder, ofLess]
  swap a b _ _ := by
    simp only [byRemainder, ofLess, decide_eq_true_eq]
    split_ifs <;> first | rfl | omega
  trans a b c _ _ _ := by
    rw [isLE_byRemainder, isLE_byRemainder, isLE_byRemainder]
    exact Int.le_trans

/-- Floating point numbers are in order as long as they are numbers. -/
theorem totalPreorderOn_binary64 :
    TotalPreorderOn (ofPartial Binary64.compare?) fun x => x.isNaN = false := by
  have hrank : TotalPreorderOn (Comparator.on compare Binary64.rank) fun x => x.isNaN = false :=
    (TotalPreorderOn.of_transCmp compare fun _ => True).on Binary64.rank _ fun _ _ => trivial
  refine hrank.congr fun x y hx hy => ?_
  simp [ofPartial, Binary64.compare?, hx, hy, on]

end Comparator

end RedBlackMap
