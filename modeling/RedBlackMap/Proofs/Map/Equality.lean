import RedBlackMap.Proofs.Entries.Alignment
import RedBlackMap.Proofs.Map.WellFormed
import RedBlackMap.Proofs.Tree.Traversal

/-!
# Equality of maps

Maps are compared entry by entry in their order. This says the same as a comparison of
what is found at every key, whatever shape the trees have.
-/
namespace RedBlackMap.Map
universe u v
variable {κ : Type u} {ν : Type v} {cmp : Comparator κ} {S : κ → Prop}
  {same : ν → ν → Bool} {a b : Map κ ν cmp}

/-- Equal counts and entries that agree side by side are lists that agree. -/
theorem equal_iff_aligned (ha : a.size = a.toList.length) (hb : b.size = b.toList.length) :
    a.equal same b = true ↔
      List.Forall₂ (Entries.Aligned cmp fun e e' => same e.2 e'.2 = true) a.toList b.toList := by
  have hlist (m : Map κ ν cmp) : (m.cursor .shared).toList = m.toList :=
    Cursor.toList_ofTree .shared m.root m.size
  rw [List.forall₂_iff_zip, equal, Bool.and_eq_true, beq_iff_eq, ha, hb, hlist, hlist,
    List.all_eq_true]
  apply and_congr_right
  intro _
  constructor
  · intro hall x y hxy
    simpa [Entries.Aligned, Comparator.isEq] using hall (x,y) hxy
  · intro hall p hp
    simpa [Entries.Aligned, Comparator.isEq] using hall hp

def Agree (same : ν → ν → Bool) : Option ν → Option ν → Prop :=
  Option.Rel fun x y => same x y = true

theorem agree_map {x y : Option (κ × ν)} : Agree same (x.map (·.2)) (y.map (·.2)) ↔
    Option.Rel (fun e e' => same e.2 e'.2 = true) x y := by
  cases x <;> cases y <;> simp [Agree]

theorem WellFormedOn.equal_iff (hcmp : TotalPreorderOn cmp S) (ha : a.WellFormedOn S)
    (hb : b.WellFormedOn S) :
    a.equal same b = true ↔ ∀ k, S k → Agree same (a.find? k) (b.find? k) := by
  rw [equal_iff_aligned ha.size_eq hb.size_eq,
    Entries.forall₂_iff_find? hcmp ha.ordered hb.ordered]
  apply forall₂_congr
  intro k hk
  rw [ha.find?_eq hcmp hk, hb.find?_eq hcmp hk, agree_map]

theorem agree_equivalence (h : Equivalence fun x y => same x y = true) :
    Equivalence (Agree same) where
  refl x := by
    cases x with
    | none => exact .none
    | some x => exact .some (h.refl x)
  symm hxy := by
    cases hxy with
    | none => exact .none
    | some hxy => exact .some (h.symm hxy)
  trans hxy hyz := by
    cases hxy with
    | none => exact hyz
    | some hxy =>
      cases hyz with
      | some hyz => exact .some (h.trans hxy hyz)

/-- Equality of maps is agreement at every key. It depends on what is found alone and is
an equivalence where equality of values is one. -/
theorem equal_extensional (hcmp : TotalPreorderOn cmp S) (same : ν → ν → Bool) :
    (∀ a b : Map κ ν cmp, a.Reachable S → b.Reachable S →
      (a.equal same b = true ↔
        ∀ k, S k → Option.Rel (fun x y => same x y = true) (a.find? k) (b.find? k))) ∧
    (∀ a a' b b' : Map κ ν cmp,
      a.Reachable S → a'.Reachable S → b.Reachable S → b'.Reachable S →
      (∀ k, S k → a.find? k = a'.find? k) → (∀ k, S k → b.find? k = b'.find? k) →
      a.equal same b = a'.equal same b') ∧
    ((Equivalence fun x y => same x y = true) →
      Equivalence fun a b : {m : Map κ ν cmp // m.Reachable S} => a.1.equal same b.1 = true) := by
  have hiff (a b : Map κ ν cmp) (ha : a.Reachable S) (hb : b.Reachable S) :
      a.equal same b = true ↔ ∀ k, S k → Agree same (a.find? k) (b.find? k) :=
    (ha.wellFormedOn hcmp).equal_iff hcmp (hb.wellFormedOn hcmp)
  refine ⟨hiff, ?_, ?_⟩
  · intro a a' b b' ha ha' hb hb' hfind hfind'
    rw [Bool.eq_iff_iff, hiff a b ha hb, hiff a' b' ha' hb']
    apply forall₂_congr
    intro k hk
    rw [hfind k hk, hfind' k hk]
  · intro hsame
    have hagree : Equivalence (Agree same) := agree_equivalence hsame
    constructor
    · intro a
      rw [hiff a a a.2 a.2]
      intro k _
      exact hagree.refl (a.1.find? k)
    · intro a b hab
      rw [hiff a b a.2 b.2] at hab
      rw [hiff b a b.2 a.2]
      intro k hk
      exact hagree.symm (hab k hk)
    · intro a b c hab hbc
      rw [hiff a b a.2 b.2] at hab
      rw [hiff b c b.2 c.2] at hbc
      rw [hiff a c a.2 c.2]
      intro k hk
      exact hagree.trans (hab k hk) (hbc k hk)

/-- Equal maps from different histories, with the keys in different spellings. -/
theorem equal_extensional_byRemainder :
    let cmp := Comparator.byRemainder 5
    let a : Map Int String cmp := (Operation.run ∅ [.insert 3 "x",.insert 1 "y"]).2
    let b : Map Int String cmp :=
      (Operation.run ∅ [.insert 6 "y",.insert 4 "z",.insert 8 "x",.remove 9]).2
    TotalPreorderOn cmp (0 ≤ ·) ∧ a.Reachable (0 ≤ ·) ∧ b.Reachable (0 ≤ ·) ∧
      (∀ k, 0 ≤ k → Option.Rel (fun x y => (x == y) = true) (a.find? k) (b.find? k)) ∧
      a.equal (· == ·) b = true := by
  intro cmp a b
  have hcmp : TotalPreorderOn cmp (0 ≤ ·) := Comparator.totalPreorderOn_byRemainder 5 (0 ≤ ·)
  have ha : a.Reachable (0 ≤ ·) := ⟨_, by simp [Operation.keys], rfl⟩
  have hb : b.Reachable (0 ≤ ·) := ⟨_, by simp [Operation.keys], rfl⟩
  have hlist : a.toList = [(1,"y"),(3,"x")] :=
    (Operation.run_spec hcmp wellFormedOn_empty (by simp [Operation.keys])).2.2
  have hlist' : b.toList = [(6,"y"),(8,"x")] :=
    (Operation.run_spec hcmp wellFormedOn_empty (by simp [Operation.keys])).2.2
  have hagree : ∀ k, 0 ≤ k →
      Option.Rel (fun x y => (x == y) = true) (a.find? k) (b.find? k) := by
    intro k hk
    rw [(ha.wellFormedOn hcmp).find?_eq hcmp hk, (hb.wellFormedOn hcmp).find?_eq hcmp hk,
      hlist, hlist']
    have hone : cmp k 1 = cmp k 6 := rfl
    have hthree : cmp k 3 = cmp k 8 := rfl
    simp only [Entries.find?_cons, hone, hthree]
    split
    · simp
    · split <;> simp [Entries.find?]
  exact ⟨hcmp, ha, hb, hagree, ((equal_extensional hcmp (· == ·)).1 a b ha hb).mpr hagree⟩

end RedBlackMap.Map
