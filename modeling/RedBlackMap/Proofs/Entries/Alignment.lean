import Mathlib.Data.List.Forall2
import RedBlackMap.Proofs.Entries.Lookup

/-!
# Ascending entries side by side

Two ascending lists stand side by side, entry by entry, exactly if the same is found at
every key of the set. In particular lookups determine the entries.
-/
namespace RedBlackMap.Entries
universe u v w
variable {κ : Type u} {ν : Type v} {ν' : Type w} {cmp : Comparator κ} {S : κ → Prop}
  {R : κ × ν → κ × ν' → Prop} {e : κ × ν} {e' : κ × ν'} {es : List (κ × ν)} {es' : List (κ × ν')}

/-- Equal keys, and entries that are related. -/
def Aligned (cmp : Comparator κ) (R : κ × ν → κ × ν' → Prop) (e : κ × ν) (e' : κ × ν') : Prop :=
  cmp e.1 e'.1 = .eq ∧ R e e'

/-- Lists that agree at every key have first entries with equal keys. -/
theorem aligned_of_find? (h : TotalPreorderOn cmp S) (hes : Ordered cmp S (e :: es))
    (hes' : Ordered cmp S (e' :: es'))
    (hfind : ∀ k, S k → Option.Rel R (find? cmp k (e :: es)) (find? cmp k (e' :: es'))) :
    Aligned cmp R e e' := by
  have he : S e.1 := hes.mem e (by simp)
  have he' : S e'.1 := hes'.mem e' (by simp)
  have hleft := hfind e.1 he
  have hright := hfind e'.1 he'
  rw [find?_cons, if_pos (h.refl e.1 he)] at hleft
  rw [find?_cons (e := e'), if_pos (h.refl e'.1 he')] at hright
  cases hc : cmp e.1 e'.1 with
  | lt =>
    rw [find?_of_lt h hes' he hc] at hleft
    cases hleft
  | gt =>
    rw [find?_of_lt h hes he' ((h.gt_iff_lt he he').mp hc)] at hright
    cases hright
  | eq =>
    rw [find?_cons, if_pos hc, Option.rel_some_some] at hleft
    exact ⟨hc, hleft⟩

/-- What agrees at every key still does behind first entries with equal keys. -/
theorem find?_tail_rel (h : TotalPreorderOn cmp S) (hes : Ordered cmp S (e :: es))
    (hes' : Ordered cmp S (e' :: es')) (hc : cmp e.1 e'.1 = .eq) {k : κ} (hk : S k)
    (hfind : Option.Rel R (find? cmp k (e :: es)) (find? cmp k (e' :: es'))) :
    Option.Rel R (find? cmp k es) (find? cmp k es') := by
  have hkey : cmp k e.1 = cmp k e'.1 :=
    h.congr_right hk (hes.mem e (by simp)) (hes'.mem e' (by simp)) hc
  by_cases hke : cmp k e.1 = .eq
  · rw [find?_tail h hes hk hke, find?_tail h hes' hk (hkey ▸ hke)]
    exact .none
  · rwa [find?_cons, if_neg hke, find?_cons, if_neg (hkey ▸ hke)] at hfind

theorem forall₂_iff_find? (h : TotalPreorderOn cmp S) (hes : Ordered cmp S es)
    (hes' : Ordered cmp S es') : List.Forall₂ (Aligned cmp R) es es' ↔
      ∀ k, S k → Option.Rel R (find? cmp k es) (find? cmp k es') := by
  constructor
  · intro hall k hk
    induction hall with
    | nil => exact .none
    | @cons e e' es es' halign _ ih =>
      obtain ⟨he, -, hrest⟩ := ordered_cons.mp hes
      obtain ⟨he', -, hrest'⟩ := ordered_cons.mp hes'
      rw [find?_cons, find?_cons, ← h.congr_right hk he he' halign.1]
      split
      · exact .some halign.2
      · exact ih hrest hrest'
  · intro hfind
    induction es generalizing es' with
    | nil =>
      cases es' with
      | nil => exact .nil
      | cons e' es' =>
        have he' : S e'.1 := hes'.mem e' (by simp)
        have hnone := hfind e'.1 he'
        rw [find?_cons, if_pos (h.refl e'.1 he')] at hnone
        cases hnone
    | cons e es ih =>
      cases es' with
      | nil =>
        have he : S e.1 := hes.mem e (by simp)
        have hnone := hfind e.1 he
        rw [find?_cons, if_pos (h.refl e.1 he)] at hnone
        cases hnone
      | cons e' es' =>
        have halign : Aligned cmp R e e' := aligned_of_find? h hes hes' hfind
        apply List.Forall₂.cons halign
        apply ih (ordered_cons.mp hes).2.2 (ordered_cons.mp hes').2.2
        intro k hk
        exact find?_tail_rel h hes hes' halign.1 hk (hfind k hk)

/-- Ascending lists with the same entry at every key are the same. -/
theorem ext_find? {es es' : List (κ × ν)} (h : TotalPreorderOn cmp S) (hes : Ordered cmp S es)
    (hes' : Ordered cmp S es') (hfind : ∀ k, S k → find? cmp k es = find? cmp k es') :
    es = es' := by
  have hall : List.Forall₂ (Aligned cmp (· = ·)) es es' := by
    rw [forall₂_iff_find? h hes hes']
    intro k hk
    rw [hfind k hk]
    cases find? cmp k es' <;> simp
  rw [← List.forall₂_eq_eq_eq]
  exact hall.imp fun _ _ halign => halign.2

end RedBlackMap.Entries
