import RedBlackMap.Order.Laws
import RedBlackMap.Proofs.Entries.Separation

/-!
# Queries that are equal to a block of keys

A query that is no key may be equal to many keys that stand side by side. A search for it
may still go to one side of an entry that it is not equal to, and a removal takes one entry
of the block. A query that separates the entries is one with a block of one entry at most.
-/
namespace RedBlackMap.Query
universe u v
variable {κ : Type u} {ν : Type v} {q : Query κ} {e x : κ × ν}
  {l r es before block after : List (κ × ν)}

/-- The answers of the query fall along the entries: greater, then equal, then less. -/
def Descends (q : Query κ) (es : List (κ × ν)) : Prop :=
  es.Pairwise fun x y => (q x.1 = .lt → q y.1 = .lt) ∧ (q y.1 = .gt → q x.1 = .gt)

theorem Separates.descends (h : q.Separates es) : q.Descends es :=
  h.imp fun hxy =>
    ⟨fun hx => hxy.resolve_left (by simp [hx]), fun hy => hxy.resolve_right (by simp [hy])⟩

namespace Descends

theorem left (h : q.Descends (l ++ e :: r)) : q.Descends l := (List.pairwise_append.mp h).1

theorem right (h : q.Descends (l ++ e :: r)) : q.Descends r :=
  (List.pairwise_cons.mp (List.pairwise_append.mp h).2.1).2

theorem gt_left (h : q.Descends (l ++ e :: r)) (he : q e.1 = .gt) (hx : x ∈ l) : q x.1 = .gt :=
  ((List.pairwise_append.mp h).2.2 x hx e (by simp)).2 he

theorem ne_lt_left (h : q.Descends (l ++ e :: r)) (he : q e.1 ≠ .lt) (hx : x ∈ l) :
    q x.1 ≠ .lt :=
  fun hlt => he (((List.pairwise_append.mp h).2.2 x hx e (by simp)).1 hlt)

theorem lt_right (h : q.Descends (l ++ e :: r)) (he : q e.1 = .lt) (hx : x ∈ r) : q x.1 = .lt :=
  ((List.pairwise_cons.mp (List.pairwise_append.mp h).2.1).1 x hx).1 he

theorem ne_gt_right (h : q.Descends (l ++ e :: r)) (he : q e.1 ≠ .gt) (hx : x ∈ r) :
    q x.1 ≠ .gt :=
  fun hgt => he (((List.pairwise_cons.mp (List.pairwise_append.mp h).2.1).1 x hx).2 hgt)

end Descends

def CutsEntries (q : Query κ) (before block after : List (κ × ν)) : Prop :=
  q.Cuts (before.map Prod.fst) (block.map Prod.fst) (after.map Prod.fst)

namespace CutsEntries
variable (h : q.CutsEntries before block after)
include h

theorem gt (hx : x ∈ before) : q x.1 = .gt := h.gt_before x.1 (List.mem_map_of_mem hx)

theorem eq (hx : x ∈ block) : q x.1 = .eq := h.eq_block x.1 (List.mem_map_of_mem hx)

theorem lt (hx : x ∈ after) : q x.1 = .lt := h.lt_after x.1 (List.mem_map_of_mem hx)

theorem descends : q.Descends (before ++ block ++ after) := by
  have hbefore : q.Descends before :=
    List.pairwise_of_forall_mem_list fun x hx y hy => by simp [h.gt hx]
  have hblock : q.Descends block :=
    List.pairwise_of_forall_mem_list fun x hx y hy => by simp [h.eq hx, h.eq hy]
  have hafter : q.Descends after :=
    List.pairwise_of_forall_mem_list fun x hx y hy => by simp [h.lt hy]
  refine List.pairwise_append.mpr ⟨List.pairwise_append.mpr ⟨hbefore, hblock, ?_⟩, hafter, ?_⟩
  · intro x hx y hy
    simp [h.gt hx]
  · intro x hx y hy
    simp [h.lt hy]

/-- A block of one entry at most is as much as a key can be equal to. -/
theorem separates (hblock : block.length ≤ 1) : q.Separates (before ++ block ++ after) := by
  have hbefore : q.Separates before :=
    List.pairwise_of_forall_mem_list fun x hx _ _ => .inl (h.gt hx)
  have hone : q.Separates block := by
    rcases block with _ | ⟨e, _ | ⟨_, _⟩⟩
    · exact .nil
    · exact List.pairwise_singleton _ e
    · simp at hblock
  have hafter : q.Separates after :=
    List.pairwise_of_forall_mem_list fun _ _ y hy => .inr (h.lt hy)
  refine List.pairwise_append.mpr ⟨List.pairwise_append.mpr ⟨hbefore, hone, ?_⟩, hafter, ?_⟩
  · intro x hx y _
    exact .inl (h.gt hx)
  · intro x _ y hy
    exact .inr (h.lt hy)

/-- An entry that the query hits stands inside the block. -/
theorem exists_block (hsplit : before ++ block ++ after = l ++ e :: r) (he : q e.1 = .eq) :
    ∃ l' r', block = l' ++ e :: r' ∧ l = before ++ l' ∧ r = r' ++ after := by
  have hafter : e ∉ after := fun hmem => by simp [h.lt hmem] at he
  have hbefore : e ∉ before := fun hmem => by simp [h.gt hmem] at he
  rcases List.append_eq_append_iff.mp hsplit with ⟨s, -, rfl⟩ | ⟨s, hs, hr⟩
  · simp at hafter
  · rcases List.cons_eq_append_iff.mp hr with ⟨-, rfl⟩ | ⟨r', rfl, rfl⟩
    · simp at hafter
    · rcases List.append_eq_append_iff.mp hs with ⟨l', rfl, rfl⟩ | ⟨s, rfl, hblock⟩
      · exact ⟨l', r', rfl, rfl, rfl⟩
      · rcases List.cons_eq_append_iff.mp hblock with ⟨rfl, rfl⟩ | ⟨s', rfl, -⟩
        · exact ⟨[], r', rfl, by simp, rfl⟩
        · simp at hbefore

end CutsEntries

/-- One entry that the query hits leaves the entries, if there is one. The rest keeps `kept`
if nothing else that the query hits stands behind it. -/
inductive Erases (q : Query κ) (kept : Prop) :
    List (κ × ν) → Option (κ × ν) → List (κ × ν) → Prop
  | missed (es : List (κ × ν)) (h : ∀ x ∈ es, q x.1 ≠ .eq) (hkept : kept) : Erases q kept es none es
  | taken (l r : List (κ × ν)) (e : κ × ν) (h : q e.1 = .eq)
    (hkept : (∀ x ∈ r, q x.1 ≠ .eq) → kept) : Erases q kept (l ++ e :: r) (some e) (l ++ r)

namespace Erases
variable {kept kept' : Prop} {answer : Option (κ × ν)} {rest : List (κ × ν)}

theorem imp (h : q.Erases kept es answer rest) (himp : kept → kept') :
    q.Erases kept' es answer rest := by
  cases h with
  | missed _ h hkept => exact .missed _ h (himp hkept)
  | taken l r e h hkept => exact .taken l r e h fun hr => himp (hkept hr)

theorem sublist (h : q.Erases kept es answer rest) : rest.Sublist es := by
  cases h with
  | missed => exact List.Sublist.refl _
  | taken l r e => exact (List.sublist_cons_self e r).append_left l

theorem length_eq (h : q.Erases kept es answer rest) :
    rest.length + answer.isSome.toNat = es.length := by
  cases h with
  | missed => rfl
  | taken l r e => simp [Nat.add_assoc]

theorem append_left (h : q.Erases kept es answer rest) (hl : ∀ x ∈ l, q x.1 ≠ .eq)
    (himp : kept → kept') : q.Erases kept' (l ++ es) answer (l ++ rest) := by
  cases h with
  | missed _ h hkept => exact .missed _ (List.forall_mem_append.mpr ⟨hl, h⟩) (himp hkept)
  | taken m r e h hkept =>
    rw [← List.append_assoc, ← List.append_assoc]
    exact .taken (l ++ m) r e h fun hr => himp (hkept hr)

theorem append_right (h : q.Erases kept es answer rest) (hr : ∀ x ∈ r, q x.1 ≠ .eq)
    (himp : kept → kept') : q.Erases kept' (es ++ r) answer (rest ++ r) := by
  cases h with
  | missed _ h hkept => exact .missed _ (List.forall_mem_append.mpr ⟨h, hr⟩) (himp hkept)
  | taken l m e h hkept =>
    rw [List.append_assoc, List.append_assoc]
    refine .taken l (m ++ r) e h fun hbehind => himp (hkept fun x hx => ?_)
    exact hbehind x (List.mem_append_left r hx)

end Erases

end RedBlackMap.Query
