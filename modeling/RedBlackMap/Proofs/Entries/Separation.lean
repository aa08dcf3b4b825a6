import RedBlackMap.Map.Entries
import RedBlackMap.Proofs.Order.Preorder

/-!
# Queries that separate entries

A query separates a list of entries if it is greater than all keys up to one place and
less than all behind it, and equal to one key at most. A search may then go to one side
of any entry, and a change on that side is a change of the whole list. Keys separate
ascending entries.
-/
namespace RedBlackMap
universe u v
variable {κ : Type u} {ν : Type v}

namespace Query
variable {q : Query κ} {e : κ × ν} {l r es : List (κ × ν)}

def hits (q : Query κ) (e : κ × ν) : Bool := q e.1 == .eq

theorem hits_eq_false (h : q e.1 ≠ .eq) : q.hits e = false := by simp [hits, h]

theorem hits_eq_true (h : q e.1 = .eq) : q.hits e = true := by simp [hits, h]

/-- Of two keys in their order the query is greater than the first or less than the second.
It may then be equal to one key at most, with all greater keys behind it. -/
def Separates (q : Query κ) (es : List (κ × ν)) : Prop :=
  es.Pairwise fun x y => q x.1 = .gt ∨ q y.1 = .lt

namespace Separates

theorem left (h : q.Separates (l ++ e :: r)) : q.Separates l := (List.pairwise_append.mp h).1

theorem right (h : q.Separates (l ++ e :: r)) : q.Separates r :=
  (List.pairwise_cons.mp (List.pairwise_append.mp h).2.1).2

theorem gt_left (h : q.Separates (l ++ e :: r)) (he : q e.1 ≠ .lt) {x : κ × ν} (hx : x ∈ l) :
    q x.1 = .gt :=
  ((List.pairwise_append.mp h).2.2 x hx e (by simp)).resolve_right he

theorem lt_right (h : q.Separates (l ++ e :: r)) (he : q e.1 ≠ .gt) {x : κ × ν} (hx : x ∈ r) :
    q x.1 = .lt :=
  ((List.pairwise_cons.mp (List.pairwise_append.mp h).2.1).1 x hx).resolve_left he

end Separates

theorem Separates.find?_lt (h : q.Separates (l ++ e :: r)) (he : q e.1 = .lt) :
    (l ++ e :: r).find? q.hits = l.find? q.hits := by
  have hr : (e :: r).find? q.hits = none := by
    rw [List.find?_eq_none]
    intro x hx
    rcases List.mem_cons.mp hx with rfl | hx
    · simp [hits, he]
    · simp [hits, h.lt_right (by simp [he]) hx]
  rw [List.find?_append, hr, Option.or_none]

theorem Separates.find?_gt (h : q.Separates (l ++ e :: r)) (he : q e.1 = .gt) :
    (l ++ e :: r).find? q.hits = r.find? q.hits := by
  have hl : l.find? q.hits = none := by
    rw [List.find?_eq_none]
    intro x hx
    simp [hits, h.gt_left (by simp [he]) hx]
  rw [List.find?_append, hl, Option.none_or, List.find?_cons_of_neg (by simp [hits, he])]

theorem Separates.find?_eq (h : q.Separates (l ++ e :: r)) (he : q e.1 = .eq) :
    (l ++ e :: r).find? q.hits = some e := by
  have hl : l.find? q.hits = none := by
    rw [List.find?_eq_none]
    intro x hx
    simp [hits, h.gt_left (by simp [he]) hx]
  rw [List.find?_append, hl, Option.none_or, List.find?_cons_of_pos (hits_eq_true he)]

theorem Separates.eraseP_eq (h : q.Separates (l ++ e :: r)) (he : q e.1 = .eq) :
    (l ++ e :: r).eraseP q.hits = l ++ r := by
  rw [List.eraseP_append_right _ fun x hx => by simp [hits, h.gt_left (by simp [he]) hx],
    List.eraseP_cons_of_pos (hits_eq_true he)]

end Query

theorem TotalPreorderOn.separates {cmp : Comparator κ} {S : κ → Prop} {a : κ}
    (h : TotalPreorderOn cmp S) (ha : S a) {es : List (κ × ν)}
    (hes : es.Pairwise fun x y => cmp x.1 y.1 = .lt) (hS : ∀ e ∈ es, S e.1) :
    Query.Separates (cmp a) es := by
  refine hes.imp_of_mem ?_
  intro x y hx hy hxy
  by_cases hax : cmp a x.1 = .gt
  · exact .inl hax
  · have hle : (cmp a x.1).isLE = true := by
      cases hc : cmp a x.1 <;> simp_all
    right
    exact @Std.TransCmp.lt_of_isLE_of_lt _ _ h.transCmp ⟨a,ha⟩ ⟨_,hS x hx⟩ ⟨_,hS y hy⟩ hle hxy

namespace Entries
variable {cmp : Comparator κ} {a : κ} {v : ν} {e : κ × ν} {l r : List (κ × ν)}

theorem find?_eq_hits {es : List (κ × ν)} : find? cmp a es = es.find? (Query.hits (cmp a)) := rfl

theorem insert_append_lt (he : cmp a e.1 = .lt) :
    insert cmp a v (l ++ e :: r) = insert cmp a v l ++ e :: r := by
  induction l with
  | nil => simp [insert, he]
  | cons x l ih =>
    rw [List.cons_append, insert, insert]
    split
    · rfl
    · rfl
    · rw [ih, List.cons_append]

theorem insert_append_gt (hl : ∀ x ∈ l, cmp a x.1 = .gt) :
    insert cmp a v (l ++ r) = l ++ insert cmp a v r := by
  induction l with
  | nil => rfl
  | cons x l ih =>
    rw [List.cons_append, insert, hl x (by simp)]
    simp only [ih fun y hy => hl y (by simp [hy]), List.cons_append]

end Entries

end RedBlackMap
