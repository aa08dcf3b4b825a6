import RedBlackMap.Proofs.Entries.Separation
import RedBlackMap.Tree.Invariant

/-!
# What a search finds

A query that separates the entries finds and changes what a scan of them would. The
ends of a tree are the ends of its entries.
-/
namespace RedBlackMap.Tree
universe u v
variable {κ : Type u} {ν : Type v} {q : Query κ} {f : ν → ν} {t : Tree κ ν} {b : Nat}

theorem find?_entries (h : q.Separates t.toList) : t.find? q = t.toList.find? q.hits := by
  induction t with
  | nil => rfl
  | node c l k v r ihl ihr =>
    rw [find?, toList]
    rw [toList] at h
    split
    case h_1 hlt => rw [h.find?_lt hlt, ihl h.left]
    case h_2 hgt => rw [h.find?_gt hgt, ihr h.right]
    case h_3 heq => rw [h.find?_eq heq]

def change (q : Query κ) (f : ν → ν) (e : κ × ν) : κ × ν := if q.hits e then (e.1,f e.2) else e

theorem map_change_eq_self {es : List (κ × ν)} (h : ∀ e ∈ es, q e.1 ≠ .eq) :
    es.map (change q f) = es := by
  refine (List.map_congr_left fun e he => ?_).trans (List.map_id es)
  simp [change, Query.hits_eq_false (h e he)]

theorem modify_entries (h : q.Separates t.toList) :
    (t.modify q f).toList = t.toList.map (change q f) := by
  induction t with
  | nil => rfl
  | node c l k v r ihl ihr =>
    rw [toList] at h
    rw [modify, toList, List.map_append, List.map_cons]
    split
    case h_1 hlt =>
      have hr : r.toList.map (change q f) = r.toList :=
        map_change_eq_self fun e he => by simp [h.lt_right (by simp [hlt]) he]
      rw [hr, toList, ihl h.left]
      simp [change, Query.hits, hlt]
    case h_2 hgt =>
      have hl : l.toList.map (change q f) = l.toList :=
        map_change_eq_self fun e he => by simp [h.gt_left (by simp [hgt]) he]
      rw [hl, toList, ihr h.right]
      simp [change, Query.hits, hgt]
    case h_3 heq =>
      have hl : l.toList.map (change q f) = l.toList :=
        map_change_eq_self fun e he => by simp [h.gt_left (by simp [heq]) he]
      have hr : r.toList.map (change q f) = r.toList :=
        map_change_eq_self fun e he => by simp [h.lt_right (by simp [heq]) he]
      rw [hl, hr, toList]
      simp [change, Query.hits, heq]

theorem isRed_modify (q : Query κ) (f : ν → ν) (t : Tree κ ν) :
    (t.modify q f).isRed = t.isRed := by
  rcases t with _ | ⟨_ | _, l, k, v, r⟩
  · rfl
  all_goals
    rw [modify]
    split <;> rfl

theorem LeansLeft.modify (h : t.LeansLeft) : (t.modify q f).LeansLeft := by
  induction t with
  | nil => trivial
  | node c l k v r ihl ihr =>
    obtain ⟨hr, hl, hll, hlr⟩ := h
    rw [Tree.modify]
    split
    · exact ⟨hr, by rwa [isRed_modify], ihl hll, hlr⟩
    · exact ⟨by rwa [isRed_modify], hl, hll, ihr hlr⟩
    · exact ⟨hr, hl, hll, hlr⟩

theorem BlackHeight.modify (h : t.BlackHeight b) : (t.modify q f).BlackHeight b := by
  induction h with
  | nil => exact .nil
  | red k v hl hr ihl ihr =>
    rw [Tree.modify]
    split
    · exact .red k v ihl hr
    · exact .red k v hl ihr
    · exact .red k (f v) hl hr
  | black k v hl hr ihl ihr =>
    rw [Tree.modify]
    split
    · exact .black k v ihl hr
    · exact .black k v hl ihr
    · exact .black k (f v) hl hr

theorem Balanced.modify (h : t.Balanced b) : (t.modify q f).Balanced b :=
  ⟨(isRed_modify q f t).trans h.isRed_eq_false, h.leansLeft.modify, h.blackHeight.modify⟩

/-- The two trees are the same but for one node, which holds the entry `e` in the first tree
and the same key with the value `v` in the second. -/
inductive Overwrites (e : κ × ν) (v : ν) : Tree κ ν → Tree κ ν → Prop
  | top (c : Color) (l r : Tree κ ν) : Overwrites e v (node c l e.1 e.2 r) (node c l e.1 v r)
  | left {c : Color} {l l' r : Tree κ ν} {k : κ} {w : ν} :
    Overwrites e v l l' → Overwrites e v (node c l k w r) (node c l' k w r)
  | right {c : Color} {l r r' : Tree κ ν} {k : κ} {w : ν} :
    Overwrites e v r r' → Overwrites e v (node c l k w r) (node c l k w r')

theorem modify_overwrites {e : κ × ν} (f : ν → ν) (h : t.find? q = some e) :
    Overwrites e (f e.2) t (t.modify q f) := by
  induction t with
  | nil => cases h
  | node c l k v r ihl ihr =>
    rw [find?] at h
    rw [modify]
    cases hc : q k with
    | lt =>
      simp only [hc] at h ⊢
      exact .left (ihl h)
    | gt =>
      simp only [hc] at h ⊢
      exact .right (ihr h)
    | eq =>
      simp only [hc, Option.some.injEq] at h ⊢
      subst h
      exact .top c l r

/-- To store the value that is there changes nothing at all. -/
theorem Overwrites.eq_self {e : κ × ν} {t' : Tree κ ν} (h : Overwrites e e.2 t t') : t' = t := by
  induction h with
  | top => rfl
  | left _ ih => rw [ih]
  | right _ ih => rw [ih]

theorem min?_eq_head? (t : Tree κ ν) : t.min? = t.toList.head? := by
  fun_induction min? t with
  | case1 => rfl
  | case2 c k v r => rfl
  | case3 c k v r c' l' k' v' r' ih =>
    rw [ih]
    simp [toList]

theorem max?_eq_getLast? (t : Tree κ ν) : t.max? = t.toList.getLast? := by
  fun_induction max? t with
  | case1 => rfl
  | case2 c l k v => simp [toList]
  | case3 c l k v c' l' k' v' r' ih =>
    have hne : (node c' l' k' v' r').toList ≠ [] := by simp [toList]
    rw [ih]
    generalize node c' l' k' v' r' = r at hne
    rw [toList, List.getLast?_append, List.getLast?_cons_of_ne_nil hne,
      List.getLast?_eq_some_getLast hne, Option.some_or]

end RedBlackMap.Tree
