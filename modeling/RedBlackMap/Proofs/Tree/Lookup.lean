import RedBlackMap.Proofs.Entries.Blocks
import RedBlackMap.Proofs.Tree.Search

/-!
# Searches for a query that is no key

A query whose answers fall along the entries of a tree is found if and only if it is equal to
one of them, however many it is equal to. The search for reading and the one for writing end
at the same node, and a write there changes one value in its place.
-/
namespace RedBlackMap.Tree
universe u v
variable {κ : Type u} {ν : Type v} {q : Query κ} {f : ν → ν} {t : Tree κ ν} {e x : κ × ν}

theorem eq_of_find? (h : t.find? q = some e) : q e.1 = .eq := by
  induction t with
  | nil => cases h
  | node c l k v r ihl ihr =>
    rw [find?] at h
    split at h
    case h_1 => exact ihl h
    case h_2 => exact ihr h
    case h_3 heq =>
      cases h
      exact heq

/-- The search does not miss where some entry is equal to the query. -/
theorem isSome_find? (hq : q.Descends t.toList) (hx : x ∈ t.toList) (heq : q x.1 = .eq) :
    (t.find? q).isSome = true := by
  induction t with
  | nil => cases hx
  | node c l k v r ihl ihr =>
    rw [toList] at hq hx
    rw [find?]
    split
    case h_1 hlt =>
      rcases List.mem_append.mp hx with hx | hx
      · exact ihl hq.left hx
      · rcases List.mem_cons.mp hx with rfl | hx
        · simp [hlt] at heq
        · simp [hq.lt_right hlt hx] at heq
    case h_2 hgt =>
      rcases List.mem_append.mp hx with hx | hx
      · simp [hq.gt_left hgt hx] at heq
      · rcases List.mem_cons.mp hx with rfl | hx
        · simp [hgt] at heq
        · exact ihr hq.right hx
    case h_3 => rfl

/-- The entry that is found has a place among the entries, where a change shows. -/
theorem exists_place (h : t.find? q = some e) : ∃ l r, t.toList = l ++ e :: r ∧
    ∀ f : ν → ν, (t.modify q f).toList = l ++ (e.1,f e.2) :: r := by
  induction t with
  | nil => cases h
  | node c l k v r ihl ihr =>
    rw [find?] at h
    split at h
    case h_1 hlt =>
      obtain ⟨l₁, l₂, hl, hmodify⟩ := ihl h
      refine ⟨l₁, l₂ ++ (k,v) :: r.toList, by simp [toList, hl], fun f => ?_⟩
      simp [modify, hlt, toList, hmodify f]
    case h_2 hgt =>
      obtain ⟨r₁, r₂, hr, hmodify⟩ := ihr h
      refine ⟨l.toList ++ (k,v) :: r₁, r₂, by simp [toList, hr], fun f => ?_⟩
      simp [modify, hgt, toList, hmodify f]
    case h_3 heq =>
      cases h
      refine ⟨l.toList, r.toList, rfl, fun f => ?_⟩
      simp [modify, heq, toList]

theorem modify_eq_self (h : t.find? q = none) : t.modify q f = t := by
  induction t with
  | nil => rfl
  | node c l k v r ihl ihr =>
    rw [find?] at h
    rw [modify]
    split at h
    case h_1 => rw [ihl h]
    case h_2 => rw [ihr h]
    case h_3 => cases h

/-- The two searches go the same way, and what is put in place is what `modify` would store. -/
theorem slot?_eq (q : Query κ) (t : Tree κ ν) :
    t.slot? q = (t.find? q).map fun e => (e,fun value => t.modify q fun _ => value) := by
  induction t with
  | nil => rfl
  | node c l k v r ihl ihr =>
    simp only [slot?, find?, modify]
    split
    case h_1 => simp [ihl, Function.comp_def]
    case h_2 => simp [ihr, Function.comp_def]
    case h_3 => rfl

end RedBlackMap.Tree
