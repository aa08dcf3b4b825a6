import RedBlackMap.Order.Comparator

/-!
# Changes that need no order

What an insertion and a removal may do with a list of entries wherever their search ends, and
what that does to its length. Neither says which place the search ends at.
-/
namespace RedBlackMap.Entries
universe u v
variable {κ : Type u} {ν : Type v}

/-- One entry is added somewhere, or one entry keeps its key and has its value replaced. -/
inductive Inserts (cmp : Comparator κ) (key : κ) (value : ν) :
    List (κ × ν) → Bool → List (κ × ν) → Prop
  | added (l r : List (κ × ν)) : Inserts cmp key value (l ++ r) true (l ++ (key,value) :: r)
  | replaced (l r : List (κ × ν)) (k : κ) (v : ν) (h : cmp key k = .eq) :
    Inserts cmp key value (l ++ (k,v) :: r) false (l ++ (k,value) :: r)

/-- The entries stay as they are, or one occurrence of an entry is answered and does not stay.
Other entries may be lost with it. -/
inductive Removes (q : Query κ) : List (κ × ν) → Option (κ × ν) → List (κ × ν) → Prop
  | kept (es : List (κ × ν)) : Removes q es none es
  | taken (l r rest : List (κ × ν)) (e : κ × ν) (h : q e.1 = .eq) (hrest : rest.Sublist (l ++ r)) :
    Removes q (l ++ e :: r) (some e) rest

section Insertion
variable {cmp : Comparator κ} {key : κ} {value : ν} {es es' : List (κ × ν)} {grown : Bool}

theorem Inserts.append_left (h : Inserts cmp key value es grown es') (l : List (κ × ν)) :
    Inserts cmp key value (l ++ es) grown (l ++ es') := by
  cases h with
  | added m r =>
    rw [← List.append_assoc, ← List.append_assoc]
    exact .added (l ++ m) r
  | replaced m r k v h =>
    rw [← List.append_assoc, ← List.append_assoc]
    exact .replaced (l ++ m) r k v h

theorem Inserts.append_right (h : Inserts cmp key value es grown es') (r : List (κ × ν)) :
    Inserts cmp key value (es ++ r) grown (es' ++ r) := by
  cases h with
  | added l m =>
    rw [List.append_assoc, List.append_assoc]
    exact .added l (m ++ r)
  | replaced l m k v h =>
    rw [List.append_assoc, List.append_assoc]
    exact .replaced l (m ++ r) k v h

theorem Inserts.length_eq (h : Inserts cmp key value es grown es') :
    es'.length = es.length + grown.toNat := by
  cases h <;> simp [Nat.add_assoc]

end Insertion

section Removal
variable {q : Query κ} {es es' : List (κ × ν)} {removed : Option (κ × ν)}

theorem Removes.append_left (h : Removes q es removed es') (l : List (κ × ν)) :
    Removes q (l ++ es) removed (l ++ es') := by
  cases h with
  | kept => exact .kept _
  | taken m r rest e h hrest =>
    rw [← List.append_assoc]
    refine .taken (l ++ m) r _ e h ?_
    rw [List.append_assoc]
    exact hrest.append_left l

theorem Removes.append_right (h : Removes q es removed es') (r : List (κ × ν)) :
    Removes q (es ++ r) removed (es' ++ r) := by
  cases h with
  | kept => exact .kept _
  | taken l m rest e h hrest =>
    rw [List.append_assoc]
    refine .taken l (m ++ r) _ e h ?_
    rw [← List.append_assoc]
    exact hrest.append_right r

/-- The list is shorter at least by the entry that was taken. -/
theorem Removes.length_le (h : Removes q es removed es') :
    es'.length + removed.isSome.toNat ≤ es.length := by
  cases h with
  | kept => exact Nat.le_refl _
  | taken l r rest e h hrest =>
    have hlength := hrest.length_le
    simp only [List.length_append, List.length_cons, Option.isSome_some, Bool.toNat_true] at hlength ⊢
    omega

end Removal

end RedBlackMap.Entries
