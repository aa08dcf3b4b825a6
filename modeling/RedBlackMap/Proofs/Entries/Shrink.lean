import RedBlackMap.Map.Shrink
import RedBlackMap.Proofs.Entries.Accounting
import RedBlackMap.Proofs.Entries.Rules
import RedBlackMap.Proofs.Entries.Union

/-!
# Entries made smaller

A list of entries is made smaller if a chunk of it is left out or one key gives way to a smaller
one, and the sum of the sizes of the keys falls either way. Ascending entries with a chunk left
out ascend as they are. A smaller key finds its place anew, and where it is equal to another one
the two entries become one, with the key of the first and the value of the second.
-/
namespace RedBlackMap.Entries
universe u v
variable {κ : Type u} {ν : Type v} {cmp : Comparator κ} {S : κ → Prop} {keySize : κ → Nat}
  {key : κ} {value : ν} {e x : κ × ν} {es es' l l₁ l₂ r r₁ r₂ : List (κ × ν)}

def weight (keySize : κ → Nat) (es : List (κ × ν)) : Nat := (es.map fun e => 1 + keySize e.1).sum

theorem weight_append : weight keySize (l ++ r) = weight keySize l + weight keySize r := by
  simp [weight]

theorem weight_cons : weight keySize (e :: es) = 1 + keySize e.1 + weight keySize es := by
  simp [weight]

/-- A chunk of the entries is left out, up to all of them, or one key gives way to a smaller
one. Values stay. -/
inductive Reduces (keySize : κ → Nat) : List (κ × ν) → List (κ × ν) → Prop
  | dropped (l chunk r : List (κ × ν)) (h : chunk ≠ []) : Reduces keySize (l ++ chunk ++ r) (l ++ r)
  | respelled (l r : List (κ × ν)) (e : κ × ν) (key : κ) (h : keySize key < keySize e.1) :
    Reduces keySize (l ++ e :: r) (l ++ (key,e.2) :: r)

theorem Reduces.weight_lt (h : Reduces keySize es es') : weight keySize es' < weight keySize es := by
  cases h with
  | dropped l chunk r h =>
    obtain ⟨e, chunk, rfl⟩ := List.exists_cons_of_ne_nil h
    simp only [weight_append, weight_cons]
    omega
  | respelled l r e key h =>
    simp only [weight_append, weight_cons]
    omega

/-- An entry that comes in brings its own weight at most, whatever the comparator answers. -/
theorem Inserts.weight_le {grown : Bool} (h : Inserts cmp key value es grown es') :
    weight keySize es' ≤ weight keySize es + (1 + keySize key) := by
  cases h <;> simp only [weight_append, weight_cons] <;> omega

theorem Reduces.cons (h : Reduces keySize es es') (e : κ × ν) :
    Reduces keySize (e :: es) (e :: es') := by
  cases h with
  | dropped l chunk r h => exact .dropped (e :: l) chunk r h
  | respelled l r x key h => exact .respelled (e :: l) r x key h

theorem reduces_of_mem_dropChunks {size : Nat} (h : es' ∈ dropChunks size es) :
    Reduces keySize es es' := by
  obtain ⟨i, hi, rfl⟩ := List.mem_map.mp h
  rw [List.mem_range] at hi
  have hsize : size ≠ 0 := by
    rintro rfl
    simp at hi
  have hend : i * size + size ≤ es.length := by
    rw [← Nat.succ_mul]
    exact (Nat.mul_le_mul_right size hi).trans (Nat.div_mul_le_self es.length size)
  have hsplit : es = es.take (i * size) ++ (es.drop (i * size)).take size ++
      es.drop ((i + 1) * size) := by
    rw [Nat.succ_mul, ← List.drop_drop, List.append_assoc, List.take_append_drop,
      List.take_append_drop]
  have hchunk : (es.drop (i * size)).take size ≠ [] := by
    rw [ne_eq, ← List.length_eq_zero_iff, List.length_take, List.length_drop]
    omega
  nth_rewrite 1 [hsplit]
  exact .dropped _ _ _ hchunk

section Shrinker
variable {smaller : κ → List κ} (hsmaller : ∀ k, ∀ k' ∈ smaller k, keySize k' < keySize k)
include hsmaller

theorem reduces_of_mem_shrinkElement
    (h : es' ∈ shrinkElement (fun e => (smaller e.1).map fun k => (k,e.2)) es) :
    Reduces keySize es es' := by
  induction es generalizing es' with
  | nil => cases h
  | cons e es ih =>
    rcases List.mem_append.mp h with h | h
    · obtain ⟨x, hx, rfl⟩ := List.mem_map.mp h
      obtain ⟨key, hkey, rfl⟩ := List.mem_map.mp hx
      exact .respelled [] es e key (hsmaller e.1 key hkey)
    · obtain ⟨rest, hrest, rfl⟩ := List.mem_map.mp h
      exact (ih hrest).cons e

/-- A shrinker of keys makes keys smaller, and so the shrinker of lists makes lists smaller. -/
theorem reduces_of_mem_shrinkList
    (h : es' ∈ shrinkList (fun e => (smaller e.1).map fun k => (k,e.2)) es) :
    Reduces keySize es es' := by
  cases es with
  | nil => cases h
  | cons e es =>
    rcases List.mem_cons.mp h with rfl | h
    · have hall : Reduces keySize ([] ++ (e :: es) ++ []) ([] ++ []) :=
        .dropped [] (e :: es) [] (List.cons_ne_nil e es)
      simpa using hall
    · rcases List.mem_append.mp h with h | h
      · obtain ⟨size, -, h⟩ := List.mem_flatMap.mp h
        exact reduces_of_mem_dropChunks h
      · exact reduces_of_mem_shrinkElement hsmaller h

end Shrinker

theorem forall_mem_middle {P : κ × ν → Prop} (he : P e) (hlr : ∀ x ∈ l ++ r, P x) :
    ∀ x ∈ l ++ e :: r, P x := by
  intro x hx
  rcases List.mem_cons.mp (List.perm_middle.mem_iff.mp hx) with rfl | hx
  · exact he
  · exact hlr x hx

theorem insertMany_append : insertMany cmp es (l ++ r) = insertMany cmp (insertMany cmp es l) r :=
  List.foldl_append

/-- Entries that ascend behind those that are there follow them. -/
theorem Ordered.insertMany_append (h : TotalPreorderOn cmp S) (hes : Ordered cmp S (l ++ r)) :
    Entries.insertMany cmp l r = l ++ r := by
  have hl : Entries.insertMany cmp [] l = l :=
    (hes.sublist (List.sublist_append_left l r)).insertMany_self h
  have hself : Entries.insertMany cmp [] (l ++ r) = l ++ r := hes.insertMany_self h
  rwa [Entries.insertMany_append, hl] at hself

theorem Ordered.gap (h : TotalPreorderOn cmp S) (hes : Ordered cmp S (l ++ x :: r)) (hkey : S key)
    (heq : cmp key x.1 = .eq) : Gap cmp key l r := by
  obtain ⟨-, hxr, hlx⟩ := List.pairwise_append.mp hes.ascending
  have hx : S x.1 := hes.mem x (by simp)
  constructor
  · intro y hy
    have hyx : cmp y.1 x.1 = .lt := hlx y hy x (by simp)
    rw [h.congr_left hkey hx (hes.mem y (by simp [hy])) heq,
      h.gt_iff_lt hx (hes.mem y (by simp [hy]))]
    exact hyx
  · intro y hy
    rw [h.congr_left hkey hx (hes.mem y (by simp [hy])) heq]
    exact (List.pairwise_cons.mp hxr).1 y hy

theorem Ordered.respell (h : TotalPreorderOn cmp S) (hes : Ordered cmp S (l ++ x :: r))
    (hkey : S key) (heq : cmp key x.1 = .eq) (value : ν) :
    Ordered cmp S (l ++ (key,value) :: r) := by
  have hgap : Gap cmp key l r := hes.gap h hkey heq
  obtain ⟨hl, hxr, hlx⟩ := List.pairwise_append.mp hes.ascending
  have hrest : Ordered cmp S (l ++ r) :=
    hes.sublist ((List.sublist_cons_self x r).append_left l)
  refine ⟨?_, forall_mem_middle hkey hrest.mem⟩
  refine List.pairwise_append.mpr ⟨hl, List.pairwise_cons.mpr ⟨hgap.lt, ?_⟩, ?_⟩
  · exact (List.pairwise_cons.mp hxr).2
  · intro y hy z hz
    rcases List.mem_cons.mp hz with rfl | hz
    · exact (h.gt_iff_lt hkey (hrest.mem y (by simp [hy]))).mp (hgap.gt y hy)
    · exact hlx y hy z (by simp [hz])

section Collision
variable (h : TotalPreorderOn cmp S) (hkey : S key)
include h hkey

/-- A key that is equal to none finds its place among the others. -/
theorem insertMany_fresh (hes : Ordered cmp S (l ++ r))
    (hfresh : ∀ x ∈ l ++ r, cmp key x.1 ≠ .eq) :
    insertMany cmp [] (l ++ (key,value) :: r) = insert cmp key value (l ++ r) := by
  have hdistinct : Distinct cmp S ((l ++ r) ++ [(key,value)]) := by
    constructor
    · refine List.pairwise_append.mpr ⟨hes.distinct.unequal, List.pairwise_singleton _ _, ?_⟩
      intro x hx y hy
      obtain rfl := List.mem_singleton.mp hy
      exact mt (h.eq_comm (hes.mem x hx) hkey).mp (hfresh x hx)
    · intro x hx
      rcases List.mem_append.mp hx with hx | hx
      · exact hes.mem x hx
      · obtain rfl := List.mem_singleton.mp hx
        exact hkey
  have hperm : ((l ++ r) ++ [(key,value)]).Perm (l ++ (key,value) :: r) :=
    List.perm_append_singleton (key,value) (l ++ r) |>.trans List.perm_middle.symm
  rw [← hdistinct.insertMany_perm h hperm, insertMany_append, hes.insertMany_self h]
  rfl

/-- A key that is equal to one in front of it gives up its spelling. -/
theorem insertMany_equal_before (hes : Ordered cmp S (l₁ ++ x :: l₂ ++ r))
    (heq : cmp key x.1 = .eq) :
    insertMany cmp [] (l₁ ++ x :: l₂ ++ (key,value) :: r) = l₁ ++ (x.1,value) :: l₂ ++ r := by
  have hl : Ordered cmp S (l₁ ++ x :: l₂) := hes.sublist (List.sublist_append_left _ r)
  have hmerged : Ordered cmp S (l₁ ++ (x.1,value) :: l₂ ++ r) := by
    have hx : S x.1 := hes.mem x (by simp)
    rw [List.append_assoc, List.cons_append] at hes ⊢
    exact hes.respell h hx (h.refl x.1 hx) value
  calc insertMany cmp [] (l₁ ++ x :: l₂ ++ (key,value) :: r)
      = insertMany cmp (insert cmp key value (l₁ ++ x :: l₂)) r := by
        rw [insertMany_append, hl.insertMany_self h]
        rfl
    _ = insertMany cmp (l₁ ++ (x.1,value) :: l₂) r := by
        rw [(hl.gap h hkey heq).insert_present heq]
    _ = l₁ ++ (x.1,value) :: l₂ ++ r := hmerged.insertMany_append h

/-- A key that is equal to one behind it takes over the value. -/
theorem insertMany_equal_behind (hes : Ordered cmp S (l ++ (r₁ ++ x :: r₂)))
    (heq : cmp key x.1 = .eq) :
    insertMany cmp [] (l ++ (key,value) :: (r₁ ++ x :: r₂)) = l ++ r₁ ++ (key,x.2) :: r₂ := by
  rw [← List.append_assoc] at hes
  have hx : S x.1 := hes.mem x (by simp)
  have hxk : cmp x.1 key = .eq := (h.eq_comm hkey hx).mp heq
  have hmerged : Ordered cmp S (l ++ r₁ ++ (key,x.2) :: r₂) := hes.respell h hkey heq x.2
  have hfront : Ordered cmp S (l ++ r₁ ++ [(key,value)]) :=
    (hes.respell h hkey heq value).sublist (by simp)
  have hperm : (l ++ r₁ ++ [(key,value)]).Perm (l ++ (key,value) :: r₁) :=
    List.perm_append_singleton (key,value) (l ++ r₁) |>.trans List.perm_middle.symm
  calc insertMany cmp [] (l ++ (key,value) :: (r₁ ++ x :: r₂))
      = insertMany cmp (insertMany cmp [] (l ++ (key,value) :: r₁)) (x :: r₂) := by
        rw [← insertMany_append]
        simp
    _ = insertMany cmp (insert cmp x.1 x.2 (l ++ r₁ ++ [(key,value)])) r₂ := by
        rw [← hfront.distinct.insertMany_perm h hperm, hfront.insertMany_self h]
        rfl
    _ = insertMany cmp (l ++ r₁ ++ [(key,x.2)]) r₂ := by
        rw [(hfront.gap h hx hxk).insert_present hxk]
    _ = l ++ r₁ ++ (key,x.2) :: r₂ := by
        have happend : l ++ r₁ ++ (key,x.2) :: r₂ = l ++ r₁ ++ [(key,x.2)] ++ r₂ := by simp
        rw [happend] at hmerged ⊢
        exact hmerged.insertMany_append h

end Collision

/-- The entries `l` and `r` with one more between them, whose key may find its place elsewhere or
be equal to another one. In that case the two entries are one, with the key of the first and the
value of the second. -/
structure Respells (cmp : Comparator κ) (l : List (κ × ν)) (key : κ) (value : ν)
    (r es : List (κ × ν)) : Prop where
  fresh : (∀ x ∈ l ++ r, cmp key x.1 ≠ .eq) → es = insert cmp key value (l ++ r)
  equal_before : ∀ l₁ x l₂, l = l₁ ++ x :: l₂ → cmp key x.1 = .eq →
    es = l₁ ++ (x.1,value) :: l₂ ++ r
  equal_behind : ∀ r₁ x r₂, r = r₁ ++ x :: r₂ → cmp key x.1 = .eq →
    es = l ++ r₁ ++ (key,x.2) :: r₂

theorem insertMany_respells (h : TotalPreorderOn cmp S) (hkey : S key)
    (hes : Ordered cmp S (l ++ r)) (value : ν) :
    Respells cmp l key value r (insertMany cmp [] (l ++ (key,value) :: r)) where
  fresh := insertMany_fresh h hkey hes
  equal_before := by
    rintro l₁ x l₂ rfl heq
    exact insertMany_equal_before h hkey hes heq
  equal_behind := by
    rintro r₁ x r₂ rfl heq
    exact insertMany_equal_behind h hkey hes heq

theorem Respells.length_of_equal (hes : Respells cmp l key value r es)
    (hequal : ∃ x ∈ l ++ r, cmp key x.1 = .eq) : es.length = (l ++ r).length := by
  obtain ⟨x, hx, heq⟩ := hequal
  rcases List.mem_append.mp hx with hx | hx
  · obtain ⟨l₁, l₂, rfl⟩ := List.append_of_mem hx
    rw [hes.equal_before l₁ x l₂ rfl heq]
    simp
  · obtain ⟨r₁, r₂, rfl⟩ := List.append_of_mem hx
    rw [hes.equal_behind r₁ x r₂ rfl heq]
    simp

theorem Respells.length_of_fresh (h : TotalPreorderOn cmp S) (hkey : S key)
    (hlr : Ordered cmp S (l ++ r)) (hes : Respells cmp l key value r es)
    (hfresh : ∀ x ∈ l ++ r, cmp key x.1 ≠ .eq) : es.length = (l ++ r).length + 1 := by
  rw [hes.fresh hfresh, length_insert h hlr hkey, find?_eq_none hfresh]
  rfl

end RedBlackMap.Entries
