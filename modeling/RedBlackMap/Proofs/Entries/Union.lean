import Mathlib.Data.Option.NAry
import Mathlib.Data.Set.Card
import RedBlackMap.Proofs.Entries.Alignment
import RedBlackMap.Proofs.Entries.Operation

/-!
# Entries put together

When a list of entries is inserted into ascending ones, the first key of each class of
equal keys stays and the last value wins. This fixes the result at every key, and so as
a whole.
-/
namespace RedBlackMap.Entries
universe u v
variable {κ : Type u} {ν : Type v} {cmp : Comparator κ} {S : κ → Prop}
  {k : κ} {e : κ × ν} {es es' old new : List (κ × ν)}

def findLast? (cmp : Comparator κ) (key : κ) (es : List (κ × ν)) : Option (κ × ν) :=
  find? cmp key es.reverse

/-- The entry that brings the key of a class: the old one, or else the first new one. -/
def keeper? (cmp : Comparator κ) (old new : List (κ × ν)) (k : κ) : Option (κ × ν) :=
  (find? cmp k old).or (find? cmp k new)

/-- The entry that brings the value of a class: the last new one, or else the old one. -/
def giver? (cmp : Comparator κ) (old new : List (κ × ν)) (k : κ) : Option (κ × ν) :=
  (findLast? cmp k new).or (find? cmp k old)

def unionAt (cmp : Comparator κ) (old new : List (κ × ν)) (k : κ) : Option (κ × ν) :=
  Option.map₂ (fun first last => (first.1,last.2)) (keeper? cmp old new k) (giver? cmp old new k)

theorem findLast?_cons : findLast? cmp k (e :: es) =
    (findLast? cmp k es).or (if cmp k e.1 = .eq then some e else none) := by
  rw [findLast?, find?, List.reverse_cons, List.find?_append]
  exact congrArg (Option.or _) find?_cons

/-- One more new entry in front makes a difference to its own class alone. -/
theorem unionAt_cons (h : TotalPreorderOn cmp S) (hold : Ordered cmp S old) (he : S e.1)
    (hk : S k) : unionAt cmp old (e :: new) k = unionAt cmp (insert cmp e.1 e.2 old) new k := by
  simp only [unionAt, keeper?, giver?, find?_cons, findLast?_cons, find?_insert h hold he hk]
  by_cases hke : cmp k e.1 = .eq
  · rw [find?_congr h hold.mem hk he hke]
    cases find? cmp e.1 old <;> cases findLast? cmp k new <;> simp [hke]
  · simp [hke]

/-- What is found after the insertion of many entries. -/
theorem find?_insertMany (h : TotalPreorderOn cmp S) (hold : Ordered cmp S old)
    (hnew : ∀ e ∈ new, S e.1) (hk : S k) :
    find? cmp k (insertMany cmp old new) = unionAt cmp old new k := by
  induction new generalizing old with
  | nil => cases hc : find? cmp k old <;> simp [insertMany, unionAt, keeper?, giver?, findLast?,
      find?_eq_none, hc]
  | cons e new ih =>
    have he : S e.1 := hnew e (by simp)
    rw [unionAt_cons h hold he hk]
    exact ih (hold.insert h he) fun x hx => hnew x (by simp [hx])

/-- Entries with keys in `S`, no two of them equal, in any order. -/
structure Distinct (cmp : Comparator κ) (S : κ → Prop) (es : List (κ × ν)) : Prop where
  unequal : es.Pairwise fun x y => cmp x.1 y.1 ≠ .eq
  mem : ∀ e ∈ es, S e.1

theorem Ordered.distinct (hes : Ordered cmp S es) : Distinct cmp S es :=
  ⟨hes.ascending.imp fun hlt => by simp [hlt], hes.mem⟩

theorem Distinct.perm (h : TotalPreorderOn cmp S) (hes : Distinct cmp S es) (hp : es.Perm es') :
    Distinct cmp S es' := by
  have hmem : ∀ e ∈ es', S e.1 := fun e he => hes.mem e (hp.mem_iff.mpr he)
  refine ⟨?_, hmem⟩
  have hkeys : es.Pairwise fun x y => cmp x.1 y.1 ≠ .eq ∧ cmp y.1 x.1 ≠ .eq :=
    hes.unequal.imp_of_mem fun hx hy hne =>
      ⟨hne, mt (h.eq_comm (hes.mem _ hy) (hes.mem _ hx)).mp hne⟩
  exact (hp.pairwise hkeys fun hxy => hxy.symm).imp And.left

/-- Each entry is found at every key equal to its own. -/
theorem Distinct.find?_eq_some_iff (h : TotalPreorderOn cmp S) (hes : Distinct cmp S es)
    (hk : S k) : find? cmp k es = some e ↔ e ∈ es ∧ cmp k e.1 = .eq := by
  constructor
  · intro hfound
    exact ⟨mem_of_find? hfound, eq_of_find? hfound⟩
  · rintro ⟨hmem, hke⟩
    induction es with
    | nil => cases hmem
    | cons x es ih =>
      obtain ⟨hx, hrest⟩ := List.pairwise_cons.mp hes.unequal
      rw [find?_cons]
      rcases List.mem_cons.mp hmem with rfl | hmem
      · rw [if_pos hke]
      · have hkx : cmp k x.1 ≠ .eq := by
          intro hkx
          apply hx e hmem
          rwa [← h.congr_left hk (hes.mem x (by simp)) (hes.mem e (by simp [hmem])) hkx]
        rw [if_neg hkx]
        exact ih ⟨hrest, fun y hy => hes.mem y (by simp [hy])⟩ hmem

theorem Distinct.find?_perm (h : TotalPreorderOn cmp S) (hes : Distinct cmp S es)
    (hp : es.Perm es') (hk : S k) : find? cmp k es = find? cmp k es' := by
  apply Option.ext
  intro e
  rw [hes.find?_eq_some_iff h hk, (hes.perm h hp).find?_eq_some_iff h hk, hp.mem_iff]

/-- Unequal keys bring their own values. -/
theorem Distinct.unionAt_nil (h : TotalPreorderOn cmp S) (hes : Distinct cmp S es) (hk : S k) :
    unionAt cmp [] es k = find? cmp k es := by
  have hlast : findLast? cmp k es = find? cmp k es :=
    (hes.find?_perm h es.reverse_perm.symm hk).symm
  have hnone : find? cmp k ([] : List (κ × ν)) = none := rfl
  rw [unionAt, keeper?, giver?, hlast, hnone]
  cases find? cmp k es <;> rfl

theorem Distinct.find?_insertMany_nil (h : TotalPreorderOn cmp S) (hes : Distinct cmp S es)
    (hk : S k) : find? cmp k (insertMany cmp [] es) = find? cmp k es := by
  rw [find?_insertMany h ordered_nil hes.mem hk, hes.unionAt_nil h hk]

/-- Unequal keys are put in order from any order. -/
theorem Distinct.insertMany_perm (h : TotalPreorderOn cmp S) (hes : Distinct cmp S es)
    (hp : es.Perm es') : insertMany cmp [] es = insertMany cmp [] es' := by
  have hes' : Distinct cmp S es' := hes.perm h hp
  apply ext_find? h (ordered_nil.insertMany h hes.mem) (ordered_nil.insertMany h hes'.mem)
  intro k hk
  rw [hes.find?_insertMany_nil h hk, hes'.find?_insertMany_nil h hk, hes.find?_perm h hp hk]

theorem Ordered.insertMany_self (h : TotalPreorderOn cmp S) (hes : Ordered cmp S es) :
    Entries.insertMany cmp [] es = es := by
  apply ext_find? h (ordered_nil.insertMany h hes.mem) hes
  intro k hk
  exact hes.distinct.find?_insertMany_nil h hk

def classOf (cmp : Comparator κ) (S : κ → Prop) (k : κ) : Set κ := {x | S x ∧ cmp k x = .eq}

def classes (cmp : Comparator κ) (S : κ → Prop) (es : List (κ × ν)) : Set (Set κ) :=
  (fun e => classOf cmp S e.1) '' {e | e ∈ es}

theorem classOf_eq_iff (h : TotalPreorderOn cmp S) {a b : κ} (ha : S a) (hb : S b) :
    classOf cmp S a = classOf cmp S b ↔ cmp a b = .eq := by
  constructor
  · intro hab
    have hmem : b ∈ classOf cmp S a := hab ▸ ⟨hb, h.refl b hb⟩
    exact hmem.2
  · intro hab
    ext x
    exact and_congr_right fun hx => by rw [h.congr_left ha hb hx hab]

theorem Distinct.ncard_classes (h : TotalPreorderOn cmp S) (hes : Distinct cmp S es) :
    (classes cmp S es).ncard = es.length := by
  classical
  have hinj : Set.InjOn (fun e => classOf cmp S e.1) {e | e ∈ es} := by
    intro x hx y hy hxy
    have hfind : find? cmp x.1 es = some y := by
      rw [hes.find?_eq_some_iff h (hes.mem x hx)]
      exact ⟨hy, (classOf_eq_iff h (hes.mem x hx) (hes.mem y hy)).mp hxy⟩
    have hself : find? cmp x.1 es = some x := by
      rw [hes.find?_eq_some_iff h (hes.mem x hx)]
      exact ⟨hx, h.refl x.1 (hes.mem x hx)⟩
    exact Option.some_inj.mp (hself.symm.trans hfind)
  have hnodup : es.Nodup :=
    hes.unequal.imp_of_mem fun hx _ hne heq => hne (heq ▸ h.refl _ (hes.mem _ hx))
  rw [classes, hinj.ncard_image, ← List.coe_toFinset, Set.ncard_coe_finset,
    List.toFinset_card_of_nodup hnodup]

/-- One entry for each class of keys that occurs, with its first key and its last value. -/
structure Unites (cmp : Comparator κ) (old new es : List (κ × ν)) : Prop where
  ascending : es.Pairwise fun x y => cmp x.1 y.1 = .lt
  occurs : ∀ e ∈ es, ∃ x ∈ old ++ new, x.1 = e.1
  one_of_class : ∀ x ∈ old ++ new, ∃! e, e ∈ es ∧ cmp x.1 e.1 = .eq
  key_eq : ∀ e ∈ es, (keeper? cmp old new e.1).map (·.1) = some e.1
  value_eq : ∀ e ∈ es, (giver? cmp old new e.1).map (·.2) = some e.2

theorem mem_of_keeper? (hkeep : keeper? cmp old new k = some e) : e ∈ old ++ new := by
  rw [keeper?, Option.or_eq_some_iff] at hkeep
  rcases hkeep with hfound | ⟨-, hfound⟩
  · exact List.mem_append_left new (mem_of_find? hfound)
  · exact List.mem_append_right old (mem_of_find? hfound)

theorem isSome_find?_iff : (find? cmp k es).isSome = true ↔ ∃ x ∈ es, cmp k x.1 = .eq := by
  simp [find?, Comparator.isEq]

theorem isSome_unionAt (hx : ∃ x ∈ old ++ new, cmp k x.1 = .eq) :
    (unionAt cmp old new k).isSome = true := by
  obtain ⟨x, hmem, hkx⟩ := hx
  rcases List.mem_append.mp hmem with hmem | hmem
  · obtain ⟨a, ha⟩ := Option.isSome_iff_exists.mp (isSome_find?_iff.mpr ⟨x, hmem, hkx⟩)
    cases hc : findLast? cmp k new <;> simp [unionAt, keeper?, giver?, ha, hc]
  · obtain ⟨a, ha⟩ := Option.isSome_iff_exists.mp (isSome_find?_iff.mpr ⟨x, hmem, hkx⟩)
    obtain ⟨b, hb⟩ := Option.isSome_iff_exists.mp
      (isSome_find?_iff.mpr ⟨x, List.mem_reverse.mpr hmem, hkx⟩)
    have hlast : findLast? cmp k new = some b := hb
    cases hc : find? cmp k old <;> simp [unionAt, keeper?, giver?, ha, hlast, hc]

section Union
variable (h : TotalPreorderOn cmp S) (hold : Ordered cmp S old) (hnew : ∀ e ∈ new, S e.1)
include h hold hnew

/-- The entries after an insertion of many, each at its own key. -/
theorem mem_insertMany_iff (hk : S k) : e ∈ insertMany cmp old new ∧ cmp k e.1 = .eq ↔
    unionAt cmp old new k = some e := by
  have hes : Ordered cmp S (insertMany cmp old new) := hold.insertMany h hnew
  rw [← hes.distinct.find?_eq_some_iff h hk, find?_insertMany h hold hnew hk]

theorem exists_of_mem_insertMany (he : e ∈ insertMany cmp old new) : ∃ first last,
    keeper? cmp old new e.1 = some first ∧ giver? cmp old new e.1 = some last ∧
      e = (first.1,last.2) := by
  have hS : S e.1 := (hold.insertMany h hnew).mem e he
  have hat : unionAt cmp old new e.1 = some e :=
    (mem_insertMany_iff h hold hnew hS).mp ⟨he, h.refl e.1 hS⟩
  obtain ⟨first, last, hfirst, hlast, heq⟩ := Option.map₂_eq_some_iff.mp hat
  exact ⟨first, last, hfirst, hlast, heq.symm⟩

theorem exists_unique_insertMany {x : κ × ν} (hx : x ∈ old ++ new) :
    ∃! e, e ∈ insertMany cmp old new ∧ cmp x.1 e.1 = .eq := by
  have hS : S x.1 := (List.mem_append.mp hx).elim (hold.mem x) (hnew x)
  obtain ⟨e, he⟩ := Option.isSome_iff_exists.mp (isSome_unionAt ⟨x, hx, h.refl x.1 hS⟩)
  refine ⟨e, (mem_insertMany_iff h hold hnew hS).mpr he, ?_⟩
  intro y hy
  rw [mem_insertMany_iff h hold hnew hS, he] at hy
  exact (Option.some_inj.mp hy).symm

theorem classes_insertMany :
    classes cmp S (insertMany cmp old new) = classes cmp S (old ++ new) := by
  have hes : Ordered cmp S (insertMany cmp old new) := hold.insertMany h hnew
  ext C
  constructor
  · rintro ⟨e, he, rfl⟩
    obtain ⟨first, last, hfirst, -, heq⟩ := exists_of_mem_insertMany h hold hnew he
    refine ⟨first, mem_of_keeper? hfirst, ?_⟩
    rw [heq]
  · rintro ⟨x, hx, rfl⟩
    obtain ⟨e, ⟨he, hxe⟩, -⟩ := exists_unique_insertMany h hold hnew hx
    have hS : S x.1 := (List.mem_append.mp hx).elim (hold.mem x) (hnew x)
    exact ⟨e, he, ((classOf_eq_iff h hS (hes.mem e he)).mpr hxe).symm⟩

theorem length_insertMany :
    (insertMany cmp old new).length = (classes cmp S (old ++ new)).ncard := by
  rw [← (hold.insertMany h hnew).distinct.ncard_classes h, classes_insertMany h hold hnew]

theorem insertMany_unites : Unites cmp old new (insertMany cmp old new) := by
  have hes : Ordered cmp S (insertMany cmp old new) := hold.insertMany h hnew
  refine ⟨hes.ascending, ?_, ?_, ?_, ?_⟩
  · intro e he
    obtain ⟨first, last, hfirst, -, heq⟩ := exists_of_mem_insertMany h hold hnew he
    exact ⟨first, mem_of_keeper? hfirst, by rw [heq]⟩
  · intro x hx
    exact exists_unique_insertMany h hold hnew hx
  · intro e he
    obtain ⟨first, last, hfirst, -, heq⟩ := exists_of_mem_insertMany h hold hnew he
    rw [hfirst, heq]
    rfl
  · intro e he
    obtain ⟨first, last, -, hlast, heq⟩ := exists_of_mem_insertMany h hold hnew he
    rw [hlast, heq]
    rfl

end Union

end RedBlackMap.Entries
