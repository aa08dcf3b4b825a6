import RedBlackMap.Proofs.Entries.Union
import RedBlackMap.Proofs.Map.WellFormed
import RedBlackMap.Proofs.Tree.Recorded
import RedBlackMap.Proofs.Tree.Traversal

/-!
# Values stored in place

An insertion under a key that is there stores the value in the node of that key and leaves the
tree as it is otherwise, with no rotation and no flip. So the entries of a map may be inserted
again without any change.
-/
namespace RedBlackMap.Map
universe u v
variable {κ : Type u} {ν : Type v} {cmp : Comparator κ} {S : κ → Prop} {m : Map κ ν cmp}
  {key : κ} {value : ν} {e : κ × ν}

/-- In a map that holds `e`, an insertion under another spelling of its key stores the value
there and does nothing else. -/
structure Stores (m : Map κ ν cmp) (e : κ × ν) (key : κ) (value : ν) : Prop where
  insert_eq : m.insert key value = (false, (m.replace key value).2)
  replace_eq : (m.replace key value).1 = some e.2
  overwrites : Tree.Overwrites e value m.root (m.insert key value).2.root
  size_eq : (m.insert key value).2.size = m.size
  recorded_eq : Recorded.insert cmp key value m.root = ([], false, (m.insert key value).2.root)

theorem stores_of_find? {b : Nat} (hm : m.root.Balanced b)
    (hfind : m.root.find? (cmp key) = some e) (value : ν) : m.Stores e key value := by
  have hrecorded : Recorded.insert cmp key value m.root =
      ([], false, m.root.modify (cmp key) fun _ => value) :=
    Recorded.insert_of_find? hm.leansLeft hm.isRed_eq_false hfind
  have hroot : m.root.insert cmp key value =
      (false, m.root.modify (cmp key) fun _ => value) := by
    rw [← Recorded.insert_snd, hrecorded]
  have hinsert : m.insert key value = (false, (m.replace key value).2) := by
    rw [Map.insert, hroot]
    rfl
  refine ⟨hinsert, ?_, ?_, ?_, ?_⟩
  · rw [replace, Map.find?, valueAt?, entryAt?, hfind]
    rfl
  · rw [hinsert]
    exact Tree.modify_overwrites (fun _ => value) hfind
  · rw [hinsert]
    rfl
  · rw [hinsert]
    exact hrecorded

/-- A map that holds an entry holds it where the search for its key ends. -/
theorem WellFormedOn.find?_of_mem (hcmp : TotalPreorderOn cmp S) (hm : m.WellFormedOn S)
    (he : e ∈ m.toList) (hkey : S key) (heq : cmp key e.1 = .eq) :
    m.root.find? (cmp key) = some e :=
  (hm.entryAt?_eq hcmp hkey).trans
    ((hm.ordered.distinct.find?_eq_some_iff hcmp hkey).mpr ⟨he, heq⟩)

theorem WellFormedOn.insert_self (hcmp : TotalPreorderOn cmp S) (hm : m.WellFormedOn S)
    (he : e ∈ m.toList) : (m.insert e.1 e.2).2 = m := by
  obtain ⟨b, hb⟩ := hm.balanced
  have hkey : S e.1 := hm.ordered.mem e he
  have hfind : m.root.find? (cmp e.1) = some e :=
    hm.find?_of_mem hcmp he hkey (hcmp.refl e.1 hkey)
  have hmodify : m.root.modify (cmp e.1) (fun _ => e.2) = m.root :=
    (Tree.modify_overwrites (fun _ => e.2) hfind).eq_self
  rw [(stores_of_find? hb hfind e.2).insert_eq]
  change (⟨m.root.modify (cmp e.1) fun _ => e.2, m.size⟩ : Map κ ν cmp) = m
  rw [hmodify]

theorem WellFormedOn.insertMany_self (hcmp : TotalPreorderOn cmp S) (hm : m.WellFormedOn S)
    {es : List (κ × ν)} (hes : ∀ e ∈ es, e ∈ m.toList) : m.insertMany es = m := by
  induction es with
  | nil => rfl
  | cons e es ih =>
    have hself : (m.insert e.1 e.2).2 = m := hm.insert_self hcmp (hes e (by simp))
    rw [insertMany, List.foldl_cons, hself]
    exact ih fun x hx => hes x (by simp [hx])

/-- A key that is equal to a stored one has its value stored in place, as by `replace`, and
the entries of a map may come in again, in any order and number, without a trace. -/
theorem insert_in_place (hcmp : TotalPreorderOn cmp S) (hm : m.Reachable S) :
    (∀ (e : κ × ν) (key : κ) (value : ν), e ∈ m.toList → S key → cmp key e.1 = .eq →
      m.Stores e key value) ∧
    (∀ es : List (κ × ν), (∀ e ∈ es, e ∈ m.toList) → m.insertMany es = m) ∧
    m.insertMany (m.cursor .owned).toList = m := by
  have hm' : m.WellFormedOn S := hm.wellFormedOn hcmp
  obtain ⟨b, hb⟩ := hm'.balanced
  refine ⟨?_, fun es hes => hm'.insertMany_self hcmp hes, ?_⟩
  · intro e key value he hkey heq
    exact stores_of_find? hb (hm'.find?_of_mem hcmp he hkey heq) value
  · have hcursor : (m.cursor .owned).toList = m.toList :=
      Cursor.toList_ofTree .owned m.root m.size
    rw [hcursor]
    exact hm'.insertMany_self hcmp fun _ he => he

/-- The keys `13` and `3` are two spellings of one key, and the first is kept. The keys `2` and `9`
are new, and each takes repairs that are on record. -/
theorem insert_in_place_byRemainder :
    let cmp := Comparator.byRemainder 10
    let m : Map Int String cmp :=
      (Operation.run ∅ [.insertMany [(13,"a"),(1,"b"),(8,"c"),(26,"d"),(4,"e")],.remove 11]).2
    TotalPreorderOn cmp (0 ≤ ·) ∧ m.Reachable (0 ≤ ·) ∧ (13,"a") ∈ m.toList ∧
      cmp 3 13 = .eq ∧ m.Stores (13,"a") 3 "z" ∧
      (Recorded.insert cmp 3 "z" m.root).1 = [] ∧
      (Recorded.insert cmp 2 "z" m.root).1 = [.rotateRight,.flip] ∧
      (Recorded.insert cmp 9 "z" m.root).1 = [.rotateLeft] ∧
      m.insertMany [(8,"c"),(13,"a"),(8,"c")] = m ∧ m.insertMany (m.cursor .owned).toList = m := by
  intro cmp m
  have hcmp : TotalPreorderOn cmp (0 ≤ ·) := Comparator.totalPreorderOn_byRemainder 10 (0 ≤ ·)
  have hm : m.Reachable (0 ≤ ·) := ⟨_, by simp [Operation.keys], rfl⟩
  have hlist : m.toList = [(13,"a"),(4,"e"),(26,"d"),(8,"c")] := by decide +kernel
  have hmem : (13,"a") ∈ m.toList := by simp [hlist]
  obtain ⟨hstores, hmany, hown⟩ := insert_in_place hcmp hm
  have hstored : m.Stores (13,"a") 3 "z" := hstores (13,"a") 3 "z" hmem (by decide) rfl
  exact ⟨hcmp, hm, hmem, rfl, hstored, congrArg Prod.fst hstored.recorded_eq, by decide +kernel,
    by decide +kernel, hmany _ (by simp [hlist]), hown⟩

end RedBlackMap.Map
