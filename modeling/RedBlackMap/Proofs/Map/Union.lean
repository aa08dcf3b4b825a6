import RedBlackMap.Map.Shrink
import RedBlackMap.Proofs.Entries.Union
import RedBlackMap.Proofs.Map.WellFormed
import RedBlackMap.Proofs.Tree.Traversal

/-!
# Maps put together

A map that takes in a list of entries holds one entry for each class of equal keys, with
the key that came first and the value that came last. A map made of a list alone depends
on the order of the list only where keys are equal.
-/
namespace RedBlackMap.Map
universe u v w
variable {κ : Type u} {ν : Type v} {γ : Type w} {cmp : Comparator κ} {S : κ → Prop}
  {m : Map κ ν cmp} {old new es : List (κ × ν)}

/-- The map holds the union of old and new entries, and its count is the number of classes. -/
structure HoldsUnion (m : Map κ ν cmp) (S : κ → Prop) (old new : List (κ × ν)) : Prop where
  entries : Entries.Unites cmp old new m.toList
  size_eq : m.size = (Entries.classes cmp S (old ++ new)).ncard

theorem WellFormedOn.insertMany_holdsUnion (hcmp : TotalPreorderOn cmp S) (hm : m.WellFormedOn S)
    (hnew : ∀ e ∈ new, S e.1) : (m.insertMany new).HoldsUnion S m.toList new := by
  obtain ⟨hm', hlist⟩ := insertMany_spec hcmp hm new hnew
  constructor
  · rw [hlist]
    exact Entries.insertMany_unites hcmp hm.ordered hnew
  · rw [hm'.size_eq, hlist]
    exact Entries.length_insertMany hcmp hm.ordered hnew

theorem toList_ofList (hcmp : TotalPreorderOn cmp S) (hes : ∀ e ∈ es, S e.1) :
    (ofList cmp es).toList = Entries.insertMany cmp [] es :=
  (insertMany_spec hcmp wellFormedOn_empty es hes).2

/-- A map takes in entries as a union, and a map of entries alone is the union with nothing.
Unequal keys may come in any order, and the entries of a map make up the same map again. -/
theorem insertMany_union (hcmp : TotalPreorderOn cmp S) :
    (∀ (m : Map κ ν cmp) (es : List (κ × ν)), m.Reachable S → (∀ e ∈ es, S e.1) →
      (m.insertMany es).HoldsUnion S m.toList es) ∧
    (∀ es : List (κ × ν), (∀ e ∈ es, S e.1) → (ofList cmp es).HoldsUnion S [] es) ∧
    (∀ (entries : γ → List (κ × ν) × γ) (g : γ), (∀ e ∈ (entries g).1, S e.1) →
      (generate cmp entries g).1.HoldsUnion S [] (entries g).1) ∧
    (∀ es es' : List (κ × ν), (∀ e ∈ es, S e.1) → (es.Pairwise fun a b => cmp a.1 b.1 ≠ .eq) →
      es.Perm es' → (ofList cmp es).toList = (ofList cmp es').toList) ∧
    (∀ m : Map κ ν cmp, m.Reachable S →
      (ofList cmp (m.cursor .owned).toList).toList = m.toList) := by
  have hofList (es : List (κ × ν)) (hes : ∀ e ∈ es, S e.1) :
      (ofList cmp es).HoldsUnion S [] es :=
    wellFormedOn_empty.insertMany_holdsUnion hcmp hes
  refine ⟨?_, hofList, ?_, ?_, ?_⟩
  · intro m es hm hes
    exact (hm.wellFormedOn hcmp).insertMany_holdsUnion hcmp hes
  · intro entries g hes
    exact hofList (entries g).1 hes
  · intro es es' hes hunequal hp
    have hdistinct : Entries.Distinct cmp S es := ⟨hunequal, hes⟩
    rw [toList_ofList hcmp hes, toList_ofList hcmp (hdistinct.perm hcmp hp).mem]
    exact hdistinct.insertMany_perm hcmp hp
  · intro m hm
    have hordered : Entries.Ordered cmp S m.toList := (hm.wellFormedOn hcmp).ordered
    have hcursor : (m.cursor .owned).toList = m.toList :=
      Cursor.toList_ofTree .owned m.root m.size
    rw [hcursor, toList_ofList hcmp hordered.mem]
    exact hordered.insertMany_self hcmp

/-- Three spellings of one key: the oldest is kept with the newest value. -/
theorem insertMany_union_byRemainder :
    let cmp := Comparator.byRemainder 5
    let m : Map Int String cmp := (Operation.run ∅ [.insert 3 "a",.insert 1 "b"]).2
    let es : List (Int × String) := [(8,"c"),(7,"d"),(13,"e"),(2,"f")]
    let counted : Nat → List (Int × String) × Nat := fun n => ([(n,"g"),(n + 5,"h")],n + 1)
    TotalPreorderOn cmp (0 ≤ ·) ∧ m.Reachable (0 ≤ ·) ∧ (∀ e ∈ es, 0 ≤ e.1) ∧
      (m.insertMany es).HoldsUnion (0 ≤ ·) [(1,"b"),(3,"a")] es ∧
      (m.insertMany es).toList = [(1,"b"),(7,"f"),(3,"e")] ∧
      (generate cmp counted 4).1.HoldsUnion (0 ≤ ·) [] [(4,"g"),(9,"h")] ∧
      (ofList cmp [(3,"a"),(6,"b"),(2,"c")]).toList =
        (ofList cmp [(2,"c"),(3,"a"),(6,"b")]).toList ∧
      (ofList cmp (m.cursor .owned).toList).toList = m.toList := by
  intro cmp m es counted
  have hcmp : TotalPreorderOn cmp (0 ≤ ·) := Comparator.totalPreorderOn_byRemainder 5 (0 ≤ ·)
  have hm : m.Reachable (0 ≤ ·) := ⟨_, by simp [Operation.keys], rfl⟩
  have hes : ∀ e ∈ es, 0 ≤ e.1 := by simp [es]
  have hlist : m.toList = [(1,"b"),(3,"a")] :=
    (Operation.run_spec hcmp wellFormedOn_empty (by simp [Operation.keys])).2.2
  obtain ⟨hunion, -, hgenerate, hperm, hown⟩ := insertMany_union (ν := String) (γ := Nat) hcmp
  refine ⟨hcmp, hm, hes, hlist ▸ hunion m es hm hes, ?_, ?_, ?_, hown m hm⟩
  · rw [(insertMany_spec hcmp (hm.wellFormedOn hcmp) es hes).2, hlist]
    rfl
  · exact hgenerate counted 4 (by simp [counted])
  · exact hperm _ _ (by simp) (by simp [cmp, Comparator.byRemainder, Comparator.ofLess]) (by decide)

end RedBlackMap.Map
