import RedBlackMap.Proofs.Map.Image
import RedBlackMap.Proofs.Map.WellFormed
import RedBlackMap.Proofs.Order.Utf8
import RedBlackMap.Proofs.Tree.Traversal

/-!
# Maps of folded strings

A map that compares strings by their folded characters does what a map of the folded
strings does that compares bytes. It only keeps the strings as they were stored.
-/
namespace RedBlackMap.Operation
universe v
variable {ν : Type v}

/-- Strings compare by their folded characters as the folded strings do by their bytes. A
history on a map of the one kind is step by step the folded history on a map of the other,
with answers and trees that differ in the fold of the keys alone, and what is stored ascends
in the bytes of the folded keys. -/
theorem run_folded (expand : Char → List Char) :
    (∀ l r, Comparator.foldedBy expand l r =
      Comparator.lexical (fold expand l) (fold expand r)) ∧
    (∀ (ops : List (Operation String ν)) (n : Nat),
      let kept := run (∅ : Map String ν (Comparator.foldedBy expand)) (ops.take n)
      let folded := run (∅ : Map String ν Comparator.lexical)
        ((ops.map (mapKeys (fold expand))).take n)
      folded.1 = kept.1.map (Answer.mapKeys (fold expand)) ∧
        folded.2.size = kept.2.size ∧
        folded.2.root = kept.2.root.image (fold expand) id ∧
        folded.2.toList = kept.2.toList.map (Prod.map (fold expand) id)) ∧
    (∀ (ops : List (Operation String ν)) (a : Access),
      let kept := (run (∅ : Map String ν (Comparator.foldedBy expand)) ops).2
      (kept.cursor a).toList.Pairwise fun x y =>
        Comparator.lexical (fold expand x.1) (fold expand y.1) = .lt) := by
  have hfold (l r : String) : Comparator.lexical (fold expand l) (fold expand r) =
      Comparator.foldedBy expand l r := (Comparator.foldedBy_eq_lexical expand l r).symm
  refine ⟨Comparator.foldedBy_eq_lexical expand, ?_, ?_⟩
  · intro ops n kept folded
    have hrun : folded = (kept.1.map (Answer.mapKeys (fold expand)),kept.2.mapKeys (fold expand)) := by
      have hempty : (∅ : Map String ν Comparator.lexical) =
          (∅ : Map String ν (Comparator.foldedBy expand)).mapKeys (fold expand) := rfl
      simp only [folded, kept, ← List.map_take, hempty, run_mapKeys hfold]
    rw [hrun]
    exact ⟨rfl, rfl, rfl, Tree.toList_image (fold expand) id kept.2.root⟩
  · intro ops a kept
    have hkept : kept.WellFormedOn fun _ => True :=
      (run_spec (Comparator.totalPreorderOn_foldedBy expand _) Map.wellFormedOn_empty
        fun _ _ _ _ => trivial).1
    have hcursor : (kept.cursor a).toList = kept.toList := Cursor.toList_ofTree a kept.root kept.size
    rw [hcursor]
    refine hkept.ordered.ascending.imp fun {x y} hxy => ?_
    rwa [hfold]

example : fold Text.lowercase "İΣ" = "i̇σ" ∧ Comparator.caseFolded "İΣ" "i̇σ" = .eq ∧
    Comparator.caseFolded "İΣ" "IΣ" = .lt ∧ Comparator.lexical "İΣ" "IΣ" = .gt := by
  decide +kernel

end RedBlackMap.Operation
