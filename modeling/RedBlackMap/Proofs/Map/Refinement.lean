import RedBlackMap.Proofs.Entries.Rules
import RedBlackMap.Proofs.Map.WellFormed

/-!
# Maps as ascending entries

A history of a map gives the answers and leaves the entries that the rules for ascending
entries give. The tree may change its shape where the rules change nothing.
-/
namespace RedBlackMap.Operation
universe u v
variable {κ : Type u} {ν : Type v} {cmp : Comparator κ} {S : κ → Prop}
  {ops : List (Operation κ ν)}

/-- Answers and entries are those of the list, which follows the rules step by step. -/
theorem run_refines (hcmp : TotalPreorderOn cmp S) (hops : ∀ op ∈ ops, ∀ k ∈ op.keys, S k) :
    (run (∅ : Map κ ν cmp) ops).1 = (Entries.run cmp [] ops).1 ∧
      (run (∅ : Map κ ν cmp) ops).2.toList = (Entries.run cmp [] ops).2 ∧
        (run (∅ : Map κ ν cmp) ops).2.toList.Pairwise (fun a b => cmp a.1 b.1 = .lt) ∧
          Entries.Steps cmp [] ops (run (∅ : Map κ ν cmp) ops).1
            (run (∅ : Map κ ν cmp) ops).2.toList := by
  obtain ⟨hm, hanswers, hlist⟩ := run_spec hcmp Map.wellFormedOn_empty hops
  have hsteps : Entries.Steps cmp [] ops (Entries.run cmp [] ops).1 (Entries.run cmp [] ops).2 :=
    Entries.run_steps hcmp Entries.ordered_nil hops
  refine ⟨hanswers, hlist, hm.ordered.ascending, ?_⟩
  rwa [hanswers, hlist]

/-- Another spelling finds and replaces a value, and removal gives the stored spelling back. -/
theorem run_refines_byRemainder :
    let cmp := Comparator.byRemainder 5
    let ops : List (Operation Int String) :=
      [insert 3 "a",insert 8 "b",insert 6 "c",remove 2,find 13,remove 13,delete 3,min,max,isEmpty]
    TotalPreorderOn cmp (0 ≤ ·) ∧ (∀ op ∈ ops, ∀ k ∈ op.keys, 0 ≤ k) ∧
      (run (∅ : Map Int String cmp) ops).1 = [.flag true,.flag false,.flag true,.entry none,
        .value (some "b"),.entry (some (3,"b")),.flag false,.entry (some (6,"c")),
        .entry (some (6,"c")),.flag false] ∧
      (run (∅ : Map Int String cmp) ops).2.toList = [(6,"c")] := by
  intro cmp ops
  have hcmp : TotalPreorderOn cmp (0 ≤ ·) := Comparator.totalPreorderOn_byRemainder 5 (0 ≤ ·)
  have hops : ∀ op ∈ ops, ∀ k ∈ op.keys, 0 ≤ k := by simp [ops, keys]
  obtain ⟨hanswers, hlist, -, -⟩ := run_refines hcmp hops
  exact ⟨hcmp, hops, hanswers.trans rfl, hlist.trans rfl⟩

end RedBlackMap.Operation
