import RedBlackMap.Proofs.Entries.Isolation
import RedBlackMap.Proofs.Map.WellFormed

/-!
# Isolation of keys

Histories of a map that do the same at one key show the same at this key, whatever they
do at others, and operations on unequal keys may change places.
-/
namespace RedBlackMap.Operation
universe u v
variable {κ : Type u} {ν : Type v} {cmp : Comparator κ} {S : κ → Prop} {k : κ}
  {ops : List (Operation κ ν)}

/-- What a history shows at a key is decided by its operations that bear on it. -/
theorem run_at (hcmp : TotalPreorderOn cmp S)
    (hops : ∀ op ∈ ops, op.Pointwise ∧ ∀ a ∈ op.keys, S a) (hk : S k) :
    runAt none (ops.filter (touches cmp k)) =
      (answersAt cmp k ops (run (∅ : Map κ ν cmp) ops).1,
        (run (∅ : Map κ ν cmp) ops).2.entryAt? (cmp k)) := by
  have hkeys : ∀ op ∈ ops, ∀ a ∈ op.keys, S a := fun op hop => (hops op hop).2
  obtain ⟨hm, hanswers, hlist⟩ := run_spec hcmp Map.wellFormedOn_empty hkeys
  rw [hm.entryAt?_eq hcmp hk, hanswers, hlist]
  exact Entries.run_at hcmp Entries.ordered_nil hkeys (fun op hop => (hops op hop).1) hk

/-- As neighbours in a history the operations may change places: the two answers go with
them, and all other answers and the entries at the end stay. -/
def Commute (cmp : Comparator κ) (S : κ → Prop) (op₁ op₂ : Operation κ ν) : Prop :=
  ∀ pre post, (∀ op ∈ pre ++ op₁ :: op₂ :: post, ∀ a ∈ op.keys, S a) →
    ∃ before x y after, before.length = pre.length ∧
      (run (∅ : Map κ ν cmp) (pre ++ op₁ :: op₂ :: post)).1 = before ++ x :: y :: after ∧
      (run (∅ : Map κ ν cmp) (pre ++ op₂ :: op₁ :: post)).1 = before ++ y :: x :: after ∧
      (run (∅ : Map κ ν cmp) (pre ++ op₁ :: op₂ :: post)).2.toList =
        (run (∅ : Map κ ν cmp) (pre ++ op₂ :: op₁ :: post)).2.toList

theorem commute_of_ne (hcmp : TotalPreorderOn cmp S) {op₁ op₂ : Operation κ ν} {a b : κ}
    (h₁ : op₁.key? = some a) (h₂ : op₂.key? = some b) (hab : cmp a b ≠ .eq) :
    Commute cmp S op₁ op₂ := by
  intro pre post hkeys
  have hkeys' : ∀ op ∈ pre ++ op₂ :: op₁ :: post, ∀ c ∈ op.keys, S c := by
    intro op hop
    apply hkeys op
    simpa [or_left_comm] using hop
  have ha : S a := hkeys op₁ (by simp) a (by simp [keys_eq h₁])
  have hb : S b := hkeys op₂ (by simp) b (by simp [keys_eq h₂])
  have hpre : Entries.Ordered cmp S (Entries.run cmp [] pre).2 :=
    Entries.ordered_nil.run hcmp fun op hop => hkeys op (by simp [hop])
  obtain ⟨-, hanswers, hlist⟩ := run_spec hcmp Map.wellFormedOn_empty hkeys
  obtain ⟨-, hanswers', hlist'⟩ := run_spec hcmp Map.wellFormedOn_empty hkeys'
  obtain ⟨x, y, after, last, hrun, hrun'⟩ :=
    Entries.run_commute hcmp hpre ha hb h₁ h₂ hab post
  refine ⟨(Entries.run cmp [] pre).1, x, y, after, Entries.length_run, ?_, ?_, ?_⟩
  · rw [hanswers, Map.toList_empty, Entries.run_append, hrun]
  · rw [hanswers', Map.toList_empty, Entries.run_append, hrun']
  · rw [hlist, hlist', Map.toList_empty, Entries.run_append, Entries.run_append, hrun, hrun']

/-- A key shows the same in two histories that do the same at it, in the spelling that is
stored as well, and operations on unequal keys commute. -/
theorem run_isolates (hcmp : TotalPreorderOn cmp S) :
    (∀ (k : κ) (ops ops' : List (Operation κ ν)), S k →
      (∀ op ∈ ops, op.Pointwise ∧ ∀ a ∈ op.keys, S a) →
      (∀ op ∈ ops', op.Pointwise ∧ ∀ a ∈ op.keys, S a) →
      ops.filter (touches cmp k) = ops'.filter (touches cmp k) →
      answersAt cmp k ops (run (∅ : Map κ ν cmp) ops).1 =
          answersAt cmp k ops' (run (∅ : Map κ ν cmp) ops').1 ∧
        (run (∅ : Map κ ν cmp) ops).2.entryAt? (cmp k) =
          (run (∅ : Map κ ν cmp) ops').2.entryAt? (cmp k)) ∧
    (∀ (op₁ op₂ : Operation κ ν) (a b : κ), op₁.key? = some a → op₂.key? = some b →
      cmp a b ≠ .eq → Commute cmp S op₁ op₂) := by
  constructor
  · intro k ops ops' hk hops hops' hsame
    have hrun := run_at hcmp hops hk
    rw [hsame, run_at hcmp hops' hk, Prod.mk.injEq] at hrun
    exact ⟨hrun.1.symm, hrun.2.symm⟩
  · intro op₁ op₂ a b h₁ h₂ hab
    exact commute_of_ne hcmp h₁ h₂ hab

/-- Two histories of the key 8, stored as 3, among different others. -/
theorem run_isolates_byRemainder :
    let cmp := Comparator.byRemainder 5
    let ops : List (Operation Int String) :=
      [insert 3 "a",insert 1 "b",find 8,remove 6,insert 13 "c",find 3]
    let ops' : List (Operation Int String) :=
      [insert 4 "d",insert 3 "a",find 8,replace 9 "e",insert 13 "c",delete 2,find 3]
    TotalPreorderOn cmp (0 ≤ ·) ∧ (∀ op ∈ ops, op.Pointwise ∧ ∀ a ∈ op.keys, 0 ≤ a) ∧
      (∀ op ∈ ops', op.Pointwise ∧ ∀ a ∈ op.keys, 0 ≤ a) ∧
      ops.filter (touches cmp 8) = ops'.filter (touches cmp 8) ∧ cmp 3 1 ≠ .eq ∧
      (run (∅ : Map Int String cmp) ops).2.entryAt? (cmp 8) =
        (run (∅ : Map Int String cmp) ops').2.entryAt? (cmp 8) ∧
      (run (∅ : Map Int String cmp) ops).2.toList =
        (run (∅ : Map Int String cmp) (insert 1 "b" :: insert 3 "a" :: ops.drop 2)).2.toList := by
  intro cmp ops ops'
  have hcmp : TotalPreorderOn cmp (0 ≤ ·) := Comparator.totalPreorderOn_byRemainder 5 (0 ≤ ·)
  have hops : ∀ op ∈ ops, op.Pointwise ∧ ∀ a ∈ op.keys, 0 ≤ a := by
    simp [ops, Pointwise, key?, keys]
  have hops' : ∀ op ∈ ops', op.Pointwise ∧ ∀ a ∈ op.keys, 0 ≤ a := by
    simp [ops', Pointwise, key?, keys]
  have hsame : ops.filter (touches cmp 8) = ops'.filter (touches cmp 8) := rfl
  have hne : cmp 3 1 ≠ .eq := by decide
  have hisolated := run_isolates (ν := String) hcmp
  obtain ⟨-, hfound⟩ := hisolated.1 8 ops ops' (by decide) hops hops' hsame
  have hcommute := hisolated.2 (insert 3 "a") (insert 1 "b") 3 1 rfl rfl hne
  obtain ⟨-, -, -, -, -, -, -, hlist⟩ :=
    hcommute [] (ops.drop 2) fun op hop => (hops op hop).2
  exact ⟨hcmp, hops, hops', hsame, hne, hfound, hlist⟩

end RedBlackMap.Operation
