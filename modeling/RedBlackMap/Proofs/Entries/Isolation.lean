import RedBlackMap.Proofs.Entries.Alignment
import RedBlackMap.Proofs.Entries.Operation

/-!
# One key among the others

At each key a list of ascending entries is a cell that holds one entry or none. The
operations on the key are operations on the cell, and those on other keys neither see
nor change it.
-/
namespace RedBlackMap
universe u v
variable {κ : Type u} {ν : Type v} {cmp : Comparator κ} {S : κ → Prop}

namespace Operation

def key? : Operation κ ν → Option κ
  | insert key _ | replace key _ | remove key | delete key | find key | get key | contains key =>
    some key
  | _ => none

/-- An operation on one key, or the one that clears them all. -/
def Pointwise (op : Operation κ ν) : Prop := op.key?.isSome = true ∨ op = clear

/-- Whether an operation bears on the keys equal to `k`. -/
def touches (cmp : Comparator κ) (k : κ) (op : Operation κ ν) : Bool :=
  match op.key? with
  | some key => cmp.isEq k key
  | none => true

def applyAt (found : Option (κ × ν)) : Operation κ ν → Answer κ ν × Option (κ × ν)
  | insert key value => (.flag found.isNone,some (found.elim key (·.1),value))
  | replace _ value => (.value (found.map (·.2)),found.map fun e => (e.1,value))
  | remove _ => (.entry found,none)
  | delete _ => (.flag found.isSome,none)
  | find _ => (.value (found.map (·.2)),found)
  | get _ =>
    match found with
    | some e => (.value (some e.2),found)
    | none => (.failure .keyNotFound,found)
  | contains _ => (.flag found.isSome,found)
  | _ => (.done,none)

def runAt (found : Option (κ × ν)) :
    List (Operation κ ν) → List (Answer κ ν) × Option (κ × ν)
  | [] => ([],found)
  | op :: ops =>
    let (answer, next) := op.applyAt found
    let (answers, last) := runAt next ops
    (answer :: answers,last)

def answersAt (cmp : Comparator κ) (k : κ) :
    List (Operation κ ν) → List (Answer κ ν) → List (Answer κ ν)
  | op :: ops, answer :: answers =>
    if op.touches cmp k then answer :: answersAt cmp k ops answers else answersAt cmp k ops answers
  | _, _ => []

variable {op : Operation κ ν} {key k : κ}

theorem keys_eq (h : op.key? = some key) : op.keys = [key] := by
  cases op <;> simp_all [key?, keys]

theorem touches_iff (h : op.key? = some key) : op.touches cmp k = true ↔ cmp k key = .eq := by
  simp [touches, h, Comparator.isEq]

end Operation

namespace Entries
open Operation
variable {k key : κ} {es es' : List (κ × ν)} {op op₁ op₂ : Operation κ ν}
  {ops : List (Operation κ ν)}

theorem answer_applyAt (hop : op.key? = some key) :
    (apply cmp es op).1 = (op.applyAt (find? cmp key es)).1 := by
  cases op <;> simp only [key?, Option.some.injEq, reduceCtorEq] at hop <;> subst hop <;> try rfl
  cases hc : find? cmp _ es <;> simp [apply, applyAt, hc]

theorem find?_get (key : κ) : (apply cmp es (.get key)).2 = es := by
  rw [apply]
  split <;> rfl

/-- An operation acts on the cell of its key. -/
theorem find?_apply_eq (h : TotalPreorderOn cmp S) (hes : Ordered cmp S es) (hkey : S key)
    (hop : op.key? = some key) (hk : S k) (hc : cmp k key = .eq) :
    find? cmp k (apply cmp es op).2 = (op.applyAt (find? cmp k es)).2 := by
  have hfind : find? cmp k es = find? cmp key es := find?_congr h hes.mem hk hkey hc
  cases op <;> simp only [key?, Option.some.injEq, reduceCtorEq] at hop <;> subst hop
  case insert a value =>
    rw [apply, find?_insert h hes hkey hk, if_pos hc, hfind]
    rfl
  case replace a value =>
    rw [apply, find?_replace h hes hkey hk, if_pos hc, hfind]
    rfl
  case remove a =>
    rw [apply, find?_erase h hes hkey hk, if_pos hc]
    rfl
  case delete a =>
    rw [apply, find?_erase h hes hkey hk, if_pos hc]
    rfl
  case get a =>
    rw [find?_get]
    cases hfound : find? cmp k es <;> rfl
  all_goals rfl

theorem find?_apply_ne (h : TotalPreorderOn cmp S) (hes : Ordered cmp S es) (hkey : S key)
    (hop : op.key? = some key) (hk : S k) (hc : cmp k key ≠ .eq) :
    find? cmp k (apply cmp es op).2 = find? cmp k es := by
  cases op <;> simp only [key?, Option.some.injEq, reduceCtorEq] at hop <;> subst hop
  case insert a value => rw [apply, find?_insert h hes hkey hk, if_neg hc]
  case replace a value => rw [apply, find?_replace h hes hkey hk, if_neg hc]
  case remove a => rw [apply, find?_erase h hes hkey hk, if_neg hc]
  case delete a => rw [apply, find?_erase h hes hkey hk, if_neg hc]
  case get a => rw [find?_get]
  all_goals rfl

theorem apply_touches (h : TotalPreorderOn cmp S) (hes : Ordered cmp S es)
    (hkeys : ∀ a ∈ op.keys, S a) (hop : op.Pointwise) (hk : S k) (ht : op.touches cmp k = true) :
    (apply cmp es op).1 = (op.applyAt (find? cmp k es)).1 ∧
      find? cmp k (apply cmp es op).2 = (op.applyAt (find? cmp k es)).2 := by
  rcases hop with hop | rfl
  · obtain ⟨key, hop⟩ := Option.isSome_iff_exists.mp hop
    have hkey : S key := hkeys key (by simp [keys_eq hop])
    have hc : cmp k key = .eq := (touches_iff hop).mp ht
    constructor
    · rw [answer_applyAt hop, find?_congr h hes.mem hk hkey hc]
    · exact find?_apply_eq h hes hkey hop hk hc
  · exact ⟨rfl, rfl⟩

theorem apply_not_touches (h : TotalPreorderOn cmp S) (hes : Ordered cmp S es)
    (hkeys : ∀ a ∈ op.keys, S a) (hk : S k) (ht : ¬ op.touches cmp k = true) :
    find? cmp k (apply cmp es op).2 = find? cmp k es := by
  cases hop : op.key? with
  | none => simp [touches, hop] at ht
  | some key =>
    have hc : cmp k key ≠ .eq := fun hc => ht ((touches_iff hop).mpr hc)
    exact find?_apply_ne h hes (hkeys key (by simp [keys_eq hop])) hop hk hc

/-- What a history does at a key is what the operations on this key do to its cell. -/
theorem run_at (h : TotalPreorderOn cmp S) (hes : Ordered cmp S es)
    (hkeys : ∀ op ∈ ops, ∀ a ∈ op.keys, S a) (hops : ∀ op ∈ ops, op.Pointwise) (hk : S k) :
    runAt (find? cmp k es) (ops.filter (touches cmp k)) =
      (answersAt cmp k ops (run cmp es ops).1,find? cmp k (run cmp es ops).2) := by
  induction ops generalizing es with
  | nil => rfl
  | cons op ops ih =>
    have hop : ∀ a ∈ op.keys, S a := hkeys op (by simp)
    have hrest := ih (hes.apply h hop) (fun o ho => hkeys o (by simp [ho]))
      (fun o ho => hops o (by simp [ho]))
    by_cases ht : op.touches cmp k
    · obtain ⟨hanswer, hnext⟩ := apply_touches h hes hop (hops op (by simp)) hk ht
      rw [hnext] at hrest
      rw [List.filter_cons_of_pos ht]
      simp only [runAt, run, answersAt, if_pos ht, hrest, hanswer]
    · have hnext := apply_not_touches h hes hop hk ht
      rw [hnext] at hrest
      rw [List.filter_cons_of_neg ht]
      simp only [run, answersAt, if_neg ht, hrest]

section Commute
variable {a b : κ} (h : TotalPreorderOn cmp S) (hes : Ordered cmp S es) (ha : S a) (hb : S b)
  (h₁ : op₁.key? = some a) (h₂ : op₂.key? = some b) (hab : cmp a b ≠ .eq)
include h hes ha hb h₁ h₂ hab

theorem answer_commute : (apply cmp (apply cmp es op₂).2 op₁).1 = (apply cmp es op₁).1 := by
  rw [answer_applyAt h₁, answer_applyAt h₁, find?_apply_ne h hes hb h₂ ha hab]

theorem apply_commute : (apply cmp (apply cmp es op₁).2 op₂).2 =
    (apply cmp (apply cmp es op₂).2 op₁).2 := by
  have hS₁ : ∀ k ∈ op₁.keys, S k := by simp [keys_eq h₁, ha]
  have hS₂ : ∀ k ∈ op₂.keys, S k := by simp [keys_eq h₂, hb]
  have hes₁ : Ordered cmp S (apply cmp es op₁).2 := hes.apply h hS₁
  have hes₂ : Ordered cmp S (apply cmp es op₂).2 := hes.apply h hS₂
  apply ext_find? h (hes₁.apply h hS₂) (hes₂.apply h hS₁)
  intro k hk
  by_cases hka : cmp k a = .eq
  · have hkb : cmp k b ≠ .eq := by rwa [h.congr_left hk ha hb hka]
    rw [find?_apply_ne h hes₁ hb h₂ hk hkb, find?_apply_eq h hes ha h₁ hk hka,
      find?_apply_eq h hes₂ ha h₁ hk hka, find?_apply_ne h hes hb h₂ hk hkb]
  · rw [find?_apply_ne h hes₂ ha h₁ hk hka]
    by_cases hkb : cmp k b = .eq
    · rw [find?_apply_eq h hes₁ hb h₂ hk hkb, find?_apply_eq h hes hb h₂ hk hkb,
        find?_apply_ne h hes ha h₁ hk hka]
    · rw [find?_apply_ne h hes₁ hb h₂ hk hkb, find?_apply_ne h hes hb h₂ hk hkb,
        find?_apply_ne h hes ha h₁ hk hka]

/-- Each of the two answers what it answers alone, and the rest goes on as before. -/
theorem run_commute (post : List (Operation κ ν)) : ∃ x y after last,
    run cmp es (op₁ :: op₂ :: post) = (x :: y :: after,last) ∧
      run cmp es (op₂ :: op₁ :: post) = (y :: x :: after,last) := by
  have hba : cmp b a ≠ .eq := mt (h.eq_comm hb ha).mp hab
  have hlist : (apply cmp (apply cmp es op₁).2 op₂).2 = (apply cmp (apply cmp es op₂).2 op₁).2 :=
    apply_commute h hes ha hb h₁ h₂ hab
  have hanswer₁ : (apply cmp (apply cmp es op₂).2 op₁).1 = (apply cmp es op₁).1 :=
    answer_commute h hes ha hb h₁ h₂ hab
  have hanswer₂ : (apply cmp (apply cmp es op₁).2 op₂).1 = (apply cmp es op₂).1 :=
    answer_commute h hes hb ha h₂ h₁ hba
  refine ⟨(apply cmp es op₁).1, (apply cmp es op₂).1,
    (run cmp (apply cmp (apply cmp es op₁).2 op₂).2 post).1,
    (run cmp (apply cmp (apply cmp es op₁).2 op₂).2 post).2, ?_, ?_⟩
  · simp only [run, hanswer₂]
  · simp only [run, hanswer₁, hlist]

end Commute

theorem run_append (pre ops : List (Operation κ ν)) : run cmp es (pre ++ ops) =
    ((run cmp es pre).1 ++ (run cmp (run cmp es pre).2 ops).1,
      (run cmp (run cmp es pre).2 ops).2) := by
  induction pre generalizing es with
  | nil => rfl
  | cons op pre ih => simp only [List.cons_append, run, ih]

theorem length_run : (run cmp es ops).1.length = ops.length := by
  induction ops generalizing es with
  | nil => rfl
  | cons op ops ih => simp only [run, List.length_cons, ih]

theorem Ordered.run (hes : Ordered cmp S es) (h : TotalPreorderOn cmp S)
    (hkeys : ∀ op ∈ ops, ∀ k ∈ op.keys, S k) : Ordered cmp S (run cmp es ops).2 := by
  induction ops generalizing es with
  | nil => exact hes
  | cons op ops ih =>
    exact ih (hes.apply h (hkeys op (by simp))) fun o ho => hkeys o (by simp [ho])

end Entries

end RedBlackMap
