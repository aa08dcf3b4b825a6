import RedBlackMap.Proofs.Entries.Lookup
import RedBlackMap.Proofs.Entries.Operation
import RedBlackMap.Proofs.Entries.Separation

/-!
# What the operations mean

Each operation as rules on ascending entries that are cut at its key: the key is either
missing between two neighbours or equal to one entry. The functions on lists of entries
follow the rules.
-/
namespace RedBlackMap.Entries
universe u v
variable {κ : Type u} {ν : Type v} {cmp : Comparator κ} {S : κ → Prop}
  {key : κ} {value : ν} {e : κ × ν} {l r es : List (κ × ν)}

/-- The key is greater than the keys of `l` and less than those of `r`. -/
structure Gap (cmp : Comparator κ) (key : κ) (l r : List (κ × ν)) : Prop where
  gt : ∀ x ∈ l, cmp key x.1 = .gt
  lt : ∀ x ∈ r, cmp key x.1 = .lt

/-- An operation takes ascending entries to others and gives an answer. -/
inductive Step (cmp : Comparator κ) :
    List (κ × ν) → Operation κ ν → Answer κ ν → List (κ × ν) → Prop
  | insert_new {key : κ} {value : ν} {l r : List (κ × ν)} (h : Gap cmp key l r) :
    Step cmp (l ++ r) (.insert key value) (.flag true) (l ++ (key,value) :: r)
  | insert_old {key k : κ} {value v : ν} {l r : List (κ × ν)} (h : Gap cmp key l r)
      (hk : cmp key k = .eq) :
    Step cmp (l ++ (k,v) :: r) (.insert key value) (.flag false) (l ++ (k,value) :: r)
  | replace_none {key : κ} {value : ν} {l r : List (κ × ν)} (h : Gap cmp key l r) :
    Step cmp (l ++ r) (.replace key value) (.value none) (l ++ r)
  | replace_some {key k : κ} {value v : ν} {l r : List (κ × ν)} (h : Gap cmp key l r)
      (hk : cmp key k = .eq) :
    Step cmp (l ++ (k,v) :: r) (.replace key value) (.value (some v)) (l ++ (k,value) :: r)
  | remove_none {key : κ} {l r : List (κ × ν)} (h : Gap cmp key l r) :
    Step cmp (l ++ r) (.remove key) (.entry none) (l ++ r)
  | remove_some {key k : κ} {v : ν} {l r : List (κ × ν)} (h : Gap cmp key l r)
      (hk : cmp key k = .eq) :
    Step cmp (l ++ (k,v) :: r) (.remove key) (.entry (some (k,v))) (l ++ r)
  | delete {key : κ} {found : Option (κ × ν)} {es es' : List (κ × ν)}
      (h : Step cmp es (.remove key) (.entry found) es') :
    Step cmp es (.delete key) (.flag found.isSome) es'
  | find_none {key : κ} {l r : List (κ × ν)} (h : Gap cmp key l r) :
    Step cmp (l ++ r) (.find key) (.value none) (l ++ r)
  | find_some {key k : κ} {v : ν} {l r : List (κ × ν)} (h : Gap cmp key l r)
      (hk : cmp key k = .eq) :
    Step cmp (l ++ (k,v) :: r) (.find key) (.value (some v)) (l ++ (k,v) :: r)
  | get_failure {key : κ} {es : List (κ × ν)} (h : Step cmp es (.find key) (.value none) es) :
    Step cmp es (.get key) (.failure .keyNotFound) es
  | get_value {key : κ} {v : ν} {es : List (κ × ν)}
      (h : Step cmp es (.find key) (.value (some v)) es) :
    Step cmp es (.get key) (.value (some v)) es
  | contains {key : κ} {found : Option ν} {es : List (κ × ν)}
      (h : Step cmp es (.find key) (.value found) es) :
    Step cmp es (.contains key) (.flag found.isSome) es
  | min_nil : Step cmp [] .min (.entry none) []
  | min_cons (e : κ × ν) (es : List (κ × ν)) : Step cmp (e :: es) .min (.entry (some e)) (e :: es)
  | max_nil : Step cmp [] .max (.entry none) []
  | max_append (es : List (κ × ν)) (e : κ × ν) :
    Step cmp (es ++ [e]) .max (.entry (some e)) (es ++ [e])
  | isEmpty (es : List (κ × ν)) : Step cmp es .isEmpty (.flag (es.length == 0)) es
  | size (es : List (κ × ν)) : Step cmp es .size (.count es.length) es
  | clear (es : List (κ × ν)) : Step cmp es .clear .done []
  | insertMany_nil (es : List (κ × ν)) : Step cmp es (.insertMany []) .done es
  | insertMany_cons {e : κ × ν} {new es es' es'' : List (κ × ν)} {added : Bool}
      (h : Step cmp es (.insert e.1 e.2) (.flag added) es')
      (hnew : Step cmp es' (.insertMany new) .done es'') :
    Step cmp es (.insertMany (e :: new)) .done es''
  | ofList {new es es' : List (κ × ν)} (h : Step cmp [] (.insertMany new) .done es') :
    Step cmp es (.ofList new) .done es'

inductive Steps (cmp : Comparator κ) :
    List (κ × ν) → List (Operation κ ν) → List (Answer κ ν) → List (κ × ν) → Prop
  | nil (es : List (κ × ν)) : Steps cmp es [] [] es
  | cons {es es' es'' : List (κ × ν)} {op : Operation κ ν} {ops : List (Operation κ ν)}
      {answer : Answer κ ν} {answers : List (Answer κ ν)} (h : Step cmp es op answer es')
      (hs : Steps cmp es' ops answers es'') :
    Steps cmp es (op :: ops) (answer :: answers) es''

theorem Gap.cons (h : Gap cmp key l r) (he : cmp key e.1 = .gt) : Gap cmp key (e :: l) r := by
  constructor
  · intro x hx
    rcases List.mem_cons.mp hx with rfl | hx
    · exact he
    · exact h.gt x hx
  · exact h.lt

/-- Every key in use has its place among ascending entries. -/
theorem Ordered.exists_gap (hes : Ordered cmp S es) (h : TotalPreorderOn cmp S) (hkey : S key) :
    (∃ l r, es = l ++ r ∧ Gap cmp key l r) ∨
      ∃ l e r, es = l ++ e :: r ∧ Gap cmp key l r ∧ cmp key e.1 = .eq := by
  induction es with
  | nil => exact .inl ⟨[], [], rfl, by simp, by simp⟩
  | cons e es ih =>
    obtain ⟨he, hlt, hes'⟩ := ordered_cons.mp hes
    cases hc : cmp key e.1 with
    | lt =>
      refine .inl ⟨[], e :: es, rfl, by simp, ?_⟩
      intro x hx
      rcases List.mem_cons.mp hx with rfl | hx
      · exact hc
      · exact h.lt_trans hkey he (hes'.mem x hx) hc (hlt x hx)
    | eq =>
      refine .inr ⟨[], e, es, rfl, ⟨by simp, ?_⟩, hc⟩
      intro x hx
      rw [h.congr_left hkey he (hes'.mem x hx) hc]
      exact hlt x hx
    | gt =>
      rcases ih hes' with ⟨l, r, rfl, hgap⟩ | ⟨l, x, r, rfl, hgap, hx⟩
      · exact .inl ⟨e :: l, r, rfl, hgap.cons hc⟩
      · exact .inr ⟨e :: l, x, r, rfl, hgap.cons hc, hx⟩

theorem replace_eq_self (h : ∀ x ∈ es, cmp key x.1 ≠ .eq) : replace cmp key value es = es := by
  rw [replace, List.map_congr_left (g := id), List.map_id]
  intro x hx
  simp [Comparator.isEq, h x hx]

namespace Gap
variable (h : Gap cmp key l r)
include h

theorem ne_of_mem {x : κ × ν} (hx : x ∈ l ++ r) : cmp key x.1 ≠ .eq := by
  rcases List.mem_append.mp hx with hx | hx
  · simp [h.gt x hx]
  · simp [h.lt x hx]

theorem find?_missing : find? cmp key (l ++ r) = none := find?_eq_none fun _ => h.ne_of_mem

theorem find?_present (he : cmp key e.1 = .eq) : find? cmp key (l ++ e :: r) = some e := by
  have hl : find? cmp key l = none := find?_eq_none fun x hx => by simp [h.gt x hx]
  rw [find?, List.find?_append, ← find?, hl, Option.none_or]
  exact List.find?_cons_of_pos (by simp [Comparator.isEq, he])

theorem insert_missing : insert cmp key value (l ++ r) = l ++ (key,value) :: r := by
  rw [insert_append_gt h.gt]
  cases r with
  | nil => rfl
  | cons e r => rw [insert, h.lt e (by simp)]

theorem insert_present (he : cmp key e.1 = .eq) :
    insert cmp key value (l ++ e :: r) = l ++ (e.1,value) :: r := by
  rw [insert_append_gt h.gt, insert, he]

theorem erase_missing : erase cmp key (l ++ r) = l ++ r := by
  apply List.eraseP_of_forall_not
  intro x hx
  simpa [Comparator.isEq] using h.ne_of_mem hx

theorem erase_present (he : cmp key e.1 = .eq) : erase cmp key (l ++ e :: r) = l ++ r := by
  have hl : ∀ x ∈ l, ¬ cmp.isEq key x.1 = true := fun x hx => by simp [Comparator.isEq, h.gt x hx]
  rw [erase, List.eraseP_append_right _ hl,
    List.eraseP_cons_of_pos (by simp [Comparator.isEq, he])]

theorem replace_missing : replace cmp key value (l ++ r) = l ++ r :=
  replace_eq_self fun _ => h.ne_of_mem

theorem replace_present (he : cmp key e.1 = .eq) :
    replace cmp key value (l ++ e :: r) = l ++ (e.1,value) :: r := by
  have hl : replace cmp key value l = l :=
    replace_eq_self fun x hx => h.ne_of_mem (List.mem_append_left r hx)
  have hr : replace cmp key value r = r :=
    replace_eq_self fun x hx => h.ne_of_mem (List.mem_append_right l hx)
  rw [replace, List.map_append, List.map_cons, ← replace, ← replace, hl, hr]
  simp [Comparator.isEq, he]

end Gap

section Rules
variable (h : TotalPreorderOn cmp S) (hes : Ordered cmp S es) (hkey : S key)
include h hes hkey

theorem insert_step (value : ν) : Step cmp es (.insert key value)
    (.flag (find? cmp key es).isNone) (insert cmp key value es) := by
  rcases hes.exists_gap h hkey with ⟨l, r, rfl, hgap⟩ | ⟨l, e, r, rfl, hgap, he⟩
  · rw [hgap.find?_missing, hgap.insert_missing]
    exact .insert_new hgap
  · rw [hgap.find?_present he, hgap.insert_present he]
    exact .insert_old hgap he

theorem replace_step (value : ν) : Step cmp es (.replace key value)
    (.value ((find? cmp key es).map (·.2))) (replace cmp key value es) := by
  rcases hes.exists_gap h hkey with ⟨l, r, rfl, hgap⟩ | ⟨l, e, r, rfl, hgap, he⟩
  · rw [hgap.find?_missing, hgap.replace_missing]
    exact .replace_none hgap
  · rw [hgap.find?_present he, hgap.replace_present he]
    exact .replace_some hgap he

theorem remove_step : Step cmp es (.remove key) (.entry (find? cmp key es)) (erase cmp key es) := by
  rcases hes.exists_gap h hkey with ⟨l, r, rfl, hgap⟩ | ⟨l, e, r, rfl, hgap, he⟩
  · rw [hgap.find?_missing, hgap.erase_missing]
    exact .remove_none hgap
  · rw [hgap.find?_present he, hgap.erase_present he]
    exact .remove_some hgap he

theorem find_step : Step cmp es (.find key) (.value ((find? cmp key es).map (·.2))) es := by
  rcases hes.exists_gap h hkey with ⟨l, r, rfl, hgap⟩ | ⟨l, e, r, rfl, hgap, he⟩
  · rw [hgap.find?_missing]
    exact .find_none hgap
  · rw [hgap.find?_present he]
    exact .find_some hgap he

end Rules

theorem insertMany_step (h : TotalPreorderOn cmp S) (hes : Ordered cmp S es) {new : List (κ × ν)}
    (hnew : ∀ e ∈ new, S e.1) : Step cmp es (.insertMany new) .done (insertMany cmp es new) := by
  induction new generalizing es with
  | nil => exact .insertMany_nil es
  | cons e new ih =>
    have he : S e.1 := hnew e (by simp)
    apply Step.insertMany_cons (insert_step h hes he e.2)
    exact ih (hes.insert h he) fun x hx => hnew x (by simp [hx])

theorem apply_step (h : TotalPreorderOn cmp S) (hes : Ordered cmp S es) {op : Operation κ ν}
    (hop : ∀ k ∈ op.keys, S k) : Step cmp es op (apply cmp es op).1 (apply cmp es op).2 := by
  cases op with
  | insert key value => exact insert_step h hes (hop key (by simp [Operation.keys])) value
  | replace key value => exact replace_step h hes (hop key (by simp [Operation.keys])) value
  | remove key => exact remove_step h hes (hop key (by simp [Operation.keys]))
  | delete key => exact .delete (remove_step h hes (hop key (by simp [Operation.keys])))
  | find key => exact find_step h hes (hop key (by simp [Operation.keys]))
  | get key =>
    have hfind := find_step h hes (hop key (by simp [Operation.keys]))
    rw [apply]
    cases hc : find? cmp key es with
    | none => exact .get_failure (by rwa [hc] at hfind)
    | some e => exact .get_value (by rwa [hc] at hfind)
  | contains key =>
    have hfind := find_step h hes (hop key (by simp [Operation.keys]))
    have hstep := Step.contains hfind
    rwa [Option.isSome_map] at hstep
  | min =>
    cases es with
    | nil => exact .min_nil
    | cons e es => exact .min_cons e es
  | max =>
    rcases List.eq_nil_or_concat es with rfl | ⟨es, e, rfl⟩
    · exact .max_nil
    · rw [List.concat_eq_append, apply, List.getLast?_concat]
      exact .max_append es e
  | isEmpty =>
    have hlength : es.isEmpty = (es.length == 0) := by cases es <;> rfl
    rw [apply, hlength]
    exact .isEmpty es
  | size => exact .size es
  | clear => exact .clear es
  | insertMany new =>
    exact insertMany_step h hes fun e he => hop e.1 (List.mem_map_of_mem he)
  | ofList new =>
    exact .ofList (insertMany_step h ordered_nil fun e he => hop e.1 (List.mem_map_of_mem he))

theorem run_steps (h : TotalPreorderOn cmp S) (hes : Ordered cmp S es)
    {ops : List (Operation κ ν)} (hops : ∀ op ∈ ops, ∀ k ∈ op.keys, S k) :
    Steps cmp es ops (run cmp es ops).1 (run cmp es ops).2 := by
  induction ops generalizing es with
  | nil => exact .nil es
  | cons op ops ih =>
    have hop : ∀ k ∈ op.keys, S k := hops op (by simp)
    apply Steps.cons (apply_step h hes hop)
    exact ih (hes.apply h hop) fun o ho => hops o (by simp [ho])

end RedBlackMap.Entries
