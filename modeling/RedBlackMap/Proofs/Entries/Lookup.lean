import RedBlackMap.Map.Entries
import RedBlackMap.Proofs.Order.Preorder

/-!
# Lookups in ascending entries

On ascending entries each change is seen by lookups at the changed key alone, and the
entries are determined by what is found at the keys of the set.
-/
namespace RedBlackMap.Entries
universe u v
variable {κ : Type u} {ν : Type v} {cmp : Comparator κ} {S : κ → Prop}
  {a b : κ} {v : ν} {e : κ × ν} {es : List (κ × ν)}

/-- Entries with keys in `S` that ascend strictly. -/
structure Ordered (cmp : Comparator κ) (S : κ → Prop) (es : List (κ × ν)) : Prop where
  ascending : es.Pairwise fun x y => cmp x.1 y.1 = .lt
  mem : ∀ e ∈ es, S e.1

theorem ordered_nil : Ordered cmp S ([] : List (κ × ν)) := ⟨.nil, by simp⟩

theorem ordered_cons :
    Ordered cmp S (e :: es) ↔ S e.1 ∧ (∀ x ∈ es, cmp e.1 x.1 = .lt) ∧ Ordered cmp S es := by
  constructor
  · rintro ⟨hasc, hmem⟩
    rw [List.pairwise_cons] at hasc
    exact ⟨hmem e (by simp), hasc.1, hasc.2, fun x hx => hmem x (by simp [hx])⟩
  · rintro ⟨he, hlt, hasc, hmem⟩
    exact ⟨List.pairwise_cons.mpr ⟨hlt, hasc⟩, by simpa [he] using hmem⟩

theorem mem_insert (he : e ∈ insert cmp a v es) : e.1 = a ∨ ∃ x ∈ es, x.1 = e.1 := by
  induction es with
  | nil => simp_all [insert]
  | cons x es ih =>
    rw [insert] at he
    split at he
    · rcases List.mem_cons.mp he with rfl | he
      · exact .inl rfl
      · exact .inr ⟨e, he, rfl⟩
    · rcases List.mem_cons.mp he with rfl | he
      · exact .inr ⟨x, by simp, rfl⟩
      · exact .inr ⟨e, by simp [he], rfl⟩
    · rcases List.mem_cons.mp he with rfl | he
      · exact .inr ⟨e, by simp, rfl⟩
      · exact (ih he).imp_right fun ⟨y, hy, hye⟩ => ⟨y, by simp [hy], hye⟩

theorem Ordered.insert (hes : Ordered cmp S es) (h : TotalPreorderOn cmp S) (ha : S a) :
    Ordered cmp S (insert cmp a v es) := by
  induction es with
  | nil => exact ordered_cons.mpr ⟨ha, by simp, ordered_nil⟩
  | cons e es ih =>
    obtain ⟨he, hlt, hes'⟩ := ordered_cons.mp hes
    rw [Entries.insert]
    split
    case h_1 hae =>
      refine ordered_cons.mpr ⟨ha, ?_, hes⟩
      intro x hx
      rcases List.mem_cons.mp hx with rfl | hx
      · exact hae
      · exact h.lt_trans ha he (hes'.mem x hx) hae (hlt x hx)
    case h_2 => exact ordered_cons.mpr ⟨he, hlt, hes'⟩
    case h_3 hae =>
      refine ordered_cons.mpr ⟨he, ?_, ih hes'⟩
      intro x hx
      rcases mem_insert hx with hxa | ⟨y, hy, hyx⟩
      · rw [hxa]
        exact (h.gt_iff_lt ha he).mp hae
      · rw [← hyx]
        exact hlt y hy

theorem Ordered.sublist (hes : Ordered cmp S es) {es' : List (κ × ν)} (h : es'.Sublist es) :
    Ordered cmp S es' :=
  ⟨hes.ascending.sublist h, fun e he => hes.mem e (h.subset he)⟩

theorem Ordered.erase (hes : Ordered cmp S es) : Ordered cmp S (erase cmp a es) :=
  hes.sublist List.eraseP_sublist

theorem fst_replace (e : κ × ν) : (if cmp.isEq a e.1 then (e.1,v) else e).1 = e.1 := by
  split <;> rfl

theorem Ordered.replace (hes : Ordered cmp S es) : Ordered cmp S (replace cmp a v es) := by
  constructor
  · refine List.pairwise_map.mpr (hes.ascending.imp ?_)
    intro x y hxy
    rwa [fst_replace, fst_replace]
  · intro e he
    obtain ⟨x, hx, rfl⟩ := List.mem_map.mp he
    rw [fst_replace]
    exact hes.mem x hx

theorem find?_cons :
    find? cmp a (e :: es) = if cmp a e.1 = .eq then some e else find? cmp a es := by
  by_cases h : cmp a e.1 = .eq <;> simp [find?, Comparator.isEq, h]

theorem find?_eq_none (h : ∀ x ∈ es, cmp a x.1 ≠ .eq) : find? cmp a es = none := by
  simpa [find?, Comparator.isEq] using h

theorem mem_of_find? (h : find? cmp a es = some e) : e ∈ es := List.mem_of_find?_eq_some h

theorem eq_of_find? (h : find? cmp a es = some e) : cmp a e.1 = .eq := by
  simpa [Comparator.isEq] using List.find?_some h

theorem find?_congr (h : TotalPreorderOn cmp S) (hes : ∀ e ∈ es, S e.1) (ha : S a) (hb : S b)
    (hab : cmp a b = .eq) : find? cmp a es = find? cmp b es := by
  induction es with
  | nil => rfl
  | cons e es ih =>
    rw [find?_cons, find?_cons, h.congr_left ha hb (hes e (by simp)) hab,
      ih fun x hx => hes x (by simp [hx])]

/-- A key equal to the first one is not found behind it. -/
theorem find?_tail (h : TotalPreorderOn cmp S) (hes : Ordered cmp S (e :: es)) (ha : S a)
    (hae : cmp a e.1 = .eq) : find? cmp a es = none := by
  obtain ⟨he, hlt, hes'⟩ := ordered_cons.mp hes
  refine find?_eq_none fun x hx => ?_
  rw [h.congr_left ha he (hes'.mem x hx) hae, hlt x hx]
  decide

/-- A key less than the first one is not found at all. -/
theorem find?_of_lt (h : TotalPreorderOn cmp S) (hes : Ordered cmp S (e :: es)) (ha : S a)
    (hae : cmp a e.1 = .lt) : find? cmp a (e :: es) = none := by
  obtain ⟨he, hlt, hes'⟩ := ordered_cons.mp hes
  refine find?_eq_none fun x hx => ?_
  rcases List.mem_cons.mp hx with rfl | hx
  · simp [hae]
  · simp [h.lt_trans ha he (hes'.mem x hx) hae (hlt x hx)]

/-- The key that was stored first stays. -/
theorem find?_insert (h : TotalPreorderOn cmp S) (hes : Ordered cmp S es) (ha : S a) (hb : S b) :
    find? cmp b (insert cmp a v es) =
      if cmp b a = .eq then some ((find? cmp a es).elim a (·.1),v) else find? cmp b es := by
  induction es with
  | nil => simp [insert, find?, Comparator.isEq]
  | cons e es ih =>
    obtain ⟨he, hlt, hes'⟩ := ordered_cons.mp hes
    rw [insert]
    split
    case h_1 hae => rw [find?_of_lt h hes ha hae, find?_cons]; rfl
    case h_2 hae =>
      have hfound : find? cmp a (e :: es) = some e := by rw [find?_cons, if_pos hae]
      rw [hfound, h.congr_right hb ha he hae]
      simp only [find?_cons, Option.elim_some]
      split <;> rfl
    case h_3 hae =>
      have hpass : find? cmp a (e :: es) = find? cmp a es := by
        rw [find?_cons, if_neg (by simp [hae])]
      rw [hpass]
      simp only [find?_cons, ih hes']
      by_cases hba : cmp b a = .eq
      · have hbe : cmp b e.1 = .gt := (h.congr_left hb ha he hba).trans hae
        simp [hba, hbe]
      · simp [hba]

theorem find?_erase (h : TotalPreorderOn cmp S) (hes : Ordered cmp S es) (ha : S a) (hb : S b) :
    find? cmp b (erase cmp a es) = if cmp b a = .eq then none else find? cmp b es := by
  induction es with
  | nil => simp [erase, find?]
  | cons e es ih =>
    obtain ⟨he, -, hes'⟩ := ordered_cons.mp hes
    by_cases hae : cmp a e.1 = .eq
    · have hbe : cmp b a = cmp b e.1 := h.congr_right hb ha he hae
      rw [erase, List.eraseP_cons_of_pos (by simp [Comparator.isEq, hae]), find?_cons, hbe]
      split
      case isTrue hbe => exact find?_tail h hes hb hbe
      case isFalse => rfl
    · rw [erase, List.eraseP_cons_of_neg (by simp [Comparator.isEq, hae]), find?_cons, ← erase,
        ih hes', find?_cons]
      by_cases hba : cmp b a = .eq
      · have hbe : cmp b e.1 ≠ .eq := by rwa [h.congr_left hb ha he hba]
        simp [hba, hbe]
      · simp [hba]

theorem find?_replace (h : TotalPreorderOn cmp S) (hes : Ordered cmp S es) (ha : S a) (hb : S b) :
    find? cmp b (replace cmp a v es) =
      if cmp b a = .eq then (find? cmp a es).map fun e => (e.1,v) else find? cmp b es := by
  have hmap : find? cmp b (replace cmp a v es) =
      (find? cmp b es).map fun e => if cmp.isEq a e.1 then (e.1,v) else e := by
    simp only [find?, replace, List.find?_map, Function.comp_def, fst_replace]
  rw [hmap]
  split
  case isTrue hba =>
    rw [find?_congr h hes.mem hb ha hba]
    refine Option.map_congr fun e he => ?_
    simp [Comparator.isEq, eq_of_find? he]
  case isFalse hba =>
    refine (Option.map_congr fun e he => ?_).trans (congrFun Option.map_id _)
    have hae : cmp a e.1 ≠ .eq := fun hae =>
      hba (h.eq_trans hb (hes.mem e (mem_of_find? he)) ha (eq_of_find? he)
        ((h.eq_comm ha (hes.mem e (mem_of_find? he))).mp hae))
    simp [Comparator.isEq, hae]

theorem length_insert (h : TotalPreorderOn cmp S) (hes : Ordered cmp S es) (ha : S a) :
    (insert cmp a v es).length = if (find? cmp a es).isNone then es.length + 1 else es.length := by
  induction es with
  | nil => rfl
  | cons e es ih =>
    obtain ⟨-, -, hes'⟩ := ordered_cons.mp hes
    rw [insert]
    split
    case h_1 hae => simp [find?_of_lt h hes ha hae]
    case h_2 hae => simp [find?_cons, hae]
    case h_3 hae =>
      have hpass : find? cmp a (e :: es) = find? cmp a es := by
        rw [find?_cons, if_neg (by simp [hae])]
      rw [List.length_cons, ih hes', hpass]
      split <;> simp

end RedBlackMap.Entries
