import RedBlackMap.Proofs.Tree.Search
import RedBlackMap.Proofs.Tree.Traversal

/-!
# Cursors at every point

However often a cursor was called, its answers are the first entries of the tree, what it
still holds are the others, its count is exact, and its stack is no longer than the tree is
high. The other visits of a tree see the same entries.
-/
namespace RedBlackMap.Cursor
universe u v w
variable {κ : Type u} {ν : Type v} {c d : Cursor κ ν} {e : κ × ν} {stack : List (Node κ ν)}
  {j x h : Nat}

theorem toList_of_next? (hc : c.next? = some (e,d)) : c.toList = e :: d.toList := by
  rw [toList_eq_pending, toList_eq_pending, pending_next? hc]

theorem toList_eq_nil_iff : c.toList = [] ↔ c.next? = none := by
  cases hc : c.next? with
  | none =>
    have hdrain : c.drain = ([],c) := by
      rw [drain]
      split
      · rfl
      · simp_all
    simp [toList, hdrain]
  | some p => simp [toList_of_next? hc]

/-- The count exceeds the entries that follow by as much as before. -/
theorem remaining_next? (hc : c.next? = some (e,d)) (hx : c.remaining = c.toList.length + x) :
    d.remaining = d.toList.length + x ∧ c.remaining = d.remaining + 1 := by
  have hcount : d.remaining = c.remaining - 1 := by
    cases hs : c.stack with
    | nil => simp [next?, hs] at hc
    | cons n rest =>
      simp only [next?, hs, Option.some.injEq, Prod.mk.injEq] at hc
      rw [← hc.2]
  rw [toList_of_next? hc, List.length_cons] at hx
  omega

/-- A stack in a tree of height `h`: each node lies deeper than all those under it on the
stack, and its right subtree is deeper still. -/
def Within (h : Nat) : List (Node κ ν) → Prop
  | [] => True
  | n :: rest => rest.length + 1 + n.right.height ≤ h ∧ Within h rest

theorem Within.length_le (hs : Within h stack) : stack.length ≤ h := by
  cases stack with
  | nil => exact Nat.zero_le h
  | cons n rest =>
    obtain ⟨hn, -⟩ := hs
    rw [List.length_cons]
    omega

theorem Within.descend (hs : Within h stack) (a : Access) (t : Tree κ ν)
    (ht : stack.length + t.height ≤ h) : Within h (descend a t stack) := by
  induction t generalizing stack with
  | nil => exact hs
  | node c l k v r ihl _ =>
    rw [Tree.height] at ht
    apply ihl
    · refine ⟨?_, hs⟩
      rw [right_keep]
      dsimp only
      omega
    · rw [List.length_cons]
      omega

theorem Within.next? (hs : Within h c.stack) (hc : c.next? = some (e,d)) : Within h d.stack := by
  cases hstack : c.stack with
  | nil => simp [Cursor.next?, hstack] at hc
  | cons n rest =>
    simp only [Cursor.next?, hstack, Option.some.injEq, Prod.mk.injEq] at hc
    rw [hstack] at hs
    rw [← hc.2]
    apply hs.2.descend
    have hn := hs.1
    omega

theorem advance_succ_of_none (hc : c.next? = none) :
    c.advance (j + 1) = (none :: (c.advance j).1,(c.advance j).2) := by
  rw [advance, hc]

theorem advance_succ_of_some (hc : c.next? = some (e,d)) :
    c.advance (j + 1) = (some e :: (d.advance j).1,(d.advance j).2) := by
  rw [advance, hc]

/-- What a call keeps, any number of calls keeps. -/
theorem advance_induction {P : Cursor κ ν → Prop} (hc : P c)
    (hstep : ∀ {c d e}, P c → c.next? = some (e,d) → P d) (j : Nat) : P (c.advance j).2 := by
  induction j generalizing c with
  | zero => exact hc
  | succ j ih =>
    cases hnext : c.next? with
    | none =>
      rw [advance_succ_of_none hnext]
      exact ih hc
    | some p =>
      rw [advance_succ_of_some hnext]
      exact ih (hstep hc hnext)

theorem toList_advance (c : Cursor κ ν) (j : Nat) : (c.advance j).2.toList = c.toList.drop j := by
  induction j generalizing c with
  | zero => rfl
  | succ j ih =>
    cases hc : c.next? with
    | none => rw [advance_succ_of_none hc, ih, toList_eq_nil_iff.mpr hc, List.drop_nil,
        List.drop_nil]
    | some p => rw [advance_succ_of_some hc, ih, toList_of_next? hc, List.drop_succ_cons]

theorem answers_advance (c : Cursor κ ν) (j : Nat) : (c.advance j).1 =
    (c.toList.take j).map some ++ List.replicate (j - c.toList.length) none := by
  induction j generalizing c with
  | zero => simp [advance]
  | succ j ih =>
    cases hc : c.next? with
    | none =>
      rw [advance_succ_of_none hc, ih, toList_eq_nil_iff.mpr hc]
      simp [List.replicate_succ]
    | some p =>
      rw [advance_succ_of_some hc, ih, toList_of_next? hc]
      simp

theorem remaining_advance (hx : c.remaining = c.toList.length + x) (j : Nat) :
    (c.advance j).2.remaining = (c.advance j).2.toList.length + x :=
  advance_induction (P := fun c => c.remaining = c.toList.length + x) hx
    (fun hx hc => (remaining_next? hc hx).1) j

theorem access_advance (c : Cursor κ ν) (j : Nat) : (c.advance j).2.access = c.access := by
  refine advance_induction (P := fun d => d.access = c.access) rfl ?_ j
  intro d d' e hd hnext
  rw [← hd]
  cases hs : d.stack with
  | nil => simp [Cursor.next?, hs] at hnext
  | cons n rest =>
    simp only [Cursor.next?, hs, Option.some.injEq, Prod.mk.injEq] at hnext
    rw [← hnext.2]

theorem within_ofTree (a : Access) (t : Tree κ ν) (count : Nat) :
    Within t.height (ofTree a t count).stack := by
  have hnil : Within t.height ([] : List (Node κ ν)) := trivial
  exact hnil.descend a t (by simp)

theorem within_advance (hs : Within h c.stack) (j : Nat) : Within h (c.advance j).2.stack :=
  advance_induction (P := fun c => Within h c.stack) hs (fun hs hc => hs.next? hc) j

theorem pending_image (f : κ → κ) (g : ν → ν) (stack : List (Node κ ν)) :
    pending (stack.map (Node.image f g)) = (pending stack).map (Prod.map f g) := by
  induction stack with
  | nil => rfl
  | cons n rest ih =>
    rw [List.map_cons, pending_cons, pending_cons, ih, List.map_cons, List.map_append,
      ← Tree.toList_image]
    rfl

theorem toList_copy (f : κ → κ) (g : ν → ν) (c : Cursor κ ν) :
    (c.copy f g).toList = c.toList.map (c.access.copied f g) := by
  rw [toList_eq_pending, toList_eq_pending]
  rcases c with ⟨_ | _, stack, count⟩
  · exact (List.map_id _).symm
  · exact pending_image f g stack

/-- Behind its last entry a cursor answers nothing, and its count is what it had in excess. -/
theorem drain_end (hx : c.remaining = c.toList.length + x) :
    c.drain.2.next? = none ∧ c.drain.2.remaining = x := by
  fun_induction drain c with
  | case1 c hc =>
    rw [toList_eq_nil_iff.mpr hc] at hx
    exact ⟨hc, by simpa using hx⟩
  | case2 c e d hc es last hdrain ih =>
    rw [hdrain] at ih
    exact ih (remaining_next? hc hx).1

/-- After `j` calls of a cursor on a tree, shared or owned, the answers are the first entries
and then nothing; the cursor and its copies yield the others; the count is exact and is never
lowered from zero; and the stack is no longer than the tree is high. The visits of the whole
tree see the same entries, and the ends are the first and the last of them. -/
theorem ofTree_traverses (a : Access) (t : Tree κ ν) (j : Nat) :
    let start := ofTree a t t.toList.length
    let here := (start.advance j).2
    (start.advance j).1 = (t.toList.take (min j t.toList.length)).map some ++
        List.replicate (j - t.toList.length) none ∧
      here.drain.1 = t.toList.drop j ∧
      here.drain.2.next? = none ∧ here.drain.2.bounds = (0,some 0) ∧
      (∀ f g, (here.copy f g).drain.1 = (t.toList.drop j).map (a.copied f g) ∧
        (here.copy f g).bounds = here.bounds) ∧
      here.bounds = (t.toList.length - j,some (t.toList.length - j)) ∧
      (∀ e next, here.next? = some (e,next) → here.remaining = next.remaining + 1) ∧
      (t.toList.length ≤ j → here.next? = none ∧ here.bounds = (0,some 0)) ∧
      here.stack.length ≤ t.height ∧
      (∀ (σ : Type w) (f : σ → κ → ν → σ) (s : σ),
        t.foldl f s = t.toList.foldl (fun s e => f s e.1 e.2) s) ∧
      t.min? = t.toList.head? ∧ t.max? = t.toList.getLast? := by
  intro start here
  have hlist : start.toList = t.toList := toList_ofTree a t _
  have hrest : here.toList = t.toList.drop j := by rw [← hlist, ← toList_advance]
  have hcount : start.remaining = start.toList.length + 0 := by rw [hlist]; rfl
  have hexact : here.remaining = here.toList.length + 0 := remaining_advance hcount j
  have hremaining : here.remaining = t.toList.length - j := by
    rw [hexact, hrest, List.length_drop, Nat.add_zero]
  have hbounds : here.bounds = (t.toList.length - j,some (t.toList.length - j)) := by
    rw [bounds, hremaining]
  have hwithin : Within t.height here.stack := within_advance (within_ofTree a t _) j
  obtain ⟨hend, hzero⟩ := drain_end hexact
  refine ⟨?_, hrest, hend, by rw [bounds, hzero], ?_, hbounds, ?_, ?_, hwithin.length_le, ?_,
    t.min?_eq_head?, t.max?_eq_getLast?⟩
  · rw [answers_advance, hlist, ← List.take_eq_take_min]
  · intro f g
    constructor
    · change (here.copy f g).toList = _
      rw [toList_copy, hrest, access_advance]
      rfl
    · rw [bounds, bounds, copy]
      split <;> rfl
  · intro e next hnext
    exact (remaining_next? hnext hexact).2
  · intro hj
    have hnil : here.toList = [] := by rw [hrest, List.drop_eq_nil_of_le hj]
    refine ⟨toList_eq_nil_iff.mp hnil, ?_⟩
    rw [hbounds, Nat.sub_eq_zero_of_le hj]
  · intro σ f s
    exact t.foldl_eq f s

/-- A tree whose keys are in no order, in the middle of its entries and behind their end. -/
theorem ofTree_traverses_unordered :
    let t : Tree Nat String := .node .red (.node .black .nil 5 "a" .nil) 2 "b"
      (.node .red (.node .red .nil 9 "c" .nil) 2 "d" .nil)
    let middle := ((ofTree .owned t 4).advance 2).2
    let last := ((ofTree .shared t 4).advance 6).2
    (∃ next, middle.next? = some ((9,"c"),next) ∧ middle.remaining = next.remaining + 1) ∧
      middle.toList = [(9,"c"),(2,"d")] ∧ middle.bounds = (2,some 2) ∧
      (middle.copy (10 * ·) id).toList = [(90,"c"),(20,"d")] ∧
      ((ofTree .shared t 4).advance 6).1 =
        [some (5,"a"),some (2,"b"),some (9,"c"),some (2,"d"),none,none] ∧
      last.next? = none ∧ last.bounds = (0,some 0) := by
  intro t middle last
  obtain ⟨-, hrest, -, -, hcopy, hbounds, hlower, -⟩ := ofTree_traverses.{0,0,0} .owned t 2
  obtain ⟨hanswers, -, -, -, -, -, -, hend, -⟩ := ofTree_traverses.{0,0,0} .shared t 6
  obtain ⟨hnone, hzero⟩ := hend (by decide)
  exact ⟨⟨_, rfl, hlower (9,"c") _ rfl⟩, hrest, hbounds, (hcopy (10 * ·) id).1, hanswers, hnone,
    hzero⟩

end RedBlackMap.Cursor
