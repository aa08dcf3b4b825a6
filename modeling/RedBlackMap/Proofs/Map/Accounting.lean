import RedBlackMap.Map.Operation
import RedBlackMap.Proofs.Tree.Accounting
import RedBlackMap.Proofs.Tree.Checked
import RedBlackMap.Proofs.Tree.Iteration

/-!
# Maps without an order

What holds of every map under every comparator, with no law for it. The count is never less
than the number of nodes, so no count is lowered from zero and no rotation misses a child;
an insertion adds or changes one entry, and a removal takes the entry that it answers. The
order of the entries, their number and what is found are left open.
-/
namespace RedBlackMap
universe u v
variable {κ : Type u} {ν : Type v} {cmp : Comparator κ}

namespace Map

def insertChecked (m : Map κ ν cmp) (key : κ) (value : ν) : Except Fault (Bool × Map κ ν cmp) := do
  let (added, root) ← Checked.insert cmp key value m.root
  return (added, ⟨root, if added then m.size + 1 else m.size⟩)

def removeAtChecked (m : Map κ ν cmp) (q : Query κ) :
    Except Fault (Option (κ × ν) × Map κ ν cmp) := do
  match ← Checked.remove q m.root with
  | (none, root) => return (none, ⟨root, m.size⟩)
  | (some e, root) =>
    if m.size = 0 then throw .countBelowZero else return (some e, ⟨root, m.size - 1⟩)

def insertManyChecked (m : Map κ ν cmp) : List (κ × ν) → Except Fault (Map κ ν cmp)
  | [] => return m
  | e :: es => do
    let (_, m) ← m.insertChecked e.1 e.2
    m.insertManyChecked es

end Map

/-- An operation with its guards. Those that change no shape and no count have none. -/
def Operation.applyChecked (m : Map κ ν cmp) :
    Operation κ ν → Except Fault (Answer κ ν × Map κ ν cmp)
  | insert key value => return (← m.insertChecked key value).map .flag id
  | remove key => return (← m.removeAtChecked (cmp key)).map .entry id
  | delete key => return (← m.removeAtChecked (cmp key)).map (fun e? => .flag e?.isSome) id
  | insertMany entries => return (.done, ← m.insertManyChecked entries)
  | ofList entries => return (.done, ← (∅ : Map κ ν cmp).insertManyChecked entries)
  | op => return op.apply m

def Cursor.nextChecked? (c : Cursor κ ν) : Except Fault (Option ((κ × ν) × Cursor κ ν)) :=
  match c.next? with
  | none => return none
  | some next => if c.remaining = 0 then throw .countBelowZero else return some next

namespace Map

def Covers (m : Map κ ν cmp) : Prop := m.root.size ≤ m.size

variable {m : Map κ ν cmp}

theorem covers_empty : (∅ : Map κ ν cmp).Covers := Nat.le_refl 0

theorem insert_inserts (m : Map κ ν cmp) (key : κ) (value : ν) :
    Entries.Inserts cmp key value m.toList (m.insert key value).1 (m.insert key value).2.toList :=
  m.root.insert_inserts cmp key value

theorem removeAt_removes (m : Map κ ν cmp) (q : Query κ) :
    Entries.Removes q m.toList (m.removeAt q).1 (m.removeAt q).2.toList :=
  m.root.remove_removes q

theorem length_toList (m : Map κ ν cmp) : m.toList.length = m.root.size := m.root.length_toList

theorem Covers.insert (hm : m.Covers) (key : κ) (value : ν) : (m.insert key value).2.Covers := by
  have hlength := (m.insert_inserts key value).length_eq
  rw [length_toList, length_toList] at hlength
  rw [Covers] at hm ⊢
  rw [size_insert]
  omega

theorem Covers.removeAt (hm : m.Covers) (q : Query κ) : (m.removeAt q).2.Covers := by
  have hlength := (m.removeAt_removes q).length_le
  rw [length_toList, length_toList] at hlength
  rw [Covers] at hm ⊢
  rw [size_removeAt]
  omega

theorem Covers.modifyAt (hm : m.Covers) (q : Query κ) (f : ν → ν) : (m.modifyAt q f).Covers := by
  change (m.root.modify q f).size ≤ m.size
  rw [Tree.size_modify]
  exact hm

theorem Covers.insertMany (hm : m.Covers) (es : List (κ × ν)) : (m.insertMany es).Covers := by
  induction es generalizing m with
  | nil => exact hm
  | cons e es ih => exact ih (hm.insert e.1 e.2)

theorem Covers.apply (hm : m.Covers) (op : Operation κ ν) : (op.apply m).2.Covers := by
  cases op with
  | insert key value => exact hm.insert key value
  | replace key value => exact hm.modifyAt (cmp key) fun _ => value
  | remove key => exact hm.removeAt (cmp key)
  | delete key => exact hm.removeAt (cmp key)
  | get key =>
    rw [Operation.apply]
    cases m.get key <;> exact hm
  | clear => exact covers_empty
  | insertMany es => exact hm.insertMany es
  | ofList es => exact covers_empty.insertMany es
  | find | contains | min | max | isEmpty | size => exact hm

theorem insertChecked_eq (m : Map κ ν cmp) (key : κ) (value : ν) :
    m.insertChecked key value = .ok (m.insert key value) := by
  rw [insertChecked, Checked.insert_eq]
  rfl

theorem insertManyChecked_eq (m : Map κ ν cmp) (es : List (κ × ν)) :
    m.insertManyChecked es = .ok (m.insertMany es) := by
  induction es generalizing m with
  | nil => rfl
  | cons e es ih =>
    rw [insertManyChecked, insertChecked_eq, Checked.ok_bind]
    exact ih (m.insert e.1 e.2).2

/-- Where an entry is taken there was a node, and so a count to lower. -/
theorem Covers.size_ne_zero (hm : m.Covers) {q : Query κ} {e : κ × ν}
    (he : (m.root.remove q).1 = some e) : m.size ≠ 0 := by
  have hlength := (m.root.remove_removes q).length_le
  rw [he, m.root.length_toList, Option.isSome_some, Bool.toNat_true] at hlength
  rw [Covers] at hm
  omega

theorem Covers.size_eq_succ (hm : m.Covers) {q : Query κ} {e : κ × ν}
    (he : (m.removeAt q).1 = some e) : m.size = (m.removeAt q).2.size + 1 := by
  have hsize : m.size ≠ 0 := hm.size_ne_zero he
  rw [size_removeAt, he, Option.isSome_some, Bool.toNat_true]
  omega

theorem Covers.removeAtChecked_eq (hm : m.Covers) (q : Query κ) :
    m.removeAtChecked q = .ok (m.removeAt q) := by
  rw [removeAtChecked, Checked.remove_eq, Checked.ok_bind, Map.removeAt]
  rcases hremove : m.root.remove q with ⟨_ | e, root⟩
  · rfl
  · have hsize : m.size ≠ 0 := hm.size_ne_zero (congrArg Prod.fst hremove)
    simp only [if_neg hsize]
    rfl

theorem Covers.applyChecked_eq (hm : m.Covers) (op : Operation κ ν) :
    op.applyChecked m = .ok (op.apply m) := by
  cases op with
  | insert key value =>
    rw [Operation.applyChecked, insertChecked_eq]
    rfl
  | remove key =>
    rw [Operation.applyChecked, hm.removeAtChecked_eq]
    rfl
  | delete key =>
    rw [Operation.applyChecked, hm.removeAtChecked_eq]
    rfl
  | insertMany es =>
    rw [Operation.applyChecked, insertManyChecked_eq]
    rfl
  | ofList es =>
    rw [Operation.applyChecked, insertManyChecked_eq]
    rfl
  | replace | find | get | contains | min | max | isEmpty | size | clear => rfl

/-- The maps that calls reach from an empty one, with any queries and in any order. -/
inductive Attained : Map κ ν cmp → Prop
  | empty : Attained ∅
  | apply {m : Map κ ν cmp} (op : Operation κ ν) : Attained m → Attained (op.apply m).2
  | removeAt {m : Map κ ν cmp} (q : Query κ) : Attained m → Attained (m.removeAt q).2
  | modifyAt {m : Map κ ν cmp} (q : Query κ) (f : ν → ν) : Attained m → Attained (m.modifyAt q f)
  | copy {m : Map κ ν cmp} (f : κ → κ) (g : ν → ν) :
    Attained m → Attained ⟨m.root.image f g, m.size⟩

/-- The cursors that calls and copies reach from a fresh cursor of a map. -/
inductive Yields (m : Map κ ν cmp) : Cursor κ ν → Prop
  | fresh (a : Access) : m.Yields (m.cursor a)
  | next {c d : Cursor κ ν} {e : κ × ν} : m.Yields c → c.next? = some (e, d) → m.Yields d
  | copy {c : Cursor κ ν} (f : κ → κ) (g : ν → ν) : m.Yields c → m.Yields (c.copy f g)

theorem Attained.covers (hm : m.Attained) : m.Covers := by
  induction hm with
  | empty => exact covers_empty
  | apply op _ ih => exact ih.apply op
  | removeAt q _ ih => exact ih.removeAt q
  | modifyAt q f _ ih => exact ih.modifyAt q f
  | @copy m f g _ ih =>
    have hsize : (m.root.image f g).size = m.root.size := by
      rw [← Tree.length_toList, ← Tree.length_toList, Tree.toList_image, List.length_map]
    rw [Covers, hsize]
    exact ih

theorem Attained.run (hm : m.Attained) (ops : List (Operation κ ν)) :
    (Operation.run m ops).2.Attained := by
  induction ops generalizing m with
  | nil => exact hm
  | cons op ops ih => exact ih (hm.apply op)

/-- A cursor keeps the excess of the count over the nodes of its map. -/
theorem Covers.remaining_eq (hm : m.Covers) {c : Cursor κ ν} (hc : m.Yields c) :
    c.remaining = c.toList.length + (m.size - m.root.size) := by
  induction hc with
  | fresh a =>
    rw [cursor, Cursor.toList_ofTree, Tree.length_toList, Nat.add_sub_cancel' hm]
    rfl
  | next _ hnext ih => exact (Cursor.remaining_next? hnext ih).1
  | copy f g _ ih =>
    rw [Cursor.toList_copy, List.length_map, ← ih, Cursor.copy]
    split <;> rfl

theorem Covers.remaining_eq_succ (hm : m.Covers) {c d : Cursor κ ν} {e : κ × ν}
    (hc : m.Yields c) (hnext : c.next? = some (e, d)) : c.remaining = d.remaining + 1 :=
  (Cursor.remaining_next? hnext (hm.remaining_eq hc)).2

theorem Covers.nextChecked?_eq (hm : m.Covers) {c : Cursor κ ν} (hc : m.Yields c) :
    c.nextChecked? = .ok c.next? := by
  rw [Cursor.nextChecked?]
  cases hnext : c.next? with
  | none => rfl
  | some p =>
    have hremaining : c.remaining ≠ 0 := by
      rw [hm.remaining_eq_succ hc hnext]
      exact Nat.succ_ne_zero _
    simp only [if_neg hremaining]
    rfl

/-- Under every comparator and after any calls: the map has no more nodes than its count
says, no operation and no cursor lowers a count from zero or rotates a node without the child
to rotate, so that a count which is lowered was one more before, an insertion adds or changes
exactly one entry, and a removal takes exactly the occurrence that it answers, or else changes
no entry. -/
theorem attained_accounts (hm : m.Attained) :
    m.root.size ≤ m.size ∧
      (∀ op : Operation κ ν, op.applyChecked m = .ok (op.apply m)) ∧
      (∀ q : Query κ, m.removeAtChecked q = .ok (m.removeAt q)) ∧
      (∀ c : Cursor κ ν, m.Yields c → c.nextChecked? = .ok c.next?) ∧
      (∀ (q : Query κ) (e : κ × ν), (m.removeAt q).1 = some e →
        m.size ≠ 0 ∧ m.size = (m.removeAt q).2.size + 1) ∧
      (∀ (c d : Cursor κ ν) (e : κ × ν), m.Yields c → c.next? = some (e,d) →
        c.remaining = d.remaining + 1) ∧
      (∀ (key : κ) (value : ν), Entries.Inserts cmp key value m.toList
        (m.insert key value).1 (m.insert key value).2.toList) ∧
      (∀ q : Query κ, Entries.Removes q m.toList (m.removeAt q).1 (m.removeAt q).2.toList) := by
  have hcovers : m.Covers := hm.covers
  refine ⟨hcovers, hcovers.applyChecked_eq, hcovers.removeAtChecked_eq, ?_, ?_, ?_,
    m.insert_inserts, m.removeAt_removes⟩
  · intro c hc
    exact hcovers.nextChecked?_eq hc
  · intro q e he
    exact ⟨hcovers.size_ne_zero he, hcovers.size_eq_succ he⟩
  · intro c d e hc hnext
    exact hcovers.remaining_eq_succ hc hnext

/-- Zero cannot be compared, so that it is equal to every key. Three removals of it empty a map
of four entries: the third takes `4` and loses `1` with it. With no count left it would fail. -/
theorem attained_accounts_ofPartial :
    let cmp : Comparator Nat :=
      .ofPartial fun a b => if a = 0 ∨ b = 0 then none else some (compare a b)
    let start : Map Nat String cmp := ∅
    let m := (Operation.run start
      [.insertMany [(4,"d"),(3,"c"),(2,"b"),(1,"a")],.remove 0,.remove 0]).2
    m.Attained ∧ m.toList = [(1,"a"),(4,"d")] ∧ m.size = 2 ∧ m.root.size ≤ m.size ∧
      Operation.applyChecked m (.remove 0) = .ok (.entry (some (4,"d")),⟨.nil,1⟩) ∧
      m.removeAtChecked (cmp 0) = .ok (some (4,"d"),⟨.nil,1⟩) ∧
      (⟨m.root,0⟩ : Map Nat String cmp).removeAtChecked (cmp 0) = .error .countBelowZero ∧
      (m.cursor .owned).nextChecked? = .ok (m.cursor .owned).next? ∧
      (∃ rest, (m.cursor .owned).next? = some ((1,"a"),rest) ∧
        (m.cursor .owned).remaining = rest.remaining + 1) ∧
      m.size = (m.removeAt (cmp 0)).2.size + 1 ∧
      Entries.Inserts cmp 0 "z" [(1,"a"),(4,"d")] false [(1,"a"),(4,"z")] ∧
      Entries.Removes (cmp 0) [(1,"a"),(4,"d")] (some (4,"d")) [] := by
  intro cmp start m
  have hm : m.Attained := Attained.empty.run _
  have hlist : m.toList = [(1,"a"),(4,"d")] := by decide +kernel
  have hremove : m.removeAt (cmp 0) = (some (4,"d"),⟨.nil,1⟩) := by
    have hanswer : (m.removeAt (cmp 0)).1 = some (4,"d") := by decide +kernel
    have hroot : (m.removeAt (cmp 0)).2.root = .nil := by decide +kernel
    have hcount : (m.removeAt (cmp 0)).2.size = 1 := by decide +kernel
    rw [← hanswer, ← hroot, ← hcount]
  have htree : m.root.remove (cmp 0) = (some (4,"d"),.nil) :=
    congrArg (fun p => (p.1,p.2.root)) hremove
  have hgrown : (m.insert 0 "z").1 = false := by decide +kernel
  have hinsert : (m.insert 0 "z").2.toList = [(1,"a"),(4,"z")] := by decide +kernel
  have hfirst : (m.cursor .owned).next?.map Prod.fst = some (1,"a") := by decide +kernel
  obtain ⟨⟨e, rest⟩, hnext, rfl⟩ := Option.map_eq_some_iff.mp hfirst
  obtain ⟨hsize, happly, hchecked, hcursor, hlowered, hfewer, hinserts, hremoves⟩ :=
    attained_accounts hm
  refine ⟨hm, hlist, by decide +kernel, hsize, ?_, ?_, ?_, hcursor _ (.fresh .owned),
    ⟨rest, hnext, hfewer _ rest (1,"a") (.fresh .owned) hnext⟩,
    (hlowered (cmp 0) (4,"d") (congrArg Prod.fst hremove)).2, ?_, ?_⟩
  · rw [happly, Operation.apply, Map.remove, hremove]
    rfl
  · rw [hchecked, hremove]
  · rw [removeAtChecked, Checked.remove_eq, Checked.ok_bind, htree]
    rfl
  · have h := hinserts 0 "z"
    rwa [hlist, hgrown, hinsert] at h
  · have h := hremoves (cmp 0)
    rwa [hlist, hremove] at h

end Map

end RedBlackMap
