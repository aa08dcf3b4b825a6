import RedBlackMap.Proofs.Map.WellFormed
import RedBlackMap.Proofs.Tree.Lookup
import RedBlackMap.Proofs.Tree.Traversal

/-!
# Lookups by a query that is no key

A query whose answers fall along the entries of a map may be equal to a block of them. Every way
to look it up comes to the same entry of the block, or to none if the block is empty, and a
write there changes the value of that entry alone. This needs no law of the comparator, and
keys are the case of a block of one entry at most.
-/
namespace RedBlackMap.Map
universe u v
variable {κ : Type u} {ν : Type v} {cmp : Comparator κ} {m : Map κ ν cmp} {q : Query κ}
  {e : κ × ν} {left right before block after : List (κ × ν)}

/-- Every way to look up the query comes to the entry `e` between `left` and `right`. What is
written there takes the place of its value in the tree, and nothing else in the map changes. -/
structure Meets (m : Map κ ν cmp) (q : Query κ) (e : κ × ν) (left right : List (κ × ν)) :
    Prop where
  toList_eq : m.toList = left ++ e :: right
  hits : q e.1 = .eq
  entryAt?_eq : m.entryAt? q = some e
  valueAt?_eq : m.valueAt? q = some e.2
  containsAt_eq : m.containsAt q = true
  getAt_eq : m.getAt q = .ok e.2
  slotAt?_eq : m.slotAt? q = some (e.2,fun value => m.modifyAt q fun _ => value)
  overwrites : ∀ f : ν → ν, Tree.Overwrites e (f e.2) m.root (m.modifyAt q f).root
  toList_modifyAt : ∀ f : ν → ν, (m.modifyAt q f).toList = left ++ (e.1,f e.2) :: right
  size_modifyAt : ∀ f : ν → ν, (m.modifyAt q f).size = m.size

/-- No way to look up the query comes to an entry, and a write is without effect. -/
structure Misses (m : Map κ ν cmp) (q : Query κ) : Prop where
  entryAt?_eq : m.entryAt? q = none
  valueAt?_eq : m.valueAt? q = none
  containsAt_eq : m.containsAt q = false
  getAt_eq : m.getAt q = .error .keyNotFound
  slotAt?_eq : m.slotAt? q = none
  modifyAt_eq : ∀ f : ν → ν, m.modifyAt q f = m

theorem misses_of_find? (h : m.root.find? q = none) : m.Misses q := by
  have hvalue : m.valueAt? q = none := by rw [valueAt?, entryAt?, h, Option.map_none]
  refine ⟨h, hvalue, ?_, ?_, ?_, ?_⟩
  · rw [containsAt, hvalue]
    rfl
  · rw [getAt, hvalue]
  · rw [slotAt?, Tree.slot?_eq, h]
    rfl
  · intro f
    rw [modifyAt, Tree.modify_eq_self h]

theorem exists_meets (h : m.root.find? q = some e) : ∃ left right, m.Meets q e left right := by
  have hvalue : m.valueAt? q = some e.2 := by rw [valueAt?, entryAt?, h, Option.map_some]
  obtain ⟨left, right, hlist, hmodify⟩ := Tree.exists_place h
  refine ⟨left, right, hlist, Tree.eq_of_find? h, h, hvalue, ?_, ?_, ?_, ?_, hmodify, fun _ => rfl⟩
  · rw [containsAt, hvalue]
    rfl
  · rw [getAt, hvalue]
  · rw [slotAt?, Tree.slot?_eq, h]
    rfl
  · intro f
    exact Tree.modify_overwrites f h

theorem getAt_eq_error_iff {error : LookupError} :
    m.getAt q = .error error ↔ m.valueAt? q = none ∧ error = .keyNotFound := by
  rw [getAt]
  cases m.valueAt? q with
  | none => simp
  | some value => simp

section Block
variable (hlist : m.toList = before ++ block ++ after) (hcuts : q.CutsEntries before block after)
include hlist hcuts

/-- Whatever is found is in the block, and so nothing is if the block is empty. -/
theorem misses_of_block (hblock : block = []) : m.Misses q := by
  apply misses_of_find?
  cases hfind : m.root.find? q with
  | none => rfl
  | some e =>
    obtain ⟨l, r, hsplit, -⟩ := Tree.exists_place hfind
    obtain ⟨l', r', hcontra, -⟩ :=
      hcuts.exists_block (hlist.symm.trans hsplit) (Tree.eq_of_find? hfind)
    simp [hblock] at hcontra

theorem meets_of_block (hblock : block ≠ []) :
    ∃ l e r, block = l ++ e :: r ∧ m.Meets q e (before ++ l) (r ++ after) := by
  have hdescends : q.Descends m.toList := hlist ▸ hcuts.descends
  obtain ⟨x, hx⟩ := List.exists_mem_of_ne_nil block hblock
  have hmem : x ∈ m.toList := by simp [hlist, hx]
  obtain ⟨e, hfind⟩ := Option.isSome_iff_exists.mp (Tree.isSome_find? hdescends hmem (hcuts.eq hx))
  obtain ⟨left, right, hmeets⟩ := exists_meets hfind
  obtain ⟨l, r, rfl, rfl, rfl⟩ :=
    hcuts.exists_block (hlist.symm.trans hmeets.toList_eq) hmeets.hits
  exact ⟨l, e, r, rfl, hmeets⟩

theorem isSome_valueAt?_iff : (m.valueAt? q).isSome = true ↔ block ≠ [] := by
  constructor
  · intro hfound hblock
    simp [(misses_of_block hlist hcuts hblock).valueAt?_eq] at hfound
  · intro hblock
    obtain ⟨l, e, r, -, hmeets⟩ := meets_of_block hlist hcuts hblock
    rw [hmeets.valueAt?_eq]
    rfl

/-- A block of one entry at most leaves no choice. -/
theorem entryAt?_eq_scan (hblock : block.length ≤ 1) :
    m.entryAt? q = (m.cursor .shared).toList.find? q.hits := by
  have hseparates : q.Separates m.toList := hlist ▸ hcuts.separates hblock
  have hcursor : (m.cursor .shared).toList = m.toList :=
    Cursor.toList_ofTree .shared m.root m.size
  rw [hcursor]
  exact Tree.find?_entries hseparates

/-- A query that cuts the entries into a part that it is greater than, a block that it is equal
to and a part that it is less than is found if and only if the block is not empty, in the block,
and by every way to look it up at the same place. -/
theorem lookup_block :
    ((m.valueAt? q).isSome = true ↔ block ≠ []) ∧
    (block = [] → m.Misses q) ∧
    (block ≠ [] → ∃ l e r, block = l ++ e :: r ∧ m.Meets q e (before ++ l) (r ++ after)) ∧
    (block.length ≤ 1 → m.entryAt? q = (m.cursor .shared).toList.find? q.hits) ∧
    (m.valueAt? q = none ↔
      ∃ error, m.getAt q = .error error ∧ error.message = "key not found") := by
  refine ⟨isSome_valueAt?_iff hlist hcuts, misses_of_block hlist hcuts, meets_of_block hlist hcuts,
    entryAt?_eq_scan hlist hcuts, ?_⟩
  constructor
  · intro hnone
    exact ⟨.keyNotFound, getAt_eq_error_iff.mpr ⟨hnone, rfl⟩, rfl⟩
  · rintro ⟨error, herror, -⟩
    exact (getAt_eq_error_iff.mp herror).1

end Block

/-- A query by tens is equal to two keys and meets one of them; no key is in the forties. A key
is equal to itself alone. -/
theorem lookup_block_byTens :
    let cmp : Comparator Int := compare
    let tens (n : Int) : Query Int := fun k => compare n (k / 10)
    let m : Map Int String cmp := (Operation.run ∅
      [.insertMany [(35,"e"),(11,"b"),(21,"c"),(24,"d"),(5,"a"),(50,"f")],.remove 50]).2
    m.toList = [(5,"a"),(11,"b"),(21,"c"),(24,"d"),(35,"e")] ∧
      (tens 2).CutsEntries [(5,"a"),(11,"b")] [(21,"c"),(24,"d")] [(35,"e")] ∧
      (m.valueAt? (tens 2)).isSome = true ∧
      (∃ l e r, [(21,"c"),(24,"d")] = l ++ e :: r ∧
        m.Meets (tens 2) e ([(5,"a"),(11,"b")] ++ l) (r ++ [(35,"e")])) ∧
      m.Misses (tens 4) ∧
      m.entryAt? (cmp 24) = (m.cursor .shared).toList.find? (Query.hits (cmp 24)) ∧
      m.get 24 = .ok "d" ∧ m.contains 24 = true := by
  intro cmp tens m
  have hlist : m.toList = [(5,"a"),(11,"b"),(21,"c"),(24,"d"),(35,"e")] := by decide +kernel
  have hcuts : (tens 2).CutsEntries [(5,"a"),(11,"b")] [(21,"c"),(24,"d")] [(35,"e")] :=
    ⟨by decide, by decide, by decide⟩
  have hwhole : m.toList = m.toList ++ [] ++ [] := by simp
  have hcuts' : (tens 4).CutsEntries m.toList [] [] := by
    rw [hlist]
    exact ⟨by decide, by decide, by decide⟩
  have hkey : Query.CutsEntries (cmp 24) [(5,"a"),(11,"b"),(21,"c")] [(24,"d")] [(35,"e")] :=
    ⟨by decide, by decide, by decide⟩
  obtain ⟨hsome, -, hmeets, -⟩ := lookup_block hlist hcuts
  obtain ⟨-, hmisses, -⟩ := lookup_block hwhole hcuts'
  obtain ⟨-, -, hmeets', hscan, -⟩ := lookup_block hlist hkey
  obtain ⟨l, e, r, hsplit, hself⟩ := hmeets' (by simp)
  obtain ⟨rfl, hone⟩ : l = [] ∧ e :: r = [(24,"d")] := by
    simpa using List.append_eq_singleton_iff.mp hsplit.symm
  obtain ⟨rfl, rfl⟩ := List.cons_eq_cons.mp hone
  refine ⟨hlist, hcuts, hsome.mpr (by simp), hmeets (by simp), hmisses rfl, hscan (by simp), ?_, ?_⟩
  · rw [get_eq]
    exact hself.getAt_eq
  · rw [contains_eq]
    exact hself.containsAt_eq

end RedBlackMap.Map
