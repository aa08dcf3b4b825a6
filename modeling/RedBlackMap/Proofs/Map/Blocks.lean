import RedBlackMap.Proofs.Map.WellFormed

/-!
# Removal by a query that is no key

Such a query may be equal to a whole block of the stored keys. A removal then takes exactly
one entry of the block, and the map is well formed again if that entry was the last of the
block. If others stand behind it, the tree may be left without balance, and a later removal of
a key may lose entries.
-/
namespace RedBlackMap.Map
universe u v
variable {κ : Type u} {ν : Type v} {cmp : Comparator κ} {S : κ → Prop} {m : Map κ ν cmp}
  {q : Query κ} {before block after : List (κ × ν)}

/-- A well-formed map on which every later history acts as it does on the list of entries. -/
structure Sturdy (S : κ → Prop) (m : Map κ ν cmp) : Prop where
  wellFormed : m.WellFormed
  run_eq : ∀ ops : List (Operation κ ν), (∀ op ∈ ops, ∀ k ∈ op.keys, S k) →
    (Operation.run m ops).1 = (Entries.run cmp m.toList ops).1 ∧
      (Operation.run m ops).2.toList = (Entries.run cmp m.toList ops).2

theorem WellFormedOn.sturdy (hcmp : TotalPreorderOn cmp S) (hm : m.WellFormedOn S) :
    m.Sturdy S :=
  ⟨hm.wellFormed, fun _ hops => (Operation.run_spec hcmp hm hops).2⟩

/-- A removal takes one entry of the block and no other, or none if there is no block. Where
the last entry of the block is taken, or none, the map is well formed and stays so. -/
theorem removeAt_block (hcmp : TotalPreorderOn cmp S) (hm : m.Reachable S)
    (hlist : m.toList = before ++ block ++ after) (hcuts : q.CutsEntries before block after) :
    ((m.removeAt q).1 = none ↔ block = []) ∧
    (m.removeAt q).2.root.isRed = false ∧
    ((m.removeAt q).1 = none → (m.removeAt q).2.toList = m.toList ∧
      (m.removeAt q).2.size = m.size ∧ (m.removeAt q).2.Sturdy S) ∧
    ∀ e, (m.removeAt q).1 = some e → ∃ l r, block = l ++ e :: r ∧
      (m.removeAt q).2.toList = before ++ (l ++ r) ++ after ∧
      (m.removeAt q).2.size + 1 = m.size ∧ (r = [] → (m.removeAt q).2.Sturdy S) := by
  have hm' : m.WellFormedOn S := hm.wellFormedOn hcmp
  have hsize := m.size_removeAt q
  have hcount := hm'.size_eq
  have herases := hm'.removeAt_erases (hlist ▸ hcuts.descends)
  have hroot : (m.removeAt q).2.root.isRed = false := Tree.isRed_blacken _
  generalize (m.removeAt q).1 = answer at herases hsize ⊢
  generalize (m.removeAt q).2.toList = rest at herases ⊢
  generalize m.toList = es at herases hlist hcount ⊢
  cases herases with
  | missed _ hmiss hkept =>
    have hblock : block = [] := by
      rw [List.eq_nil_iff_forall_not_mem]
      intro x hx
      exact hmiss x (by simp [hlist, hx]) (hcuts.eq hx)
    exact ⟨by simp [hblock], hroot, fun _ => ⟨rfl, hsize, hkept.sturdy hcmp⟩, nofun⟩
  | taken l r e he hkept =>
    obtain ⟨l', r', rfl, rfl, rfl⟩ := hcuts.exists_block hlist.symm he
    refine ⟨by simp, hroot, nofun, ?_⟩
    rintro _ ⟨⟩
    refine ⟨l', r', rfl, by simp, ?_, fun hr => (hkept fun x hx => ?_).sturdy hcmp⟩
    · have hpos : 0 < m.size := hcount ▸ List.length_pos_of_mem (a := e) (by simp)
      rw [hsize]
      exact Nat.sub_add_cancel hpos
    · rw [hr, List.nil_append] at hx
      simp [hcuts.lt hx]

/-- A query by tens is equal to two keys and takes the second. -/
theorem removeAt_block_byTens :
    let cmp : Comparator Int := compare
    let q : Query Int := fun k => compare 2 (k / 10)
    let m : Map Int String cmp := (Operation.run ∅
      [.insertMany [(5,"a"),(11,"b"),(21,"c"),(24,"d"),(35,"e"),(36,"f"),(48,"g")]]).2
    TotalPreorderOn cmp (0 ≤ ·) ∧ m.Reachable (0 ≤ ·) ∧
      q.CutsEntries [(5,"a"),(11,"b")] [(21,"c"),(24,"d")] [(35,"e"),(36,"f"),(48,"g")] ∧
      (m.removeAt q).1 = some (24,"d") ∧
      (m.removeAt q).2.toList = [(5,"a"),(11,"b"),(21,"c"),(35,"e"),(36,"f"),(48,"g")] ∧
      (m.removeAt q).2.size + 1 = m.size ∧ (m.removeAt q).2.Sturdy (0 ≤ ·) := by
  intro cmp q m
  have hcmp : TotalPreorderOn cmp (0 ≤ ·) := .of_transCmp compare _
  have hm : m.Reachable (0 ≤ ·) := ⟨_, by simp [Operation.keys], rfl⟩
  have hlist : m.toList = [(5,"a"),(11,"b")] ++ [(21,"c"),(24,"d")] ++
      [(35,"e"),(36,"f"),(48,"g")] := by decide +kernel
  have hcuts : q.CutsEntries [(5,"a"),(11,"b")] [(21,"c"),(24,"d")]
      [(35,"e"),(36,"f"),(48,"g")] := ⟨by decide, by decide, by decide⟩
  have hanswer : (m.removeAt q).1 = some (24,"d") := by decide +kernel
  obtain ⟨l, r, hblock, hrest, hsize, hsturdy⟩ :=
    (removeAt_block hcmp hm hlist hcuts).2.2.2 _ hanswer
  have hlast : l = [(21,"c")] ∧ r = [] := by
    rcases l with _ | ⟨_, _ | ⟨_, l⟩⟩ <;> simp_all
  obtain ⟨rfl, rfl⟩ := hlast
  exact ⟨hcmp, hm, hcuts, hanswer, hrest, hsize, hsturdy rfl⟩

/-- What is not a number is equal to every number. Removed from a map of four numbers it takes
the second, with two more of its block behind it, and the black heights differ. The removal of
`three` then loses `one`. -/
theorem removeAt_block_unbalances :
    let cmp : Comparator Binary64 := .ofPartial Binary64.compare?
    let one : Binary64 := ⟨0x3ff0000000000000⟩
    let two : Binary64 := ⟨0x4000000000000000⟩
    let three : Binary64 := ⟨0x4008000000000000⟩
    let four : Binary64 := ⟨0x4010000000000000⟩
    let q : Query Binary64 := cmp ⟨0x7ff8000000000000⟩
    let m : Map Binary64 Nat cmp := (Operation.run ∅
      [.insert four 4,.insert three 3,.insert two 2,.insert one 1]).2
    TotalPreorderOn cmp (fun x => x.isNaN = false) ∧ m.Reachable (fun x => x.isNaN = false) ∧
      q.CutsEntries [] m.toList [] ∧ (m.removeAt q).1 = some (two,2) ∧
      (¬ ∃ b, (m.removeAt q).2.root.BlackHeight b) ∧
      (m.removeAt q).2.toList = [(one,1),(three,3),(four,4)] ∧
      ((m.removeAt q).2.remove three).1 = some (three,3) ∧
      ((m.removeAt q).2.remove three).2.toList = [(four,4)] := by
  intro cmp one two three four q m
  have hm : m.Reachable fun x => x.isNaN = false := ⟨_, by decide, rfl⟩
  have hlist : m.toList = [(one,1),(two,2),(three,3),(four,4)] := by decide +kernel
  have hcuts : q.CutsEntries [] m.toList [] := by
    rw [hlist]
    exact ⟨by decide, by decide, by decide⟩
  have hroot : (m.removeAt q).2.root =
      .node .black (.node .red (.node .black .nil one 1 .nil) three 3 .nil) four 4 .nil := by
    decide +kernel
  have hheight : ¬ ∃ b, (m.removeAt q).2.root.BlackHeight b := by
    rw [hroot]
    rintro ⟨_, _ | _ | ⟨_, _, _ | ⟨_, _, hone, -⟩, ⟨⟩⟩⟩
    exact Tree.not_blackHeight_zero hone
  exact ⟨Comparator.totalPreorderOn_binary64, hm, hcuts, by decide +kernel, hheight, by decide +kernel,
    by decide +kernel, by decide +kernel⟩

end RedBlackMap.Map
