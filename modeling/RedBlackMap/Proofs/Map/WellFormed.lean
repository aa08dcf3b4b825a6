import RedBlackMap.Proofs.Entries.Lookup
import RedBlackMap.Proofs.Entries.Operation
import RedBlackMap.Proofs.Tree.Insertion
import RedBlackMap.Proofs.Tree.Removal
import RedBlackMap.Proofs.Tree.Search

/-!
# Well-formed maps

A map is well formed if its tree is balanced, its keys ascend strictly and its count is
the number of nodes. Every operation keeps this where the comparator is a total preorder
on the keys in use, and acts on the entries as it would on their list.
-/
namespace RedBlackMap
universe u v
variable {κ : Type u} {ν : Type v} {cmp : Comparator κ} {S : κ → Prop}

namespace Map

/-- A balanced tree with strictly ascending keys, and its number of nodes as the count. -/
structure WellFormed (m : Map κ ν cmp) : Prop where
  balanced : ∃ b, m.root.Balanced b
  ascending : m.root.Ascending cmp
  size_eq : m.size = m.root.size

/-- A well-formed map with keys in `S`, in terms of its entries. -/
structure WellFormedOn (S : κ → Prop) (m : Map κ ν cmp) : Prop where
  balanced : ∃ b, m.root.Balanced b
  ordered : Entries.Ordered cmp S m.toList
  size_eq : m.size = m.toList.length

variable {m : Map κ ν cmp} {key : κ} {q : Query κ}

theorem WellFormedOn.wellFormed (hm : m.WellFormedOn S) : m.WellFormed :=
  ⟨hm.balanced, hm.ordered.ascending, hm.size_eq.trans m.root.length_toList⟩

theorem wellFormedOn_empty : (∅ : Map κ ν cmp).WellFormedOn S :=
  ⟨⟨0, Tree.balanced_nil⟩, Entries.ordered_nil, rfl⟩

theorem toList_empty : (∅ : Map κ ν cmp).toList = [] := rfl

/-- One entry that the query hits leaves the map. The map stays well formed if nothing else
that the query hits stands behind it. -/
theorem WellFormedOn.removeAt_erases (hm : m.WellFormedOn S) (hq : q.Descends m.toList) :
    q.Erases ((m.removeAt q).2.WellFormedOn S) m.toList (m.removeAt q).1
      (m.removeAt q).2.toList := by
  obtain ⟨b, hb⟩ := hm.balanced
  have herases := hb.remove_erases hq
  refine herases.imp fun ⟨b', hb', _⟩ => ⟨⟨b', hb'⟩, ?_, ?_⟩
  · exact hm.ordered.sublist herases.sublist
  · have hlength : (m.removeAt q).2.toList.length + (m.removeAt q).1.isSome.toNat =
        m.toList.length := herases.length_eq
    rw [size_removeAt, hm.size_eq]
    omega

namespace WellFormedOn
variable (hcmp : TotalPreorderOn cmp S) (hm : m.WellFormedOn S) (hkey : S key)
include hcmp hm hkey

theorem separates : Query.Separates (cmp key) m.root.toList :=
  hcmp.separates hkey hm.ordered.ascending hm.ordered.mem

theorem entryAt?_eq : m.entryAt? (cmp key) = Entries.find? cmp key m.toList :=
  Tree.find?_entries (hm.separates hcmp hkey)

theorem find?_eq : m.find? key = (Entries.find? cmp key m.toList).map (·.2) := by
  rw [Map.find?, valueAt?, hm.entryAt?_eq hcmp hkey]

theorem insert_spec (value : ν) : (m.insert key value).2.WellFormedOn S ∧
    (m.insert key value).1 = (Entries.find? cmp key m.toList).isNone ∧
      (m.insert key value).2.toList = Entries.insert cmp key value m.toList := by
  obtain ⟨b, hb⟩ := hm.balanced
  obtain ⟨b', hb', -⟩ := hb.insert cmp key value
  obtain ⟨hadded, hlist⟩ := Tree.insert_entries value (hm.separates hcmp hkey)
  refine ⟨⟨⟨b', hb'⟩, ?_, ?_⟩, hadded, hlist⟩
  · change Entries.Ordered cmp S (m.root.insert cmp key value).2.toList
    rw [hlist]
    exact hm.ordered.insert hcmp hkey
  · change (if (m.root.insert cmp key value).1 then m.size + 1 else m.size) =
      (m.root.insert cmp key value).2.toList.length
    rw [hadded, hlist, hm.size_eq]
    exact (Entries.length_insert hcmp hm.ordered hkey).symm

theorem remove_spec : (m.remove key).2.WellFormedOn S ∧
    (m.remove key).1 = Entries.find? cmp key m.toList ∧
      (m.remove key).2.toList = Entries.erase cmp key m.toList := by
  have hsep := hm.separates hcmp hkey
  obtain ⟨hm', htakes⟩ := (hm.removeAt_erases hsep.descends).takes hsep
  exact ⟨hm', htakes.answer_eq, htakes.rest_eq⟩

theorem replace_spec (value : ν) : (m.replace key value).2.WellFormedOn S ∧
    (m.replace key value).1 = (Entries.find? cmp key m.toList).map (·.2) ∧
      (m.replace key value).2.toList = Entries.replace cmp key value m.toList := by
  obtain ⟨b, hb⟩ := hm.balanced
  have hlist : (m.replace key value).2.toList = Entries.replace cmp key value m.toList :=
    Tree.modify_entries (hm.separates hcmp hkey)
  refine ⟨⟨⟨b, hb.modify⟩, ?_, ?_⟩, hm.find?_eq hcmp hkey, hlist⟩
  · rw [hlist]
    exact hm.ordered.replace
  · rw [hlist, Entries.replace, List.length_map]
    exact hm.size_eq

end WellFormedOn

theorem insertMany_spec (hcmp : TotalPreorderOn cmp S) (hm : m.WellFormedOn S)
    (new : List (κ × ν)) (hnew : ∀ e ∈ new, S e.1) : (m.insertMany new).WellFormedOn S ∧
      (m.insertMany new).toList = Entries.insertMany cmp m.toList new := by
  induction new generalizing m with
  | nil => exact ⟨hm, rfl⟩
  | cons e new ih =>
    obtain ⟨hm', -, hlist⟩ := hm.insert_spec hcmp (hnew e (by simp)) e.2
    obtain ⟨hm'', hlist'⟩ := ih hm' (fun x hx => hnew x (by simp [hx]))
    rw [hlist] at hlist'
    exact ⟨hm'', hlist'⟩

end Map

namespace Operation
variable {m : Map κ ν cmp} {op : Operation κ ν} {ops : List (Operation κ ν)}

/-- One step: the map stays well formed, and the answer and the entries are those of the list. -/
theorem apply_spec (hcmp : TotalPreorderOn cmp S) (hm : m.WellFormedOn S)
    (hop : ∀ k ∈ op.keys, S k) : (op.apply m).2.WellFormedOn S ∧
      (op.apply m).1 = (Entries.apply cmp m.toList op).1 ∧
        (op.apply m).2.toList = (Entries.apply cmp m.toList op).2 := by
  cases op with
  | insert key value =>
    obtain ⟨hm', hanswer, hlist⟩ := hm.insert_spec hcmp (hop key (by simp [keys])) value
    exact ⟨hm', congrArg Answer.flag hanswer, hlist⟩
  | replace key value =>
    obtain ⟨hm', hanswer, hlist⟩ := hm.replace_spec hcmp (hop key (by simp [keys])) value
    exact ⟨hm', congrArg Answer.value hanswer, hlist⟩
  | remove key =>
    obtain ⟨hm', hanswer, hlist⟩ := hm.remove_spec hcmp (hop key (by simp [keys]))
    exact ⟨hm', congrArg Answer.entry hanswer, hlist⟩
  | delete key =>
    obtain ⟨hm', hanswer, hlist⟩ := hm.remove_spec hcmp (hop key (by simp [keys]))
    exact ⟨hm', congrArg (Answer.flag ∘ Option.isSome) hanswer, hlist⟩
  | find key => exact ⟨hm, congrArg Answer.value (hm.find?_eq hcmp (hop key (by simp [keys]))), rfl⟩
  | get key =>
    have hfind := hm.find?_eq hcmp (hop key (by simp [keys]))
    cases h : Entries.find? cmp key m.toList <;>
      simp [apply, Entries.apply, Map.get, hfind, h, hm]
  | contains key =>
    have hfind := hm.find?_eq hcmp (hop key (by simp [keys]))
    refine ⟨hm, ?_, rfl⟩
    simp [apply, Entries.apply, Map.contains, hfind]
  | min => exact ⟨hm, congrArg Answer.entry m.root.min?_eq_head?, rfl⟩
  | max => exact ⟨hm, congrArg Answer.entry m.root.max?_eq_getLast?, rfl⟩
  | isEmpty =>
    refine ⟨hm, congrArg Answer.flag ?_, rfl⟩
    change m.root.isEmpty = m.root.toList.isEmpty
    cases m.root with
    | nil => rfl
    | node => simp [Tree.isEmpty, Tree.toList]
  | size => exact ⟨hm, congrArg Answer.count hm.size_eq, rfl⟩
  | clear => exact ⟨Map.wellFormedOn_empty, rfl, rfl⟩
  | insertMany new =>
    have hnew : ∀ e ∈ new, S e.1 := fun e he => hop e.1 (List.mem_map_of_mem he)
    obtain ⟨hm', hlist⟩ := Map.insertMany_spec hcmp hm new hnew
    exact ⟨hm', rfl, hlist⟩
  | ofList new =>
    have hnew : ∀ e ∈ new, S e.1 := fun e he => hop e.1 (List.mem_map_of_mem he)
    obtain ⟨hm', hlist⟩ := Map.insertMany_spec hcmp Map.wellFormedOn_empty new hnew
    exact ⟨hm', rfl, hlist⟩

/-- A whole run: what each step keeps, all of them keep. -/
theorem run_spec (hcmp : TotalPreorderOn cmp S) (hm : m.WellFormedOn S)
    (hops : ∀ op ∈ ops, ∀ k ∈ op.keys, S k) : (run m ops).2.WellFormedOn S ∧
      (run m ops).1 = (Entries.run cmp m.toList ops).1 ∧
        (run m ops).2.toList = (Entries.run cmp m.toList ops).2 := by
  induction ops generalizing m with
  | nil => exact ⟨hm, rfl, rfl⟩
  | cons op ops ih =>
    obtain ⟨hm', hanswer, hlist⟩ := apply_spec hcmp hm (hops op (by simp))
    obtain ⟨hm'', hanswers, hlist'⟩ := ih hm' fun o ho => hops o (by simp [ho])
    rw [hlist] at hanswers hlist'
    refine ⟨hm'', ?_, hlist'⟩
    simp only [run, Entries.run, hanswer, hanswers]

/-- Every state that a history reaches from the empty map is well formed. -/
theorem run_wellFormed (hcmp : TotalPreorderOn cmp S) (hops : ∀ op ∈ ops, ∀ k ∈ op.keys, S k) :
    (run (∅ : Map κ ν cmp) ops).2.WellFormed :=
  (run_spec hcmp Map.wellFormedOn_empty hops).1.wellFormed

/-- A fresh start, equal keys in other spellings and an absent key within one history. Three of
the links that are left are red. -/
theorem run_wellFormed_byRemainder :
    let ops : List (Operation Int String) :=
      [insert 7 "h",clear,ofList [(3,"c"),(8,"d"),(1,"a")],insert 6 "b",
        insertMany [(4,"e"),(0,"f"),(9,"i"),(5,"j")],remove 13,delete 2,replace 19 "g",
        insert 16 "k"]
    let last := (run (∅ : Map Int String (Comparator.byRemainder 10)) ops).2
    let one : Tree Int String := .node .black (.node .red .nil 0 "f" .nil) 1 "a" .nil
    let four : Tree Int String := .node .red one 4 "e" (.node .black .nil 5 "j" .nil)
    let nine : Tree Int String := .node .black (.node .red .nil 8 "d" .nil) 9 "g" .nil
    TotalPreorderOn (Comparator.byRemainder 10) (0 ≤ ·) ∧
      (∀ op ∈ ops, ∀ k ∈ op.keys, 0 ≤ k) ∧
        last.root = .node .black four 6 "k" nine ∧ last.size = 7 ∧ last.WellFormed := by
  intro ops last one four nine
  have hcmp : TotalPreorderOn (Comparator.byRemainder 10) (0 ≤ ·) :=
    Comparator.totalPreorderOn_byRemainder 10 (0 ≤ ·)
  have hops : ∀ op ∈ ops, ∀ k ∈ op.keys, 0 ≤ k := by simp [ops, keys]
  exact ⟨hcmp, hops, by decide +kernel, by decide +kernel, run_wellFormed hcmp hops⟩

end Operation

/-- A state of a map that some history on keys in `S` leaves behind. -/
def Map.Reachable (S : κ → Prop) (m : Map κ ν cmp) : Prop :=
  ∃ ops : List (Operation κ ν), (∀ op ∈ ops, ∀ k ∈ op.keys, S k) ∧ (Operation.run ∅ ops).2 = m

theorem Map.Reachable.wellFormedOn (hcmp : TotalPreorderOn cmp S) {m : Map κ ν cmp}
    (hm : m.Reachable S) : m.WellFormedOn S := by
  obtain ⟨ops, hops, rfl⟩ := hm
  exact (Operation.run_spec hcmp Map.wellFormedOn_empty hops).1

end RedBlackMap
