import RedBlackMap.Proofs.Entries.Shrink
import RedBlackMap.Proofs.Map.Accounting
import RedBlackMap.Proofs.Map.Union

/-!
# Smaller maps

A smaller map is made of a smaller list of entries. A list with a chunk left out comes out as it
is. Where a key has given way to a smaller one, the map has as many entries as before, or one
less if the smaller key is equal to another one. Either way the sum of the sizes of the keys
falls, so that no chain of smaller maps goes on forever; this needs no law of the comparator.
-/
namespace RedBlackMap.Map
universe u v
variable {κ : Type u} {ν : Type v} {cmp : Comparator κ} {S : κ → Prop} {keySize : κ → Nat}
  {candidates : List (κ × ν) → List (List (κ × ν))} {m m' : Map κ ν cmp} {key : κ} {e : κ × ν}
  {es l r : List (κ × ν)}

def weight (keySize : κ → Nat) (m : Map κ ν cmp) : Nat := Entries.weight keySize m.toList

theorem weight_insertMany_le (keySize : κ → Nat) (m : Map κ ν cmp) (es : List (κ × ν)) :
    (m.insertMany es).weight keySize ≤ m.weight keySize + Entries.weight keySize es := by
  induction es generalizing m with
  | nil => exact Nat.le_refl _
  | cons e es ih =>
    calc ((m.insert e.1 e.2).2.insertMany es).weight keySize
        ≤ (m.insert e.1 e.2).2.weight keySize + Entries.weight keySize es := ih _
      _ ≤ m.weight keySize + (1 + keySize e.1) + Entries.weight keySize es :=
        Nat.add_le_add_right (m.insert_inserts e.1 e.2).weight_le _
      _ = m.weight keySize + Entries.weight keySize (e :: es) := by
        rw [Entries.weight_cons, Nat.add_assoc]

theorem shrinkWith_eq (candidates : List (κ × ν) → List (List (κ × ν))) (m : Map κ ν cmp) :
    m.shrinkWith candidates = (candidates m.toList).map (ofList cmp) := by
  have hcursor : (m.cursor .owned).toList = m.toList := Cursor.toList_ofTree .owned m.root m.size
  rw [shrinkWith, hcursor]

section Candidates
variable (hcandidates : ∀ es, ∀ es' ∈ candidates es, Entries.Reduces keySize es es')
include hcandidates

theorem exists_of_mem_shrinkWith (h : m' ∈ m.shrinkWith candidates) :
    ∃ es ∈ candidates m.toList, Entries.Reduces keySize m.toList es ∧ m' = ofList cmp es := by
  rw [shrinkWith_eq] at h
  obtain ⟨es, hes, rfl⟩ := List.mem_map.mp h
  exact ⟨es, hes, hcandidates m.toList es hes, rfl⟩

theorem weight_lt_of_mem_shrinkWith (h : m' ∈ m.shrinkWith candidates) :
    m'.weight keySize < m.weight keySize := by
  obtain ⟨es, -, hreduces, rfl⟩ := exists_of_mem_shrinkWith hcandidates h
  calc (ofList cmp es).weight keySize
      ≤ (∅ : Map κ ν cmp).weight keySize + Entries.weight keySize es :=
        weight_insertMany_le keySize ∅ es
    _ = Entries.weight keySize es := Nat.zero_add _
    _ < m.weight keySize := hreduces.weight_lt

theorem not_mem_shrinkWith : m ∉ m.shrinkWith candidates := fun h =>
  Nat.lt_irrefl _ (weight_lt_of_mem_shrinkWith hcandidates h)

/-- There is no end to a chain of smaller maps only where there is none to falling numbers. -/
theorem wellFounded_shrinkWith :
    WellFounded fun m' m : Map κ ν cmp => m' ∈ m.shrinkWith candidates :=
  Subrelation.wf (weight_lt_of_mem_shrinkWith hcandidates) (measure (weight keySize)).wf

end Candidates

/-- The map `m'` holds `l` and `r` and between them an entry of `m` under a new key. It has lost
an entry if and only if the key is equal to another one. -/
structure Respells (m : Map κ ν cmp) (l : List (κ × ν)) (key : κ) (value : ν) (r : List (κ × ν))
    (m' : Map κ ν cmp) : Prop where
  entries : Entries.Respells cmp l key value r m'.toList
  size_eq_iff : m'.size = m.size ↔ ∀ x ∈ l ++ r, cmp key x.1 ≠ .eq
  size_succ_eq_iff : m'.size + 1 = m.size ↔ ∃ x ∈ l ++ r, cmp key x.1 = .eq

theorem wellFormedOn_ofList (hcmp : TotalPreorderOn cmp S) (hes : ∀ e ∈ es, S e.1) :
    (ofList cmp es).WellFormedOn S :=
  (insertMany_spec hcmp wellFormedOn_empty es hes).1

namespace WellFormedOn
variable (hcmp : TotalPreorderOn cmp S) (hm : m.WellFormedOn S)
include hcmp hm

theorem ofList_sublist (hes : es.Sublist m.toList) :
    (ofList cmp es).toList = es ∧ (ofList cmp es).size = es.length := by
  have hordered : Entries.Ordered cmp S es := hm.ordered.sublist hes
  have hlist : (ofList cmp es).toList = es := by
    rw [toList_ofList hcmp hordered.mem, hordered.insertMany_self hcmp]
  have hsize := (wellFormedOn_ofList hcmp hordered.mem).size_eq
  rw [hlist] at hsize
  exact ⟨hlist, hsize⟩

theorem ofList_respells (hlist : m.toList = l ++ e :: r) (hkey : S key) :
    m.Respells l key e.2 r (ofList cmp (l ++ (key,e.2) :: r)) := by
  have hlr : Entries.Ordered cmp S (l ++ r) := by
    apply hm.ordered.sublist
    rw [hlist]
    exact (List.sublist_cons_self e r).append_left l
  have hnew : ∀ x ∈ l ++ (key,e.2) :: r, S x.1 := Entries.forall_mem_middle hkey hlr.mem
  have hentries : Entries.Respells cmp l key e.2 r (ofList cmp (l ++ (key,e.2) :: r)).toList := by
    rw [toList_ofList hcmp hnew]
    exact Entries.insertMany_respells hcmp hkey hlr e.2
  have hsize : m.size = (l ++ r).length + 1 := by
    rw [hm.size_eq, hlist]
    simp [Nat.add_assoc]
  have hsize' := (wellFormedOn_ofList hcmp hnew).size_eq
  have hkept (hfresh : ∀ x ∈ l ++ r, cmp key x.1 ≠ .eq) :
      (ofList cmp (l ++ (key,e.2) :: r)).size = m.size := by
    rw [hsize', hentries.length_of_fresh hcmp hkey hlr hfresh, hsize]
  have hlost (hequal : ∃ x ∈ l ++ r, cmp key x.1 = .eq) :
      (ofList cmp (l ++ (key,e.2) :: r)).size + 1 = m.size := by
    rw [hsize', hentries.length_of_equal hequal, hsize]
  refine ⟨hentries, ⟨fun hcount x hx heq => ?_, hkept⟩, ⟨fun hcount => ?_, hlost⟩⟩
  · have hlost := hlost ⟨x, hx, heq⟩
    omega
  · by_contra hnone
    have hkept := hkept fun x hx heq => hnone ⟨x, hx, heq⟩
    omega

end WellFormedOn

/-- The smaller maps are those of the candidates, one for each and in their order. A list with a
chunk left out is the entries of its map; a list with a smaller key in it makes a map with one
entry less just where that key is equal to another one, and the first key and the second value
stay. The weight falls, so that no map is one of its own smaller maps and every chain of them
ends. -/
theorem shrink_faithful (hcmp : TotalPreorderOn cmp S) (hm : m.Reachable S)
    (hcandidates : ∀ es, ∀ es' ∈ candidates es, Entries.Reduces keySize es es') :
    m.shrinkWith candidates = (candidates m.toList).map (ofList cmp) ∧
    (∀ m' ∈ m.shrinkWith candidates,
      ∃ es ∈ candidates m.toList, Entries.Reduces keySize m.toList es ∧ m' = ofList cmp es) ∧
    (∀ l chunk r, m.toList = l ++ chunk ++ r →
      (ofList cmp (l ++ r)).toList = l ++ r ∧ (ofList cmp (l ++ r)).size = (l ++ r).length) ∧
    (∀ l e r key, m.toList = l ++ e :: r → S key →
      m.Respells l key e.2 r (ofList cmp (l ++ (key,e.2) :: r))) ∧
    (∀ m' ∈ m.shrinkWith candidates, m'.weight keySize < m.weight keySize) ∧
    m ∉ m.shrinkWith candidates ∧
    WellFounded fun m₁ m₂ : Map κ ν cmp => m₁ ∈ m₂.shrinkWith candidates := by
  have hm' : m.WellFormedOn S := hm.wellFormedOn hcmp
  refine ⟨m.shrinkWith_eq candidates, fun _ => exists_of_mem_shrinkWith hcandidates, ?_, ?_,
    fun _ => weight_lt_of_mem_shrinkWith hcandidates, not_mem_shrinkWith hcandidates,
    wellFounded_shrinkWith hcandidates⟩
  · intro l chunk r hlist
    apply hm'.ofList_sublist hcmp
    rw [hlist]
    exact (List.sublist_append_left l chunk).append_right r
  · intro l e r key hlist hkey
    exact hm'.ofList_respells hcmp hlist hkey

theorem natAbs_lt_of_mem_halfOf {n k : Int} (h : k ∈ halfOf n) : k.natAbs < n.natAbs := by
  unfold halfOf at h
  split at h
  case isTrue => cases h
  case isFalse hn =>
    obtain rfl := List.mem_singleton.mp h
    rw [Int.natAbs_tdiv]
    exact Nat.div_lt_self (Int.natAbs_pos.mpr hn) (by decide)

/-- Eleven smaller maps. The keys `36` and `3` give way to `18` and `1`, which are spellings of `8`
and `1`. -/
theorem shrink_faithful_byRemainder :
    let cmp := Comparator.byRemainder 10
    let m : Map Int String cmp := (Operation.run ∅
      [.insertMany [(36,"c"),(8,"d"),(3,"b"),(5,"e"),(1,"a")],.remove 25]).2
    TotalPreorderOn cmp (fun _ => True) ∧ m.Reachable (fun _ => True) ∧
      m.toList = [(1,"a"),(3,"b"),(36,"c"),(8,"d")] ∧
      (m.shrink halfOf).map toList =
        [[],[(36,"c"),(8,"d")],[(1,"a"),(3,"b")],
          [(3,"b"),(36,"c"),(8,"d")],[(1,"a"),(36,"c"),(8,"d")],
          [(1,"a"),(3,"b"),(8,"d")],[(1,"a"),(3,"b"),(36,"c")],
          [(0,"a"),(3,"b"),(36,"c"),(8,"d")],[(1,"b"),(36,"c"),(8,"d")],
          [(1,"a"),(3,"b"),(18,"d")],[(1,"a"),(3,"b"),(4,"d"),(36,"c")]] ∧
      ofList cmp [(1,"a"),(3,"b"),(18,"c"),(8,"d")] ∈ m.shrink halfOf ∧
      (ofList cmp [(1,"a"),(8,"d")]).toList = [(1,"a"),(8,"d")] ∧
      (ofList cmp [(1,"a"),(1,"b"),(36,"c"),(8,"d")]).toList = [(1,"b"),(36,"c"),(8,"d")] ∧
      (ofList cmp [(1,"a"),(3,"b"),(18,"c"),(8,"d")]).toList = [(1,"a"),(3,"b"),(18,"d")] ∧
      (ofList cmp [(1,"a"),(3,"b"),(18,"c"),(8,"d")]).size + 1 = m.size ∧
      (∀ m' ∈ m.shrink halfOf, m'.weight Int.natAbs < m.weight Int.natAbs) ∧
      m ∉ m.shrink halfOf ∧
      WellFounded fun m₁ m₂ : Map Int String cmp => m₁ ∈ m₂.shrink halfOf := by
  intro cmp m
  have hcmp : TotalPreorderOn cmp fun _ => True := Comparator.totalPreorderOn_byRemainder 10 _
  have hm : m.Reachable fun _ => True := ⟨_, by simp, rfl⟩
  have hlist : m.toList = [(1,"a"),(3,"b"),(36,"c"),(8,"d")] := by decide +kernel
  have hcandidates (es : List (Int × String)) : ∀ es' ∈ shrinkList
      (fun e : Int × String => (halfOf e.1).map fun k => (k,e.2)) es,
      Entries.Reduces Int.natAbs es es' :=
    fun _ => Entries.reduces_of_mem_shrinkList fun _ _ => natAbs_lt_of_mem_halfOf
  obtain ⟨hyield, -, hdropped, hrespells, hweight, hself, hchains⟩ :=
    shrink_faithful hcmp hm hcandidates
  have hbefore := hrespells [(1,"a")] (3,"b") [(36,"c"),(8,"d")] 1 hlist trivial
  have hbehind := hrespells [(1,"a"),(3,"b")] (36,"c") [(8,"d")] 18 hlist trivial
  rw [hlist] at hyield
  refine ⟨hcmp, hm, hlist, ?_, ?_, ?_, ?_, ?_, ?_, hweight, hself, hchains⟩
  · rw [shrink, hyield]
    decide +kernel
  · rw [shrink, hyield]
    exact List.mem_map.mpr ⟨[(1,"a"),(3,"b"),(18,"c"),(8,"d")], by decide +kernel, rfl⟩
  · exact (hdropped [(1,"a")] [(3,"b"),(36,"c")] [(8,"d")] hlist).1
  · exact hbefore.entries.equal_before [] (1,"a") [] rfl rfl
  · exact hbehind.entries.equal_behind [] (8,"d") [] rfl rfl
  · exact hbehind.size_succ_eq_iff.mpr ⟨(8,"d"), by simp, rfl⟩

end RedBlackMap.Map
