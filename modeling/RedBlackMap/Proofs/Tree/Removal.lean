import RedBlackMap.Proofs.Entries.Blocks
import RedBlackMap.Proofs.Tree.Descent
import RedBlackMap.Tree.Removal

/-!
# What a removal does

From a balanced tree a removal takes one entry of the block that its query is equal to, and
keeps the others in their order. It leaves a balanced tree if that entry is the last of the
block, and so always where the query separates the entries.
-/
namespace RedBlackMap
universe u v
variable {κ : Type u} {ν : Type v}

namespace Node
variable {n : Node κ ν}

theorem entry_lendLeft (n : Node κ ν) :
    n.lendLeft.entry = n.entry ∨ n.lendLeft.entry ∈ n.right.toList := by
  rcases n with ⟨c, l, k, v, _ | ⟨c', rl, k', v', r'⟩⟩
  · exact .inl rfl
  · cases hred : rl.isRed with
    | false => simp [lendLeft, flip, Tree.flipTop, Tree.left, hred, entry]
    | true =>
      obtain ⟨a, x, y, d, rfl⟩ := Tree.exists_red hred
      simp [lendLeft, flip, rotateRightChild, rotateRight, rotateLeft, toTree, Tree.flipTop,
        Tree.left, entry, Tree.toList]

theorem entry_readyLeft (n : Node κ ν) :
    n.readyLeft.entry = n.entry ∨ n.readyLeft.entry ∈ n.right.toList := by
  unfold readyLeft
  split
  · exact n.entry_lendLeft
  · exact .inl rfl

theorem entry_rotateRight (n : Node κ ν) :
    n.rotateRight.entry = n.entry ∨ n.rotateRight.entry ∈ n.left.toList := by
  rcases n with ⟨c, _ | _, k, v, r⟩ <;> simp [rotateRight, entry, Tree.toList]

theorem entry_leanRight (n : Node κ ν) :
    n.leanRight.entry = n.entry ∨ n.leanRight.entry ∈ n.left.toList := by
  unfold leanRight
  split
  · exact n.entry_rotateRight
  · exact .inl rfl

theorem entry_lendRight (n : Node κ ν) :
    n.lendRight.entry = n.entry ∨ n.lendRight.entry ∈ n.left.toList := by
  unfold lendRight
  dsimp only
  split
  · simpa [flip, entry] using n.flip.entry_rotateRight
  · exact .inl rfl

theorem entry_readyRight (n : Node κ ν) :
    n.readyRight.entry = n.entry ∨ n.readyRight.entry ∈ n.left.toList := by
  unfold readyRight
  split
  · exact n.entry_lendRight
  · exact .inl rfl

variable {m : Node κ ν} {q : Query κ}

theorem lt_of_entry (h : q.Descends n.toList) (hlt : q n.key = .lt)
    (hm : m.entry = n.entry ∨ m.entry ∈ n.right.toList) : q m.key = .lt := by
  rcases hm with hm | hm
  · rwa [show m.key = n.key from congrArg Prod.fst hm]
  · exact h.lt_right (e := n.entry) hlt hm

theorem ne_lt_of_entry (h : q.Descends n.toList) (hlt : q n.key ≠ .lt)
    (hm : m.entry = n.entry ∨ m.entry ∈ n.left.toList) : q m.key ≠ .lt := by
  rcases hm with hm | hm
  · rwa [show m.key = n.key from congrArg Prod.fst hm]
  · exact h.ne_lt_left (e := n.entry) hlt hm

end Node

/-- An answer and a rest as a scan of the entries gives them. -/
structure Query.Takes (q : Query κ) (es : List (κ × ν)) (answer : Option (κ × ν))
    (rest : List (κ × ν)) : Prop where
  answer_eq : answer = es.find? q.hits
  rest_eq : rest = es.eraseP q.hits

/-- In a block of one entry at most, the entry that is taken is the last one. -/
theorem Query.Erases.takes {q : Query κ} {kept : Prop} {es rest : List (κ × ν)}
    {answer : Option (κ × ν)} (h : q.Erases kept es answer rest) (hsep : q.Separates es) :
    kept ∧ q.Takes es answer rest := by
  cases h with
  | missed _ h hkept =>
    have hmiss : ∀ x ∈ es, ¬ q.hits x = true := fun x hx => by simp [Query.hits, h x hx]
    exact ⟨hkept, (List.find?_eq_none.mpr hmiss).symm, (List.eraseP_of_forall_not hmiss).symm⟩
  | taken l r e he hkept =>
    refine ⟨hkept fun x hx => ?_, (hsep.find?_eq he).symm, (hsep.eraseP_eq he).symm⟩
    simp [hsep.lt_right (by simp [he]) hx]

namespace Tree
variable {q : Query κ} {c : Color} {l r t : Tree κ ν} {k : κ} {v : ν} {b : Nat}

/-- The descent to the leftmost entry, by what is done at the node in hand. -/
@[elab_as_elim]
theorem popMin?_induction {motive : Tree κ ν → Prop} (nil : motive .nil)
    (splice : ∀ n : Node κ ν, n.left.isEmpty = true → motive n.toTree)
    (leftmost : ∀ n : Node κ ν, ¬ n.left.isEmpty = true → motive n.readyLeft.left →
      motive n.toTree)
    (t : Tree κ ν) : motive t := by
  fun_induction Tree.popMin? t with
  | case1 => exact nil
  | case2 c l k v r hl => exact splice ⟨c, l, k, v, r⟩ hl
  | case3 c l k v r hl n ih => exact leftmost ⟨c, l, k, v, r⟩ hl ih

/-- The descent of a removal, by what is done at the node in hand. -/
@[elab_as_elim]
theorem removeBelow_induction (q : Query κ) {motive : Tree κ ν → Prop} (nil : motive .nil)
    (missed : ∀ n : Node κ ν, q n.key = .lt → n.left.isEmpty = true → motive n.toTree)
    (left : ∀ n : Node κ ν, q n.key = .lt → ¬ n.left.isEmpty = true → motive n.readyLeft.left →
      motive n.toTree)
    (takeOut : ∀ n : Node κ ν, ¬ q n.key = .lt → n.leanRight.right.isEmpty = true →
      q n.leanRight.key = .eq → motive n.toTree)
    (stop : ∀ n : Node κ ν, ¬ q n.key = .lt → n.leanRight.right.isEmpty = true →
      ¬ q n.leanRight.key = .eq → motive n.toTree)
    (top : ∀ n : Node κ ν, ¬ q n.key = .lt → ¬ n.leanRight.right.isEmpty = true →
      q n.leanRight.readyRight.key = .eq → motive n.toTree)
    (right : ∀ n : Node κ ν, ¬ q n.key = .lt → ¬ n.leanRight.right.isEmpty = true →
      ¬ q n.leanRight.readyRight.key = .eq → motive n.leanRight.readyRight.right →
      motive n.toTree)
    (t : Tree κ ν) : motive t := by
  fun_induction Tree.removeBelow q t with
  | case1 => exact nil
  | case2 c l k v r hlt hl => exact missed ⟨c, l, k, v, r⟩ hlt hl
  | case3 c l k v r hlt hl n removed rest hrest ih => exact left ⟨c, l, k, v, r⟩ hlt hl ih
  | case4 c l k v r hnlt n hr heq => exact takeOut ⟨c, l, k, v, r⟩ hnlt hr heq
  | case5 c l k v r hnlt n hr hne => exact stop ⟨c, l, k, v, r⟩ hnlt hr hne
  | case6 c l k v r hnlt n₀ hr n heq => exact top ⟨c, l, k, v, r⟩ hnlt hr heq
  | case7 c l k v r hnlt n₀ hr n hne removed rest hrest ih =>
    exact right ⟨c, l, k, v, r⟩ hnlt hr hne ih

theorem isEmpty_left_readyLeft {n : Node κ ν} (h : n.left.isEmpty = false) :
    n.readyLeft.left.isEmpty = false := by
  rcases n with ⟨c, _ | ⟨cl, ll, lk, lv, lr⟩, k, v, r⟩
  · cases h
  · unfold Node.readyLeft
    split
    · unfold Node.lendLeft
      dsimp only
      split
      · rcases r with _ | ⟨cr, _ | _, rk, rv, rr⟩ <;> rfl
      · rfl
    · rfl

/-- The first entry is taken off whatever the shape and the colours. -/
theorem popMin?_entries (h : t.isEmpty = false) :
    ∃ e rest, t.popMin? = some (e,rest) ∧ t.toList = e :: rest.toList := by
  fun_induction popMin? t with
  | case1 => cases h
  | case2 c l k v r hl =>
    cases l with
    | nil => exact ⟨(k,v), r, rfl, rfl⟩
    | node => cases hl
  | case3 c l k v r hl n ih =>
    obtain ⟨e, rest, hpop, hlist⟩ := ih (isEmpty_left_readyLeft (by simpa using hl))
    have hn : (node c l k v r).toList = n.left.toList ++ n.entry :: n.right.toList :=
      (Node.toList_readyLeft ⟨c,l,k,v,r⟩).symm
    refine ⟨e, _, by rw [hpop]; rfl, ?_⟩
    rw [hn, hlist, Node.toList_toTree, Node.toList_repair]
    rfl

/-- A search that only goes left finds no link that leans right. -/
theorem Enterable.sound_of_lt (h : (node c l k v r).Enterable q b) (hlt : q k = .lt) :
    (node c l k v r).Sound b := by
  cases h with
  | sound h => exact h
  | swung hk => exact absurd hlt hk

theorem Admits.sound_of_lt (h : (node c l k v r).Admits q b) (hlt : q k = .lt) :
    (node c l k v r).Sound b :=
  h.elim id fun h => h.sound_of_lt hlt

/-- Below a missing left subtree there is nothing on the right. -/
theorem Sound.right_eq_nil (h : (node c nil k v r).Sound b) : r = nil ∧ b = c.weight := by
  obtain ⟨b₀, rfl, hl, hr, hrb, -⟩ := h.children
  obtain rfl := sound_nil.mp hl
  exact ⟨hr.eq_nil hrb, by simp⟩

theorem popMin?_restored (t : Tree κ ν) : ∀ b e rest, t.Enterable (fun _ => .lt) b →
    t.popMin? = some (e,rest) → Restored (fun _ => .lt) t b rest := by
  fun_induction popMin? t with
  | case1 =>
    intro b e rest h
    cases h.isEmpty_eq_false
  | case2 c l k v r hl =>
    intro b e rest h hpop
    obtain ⟨-, rfl⟩ : (k,v) = e ∧ r = rest := by simpa using hpop
    cases l with
    | node => cases hl
    | nil =>
      have hs := h.sound_of_lt rfl
      obtain ⟨rfl, rfl⟩ := hs.right_eq_nil
      cases c with
      | red => exact .of_sound (sound_nil.mpr rfl) fun _ => rfl
      | black => exact absurd h (not_enterable rfl rfl)
  | case3 c l k v r hl n ih =>
    intro b e rest h hpop
    obtain ⟨⟨e', rest'⟩, hpop', heq⟩ := Option.map_eq_some_iff.mp hpop
    obtain ⟨-, rfl⟩ := Prod.mk.inj heq
    obtain ⟨b', henter, hclose⟩ := Node.readyLeft_opens (n := ⟨c,l,k,v,r⟩)
      (h.sound_of_lt rfl) (by simpa using hl) (fun _ => .lt) (fun _ => .lt)
    have hrest := ih b' e' rest' henter hpop'
    exact hclose rest' n.key n.value (hrest.sound henter) (hrest.black henter)

/-- The successor takes the place of the entry at the top. A link that leans right is in its
way only if the query hits what is behind the top as well. -/
theorem takeTop_spec {m : Node κ ν} {b' : Nat} (hq : q.Descends m.toList)
    (heq : q m.key = .eq) (hopen : m.OpensRight q t b b') :
    q.Erases (Restored q t b (takeTop m).2) m.toList (takeTop m).1 (takeTop m).2.toList := by
  obtain ⟨⟨x, y⟩, rest, hpop, hlist⟩ := popMin?_entries hopen.enter.isEmpty_eq_false
  have htop : takeTop m =
      (some m.entry,(⟨m.color,m.left,x,y,rest⟩ : Node κ ν).repair.toTree) := by
    simp only [takeTop, hpop]
  have hrest : (⟨m.color,m.left,x,y,rest⟩ : Node κ ν).toList =
      m.left.toList ++ m.right.toList := by
    rw [hlist]
    rfl
  rw [htop, Node.toList_toTree, Node.toList_repair, hrest]
  refine .taken m.left.toList m.right.toList m.entry heq fun hbehind => ?_
  have hlt : ∀ e ∈ m.right.toList, q e.1 = .lt := by
    intro e he
    have hne : q e.1 ≠ .gt := hq.ne_gt_right (e := m.entry) (by simp [Node.entry, heq]) he
    cases hc : q e.1 with
    | lt => rfl
    | eq => exact absurd hc (hbehind e he)
    | gt => exact absurd hc hne
  have henter : m.right.Enterable (fun _ => .lt) b' := hopen.enter.of_lt hlt
  have hrestored := popMin?_restored m.right b' (x,y) rest henter hpop
  exact hopen.close rest x y (hrestored.sound henter) (hrestored.black henter)

/-- A node without a right subtree has no left one either, so that nothing is lost with it. -/
theorem leaf_of_leanRight (h : (node c l k v r).Admits q b) (hq : q k ≠ .lt)
    (hr : (⟨c,l,k,v,r⟩ : Node κ ν).leanRight.right.isEmpty = true) :
    l = nil ∧ r = nil ∧ b = c.weight := by
  obtain ⟨b₀, rfl, hn, -⟩ := Node.cases_of_admits (n := ⟨c,l,k,v,r⟩) h hq
  cases hl : l.isRed with
  | true =>
    obtain ⟨a, x, y, d, rfl⟩ := exists_red hl
    cases hr
  | false =>
    simp only [Node.leanRight, hl, Bool.false_eq_true, if_false] at hr
    cases r with
    | node => cases hr
    | nil =>
      obtain rfl : b₀ = 0 := sound_nil.mp hn.right
      exact ⟨hn.left.eq_nil hl, rfl, by simp⟩

theorem leaf_spec (h : (node c nil k v nil).Sound b) (hk : q k ≠ .eq) :
    q.Erases (Restored q (node c nil k v nil) b (⟨c,nil,k,v,nil⟩ : Node κ ν).repair.toTree)
      [(k,v)] none (⟨c,nil,k,v,nil⟩ : Node κ ν).repair.toTree.toList := by
  have hself : (⟨c,nil,k,v,nil⟩ : Node κ ν).repair = ⟨c,nil,k,v,nil⟩ :=
    Node.repair_eq_self rfl fun _ => rfl
  rw [hself]
  exact .missed _ (by simpa using hk) (.of_sound h id)

/-- The descent carries a red link along, and passes no entry that the query hits. -/
theorem removeBelow_erases (q : Query κ) (t : Tree κ ν) : ∀ b, t.Admits q b → q.Descends t.toList →
    q.Erases (Restored q t b (t.removeBelow q).2) t.toList (t.removeBelow q).1
      (t.removeBelow q).2.toList := by
  fun_induction removeBelow q t with
  | case1 =>
    intro b h _
    rcases h with h | h
    · exact .missed _ (by simp [toList]) (.of_sound h id)
    · cases h.isEmpty_eq_false
  | case2 c l k v r hlt hl =>
    intro b h _
    cases l with
    | node => cases hl
    | nil =>
      have hs : (node c nil k v r).Sound b := h.sound_of_lt hlt
      obtain ⟨rfl, rfl⟩ := hs.right_eq_nil
      exact leaf_spec hs (by simp [hlt])
  | case3 c l k v r hlt hl n removed rest hrest ih =>
    intro b h hq
    have hs : (node c l k v r).Sound b := h.sound_of_lt hlt
    obtain ⟨b', henter, hclose⟩ := Node.readyLeft_opens (n := ⟨c,l,k,v,r⟩) hs
      (by simpa using hl) q q
    have hn : (node c l k v r).toList = n.left.toList ++ n.entry :: n.right.toList :=
      (Node.toList_readyLeft ⟨c,l,k,v,r⟩).symm
    -- the top may be another one by now, but one from behind, so that the block is still below
    have hk : q n.key = .lt :=
      Node.lt_of_entry (n := ⟨c,l,k,v,r⟩) hq hlt (Node.entry_readyLeft _)
    rw [hn] at hq ⊢
    have herases := ih b' (.inr henter) hq.left
    rw [hrest] at herases
    rw [Node.toList_toTree, Node.toList_repair]
    refine herases.append_right ?_ fun hrestored =>
      hclose rest n.key n.value (hrestored.sound henter) (hrestored.black henter)
    intro x hx
    rcases List.mem_cons.mp hx with rfl | hx
    · simp [Node.entry, hk]
    · simp [hq.lt_right hk hx]
  | case4 c l k v r hnlt n hr heq =>
    -- a leaf goes, and only a red one leaves the height as it was
    intro b h _
    obtain ⟨rfl, rfl, rfl⟩ := leaf_of_leanRight h hnlt hr
    refine .taken [] [] n.entry heq fun _ => ⟨fun henter => ?_, fun _ _ => rfl, fun hc => ?_⟩
    · cases c with
      | red => exact sound_nil.mpr rfl
      | black => exact absurd henter (not_enterable rfl rfl)
    · cases c with
      | red => cases hc
      | black => exact ⟨0, balanced_nil, .inr rfl⟩
  | case5 c l k v r hnlt n hr hne =>
    intro b h _
    obtain ⟨rfl, rfl, rfl⟩ := leaf_of_leanRight h hnlt hr
    have hs : (node c nil k v nil).Sound c.weight := by cases c <;> simp [Color.weight]
    exact leaf_spec hs hne
  | case6 c l k v r hnlt n₀ hr n heq =>
    intro b h hq
    obtain ⟨b', hopen⟩ := Node.readyRight_opens (n := ⟨c,l,k,v,r⟩) h hnlt
      (by simpa using hr)
    have hn : (node c l k v r).toList = n.toList := by
      rw [Node.toList_readyRight, Node.toList_leanRight]
      rfl
    rw [hn] at hq ⊢
    exact takeTop_spec hq heq hopen
  | case7 c l k v r hnlt n₀ hr n hne removed rest hrest ih =>
    intro b h hq
    obtain ⟨b', henter, hclose⟩ := Node.readyRight_opens (n := ⟨c,l,k,v,r⟩) h hnlt
      (by simpa using hr)
    have hn₀ : (node c l k v r).toList = n₀.toList := (Node.toList_leanRight ⟨c,l,k,v,r⟩).symm
    have hn : n₀.toList = n.left.toList ++ n.entry :: n.right.toList :=
      (Node.toList_readyRight n₀).symm
    have hk₀ : q n₀.key ≠ .lt :=
      Node.ne_lt_of_entry (n := ⟨c,l,k,v,r⟩) hq hnlt (Node.entry_leanRight _)
    rw [hn₀] at hq ⊢
    -- twice a new top may have come from the left, where nothing is greater than the query
    have hk : q n.key = .gt := by
      cases hc : q n.key with
      | lt => exact absurd hc (Node.ne_lt_of_entry hq hk₀ n₀.entry_readyRight)
      | eq => exact absurd hc hne
      | gt => rfl
    rw [hn] at hq ⊢
    have herases := ih b' (.inr henter) hq.right
    rw [hrest] at herases
    rw [Node.toList_toTree, Node.toList_repair]
    refine (herases.append_left (l := [n.entry]) ?_ fun hrestored =>
      hclose rest n.key n.value (hrestored.sound henter) (hrestored.black henter)).append_left
        (l := n.left.toList) ?_ id
    · simpa [Node.entry] using hne
    · intro x hx
      simp [hq.gt_left hk hx]

/-- The black height falls by one at most, if the entry taken is the last that the query hits. -/
theorem Balanced.remove_erases (h : t.Balanced b) (hq : q.Descends t.toList) :
    q.Erases (∃ b', (t.remove q).2.Balanced b' ∧ (b' = b ∨ b' + 1 = b)) t.toList (t.remove q).1
      (t.remove q).2.toList := by
  obtain ⟨ht, hs⟩ := balanced_iff.mp h
  have herases := (removeBelow_erases q t b (.inl hs) hq).imp fun hrestored => hrestored.root ht
  simpa [Tree.remove] using herases

theorem Balanced.remove (h : t.Balanced b) (hsep : q.Separates t.toList) :
    (∃ b', (t.remove q).2.Balanced b' ∧ (b' = b ∨ b' + 1 = b)) ∧
      q.Takes t.toList (t.remove q).1 (t.remove q).2.toList :=
  (h.remove_erases hsep.descends).takes hsep

end Tree

end RedBlackMap
