import RedBlackMap.Proofs.Entries.Accounting
import RedBlackMap.Proofs.Tree.Removal
import RedBlackMap.Tree.Insertion

/-!
# Entries kept under any comparator

An insertion adds or changes one entry and a removal takes the entry that it answers, on a
tree of any shape and colours and with no law for the comparator.
-/
namespace RedBlackMap.Tree
universe u v
variable {κ : Type u} {ν : Type v} {q : Query κ}
open Entries

theorem insertBelow_inserts (cmp : Comparator κ) (key : κ) (value : ν) (t : Tree κ ν) :
    Inserts cmp key value t.toList (t.insertBelow cmp key value).1
      (t.insertBelow cmp key value).2.toList := by
  fun_induction insertBelow cmp key value t with
  | case1 => exact .added [] []
  | case2 c l k v r n hlt grown below hbelow ih =>
    have hn : (node c l k v r).toList = n.toList := (Node.toList_split ⟨c,l,k,v,r⟩).symm
    rw [hbelow] at ih
    rw [hn, Node.toList_toTree, Node.toList_settle]
    exact ih.append_right _
  | case3 c l k v r n hgt grown below hbelow ih =>
    have hn : (node c l k v r).toList = n.toList := (Node.toList_split ⟨c,l,k,v,r⟩).symm
    rw [hbelow] at ih
    rw [hn, Node.toList_toTree, Node.toList_settle]
    exact (ih.append_left [n.entry]).append_left n.left.toList
  | case4 c l k v r n heq =>
    have hn : (node c l k v r).toList = n.toList := (Node.toList_split ⟨c,l,k,v,r⟩).symm
    rw [hn, Node.toList_toTree, Node.toList_settle]
    exact .replaced _ _ _ _ heq

theorem insert_inserts (cmp : Comparator κ) (key : κ) (value : ν) (t : Tree κ ν) :
    Inserts cmp key value t.toList (t.insert cmp key value).1
      (t.insert cmp key value).2.toList := by
  rw [insert, toList_blacken]
  exact t.insertBelow_inserts cmp key value

theorem isEmpty_right_readyRight {n : Node κ ν} (h : n.right.isEmpty = false) :
    n.readyRight.right.isEmpty = false := by
  rcases n with ⟨c, l, k, v, _ | ⟨cr, rl, rk, rv, rr⟩⟩
  · cases h
  · unfold Node.readyRight
    split
    · unfold Node.lendRight
      dsimp only
      split
      · rcases l with _ | ⟨cl, ll, lk, lv, lr⟩ <;> rfl
      · rfl
    · rfl

theorem takeTop_removes {n : Node κ ν} (hr : n.right.isEmpty = false) (h : q n.key = .eq) :
    Removes q n.toList (takeTop n).1 (takeTop n).2.toList := by
  obtain ⟨e, rest, hpop, hlist⟩ := popMin?_entries hr
  have htop : takeTop n =
      (some n.entry,({ n with key := e.1, value := e.2, right := rest } : Node κ ν).repair.toTree) := by
    rw [takeTop, hpop]
  rw [htop, Node.toList_toTree, Node.toList_repair]
  refine .taken n.left.toList n.right.toList _ n.entry h ?_
  rw [hlist]
  exact List.Sublist.refl _

theorem removeBelow_removes (q : Query κ) (t : Tree κ ν) :
    Removes q t.toList (t.removeBelow q).1 (t.removeBelow q).2.toList := by
  fun_induction removeBelow q t with
  | case1 => exact .kept _
  | case2 c l k v r hlt hl =>
    rw [Node.toList_toTree, Node.toList_repair]
    exact .kept _
  | case3 c l k v r hlt hl n removed rest hrest ih =>
    have hn : (node c l k v r).toList = n.toList := (Node.toList_readyLeft ⟨c,l,k,v,r⟩).symm
    rw [hrest] at ih
    rw [hn, Node.toList_toTree, Node.toList_repair]
    exact ih.append_right _
  | case4 c l k v r hnlt n hr heq =>
    have hn : (node c l k v r).toList = n.toList := (Node.toList_leanRight ⟨c,l,k,v,r⟩).symm
    rw [hn]
    exact .taken _ _ _ _ heq (List.nil_sublist _)
  | case5 c l k v r hnlt n hr hne =>
    have hn : (node c l k v r).toList = n.toList := (Node.toList_leanRight ⟨c,l,k,v,r⟩).symm
    rw [hn, Node.toList_toTree, Node.toList_repair]
    exact .kept _
  | case6 c l k v r hnlt n₀ hr n heq =>
    have hn : (node c l k v r).toList = n.toList := by
      rw [Node.toList_readyRight, Node.toList_leanRight]
      rfl
    rw [hn]
    exact takeTop_removes (isEmpty_right_readyRight (by simpa using hr)) heq
  | case7 c l k v r hnlt n₀ hr n hne removed rest hrest ih =>
    have hn : (node c l k v r).toList = n.toList := by
      rw [Node.toList_readyRight, Node.toList_leanRight]
      rfl
    rw [hrest] at ih
    rw [hn, Node.toList_toTree, Node.toList_repair]
    exact (ih.append_left [n.entry]).append_left n.left.toList

theorem remove_removes (q : Query κ) (t : Tree κ ν) :
    Removes q t.toList (t.remove q).1 (t.remove q).2.toList := by
  rw [remove, toList_blacken]
  exact t.removeBelow_removes q

theorem size_modify (q : Query κ) (f : ν → ν) (t : Tree κ ν) : (t.modify q f).size = t.size := by
  fun_induction modify q f t with
  | case1 => rfl
  | case2 c l k v r hq ih => rw [size, size, ih]
  | case3 c l k v r hq ih => rw [size, size, ih]
  | case4 => rfl

end RedBlackMap.Tree
