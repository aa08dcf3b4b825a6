import Mathlib.Data.List.Chain
import RedBlackMap.Proofs.Tree.Accounting
import RedBlackMap.Proofs.Tree.Checked
import RedBlackMap.Proofs.Tree.Traced

/-!
# Removal ends

A removal turns a node before it goes on below it, so that the subtree it enters is in general no
subtree of the tree it was called for. It still holds a run of that tree's entries and leaves out
at least the one at the top. The calls of a removal, one inside the other, are therefore at most
as many as the nodes, whatever the shape, the colours and the query.
-/
namespace RedBlackMap
universe u v
variable {κ : Type u} {ν : Type v}

def Visit.entered? : Visit κ ν → Option (Tree κ ν)
  | search t => some t
  | leftmost t => some t
  | takeOut _ => none
  | splice _ => none

/-- The trees that calls are made for, each call from within the one before it. -/
def Visit.calls (visits : List (Visit κ ν)) : List (Tree κ ν) :=
  visits.filterMap Visit.entered?

/-- The entries of `t` stand in a row among those of `s`, and `t` has fewer nodes. -/
structure Tree.NarrowsTo (s t : Tree κ ν) : Prop where
  consecutive : t.toList <:+: s.toList
  size_lt : t.size < s.size

theorem Node.narrowsTo_left {s : Tree κ ν} {n : Node κ ν} (h : n.toList = s.toList) :
    s.NarrowsTo n.left where
  consecutive := h ▸ ⟨[], n.entry :: n.right.toList, rfl⟩
  size_lt := by
    rw [← Tree.length_toList s, ← h, n.length_toList]
    exact n.size_left_lt

theorem Node.narrowsTo_right {s : Tree κ ν} {n : Node κ ν} (h : n.toList = s.toList) :
    s.NarrowsTo n.right where
  consecutive := h ▸ ⟨n.left.toList ++ [n.entry], [], by simp [Node.toList]⟩
  size_lt := by
    rw [← Tree.length_toList s, ← h, n.length_toList]
    exact n.size_right_lt

/-- A call to the left is for a smaller tree, although a link was moved there first. -/
theorem Node.narrowsTo_readyLeft (n : Node κ ν) : n.toTree.NarrowsTo n.readyLeft.left :=
  narrowsTo_left n.toList_readyLeft

/-- A call to the right is for a smaller tree, although up to two turns have pushed the old top
down to that side. -/
theorem Node.narrowsTo_readyRight (n : Node κ ν) :
    n.toTree.NarrowsTo n.leanRight.readyRight.right :=
  narrowsTo_right (n.leanRight.toList_readyRight.trans n.toList_leanRight)

namespace Traced
open RedBlackMap.Tree

theorem popMin?_narrowing (t : Tree κ ν) :
    (t :: Visit.calls (popMin? t).1).IsChain NarrowsTo := by
  induction t using popMin?_induction with
  | nil =>
    rw [popMin?_nil]
    exact List.isChain_singleton _
  | splice n hl =>
    rw [popMin?_splice hl]
    exact List.isChain_singleton _
  | leftmost n hl ih =>
    rw [popMin?_leftmost hl]
    exact List.isChain_cons_cons.mpr ⟨n.narrowsTo_readyLeft, ih⟩

theorem removeBelow_narrowing (q : Query κ) (t : Tree κ ν) :
    (t :: Visit.calls (removeBelow q t).1).IsChain NarrowsTo := by
  induction t using removeBelow_induction q with
  | nil =>
    rw [removeBelow_nil]
    exact List.isChain_singleton _
  | missed n hlt hl =>
    rw [removeBelow_missed hlt hl]
    exact List.isChain_singleton _
  | left n hlt hl ih =>
    rw [removeBelow_left hlt hl]
    exact List.isChain_cons_cons.mpr ⟨n.narrowsTo_readyLeft, ih⟩
  | takeOut n hnlt hr heq =>
    rw [removeBelow_takeOut hnlt hr heq]
    exact List.isChain_singleton _
  | stop n hnlt hr hne =>
    rw [removeBelow_stop hnlt hr hne]
    exact List.isChain_singleton _
  | top n hnlt hr heq =>
    rw [removeBelow_top hnlt hr heq]
    exact List.isChain_cons_cons.mpr ⟨n.narrowsTo_readyRight, popMin?_narrowing _⟩
  | right n hnlt hr hne ih =>
    rw [removeBelow_right hnlt hr hne]
    exact List.isChain_cons_cons.mpr ⟨n.narrowsTo_readyRight, ih⟩

end Traced

namespace Limited
open RedBlackMap.Tree

/-- Takes off the leftmost entry with no more than `depth` calls one inside the other, this one
counted. The answer is `none` where that is not enough. -/
def popMin? : Nat → Tree κ ν → Option (Option ((κ × ν) × Tree κ ν))
  | 0, _ => none
  | depth + 1, t => Hooked.popMinCall Hooks.silent t fun s _ => popMin? depth s

def removeBelow (q : Query κ) : Nat → Tree κ ν → Option (Option (κ × ν) × Tree κ ν)
  | 0, _ => none
  | depth + 1, t =>
    Hooked.removeCall Hooks.silent q t (fun s _ => removeBelow q depth s) fun s _ => popMin? depth s

theorem popMin?_eq {depth : Nat} {t : Tree κ ν} (h : t.size < depth) :
    popMin? depth t = some t.popMin? := by
  induction depth generalizing t with
  | zero => cases h
  | succ depth ih =>
    have hcall (s : Tree κ ν) (hs : s.size < t.size) : popMin? depth s = some s.popMin? :=
      ih (Nat.lt_of_lt_of_le hs (Nat.le_of_lt_succ h))
    exact Hooks.silent_passes.popMinCall t hcall

theorem removeBelow_eq (q : Query κ) {depth : Nat} {t : Tree κ ν} (h : t.size < depth) :
    removeBelow q depth t = some (t.removeBelow q) := by
  induction depth generalizing t with
  | zero => cases h
  | succ depth ih =>
    have hdepth (s : Tree κ ν) (hs : s.size < t.size) : s.size < depth :=
      Nat.lt_of_lt_of_le hs (Nat.le_of_lt_succ h)
    exact Hooks.silent_passes.removeCall q t (fun s hs => ih (hdepth s hs))
      fun s hs => popMin?_eq (hdepth s hs)

end Limited

namespace Tree

/-- For any query and on a tree of any shape and colours: each call of a removal is for a run of
the entries that its caller was called for, with fewer nodes. So it ends, in no more calls one
inside the other than there are nodes and one, and without a rotation that lacks the child to
rotate. No step on the way changes the order of the entries; what is left at the end is in the
old order, and where the leftmost entry is asked for, that one alone is gone. -/
theorem removal_terminates (q : Query κ) (t : Tree κ ν) :
    ((Traced.removeBelow q t).2 = t.removeBelow q ∧ (Traced.popMin? t).2 = t.popMin?) ∧
    ((t :: Visit.calls (Traced.removeBelow q t).1).IsChain NarrowsTo ∧
      (t :: Visit.calls (Traced.popMin? t).1).IsChain NarrowsTo) ∧
    (∀ depth, t.size < depth →
      Limited.removeBelow q depth t = some (t.removeBelow q) ∧
        Limited.popMin? depth t = some t.popMin?) ∧
    (Checked.removeBelow q t = .ok (t.removeBelow q) ∧ Checked.popMin? t = .ok t.popMin?) ∧
    (∀ n : Node κ ν,
      n.rotateLeft.toList = n.toList ∧ n.rotateRight.toList = n.toList ∧
        n.flip.toList = n.toList ∧ n.repair.toList = n.toList ∧
        n.lendLeft.toList = n.toList ∧ n.lendRight.toList = n.toList) ∧
    Entries.Removes q t.toList (t.removeBelow q).1 (t.removeBelow q).2.toList ∧
    (t.isEmpty = false → ∃ e rest, t.popMin? = some (e,rest) ∧ t.toList = e :: rest.toList) := by
  have hsearch := Traced.removeBelow_narrowing q t
  have hleftmost := Traced.popMin?_narrowing t
  refine ⟨⟨Traced.removeBelow_snd q t, Traced.popMin?_snd t⟩, ⟨hsearch, hleftmost⟩,
    fun depth hdepth => ⟨?_, ?_⟩, ⟨Checked.removeBelow_eq q t, Checked.popMin?_eq t⟩, fun n => ?_,
    removeBelow_removes q t, popMin?_entries⟩
  · exact Limited.removeBelow_eq q hdepth
  · exact Limited.popMin?_eq hdepth
  · exact ⟨n.toList_rotateLeft, n.toList_rotateRight, n.toList_flip, n.toList_repair,
      n.toList_lendLeft, n.toList_lendRight⟩

/-- The links of this tree lean to both sides, its paths cross from two to four black nodes, its
keys are in no order, and the query is equal to all of them. Three calls stand one inside the
other below the first one, for trees of three nodes, two nodes and one. -/
theorem removal_terminates_unbalanced :
    let q : Query Nat := fun _ => .eq
    let five : Tree Nat String := .node .black .nil 5 "e" (.node .red .nil 2 "b" .nil)
    let seven : Tree Nat String := .node .black (.node .black .nil 8 "h" .nil) 7 "g" .nil
    let t : Tree Nat String := .node .black five 1 "a" (.node .black seven 3 "c" .nil)
    t.size = 6 ∧ t.isEmpty = false ∧
      (Visit.calls (Traced.removeBelow q t).1).map size = [3,2,1] ∧
      (t :: Visit.calls (Traced.removeBelow q t).1).IsChain NarrowsTo ∧
      Limited.removeBelow q 3 t = none ∧
      Limited.removeBelow q 7 t = some (t.removeBelow q) ∧
      (t.removeBelow q).1 = some (1,"a") ∧
      (t.removeBelow q).2.toList = [(5,"e"),(2,"b"),(8,"h"),(7,"g"),(3,"c")] ∧
      ∃ rest, t.popMin? = some ((5,"e"),rest) ∧
        rest.toList = [(2,"b"),(1,"a"),(8,"h"),(7,"g"),(3,"c")] := by
  intro q five seven t
  obtain ⟨-, ⟨hsearch, -⟩, hends, -, -, -, hpop⟩ := removal_terminates q t
  obtain ⟨e, rest, hpopped, hlist⟩ := hpop rfl
  obtain ⟨rfl, hrest⟩ := List.cons_eq_cons.mp hlist
  exact ⟨rfl, rfl, by decide +kernel, hsearch, by decide +kernel, (hends 7 (by decide)).1,
    by decide +kernel, by decide +kernel, rest, hpopped, hrest.symm⟩

end Tree

end RedBlackMap
