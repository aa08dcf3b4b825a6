import RedBlackMap.Tree.Cursor

/-!
# Traversal

A cursor yields the entries of a tree from left to right, whether it shares the tree or
owns it: what it keeps of a node on its stack is all that is still to come.
-/
namespace RedBlackMap.Cursor
universe u v
variable {κ : Type u} {ν : Type v}

def pending (stack : List (Node κ ν)) : List (κ × ν) :=
  stack.flatMap fun n => n.entry :: n.right.toList

theorem entry_keep (a : Access) (n : Node κ ν) : (a.keep n).entry = n.entry := by
  cases a <;> rfl

theorem pending_cons (n : Node κ ν) (stack : List (Node κ ν)) :
    pending (n :: stack) = n.entry :: (n.right.toList ++ pending stack) := by
  rw [pending, List.flatMap_cons]
  rfl

theorem pending_descend (a : Access) (t : Tree κ ν) (stack : List (Node κ ν)) :
    pending (descend a t stack) = t.toList ++ pending stack := by
  induction t generalizing stack with
  | nil => rfl
  | node c l k v r ihl _ =>
    rw [descend, ihl, pending_cons, entry_keep, right_keep, Tree.toList, List.append_assoc]
    rfl

theorem pending_next? {c d : Cursor κ ν} {e : κ × ν} (h : c.next? = some (e, d)) :
    pending c.stack = e :: pending d.stack := by
  cases hs : c.stack with
  | nil => simp [next?, hs] at h
  | cons n rest =>
    simp only [next?, hs, Option.some.injEq, Prod.mk.injEq] at h
    rw [← h.1, ← h.2, pending_cons, pending_descend]

theorem toList_eq_pending (c : Cursor κ ν) : c.toList = pending c.stack := by
  change c.drain.1 = pending c.stack
  fun_induction drain c with
  | case1 c h =>
    cases hs : c.stack with
    | nil => rfl
    | cons n rest => simp [next?, hs] at h
  | case2 c e d h es last hdrain ih =>
    rw [hdrain] at ih
    rw [pending_next? h, ← ih]

theorem toList_ofTree (a : Access) (t : Tree κ ν) (count : Nat) :
    (ofTree a t count).toList = t.toList := by
  rw [toList_eq_pending, ofTree, pending_descend]
  exact List.append_nil _

end RedBlackMap.Cursor
