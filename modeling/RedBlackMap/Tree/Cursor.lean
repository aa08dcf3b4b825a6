import RedBlackMap.Tree.Image

/-!
# Cursors

A cursor yields the entries of a tree one by one from left to right. It holds a
stack of the nodes that are still to be yielded on the way down to the next one,
and a count of the entries that remain. A cursor that owns the tree takes it apart
as it goes; one that shares the tree leaves it whole.
-/
namespace RedBlackMap
universe u v

/-- Whether a cursor leaves the tree whole or takes it apart. -/
inductive Access
  | shared
  | owned
  deriving DecidableEq, Repr

/-- What is kept of a node once the cursor has gone down to its left. -/
def Access.keep {κ : Type u} {ν : Type v} : Access → Node κ ν → Node κ ν
  | .shared, n => n
  | .owned, n => { n with left := .nil }

def Access.copied {κ : Type u} {ν : Type v} (f : κ → κ) (g : ν → ν) : Access → κ × ν → κ × ν
  | .shared => id
  | .owned => Prod.map f g

/-- A place between two entries of a tree. -/
structure Cursor (κ : Type u) (ν : Type v) where
  access : Access
  stack : List (Node κ ν)
  remaining : Nat

namespace Cursor
variable {κ : Type u} {ν : Type v}

def descend (a : Access) : Tree κ ν → List (Node κ ν) → List (Node κ ν)
  | .nil, stack => stack
  | .node c l k v r, stack => descend a l (a.keep ⟨c, l, k, v, r⟩ :: stack)

def ofTree (a : Access) (t : Tree κ ν) (count : Nat) : Cursor κ ν :=
  ⟨a, descend a t [], count⟩

def next? (c : Cursor κ ν) : Option ((κ × ν) × Cursor κ ν) :=
  match c.stack with
  | [] => none
  | n :: rest =>
    some (n.entry, { c with stack := descend c.access n.right rest, remaining := c.remaining - 1 })

/-- Calls for the next entry so many times: the answers, and the cursor behind them. -/
def advance (c : Cursor κ ν) : Nat → List (Option (κ × ν)) × Cursor κ ν
  | 0 => ([], c)
  | j + 1 =>
    match c.next? with
    | none =>
      let (answers, last) := c.advance j
      (none :: answers, last)
    | some (e, d) =>
      let (answers, last) := d.advance j
      (some e :: answers, last)

/-- A copy of a cursor. A cursor that owns its nodes copies them with their subtrees. -/
def copy (f : κ → κ) (g : ν → ν) (c : Cursor κ ν) : Cursor κ ν :=
  match c.access with
  | .shared => c
  | .owned => { c with stack := c.stack.map (Node.image f g) }

def bounds (c : Cursor κ ν) : Nat × Option Nat := (c.remaining, some c.remaining)

/-- The number of nodes that a stack still owes. -/
def owed : List (Node κ ν) → Nat
  | [] => 0
  | n :: rest => n.right.size + 1 + owed rest

theorem right_keep (a : Access) (n : Node κ ν) : (a.keep n).right = n.right := by
  cases a <;> rfl

theorem owed_descend (a : Access) (t : Tree κ ν) (stack : List (Node κ ν)) :
    owed (descend a t stack) = t.size + owed stack := by
  induction t generalizing stack with
  | nil => simp [descend, Tree.size]
  | node c l k v r ihl _ =>
    rw [descend, ihl]
    simp [owed, right_keep, Tree.size]; omega

theorem owed_next? {c d : Cursor κ ν} {e : κ × ν} (h : c.next? = some (e, d)) :
    owed c.stack = owed d.stack + 1 := by
  rcases hs : c.stack with _ | ⟨n, rest⟩
  · simp [next?, hs] at h
  · simp only [next?, hs, Option.some.injEq, Prod.mk.injEq] at h
    rw [← h.2, owed_descend]
    simp [owed]; omega

def drain (c : Cursor κ ν) : List (κ × ν) × Cursor κ ν :=
  match _h : c.next? with
  | none => ([], c)
  | some (e, d) =>
    let (es, done) := drain d
    (e :: es, done)
termination_by owed c.stack
decreasing_by
  have := owed_next? (by assumption)
  omega

def toList (c : Cursor κ ν) : List (κ × ν) := c.drain.1

end Cursor

end RedBlackMap
