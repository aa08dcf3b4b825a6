import RedBlackMap.Proofs.Tree.Hooked

/-!
# Rotations with their preconditions checked

The operations on trees with each rotation guarded: it fails where the child is missing that
is to come to the top. No operation ever fails, on a tree of any shape and colours and under
any comparator, so the guarded operations are the plain ones.
-/
namespace RedBlackMap
universe u v
variable {κ : Type u} {ν : Type v}

inductive Fault
  | noLeftChild
  | noRightChild
  | countBelowZero
  deriving DecidableEq, Repr

namespace Checked

@[simp] theorem ok_bind {α β : Type u} (a : α) (f : α → Except Fault β) :
    ((Except.ok a : Except Fault α) >>= f) = f a := rfl

/-- A rotation fails without the child that it brings to the top. -/
def guards : Hooks (Except Fault) κ ν where
  rotateLeft n := if n.right.isEmpty then throw .noRightChild else pure ⟨⟩
  rotateRight n := if n.left.isEmpty then throw .noLeftChild else pure ⟨⟩
  flip _ := pure ⟨⟩
  visit _ := pure ⟨⟩

theorem guards_pass : (guards : Hooks (Except Fault) κ ν).Passes fun x a => x = .ok a where
  toTurns := Hooks.turns_pure (fun _ hn => if_neg (Bool.eq_false_iff.mp hn))
    (fun _ hn => if_neg (Bool.eq_false_iff.mp hn)) fun _ => rfl
  visits _ := rfl

def insert (cmp : Comparator κ) (key : κ) (value : ν) (t : Tree κ ν) :
    Except Fault (Bool × Tree κ ν) :=
  Hooked.insert guards cmp key value t

def popMin? (t : Tree κ ν) : Except Fault (Option ((κ × ν) × Tree κ ν)) :=
  Hooked.popMin? guards t

def removeBelow (q : Query κ) (t : Tree κ ν) : Except Fault (Option (κ × ν) × Tree κ ν) :=
  Hooked.removeBelow guards q t

def remove (q : Query κ) (t : Tree κ ν) : Except Fault (Option (κ × ν) × Tree κ ν) :=
  Hooked.remove guards q t

theorem insert_eq (cmp : Comparator κ) (key : κ) (value : ν) (t : Tree κ ν) :
    insert cmp key value t = .ok (t.insert cmp key value) :=
  guards_pass.insert cmp key value t

theorem popMin?_eq (t : Tree κ ν) : popMin? t = .ok t.popMin? := guards_pass.popMin? t

theorem removeBelow_eq (q : Query κ) (t : Tree κ ν) :
    removeBelow q t = .ok (t.removeBelow q) :=
  guards_pass.removeBelow q t

theorem remove_eq (q : Query κ) (t : Tree κ ν) : remove q t = .ok (t.remove q) :=
  guards_pass.remove q t

example : Hooked.rotateLeft guards (⟨.black,.nil,1,"a",.nil⟩ : Node Nat String) =
    .error .noRightChild := rfl

end Checked

end RedBlackMap
