import RedBlackMap.Proofs.Tree.Hooked
import RedBlackMap.Proofs.Tree.Insertion
import RedBlackMap.Proofs.Tree.Search

/-!
# Insertion with its repairs recorded

The insertion together with a record of the rotations and flips that it makes on the way down
and up. The result is that of the plain insertion. Where the search for the key ends at an
entry of a tree whose links lean left, nothing is recorded, and the result is the tree with the
value changed.
-/
namespace RedBlackMap
universe u v
variable {κ : Type u} {ν : Type v}

inductive Repair
  | rotateLeft
  | rotateRight
  | flip
  deriving DecidableEq, Repr

namespace Recorded
open RedBlackMap.Tree

def recorder : Hooks (Logged Repair) κ ν where
  rotateLeft _ := ([.rotateLeft], ⟨⟩)
  rotateRight _ := ([.rotateRight], ⟨⟩)
  flip _ := ([.flip], ⟨⟩)
  visit _ := ([], ⟨⟩)

/-- Inserts an entry, with the repairs in the order in which they are made. -/
def insert (cmp : Comparator κ) (key : κ) (value : ν) (t : Tree κ ν) :
    List Repair × Bool × Tree κ ν :=
  Hooked.insert (M := Logged Repair) recorder cmp key value t

theorem insert_snd (cmp : Comparator κ) (key : κ) (value : ν) (t : Tree κ ν) :
    (insert cmp key value t).2 = t.insert cmp key value :=
  (Logged.passes recorder).insert cmp key value t

variable {cmp : Comparator κ} {key : κ} {value : ν} {t : Tree κ ν} {e : κ × ν} {c : Color}
  {l r : Tree κ ν} {k : κ} {v : ν}

theorem split_eq_self {n : Node κ ν} (hr : n.right.isRed = false) :
    Hooked.split recorder n = pure ⟨n, rfl⟩ := by
  rw [Hooked.split, hr, Bool.and_false]
  rfl

theorem settle_eq_self {n : Node κ ν} (hr : n.right.isRed = false)
    (hl : n.left.isRed = true → n.left.left.isRed = false) :
    Hooked.settle recorder n = pure ⟨n, rfl⟩ := by
  have hspread : Hooked.spread recorder n = pure ⟨n, rfl⟩ := by
    rw [Hooked.spread]
    cases hred : n.left.isRed
    · rfl
    · rw [hl hred]
      rfl
  rw [Hooked.settle, hr, Bool.false_and, if_neg Bool.false_ne_true, Hooked.stay]
  simp only [Hooked.andThen, pure_bind, hspread, split_eq_self hr]

/-- Where the search ends at an entry, its value is stored and no link is touched. The
comparator need not be an order. -/
theorem insertBelow_of_find? (ht : t.LeansLeft) (hfind : t.find? (cmp key) = some e) :
    Hooked.insertBelow recorder cmp key value t =
      pure (false, t.modify (cmp key) fun _ => value) := by
  induction t with
  | nil => cases hfind
  | node c l k v r ihl ihr =>
    obtain ⟨hr, -, hll, hlr⟩ := ht
    rw [Hooked.insertBelow, Hooked.insertCall, split_eq_self hr, pure_bind, Tree.modify]
    rw [Tree.find?] at hfind
    cases hc : cmp key k with
    | lt =>
      simp only [hc] at hfind ⊢
      rw [ihl hll hfind, pure_bind, settle_eq_self hr hll.modify.left_isRed]
      rfl
    | gt =>
      simp only [hc] at hfind ⊢
      rw [ihr hlr hfind, pure_bind,
        settle_eq_self ((isRed_modify _ _ r).trans hr) hll.left_isRed]
      rfl
    | eq =>
      rw [settle_eq_self hr hll.left_isRed]
      rfl

theorem insert_of_find? (ht : t.LeansLeft) (hblack : t.isRed = false)
    (hfind : t.find? (cmp key) = some e) :
    insert cmp key value t = ([], false, t.modify (cmp key) fun _ => value) := by
  have hroot : (t.modify (cmp key) fun _ => value).isRed = false :=
    (isRed_modify _ _ t).trans hblack
  rw [insert, Hooked.insert, insertBelow_of_find? ht hfind, pure_bind]
  simp only [blacken_eq_self hroot]
  rfl

/-- A new key between two others is turned to the top and splits them. -/
example : (insert compare 2 "b" (.node .black (.node .red .nil 1 "a" .nil) 3 "c" .nil)).1 =
    [.rotateLeft, .rotateRight, .flip] := by decide +kernel

end Recorded

end RedBlackMap
