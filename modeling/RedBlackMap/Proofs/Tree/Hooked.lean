import RedBlackMap.Tree.Insertion
import RedBlackMap.Tree.Removal

/-!
# Insertion and removal with hooks

One call of an insertion or a removal in any monad, with a hook before each rotation, each flip,
each call that it makes and each node that leaves. What the calls come to is a parameter; each of
them is for a tree with fewer nodes. The guarded, the recorded and the limited operations are
instances. Where the hooks pass, the result is that of the plain operation.
-/
namespace RedBlackMap
universe u v w
variable {κ : Type u} {ν : Type v}

/-- What a removal does on its way down: it goes on in a subtree, it asks for the leftmost entry
of one, or it has come to the node that leaves. -/
inductive Visit (κ : Type u) (ν : Type v)
  | search (t : Tree κ ν)
  | leftmost (t : Tree κ ν)
  | takeOut (n : Node κ ν)
  | splice (n : Node κ ν)
  deriving DecidableEq

/-- What is run at a node that is about to be turned or flipped, and at each visit. -/
structure Hooks (M : Type (max u v) → Type w) (κ : Type u) (ν : Type v) where
  rotateLeft : Node κ ν → M PUnit
  rotateRight : Node κ ν → M PUnit
  flip : Node κ ν → M PUnit
  visit : Visit κ ν → M PUnit

/-- A node that holds the entries of `n` in their order. -/
abbrev Node.Turned (n : Node κ ν) := { m : Node κ ν // m.toList = n.toList }

namespace Node.Turned
variable {n : Node κ ν}

theorem size_left_lt (m : n.Turned) : m.1.left.size < n.size :=
  size_eq_of_toList_eq m.2 ▸ m.1.size_left_lt

theorem size_right_lt (m : n.Turned) : m.1.right.size < n.size :=
  size_eq_of_toList_eq m.2 ▸ m.1.size_right_lt

end Node.Turned

variable {M : Type (max u v) → Type w} [Monad M]

def Hooks.silent : Hooks M κ ν where
  rotateLeft _ := pure ⟨⟩
  rotateRight _ := pure ⟨⟩
  flip _ := pure ⟨⟩
  visit _ := pure ⟨⟩

namespace Hooked
variable (hooks : Hooks M κ ν)

def stay (n : Node κ ν) : M n.Turned := pure ⟨n, rfl⟩

def rotateLeft (n : Node κ ν) : M n.Turned := do
  hooks.rotateLeft n
  return ⟨n.rotateLeft, n.toList_rotateLeft⟩

def rotateRight (n : Node κ ν) : M n.Turned := do
  hooks.rotateRight n
  return ⟨n.rotateRight, n.toList_rotateRight⟩

def flip (n : Node κ ν) : M n.Turned := do
  hooks.flip n
  return ⟨n.flip, n.toList_flip⟩

def rotateRightChild (n : Node κ ν) : M n.Turned := do
  match n.right with
  | .nil => pure ⟨⟩
  | .node c l k v r => hooks.rotateRight ⟨c, l, k, v, r⟩
  return ⟨n.rotateRightChild, n.toList_rotateRightChild⟩

def andThen {n : Node κ ν} (x : M n.Turned) (f : (m : Node κ ν) → M m.Turned) : M n.Turned := do
  let m ← x
  let p ← f m.1
  return ⟨p.1, p.2.trans m.2⟩

def split (n : Node κ ν) : M n.Turned :=
  if n.left.isRed && n.right.isRed then flip hooks n else stay n

def spread (n : Node κ ν) : M n.Turned :=
  if n.left.isRed && n.left.left.isRed then rotateRight hooks n else stay n

def settle (n : Node κ ν) : M n.Turned :=
  andThen (andThen (if n.right.isRed && !n.left.isRed then rotateLeft hooks n else stay n)
    (spread hooks)) (split hooks)

def repair (n : Node κ ν) : M n.Turned :=
  andThen (andThen (if n.right.isRed then rotateLeft hooks n else stay n) (spread hooks))
    (split hooks)

def lendLeft (n : Node κ ν) : M n.Turned :=
  andThen (flip hooks n) fun n =>
    if n.right.left.isRed then
      andThen (andThen (rotateRightChild hooks n) (rotateLeft hooks)) (flip hooks)
    else stay n

def lendRight (n : Node κ ν) : M n.Turned :=
  andThen (flip hooks n) fun n =>
    if n.left.left.isRed then andThen (rotateRight hooks n) (flip hooks) else stay n

def readyLeft (n : Node κ ν) : M n.Turned :=
  if !n.left.isRed && !n.left.left.isRed then lendLeft hooks n else stay n

def readyRight (n : Node κ ν) : M n.Turned :=
  if !n.right.isRed && !n.right.left.isRed then lendRight hooks n else stay n

def leanRight (n : Node κ ν) : M n.Turned :=
  if n.left.isRed then rotateRight hooks n else stay n

def insertCall (cmp : Comparator κ) (key : κ) (value : ν) : (t : Tree κ ν) →
    ((s : Tree κ ν) → s.size < t.size → M (Bool × Tree κ ν)) → M (Bool × Tree κ ν)
  | .nil, _ => return (true, .node .red .nil key value .nil)
  | .node c l k v r, insertBelow => do
    let n ← split hooks ⟨c, l, k, v, r⟩
    match cmp key n.1.key with
    | .lt =>
      let (grown, below) ← insertBelow n.1.left n.size_left_lt
      let m ← settle hooks { n.1 with left := below }
      return (grown, m.1.toTree)
    | .gt =>
      let (grown, below) ← insertBelow n.1.right n.size_right_lt
      let m ← settle hooks { n.1 with right := below }
      return (grown, m.1.toTree)
    | .eq =>
      let m ← settle hooks { n.1 with value := value }
      return (false, m.1.toTree)

def popMinCall : (t : Tree κ ν) →
    ((s : Tree κ ν) → s.size < t.size → M (Option ((κ × ν) × Tree κ ν))) →
    M (Option ((κ × ν) × Tree κ ν))
  | .nil, _ => return none
  | .node c l k v r, leftmost =>
    if l.isEmpty then do
      hooks.visit (.splice ⟨c, l, k, v, r⟩)
      return some ((k, v), r)
    else do
      let n ← readyLeft hooks ⟨c, l, k, v, r⟩
      hooks.visit (.leftmost n.1.left)
      match ← leftmost n.1.left n.size_left_lt with
      | none => return none
      | some (e, rest) =>
        let m ← repair hooks { n.1 with left := rest }
        return some (e, m.1.toTree)

/-- A node whose entry gives way to its successor, as the call for that one finds it. -/
def takeTop (n : Node κ ν) (leftmost : M (Option ((κ × ν) × Tree κ ν))) :
    M (Option (κ × ν) × Tree κ ν) := do
  hooks.visit (.leftmost n.right)
  match ← leftmost with
  | some ((k, v), rest) =>
    let m ← repair hooks { n with key := k, value := v, right := rest }
    return (some n.entry, m.1.toTree)
  | none =>
    let m ← repair hooks n
    return (none, m.1.toTree)

def removeCall (q : Query κ) : (t : Tree κ ν) →
    ((s : Tree κ ν) → s.size < t.size → M (Option (κ × ν) × Tree κ ν)) →
    ((s : Tree κ ν) → s.size < t.size → M (Option ((κ × ν) × Tree κ ν))) →
    M (Option (κ × ν) × Tree κ ν)
  | .nil, _, _ => return (none, .nil)
  | .node c l k v r, search, leftmost =>
    if q k = .lt then
      if l.isEmpty then do
        let m ← repair hooks ⟨c, l, k, v, r⟩
        return (none, m.1.toTree)
      else do
        let n ← readyLeft hooks ⟨c, l, k, v, r⟩
        hooks.visit (.search n.1.left)
        let (removed, rest) ← search n.1.left n.size_left_lt
        let m ← repair hooks { n.1 with left := rest }
        return (removed, m.1.toTree)
    else do
      let n ← leanRight hooks ⟨c, l, k, v, r⟩
      if n.1.right.isEmpty then
        if q n.1.key = .eq then
          hooks.visit (.takeOut n.1)
          return (some n.1.entry, .nil)
        else
          let m ← repair hooks n.1
          return (none, m.1.toTree)
      else
        let n ← andThen (pure n) (readyRight hooks)
        if q n.1.key = .eq then
          takeTop hooks n.1 (leftmost n.1.right n.size_right_lt)
        else
          hooks.visit (.search n.1.right)
          let (removed, rest) ← search n.1.right n.size_right_lt
          let m ← repair hooks { n.1 with right := rest }
          return (removed, m.1.toTree)

def insertBelow (cmp : Comparator κ) (key : κ) (value : ν) (t : Tree κ ν) : M (Bool × Tree κ ν) :=
  insertCall hooks cmp key value t fun s _ => insertBelow cmp key value s
termination_by t.size

def insert (cmp : Comparator κ) (key : κ) (value : ν) (t : Tree κ ν) : M (Bool × Tree κ ν) := do
  let (grown, below) ← insertBelow hooks cmp key value t
  return (grown, below.blacken)

def popMin? (t : Tree κ ν) : M (Option ((κ × ν) × Tree κ ν)) :=
  popMinCall hooks t fun s _ => popMin? s
termination_by t.size

def removeBelow (q : Query κ) (t : Tree κ ν) : M (Option (κ × ν) × Tree κ ν) :=
  removeCall hooks q t (fun s _ => removeBelow q s) fun s _ => popMin? hooks s
termination_by t.size

def remove (q : Query κ) (t : Tree κ ν) : M (Option (κ × ν) × Tree κ ν) := do
  let (removed, rest) ← removeBelow hooks q t
  return (removed, rest.blacken)

end Hooked

/-- `R` relates a run in `M` to a result. Runs in a row keep it, and the hooks of flips pass it, as
those of a rotation do where the child is there that comes to the top. -/
structure Hooks.Turns (hooks : Hooks M κ ν) (R : ∀ {α : Type (max u v)}, M α → α → Prop) :
    Prop where
  result : ∀ {α : Type (max u v)} (a : α), R (pure a) a
  next : ∀ {α β : Type (max u v)} {x : M α} {a : α} {f : α → M β} {b : β},
    R x a → R (f a) b → R (x >>= f) b
  left : ∀ n : Node κ ν, n.right.isEmpty = false → R (hooks.rotateLeft n) ⟨⟩
  right : ∀ n : Node κ ν, n.left.isEmpty = false → R (hooks.rotateRight n) ⟨⟩
  colors : ∀ n : Node κ ν, R (hooks.flip n) ⟨⟩

structure Hooks.Passes (hooks : Hooks M κ ν) (R : ∀ {α : Type (max u v)}, M α → α → Prop) : Prop
    extends hooks.Turns R where
  visits : ∀ x : Visit κ ν, R (hooks.visit x) ⟨⟩

theorem Hooks.turns_pure [LawfulMonad M] {hooks : Hooks M κ ν}
    (hleft : ∀ n, n.right.isEmpty = false → hooks.rotateLeft n = pure ⟨⟩)
    (hright : ∀ n, n.left.isEmpty = false → hooks.rotateRight n = pure ⟨⟩)
    (hcolors : ∀ n, hooks.flip n = pure ⟨⟩) : hooks.Turns fun x a => x = pure a where
  result _ := rfl
  next := by
    rintro _ _ _ _ _ _ rfl hf
    rwa [pure_bind]
  left := hleft
  right := hright
  colors := hcolors

theorem Hooks.silent_passes [LawfulMonad M] :
    (silent : Hooks M κ ν).Passes fun x a => x = pure a where
  toTurns := turns_pure (fun _ _ => rfl) (fun _ _ => rfl) fun _ => rfl
  visits _ := rfl

theorem Tree.isEmpty_of_isRed {t : Tree κ ν} (h : t.isRed = true) : t.isEmpty = false := by
  cases t with
  | nil => cases h
  | node => rfl

theorem Tree.isEmpty_of_left_isRed {t : Tree κ ν} (h : t.left.isRed = true) :
    t.isEmpty = false := by
  cases t with
  | nil => cases h
  | node => rfl

namespace Hooks
variable {hooks : Hooks M κ ν} {R : ∀ {α : Type (max u v)}, M α → α → Prop}

namespace Turns
variable (h : hooks.Turns R)
include h

theorem rotateLeft {n : Node κ ν} (hn : n.right.isEmpty = false) :
    R (Hooked.rotateLeft hooks n) ⟨n.rotateLeft, n.toList_rotateLeft⟩ :=
  h.next (h.left n hn) (h.result _)

theorem rotateRight {n : Node κ ν} (hn : n.left.isEmpty = false) :
    R (Hooked.rotateRight hooks n) ⟨n.rotateRight, n.toList_rotateRight⟩ :=
  h.next (h.right n hn) (h.result _)

theorem flip (n : Node κ ν) : R (Hooked.flip hooks n) ⟨n.flip, n.toList_flip⟩ :=
  h.next (h.colors n) (h.result _)

theorem andThen {n : Node κ ν} {x : M n.Turned} {m : n.Turned}
    {f : (m : Node κ ν) → M m.Turned} {p : m.1.Turned} (hx : R x m) (hf : R (f m.1) p) :
    R (Hooked.andThen x f) ⟨p.1, p.2.trans m.2⟩ :=
  h.next hx (h.next hf (h.result _))

/-- The child is rotated only for the sake of a red left child of its own. -/
theorem rotateRightChild {n : Node κ ν} (hn : n.right.left.isRed = true) :
    R (Hooked.rotateRightChild hooks n) ⟨n.rotateRightChild, n.toList_rotateRightChild⟩ := by
  rcases n with ⟨c, l, k, v, _ | ⟨c', l', k', v', r'⟩⟩
  · cases hn
  · exact h.next (h.right _ (Tree.isEmpty_of_isRed hn)) (h.result _)

theorem split (n : Node κ ν) : R (Hooked.split hooks n) ⟨n.split, n.toList_split⟩ := by
  unfold Hooked.split Node.split
  split
  · exact h.flip n
  · exact h.result _

theorem spread (n : Node κ ν) : R (Hooked.spread hooks n) ⟨n.spread, n.toList_spread⟩ := by
  unfold Hooked.spread Node.spread
  split
  case isTrue hred =>
    exact h.rotateRight (Tree.isEmpty_of_isRed (Bool.and_eq_true_iff.mp hred).1)
  case isFalse => exact h.result _

theorem spread_split {n : Node κ ν} {x : M n.Turned} {m : n.Turned} (hx : R x m) :
    R (Hooked.andThen (Hooked.andThen x (Hooked.spread hooks)) (Hooked.split hooks))
      ⟨m.1.spread.split, ((m.1.spread).toList_split.trans m.1.toList_spread).trans m.2⟩ :=
  h.andThen (h.andThen hx (h.spread m.1)) (h.split m.1.spread)

theorem settle (n : Node κ ν) : R (Hooked.settle hooks n) ⟨n.settle, n.toList_settle⟩ := by
  unfold Hooked.settle Node.settle
  split
  case isTrue hred =>
    exact h.spread_split (h.rotateLeft (Tree.isEmpty_of_isRed (Bool.and_eq_true_iff.mp hred).1))
  case isFalse => exact h.spread_split (h.result _)

theorem repair (n : Node κ ν) : R (Hooked.repair hooks n) ⟨n.repair, n.toList_repair⟩ := by
  unfold Hooked.repair Node.repair
  split
  case isTrue hred => exact h.spread_split (h.rotateLeft (Tree.isEmpty_of_isRed hred))
  case isFalse => exact h.spread_split (h.result _)

theorem lendLeft (n : Node κ ν) : R (Hooked.lendLeft hooks n) ⟨n.lendLeft, n.toList_lendLeft⟩ := by
  refine h.andThen (p := ⟨n.lendLeft, n.toList_lendLeft.trans n.toList_flip.symm⟩) (h.flip n) ?_
  unfold Node.lendLeft
  dsimp only
  split
  case isTrue hred =>
    have hright : n.flip.rotateRightChild.right.isEmpty = false := by
      unfold Node.rotateRightChild
      split
      case h_1 hnil => simp [hnil, Tree.left, Tree.isRed] at hred
      case h_2 => rfl
    exact h.andThen (h.andThen (h.rotateRightChild hred) (h.rotateLeft hright)) (h.flip _)
  case isFalse => exact h.result _

theorem lendRight (n : Node κ ν) :
    R (Hooked.lendRight hooks n) ⟨n.lendRight, n.toList_lendRight⟩ := by
  refine h.andThen (p := ⟨n.lendRight, n.toList_lendRight.trans n.toList_flip.symm⟩) (h.flip n) ?_
  unfold Node.lendRight
  dsimp only
  split
  case isTrue hred =>
    exact h.andThen (h.rotateRight (Tree.isEmpty_of_left_isRed hred)) (h.flip _)
  case isFalse => exact h.result _

theorem readyLeft (n : Node κ ν) :
    R (Hooked.readyLeft hooks n) ⟨n.readyLeft, n.toList_readyLeft⟩ := by
  unfold Hooked.readyLeft Node.readyLeft
  split
  · exact h.lendLeft n
  · exact h.result _

theorem readyRight (n : Node κ ν) :
    R (Hooked.readyRight hooks n) ⟨n.readyRight, n.toList_readyRight⟩ := by
  unfold Hooked.readyRight Node.readyRight
  split
  · exact h.lendRight n
  · exact h.result _

theorem leanRight (n : Node κ ν) :
    R (Hooked.leanRight hooks n) ⟨n.leanRight, n.toList_leanRight⟩ := by
  unfold Hooked.leanRight Node.leanRight
  split
  case isTrue hred => exact h.rotateRight (Tree.isEmpty_of_isRed hred)
  case isFalse => exact h.result _

theorem insertCall (cmp : Comparator κ) (key : κ) (value : ν) (t : Tree κ ν)
    {insertBelow : (s : Tree κ ν) → s.size < t.size → M (Bool × Tree κ ν)}
    (hbelow : ∀ s hs, R (insertBelow s hs) (s.insertBelow cmp key value)) :
    R (Hooked.insertCall hooks cmp key value t insertBelow) (t.insertBelow cmp key value) := by
  cases t with
  | nil =>
    rw [Tree.insertBelow]
    exact h.result _
  | node c l k v r =>
    refine h.next (h.split _) ?_
    rw [Tree.insertBelow]
    dsimp only
    cases cmp key (⟨c, l, k, v, r⟩ : Node κ ν).split.key with
    | lt => exact h.next (hbelow _ _) (h.next (h.settle _) (h.result _))
    | gt => exact h.next (hbelow _ _) (h.next (h.settle _) (h.result _))
    | eq => exact h.next (h.settle _) (h.result _)

theorem insertBelow (cmp : Comparator κ) (key : κ) (value : ν) (t : Tree κ ν) :
    R (Hooked.insertBelow hooks cmp key value t) (t.insertBelow cmp key value) := by
  rw [Hooked.insertBelow]
  exact h.insertCall cmp key value t fun s _ => insertBelow cmp key value s
termination_by t.size

theorem insert (cmp : Comparator κ) (key : κ) (value : ν) (t : Tree κ ν) :
    R (Hooked.insert hooks cmp key value t) (t.insert cmp key value) :=
  h.next (h.insertBelow cmp key value t) (h.result _)

end Turns

namespace Passes
variable (h : hooks.Passes R)
include h

theorem popMinCall (t : Tree κ ν)
    {leftmost : (s : Tree κ ν) → s.size < t.size → M (Option ((κ × ν) × Tree κ ν))}
    (hleftmost : ∀ s hs, R (leftmost s hs) s.popMin?) :
    R (Hooked.popMinCall hooks t leftmost) t.popMin? := by
  cases t with
  | nil =>
    rw [Tree.popMin?]
    exact h.result _
  | node c l k v r =>
    rw [Hooked.popMinCall, Tree.popMin?]
    split
    · exact h.next (h.visits _) (h.result _)
    · refine h.next (h.readyLeft _) (h.next (h.visits _) (h.next (hleftmost _ _) ?_))
      dsimp only
      cases (⟨c, l, k, v, r⟩ : Node κ ν).readyLeft.left.popMin? with
      | none => exact h.result _
      | some popped => exact h.next (h.repair _) (h.result _)

theorem takeTop {n : Node κ ν} {leftmost : M (Option ((κ × ν) × Tree κ ν))}
    (hleftmost : R leftmost n.right.popMin?) :
    R (Hooked.takeTop hooks n leftmost) (Tree.takeTop n) := by
  refine h.next (h.visits _) (h.next hleftmost ?_)
  rw [Tree.takeTop]
  cases n.right.popMin? with
  | none => exact h.next (h.repair _) (h.result _)
  | some popped => exact h.next (h.repair _) (h.result _)

theorem removeCall (q : Query κ) (t : Tree κ ν)
    {search : (s : Tree κ ν) → s.size < t.size → M (Option (κ × ν) × Tree κ ν)}
    {leftmost : (s : Tree κ ν) → s.size < t.size → M (Option ((κ × ν) × Tree κ ν))}
    (hsearch : ∀ s hs, R (search s hs) (s.removeBelow q))
    (hleftmost : ∀ s hs, R (leftmost s hs) s.popMin?) :
    R (Hooked.removeCall hooks q t search leftmost) (t.removeBelow q) := by
  cases t with
  | nil =>
    rw [Tree.removeBelow]
    exact h.result _
  | node c l k v r =>
    rw [Hooked.removeCall, Tree.removeBelow]
    split
    · split
      · exact h.next (h.repair _) (h.result _)
      · exact h.next (h.readyLeft _) (h.next (h.visits _)
          (h.next (hsearch _ _) (h.next (h.repair _) (h.result _))))
    · refine h.next (h.leanRight _) ?_
      dsimp only
      split
      · split
        · exact h.next (h.visits _) (h.result _)
        · exact h.next (h.repair _) (h.result _)
      · refine h.next (h.andThen (h.result _) (h.readyRight _)) ?_
        dsimp only
        split
        · exact h.takeTop (hleftmost _ _)
        · exact h.next (h.visits _)
            (h.next (hsearch _ _) (h.next (h.repair _) (h.result _)))

theorem popMin? (t : Tree κ ν) : R (Hooked.popMin? hooks t) t.popMin? := by
  rw [Hooked.popMin?]
  exact h.popMinCall t fun s _ => popMin? s
termination_by t.size

theorem removeBelow (q : Query κ) (t : Tree κ ν) :
    R (Hooked.removeBelow hooks q t) (t.removeBelow q) := by
  rw [Hooked.removeBelow]
  exact h.removeCall q t (fun s _ => removeBelow q s) fun s _ => h.popMin? s
termination_by t.size

theorem remove (q : Query κ) (t : Tree κ ν) : R (Hooked.remove hooks q t) (t.remove q) :=
  h.next (h.removeBelow q t) (h.result _)

end Passes
end Hooks

/-- A result and a record of what led to it. -/
def Logged (ε : Type u) (α : Type v) := List ε × α

namespace Logged
variable {ε : Type w}

instance : Monad (Logged ε) where
  pure a := ([], a)
  bind x f := (x.1 ++ (f x.2).1, (f x.2).2)

theorem fst_bind {α β : Type v} (x : Logged ε α) (f : α → Logged ε β) :
    (x >>= f).1 = x.1 ++ (f x.2).1 := rfl

instance : LawfulMonad (Logged ε) := LawfulMonad.mk' (Logged ε)
  (fun x => Prod.ext (List.append_nil x.1) rfl) (fun _ _ => rfl)
  (fun _ _ _ => Prod.ext (List.append_assoc _ _ _) rfl)

/-- Whatever is recorded, the result is that of the plain operation. -/
theorem passes (hooks : Hooks (Logged ε) κ ν) : hooks.Passes fun x a => x.2 = a where
  result _ := rfl
  next := by
    rintro _ _ _ _ _ _ rfl hf
    exact hf
  left _ _ := rfl
  right _ _ := rfl
  colors _ := rfl
  visits _ := rfl

end Logged

end RedBlackMap
