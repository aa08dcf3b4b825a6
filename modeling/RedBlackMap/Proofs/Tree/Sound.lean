import RedBlackMap.Tree.Invariant
import RedBlackMap.Tree.Rotation

/-!
# Sound subtrees and nodes under repair

A subtree is sound if it keeps the rules of colour and balance, with a top of either
colour. A node under repair has two subtrees that are sound to the same black height,
and its links may be red on either side where the node itself is black.
-/
namespace RedBlackMap
universe u v
variable {κ : Type u} {ν : Type v}

def Color.weight : Color → Nat
  | .red => 0
  | .black => 1

namespace Tree
variable {c : Color} {l r t : Tree κ ν} {k : κ} {v : ν} {b b' : Nat}

@[simp] theorem isRed_nil : (nil : Tree κ ν).isRed = false := rfl
@[simp] theorem isRed_red : (node .red l k v r).isRed = true := rfl
@[simp] theorem isRed_black : (node .black l k v r).isRed = false := rfl

theorem isRed_blacken (t : Tree κ ν) : t.blacken.isRed = false := by cases t <;> rfl

theorem exists_red (h : t.isRed = true) : ∃ l k v r, t = node .red l k v r := by
  rcases t with _ | ⟨_ | _, l, k, v, r⟩
  · cases h
  · exact ⟨l, k, v, r, rfl⟩
  · cases h

theorem exists_black (h : t.isRed = false) (ht : t.isEmpty = false) :
    ∃ l k v r, t = node .black l k v r := by
  rcases t with _ | ⟨_ | _, l, k, v, r⟩
  · cases ht
  · cases h
  · exact ⟨l, k, v, r, rfl⟩

theorem blacken_eq_self (h : t.isRed = false) : t.blacken = t := by
  rcases t with _ | ⟨_ | _, l, k, v, r⟩
  · rfl
  · cases h
  · rfl

theorem blackHeight_nil : (nil : Tree κ ν).BlackHeight b ↔ b = 0 := by
  constructor
  · rintro ⟨⟩
    rfl
  · rintro rfl
    exact .nil

theorem blackHeight_red :
    (node .red l k v r).BlackHeight b ↔ l.BlackHeight b ∧ r.BlackHeight b := by
  constructor
  · rintro (_ | ⟨_, _, hl, hr⟩)
    exact ⟨hl, hr⟩
  · exact fun ⟨hl, hr⟩ => .red k v hl hr

theorem blackHeight_black :
    (node .black l k v r).BlackHeight (b + 1) ↔ l.BlackHeight b ∧ r.BlackHeight b := by
  constructor
  · rintro (_ | _ | ⟨_, _, hl, hr⟩)
    exact ⟨hl, hr⟩
  · exact fun ⟨hl, hr⟩ => .black k v hl hr

theorem not_blackHeight_zero : ¬ (node .black l k v r).BlackHeight 0 := nofun

/-- A left-leaning red-black tree of black height `b`, with a top of either colour. -/
structure Sound (t : Tree κ ν) (b : Nat) : Prop where
  leansLeft : t.LeansLeft
  blackHeight : t.BlackHeight b

@[simp] theorem sound_nil : (nil : Tree κ ν).Sound b ↔ b = 0 :=
  ⟨fun h => blackHeight_nil.mp h.blackHeight, fun h => ⟨trivial, blackHeight_nil.mpr h⟩⟩

@[simp] theorem sound_red : (node .red l k v r).Sound b ↔
    l.isRed = false ∧ r.isRed = false ∧ l.Sound b ∧ r.Sound b := by
  constructor
  · rintro ⟨⟨hr, hl, hll, hlr⟩, hb⟩
    obtain ⟨hbl, hbr⟩ := blackHeight_red.mp hb
    exact ⟨hl rfl, hr, ⟨hll, hbl⟩, ⟨hlr, hbr⟩⟩
  · rintro ⟨hl, hr, ⟨hll, hbl⟩, ⟨hlr, hbr⟩⟩
    exact ⟨⟨hr, fun _ => hl, hll, hlr⟩, blackHeight_red.mpr ⟨hbl, hbr⟩⟩

@[simp] theorem sound_black : (node .black l k v r).Sound (b + 1) ↔
    r.isRed = false ∧ l.Sound b ∧ r.Sound b := by
  constructor
  · rintro ⟨⟨hr, -, hll, hlr⟩, hb⟩
    obtain ⟨hbl, hbr⟩ := blackHeight_black.mp hb
    exact ⟨hr, ⟨hll, hbl⟩, ⟨hlr, hbr⟩⟩
  · rintro ⟨hr, ⟨hll, hbl⟩, ⟨hlr, hbr⟩⟩
    exact ⟨⟨hr, nofun, hll, hlr⟩, blackHeight_black.mpr ⟨hbl, hbr⟩⟩

@[simp] theorem not_sound_zero : ¬ (node .black l k v r).Sound 0 :=
  fun h => not_blackHeight_zero h.blackHeight

theorem Sound.eq_succ (h : (node .black l k v r).Sound b) : ∃ b', b = b' + 1 := by
  cases b with
  | zero => exact absurd h not_sound_zero
  | succ b => exact ⟨b, rfl⟩

theorem Sound.children (h : (node c l k v r).Sound b) :
    ∃ b', b = b' + c.weight ∧ l.Sound b' ∧ r.Sound b' ∧ r.isRed = false ∧
      (c = .red → l.isRed = false) := by
  cases c with
  | red =>
    obtain ⟨hl, hr, hls, hrs⟩ := sound_red.mp h
    exact ⟨b, rfl, hls, hrs, hr, fun _ => hl⟩
  | black =>
    obtain ⟨b', rfl⟩ := h.eq_succ
    obtain ⟨hr, hls, hrs⟩ := sound_black.mp h
    exact ⟨b', rfl, hls, hrs, hr, nofun⟩

theorem LeansLeft.left_isRed (h : t.LeansLeft) (ht : t.isRed = true) : t.left.isRed = false := by
  obtain ⟨l, k, v, r, rfl⟩ := exists_red ht
  exact h.2.1 rfl

theorem Sound.left_isRed (h : t.Sound b) (ht : t.isRed = true) : t.left.isRed = false :=
  h.leansLeft.left_isRed ht

theorem balanced_iff : t.Balanced b ↔ t.isRed = false ∧ t.Sound b :=
  ⟨fun h => ⟨h.isRed_eq_false, h.leansLeft, h.blackHeight⟩,
    fun h => ⟨h.1, h.2.leansLeft, h.2.blackHeight⟩⟩

theorem balanced_nil : (nil : Tree κ ν).Balanced 0 := ⟨rfl, trivial, .nil⟩

def NoFourNode : Tree κ ν → Prop
  | nil => True
  | node _ l _ _ r => ¬ (l.isRed = true ∧ r.isRed = true) ∧ l.NoFourNode ∧ r.NoFourNode

theorem LeansLeft.noFourNode (h : t.LeansLeft) : t.NoFourNode := by
  induction t with
  | nil => trivial
  | node c l k v r ihl ihr =>
    obtain ⟨hr, -, hll, hlr⟩ := h
    exact ⟨by simp [hr], ihl hll, ihr hlr⟩

/-- What an insertion may leave behind: the top and its left child may both be red. -/
structure Risen (t : Tree κ ν) (b : Nat) : Prop where
  leansLeft : t.blacken.LeansLeft
  blackHeight : t.BlackHeight b

@[simp] theorem risen_red : (node .red l k v r).Risen b ↔
    r.isRed = false ∧ l.Sound b ∧ r.Sound b := by
  constructor
  · rintro ⟨⟨hr, -, hll, hlr⟩, hb⟩
    obtain ⟨hbl, hbr⟩ := blackHeight_red.mp hb
    exact ⟨hr, ⟨hll, hbl⟩, ⟨hlr, hbr⟩⟩
  · rintro ⟨hr, ⟨hll, hbl⟩, ⟨hlr, hbr⟩⟩
    exact ⟨⟨hr, nofun, hll, hlr⟩, blackHeight_red.mpr ⟨hbl, hbr⟩⟩

theorem Risen.sound (h : t.Risen b) (ht : t.isRed = false) : t.Sound b :=
  ⟨blacken_eq_self ht ▸ h.leansLeft, h.blackHeight⟩

theorem Sound.risen (h : t.Sound b) : t.Risen b := by
  cases ht : t.isRed with
  | true =>
    obtain ⟨l, k, v, r, rfl⟩ := exists_red ht
    exact risen_red.mpr (sound_red.mp h).2
  | false => exact ⟨(blacken_eq_self ht).symm ▸ h.leansLeft, h.blackHeight⟩

/-- A black top settles what an insertion left behind. -/
theorem Risen.blacken (h : t.Risen b) :
    ∃ b', t.blacken.Balanced b' ∧ (b' = b ∨ b' = b + 1) := by
  cases ht : t.isRed with
  | true =>
    obtain ⟨l, k, v, r, rfl⟩ := exists_red ht
    exact ⟨b + 1, balanced_iff.mpr ⟨rfl, sound_black.mpr (risen_red.mp h)⟩, .inr rfl⟩
  | false =>
    rw [blacken_eq_self ht]
    exact ⟨b, balanced_iff.mpr ⟨ht, h.sound ht⟩, .inl rfl⟩

end Tree

namespace Node
open RedBlackMap.Tree
variable {n : Node κ ν} {c : Color} {l r : Tree κ ν} {k : κ} {v : ν} {b : Nat}

structure Level (n : Node κ ν) (b : Nat) : Prop where
  left : n.left.Sound b
  right : n.right.Sound b

/-- A node in a place where it may hold red links on either side: it is black, or it has none. -/
structure Poised (n : Node κ ν) (b : Nat) : Prop extends Level n b where
  left_black : n.color = .red → n.left.isRed = false
  right_black : n.color = .red → n.right.isRed = false

theorem exists_poised (h : n.toTree.Sound b) :
    ∃ b', b = b' + n.color.weight ∧ n.Poised b' ∧ n.right.isRed = false := by
  obtain ⟨b', hb, hl, hr, hrb, hlb⟩ := h.children
  exact ⟨b', hb, ⟨⟨hl, hr⟩, hlb, fun _ => hrb⟩, hrb⟩

theorem Poised.sound (h : n.Poised b) (hr : n.right.isRed = false) :
    n.toTree.Sound (b + n.color.weight) := by
  rcases n with ⟨_ | _, l, k, v, r⟩
  · exact sound_red.mpr ⟨h.left_black rfl, hr, h.left, h.right⟩
  · exact sound_black.mpr ⟨hr, h.left, h.right⟩

theorem spread_eq_self (h : n.left.isRed = true → n.left.left.isRed = false) : n.spread = n := by
  unfold spread
  cases hl : n.left.isRed
  · rfl
  · simp [h hl]

theorem split_eq_self (h : n.right.isRed = false) : n.split = n := by simp [split, h]

end Node

end RedBlackMap
