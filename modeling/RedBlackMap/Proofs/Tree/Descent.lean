import RedBlackMap.Proofs.Tree.Sound

/-!
# The way down of a removal

A removal enters a subtree only where there is a red link at its top or just below it.
One step down makes the next link ready and leaves a node that the repair on the way up
can close again, whatever subtree of the same black height comes back.
-/
namespace RedBlackMap
universe u v
variable {κ : Type u} {ν : Type v}

namespace Tree
variable {q : Query κ} {c : Color} {l r t : Tree κ ν} {k : κ} {v : ν} {b : Nat}

theorem Sound.eq_nil (h : t.Sound 0) (ht : t.isRed = false) : t = nil := by
  cases he : t.isEmpty with
  | true => cases t with
    | nil => rfl
    | node => cases he
  | false =>
    obtain ⟨l, k, v, r, rfl⟩ := exists_black ht he
    exact absurd h not_sound_zero

/-- A subtree that a removal may enter. A red link that leans right was lent from the left,
and the search goes to its side. -/
inductive Enterable (q : Query κ) : Tree κ ν → Nat → Prop
  | sound {t : Tree κ ν} {b : Nat} :
    t.Sound b → t.isRed = true ∨ t.left.isRed = true → Enterable q t b
  | swung {l r : Tree κ ν} {k : κ} {v : ν} {b : Nat} :
    q k ≠ .lt → l.isRed = false → r.isRed = true → l.Sound b → r.Sound b →
      Enterable q (node .black l k v r) (b + 1)

theorem Enterable.isEmpty_eq_false (h : t.Enterable q b) : t.isEmpty = false := by
  cases h with
  | sound _ hred => cases t with
    | nil => simp [left] at hred
    | node => rfl
  | swung => rfl

/-- The search of another query may enter too, if this one only goes left. -/
theorem Enterable.of_lt {q' : Query κ} (h : t.Enterable q b) (hlt : ∀ e ∈ t.toList, q e.1 = .lt) :
    t.Enterable q' b := by
  cases h with
  | sound h hred => exact .sound h hred
  | @swung l r k v b hk => exact absurd (hlt (k,v) (by simp [toList])) hk

theorem not_enterable (hl : l.isRed = false) (hr : r.isRed = false) :
    ¬ (node .black l k v r).Enterable q b := by
  rintro (⟨-, hred⟩ | ⟨-, -, hr', -, -⟩)
  · simp [left, hl] at hred
  · simp [hr] at hr'

/-- A removal may start at any sound tree, and goes on where it may enter. -/
def Admits (q : Query κ) (t : Tree κ ν) (b : Nat) : Prop := t.Sound b ∨ t.Enterable q b

/-- What a removal owes for a subtree of black height `b`: the height stays where it entered by
a red link, and falls by one at most below a black top. -/
structure Restored (q : Query κ) (t : Tree κ ν) (b : Nat) (t' : Tree κ ν) : Prop where
  sound : t.Enterable q b → t'.Sound b
  black : t.Enterable q b → t.isRed = false → t'.isRed = false
  root : t.isRed = false → ∃ b', t'.blacken.Balanced b' ∧ (b' = b ∨ b' + 1 = b)

theorem Restored.of_sound {t' : Tree κ ν} (h : t'.Sound b)
    (hc : t.isRed = false → t'.isRed = false) : Restored q t b t' where
  sound _ := h
  black _ := hc
  root ht := by
    rw [blacken_eq_self (hc ht)]
    exact ⟨b, balanced_iff.mpr ⟨hc ht, h⟩, .inl rfl⟩

end Tree

namespace Node
open RedBlackMap.Tree
variable {q : Query κ} {n : Node κ ν} {c : Color} {l r t : Tree κ ν} {k : κ} {v : ν} {b : Nat}

theorem repair_eq_self (hr : n.right.isRed = false)
    (hl : n.left.isRed = true → n.left.left.isRed = false) : n.repair = n := by
  unfold repair
  rw [if_neg (by simp [hr]), spread_eq_self hl, split_eq_self hr]

theorem repair_right {x : κ} {y : ν} {a d : Tree κ ν} (hl : l.isRed = false)
    (hd : d.isRed = false) :
    (⟨c,l,k,v,.node .red a x y d⟩ : Node κ ν).repair = ⟨c,.node .red l k v a,x,y,d⟩ := by
  simp [repair, rotateLeft, spread, split, Tree.left, hl, hd]

theorem repair_both {x x' : κ} {y y' : ν} {a a' d d' : Tree κ ν} :
    (⟨c,.node .red a x y d,k,v,.node .red a' x' y' d'⟩ : Node κ ν).repair =
      ⟨c.flip,.node .black a x y d,k,v,.node .black a' x' y' d'⟩ := by
  simp [repair, rotateLeft, rotateRight, spread, split, flip, flipTop, Color.flip, Tree.left]

theorem Poised.repair (h : n.Poised b) :
    n.repair.toTree.Sound (b + n.color.weight) ∧
      (n.color = .black → n.left.isRed = false ∨ n.right.isRed = false →
        n.repair.toTree.isRed = false) := by
  cases hr : n.right.isRed with
  | false =>
    rw [repair_eq_self hr h.left.left_isRed]
    rcases n with ⟨_ | _, l, k, v, r⟩
    · exact ⟨h.sound hr, nofun⟩
    · exact ⟨h.sound hr, fun _ _ => rfl⟩
  | true =>
    rcases n with ⟨_ | _, l, k, v, r⟩
    · cases (h.right_black rfl).symm.trans hr
    obtain ⟨a, x, y, d, rfl⟩ := exists_red hr
    obtain ⟨hab, hdb, ha, hd⟩ := sound_red.mp h.right
    cases hl : l.isRed with
    | false =>
      rw [repair_right hl hdb]
      exact ⟨sound_black.mpr ⟨hdb, sound_red.mpr ⟨hl, hab, h.left, ha⟩, hd⟩, fun _ _ => rfl⟩
    | true =>
      obtain ⟨a', x', y', d', rfl⟩ := exists_red hl
      obtain ⟨ha'b, hd'b, ha', hd'⟩ := sound_red.mp h.left
      rw [repair_both]
      refine ⟨sound_red.mpr ⟨rfl, rfl, sound_black.mpr ⟨hd'b, ha', hd'⟩,
        sound_black.mpr ⟨hdb, ha, hd⟩⟩, fun _ hlr => ?_⟩
      simp at hlr

/-- A red node over two subtrees of any colour, as at a root that was split on the way down. -/
theorem Level.repair_red (h : n.Level b) (hc : n.color = .red) :
    ∃ b', n.repair.toTree.blacken.Balanced b' ∧ (b' = b + 1 ∨ b' = b + 2) := by
  rcases n with ⟨c, l, k, v, r⟩
  obtain rfl : c = .red := hc
  cases hr : r.isRed with
  | false =>
    rw [repair_eq_self hr h.left.left_isRed]
    exact ⟨b + 1, balanced_iff.mpr ⟨rfl, sound_black.mpr ⟨hr, h.left, h.right⟩⟩, .inl rfl⟩
  | true =>
    obtain ⟨a, x, y, d, rfl⟩ := exists_red hr
    obtain ⟨hab, hdb, ha, hd⟩ := sound_red.mp h.right
    cases hl : l.isRed with
    | false =>
      rw [repair_right hl hdb]
      have hs : (node .black (.node .red l k v a) x y d).Sound (b + 1) :=
        sound_black.mpr ⟨hdb, sound_red.mpr ⟨hl, hab, h.left, ha⟩, hd⟩
      exact ⟨b + 1, balanced_iff.mpr ⟨rfl, hs⟩, .inl rfl⟩
    | true =>
      obtain ⟨a', x', y', d', rfl⟩ := exists_red hl
      obtain ⟨ha'b, hd'b, ha', hd'⟩ := sound_red.mp h.left
      rw [repair_both]
      have hs : (node .black (.node .black a' x' y' d') k v (.node .black a x y d)).Sound (b + 2) :=
        sound_black.mpr ⟨rfl, sound_black.mpr ⟨hd'b, ha', hd'⟩, sound_black.mpr ⟨hdb, ha, hd⟩⟩
      exact ⟨b + 2, balanced_iff.mpr ⟨rfl, hs⟩, .inr rfl⟩

theorem lendLeft_red {x x' : κ} {y y' : ν} {a d r' : Tree κ ν} :
    (⟨c,l,k,v,.node .black (.node .red a x y d) x' y' r'⟩ : Node κ ν).lendLeft =
      ⟨c,.node .black l.flipTop k v a,x,y,.node .black d x' y' r'⟩ := by
  cases c <;> simp [lendLeft, flip, rotateRightChild, rotateRight, rotateLeft, flipTop, toTree,
    Color.flip, Tree.left]

theorem lendLeft_black {x : κ} {y : ν} {a d : Tree κ ν} (ha : a.isRed = false) :
    (⟨c,l,k,v,.node .black a x y d⟩ : Node κ ν).lendLeft =
      ⟨c.flip,l.flipTop,k,v,.node .red a x y d⟩ := by
  simp [lendLeft, flip, flipTop, Color.flip, Tree.left, ha]

theorem lendRight_red {x x' : κ} {y y' : ν} {a d l' : Tree κ ν} :
    (⟨c,.node .black (.node .red a x y d) x' y' l',k,v,r⟩ : Node κ ν).lendRight =
      ⟨c,.node .black a x y d,x',y',.node .black l' k v r.flipTop⟩ := by
  cases c <;> simp [lendRight, flip, rotateRight, flipTop, Color.flip, Tree.left]

theorem lendRight_black {x : κ} {y : ν} {a d : Tree κ ν} (ha : a.isRed = false) :
    (⟨c,.node .black a x y d,k,v,r⟩ : Node κ ν).lendRight =
      ⟨c.flip,.node .red a x y d,k,v,r.flipTop⟩ := by
  simp [lendRight, flip, flipTop, Color.flip, Tree.left, ha]

theorem Poised.restored (h : n.Poised b)
    (ht : t.isRed = false → n.color = .black ∧ (n.left.isRed = false ∨ n.right.isRed = false)) :
    Restored q t (b + n.color.weight) n.repair.toTree :=
  .of_sound h.repair.1 fun hc => h.repair.2 (ht hc).1 (ht hc).2

/-- No link could be lent, so both children were made red: below a red top this is paid by the
top, and below a black one by the black height of the whole tree. -/
theorem flip_restored {t' : Tree κ ν} {x : κ} {y : ν} (hl : l.isRed = false)
    (hr : r.isRed = false) (ht : t.Sound b) (ht' : t'.Sound b) :
    Restored q (node c l k v r) (b + 1 + c.weight)
      (⟨c.flip,t,x,y,t'⟩ : Node κ ν).repair.toTree := by
  cases c with
  | red =>
    have hp : (⟨.black,t,x,y,t'⟩ : Node κ ν).Poised b := ⟨⟨ht, ht'⟩, nofun, nofun⟩
    exact hp.restored nofun
  | black =>
    have hlevel : (⟨.red,t,x,y,t'⟩ : Node κ ν).Level b := ⟨ht, ht'⟩
    refine ⟨fun h => absurd h (not_enterable hl hr), fun h => absurd h (not_enterable hl hr),
      fun _ => ?_⟩
    obtain ⟨b', hb, heq⟩ := hlevel.repair_red rfl
    exact ⟨b', hb, by simp only [Color.weight]; omega⟩

/-- The removal may go on to the left of `m`. What comes back from there, under any entry,
closes to what is owed for `t`. -/
structure OpensLeft (m : Node κ ν) (q q' : Query κ) (t : Tree κ ν) (b b' : Nat) : Prop where
  enter : m.left.Enterable q b'
  close : ∀ t' x y, t'.Sound b' → (m.left.isRed = false → t'.isRed = false) →
    Restored q' t b (⟨m.color,t',x,y,m.right⟩ : Node κ ν).repair.toTree

structure OpensRight (m : Node κ ν) (q : Query κ) (t : Tree κ ν) (b b' : Nat) : Prop where
  enter : m.right.Enterable q b'
  close : ∀ t' x y, t'.Sound b' → (m.right.isRed = false → t'.isRed = false) →
    Restored q t b (⟨m.color,m.left,x,y,t'⟩ : Node κ ν).repair.toTree

theorem color_eq_black (hc : (node c l k v r).isRed = false) : c = .black := by
  cases c with
  | red => cases hc
  | black => rfl

/-- A sound tree under a black link is empty only if its neighbour is. -/
theorem isEmpty_of_sound (h : t.Sound (b + 1)) : t.isEmpty = false := by
  cases t with
  | nil => cases sound_nil.mp h
  | node => rfl

/-- Without a red link on the left one is lent from the right. -/
theorem lendLeft_opens (hn : (⟨c,l,k,v,r⟩ : Node κ ν).Poised b) (hr : r.isRed = false)
    (hl : l.isEmpty = false) (hlb : l.isRed = false) (hllb : l.left.isRed = false)
    (q q' : Query κ) : ∃ b', (⟨c,l,k,v,r⟩ : Node κ ν).lendLeft.OpensLeft q q'
      (node c l k v r) (b + c.weight) b' := by
  obtain ⟨ll, lk, lv, lr, rfl⟩ := exists_black hlb hl
  obtain ⟨b, rfl⟩ := hn.left.eq_succ
  obtain ⟨hlrb, hll, hlr⟩ := sound_black.mp hn.left
  have hlred : (node .red ll lk lv lr).Sound b := sound_red.mpr ⟨hllb, hlrb, hll, hlr⟩
  obtain ⟨rl, rk, rv, rr, rfl⟩ := exists_black hr (isEmpty_of_sound hn.right)
  obtain ⟨hrrb, hrl, hrr⟩ := sound_black.mp hn.right
  cases hrlb : rl.isRed with
  | true =>
    obtain ⟨a, x, y, d, rfl⟩ := exists_red hrlb
    obtain ⟨hab, hdb, ha, hd⟩ := sound_red.mp hrl
    rw [lendLeft_red]
    refine ⟨b + 1, .sound (sound_black.mpr ⟨hab, hlred, ha⟩) (.inr rfl), ?_⟩
    intro t x' y' ht htb
    have hp : (⟨c,t,x',y',.node .black d rk rv rr⟩ : Node κ ν).Poised (b + 1) :=
      ⟨⟨ht, sound_black.mpr ⟨hrrb, hd, hrr⟩⟩, fun _ => htb rfl, fun _ => rfl⟩
    exact hp.restored fun hc => ⟨color_eq_black hc, .inr rfl⟩
  | false =>
    rw [lendLeft_black hrlb]
    refine ⟨b, .sound hlred (.inl rfl), ?_⟩
    intro t x y ht _
    exact flip_restored rfl rfl ht (sound_red.mpr ⟨hrlb, hrrb, hrl, hrr⟩)

theorem readyLeft_opens (h : n.toTree.Sound b) (hl : n.left.isEmpty = false)
    (q q' : Query κ) : ∃ b', n.readyLeft.OpensLeft q q' n.toTree b b' := by
  obtain ⟨b, rfl, hn, hr⟩ := exists_poised h
  rcases n with ⟨c, l, k, v, r⟩
  by_cases hred : l.isRed = true ∨ l.left.isRed = true
  · have hready : (⟨c,l,k,v,r⟩ : Node κ ν).readyLeft = ⟨c,l,k,v,r⟩ := by
      unfold readyLeft
      rw [if_neg (by simpa using fun h => hred.resolve_left (by simp [h]))]
    rw [hready]
    refine ⟨b, .sound hn.left hred, ?_⟩
    intro t x y ht htb
    have hp : (⟨c,t,x,y,r⟩ : Node κ ν).Poised b :=
      ⟨⟨ht, hn.right⟩, fun hc => htb (hn.left_black hc), fun _ => hr⟩
    exact hp.restored fun hc => ⟨color_eq_black hc, .inr hr⟩
  · obtain ⟨hlb, hllb⟩ := not_or.mp hred
    rw [Bool.not_eq_true] at hlb hllb
    have hready : (⟨c,l,k,v,r⟩ : Node κ ν).readyLeft = (⟨c,l,k,v,r⟩ : Node κ ν).lendLeft := by
      simp [readyLeft, hlb, hllb]
    rw [hready]
    exact lendLeft_opens hn hr hl hlb hllb q q'

/-- What the right side of a descent finds: a sound node, or one that the link was lent to. -/
theorem cases_of_admits (h : n.toTree.Admits q b) (hq : q n.key ≠ .lt) :
    ∃ b₀, b = b₀ + n.color.weight ∧ n.Poised b₀ ∧
      (n.right.isRed = true → n.color = .black ∧ n.left.isRed = false) := by
  rcases n with ⟨c, l, k, v, r⟩
  rcases h with h | ⟨h, -⟩ | ⟨-, hl, hr, hls, hrs⟩
  · obtain ⟨b₀, hb, hn, hr⟩ := exists_poised h
    exact ⟨b₀, hb, hn, fun h => by simp [hr] at h⟩
  · obtain ⟨b₀, hb, hn, hr⟩ := exists_poised h
    exact ⟨b₀, hb, hn, fun h => by simp [hr] at h⟩
  · exact ⟨_, rfl, ⟨⟨hls, hrs⟩, nofun, nofun⟩, fun _ => ⟨rfl, hl⟩⟩

/-- A red left child becomes the top, with the old top as its red right child. -/
theorem leanRight_opens {x : κ} {y : ν} {a d : Tree κ ν}
    (hn : (⟨c,.node .red a x y d,k,v,r⟩ : Node κ ν).Poised b) (hr : r.isRed = false)
    (q : Query κ) : ∃ b', (⟨c,.node .red a x y d,k,v,r⟩ : Node κ ν).leanRight.readyRight.OpensRight
      q (node c (.node .red a x y d) k v r) (b + c.weight) b' := by
  obtain ⟨hab, hdb, ha, hd⟩ := sound_red.mp hn.left
  have hready : (⟨c,.node .red a x y d,k,v,r⟩ : Node κ ν).leanRight.readyRight =
      ⟨c,a,x,y,.node .red d k v r⟩ := rfl
  rw [hready]
  obtain rfl : c = .black := by
    cases c with
    | red => cases hn.left_black rfl
    | black => rfl
  refine ⟨b, .sound (sound_red.mpr ⟨hdb, hr, hd, hn.right⟩) (.inl rfl), ?_⟩
  intro t x' y' ht _
  have hp : (⟨.black,a,x',y',t⟩ : Node κ ν).Poised b := ⟨⟨ha, ht⟩, nofun, nofun⟩
  exact hp.restored fun _ => ⟨rfl, .inl hab⟩

/-- Without a red link on the right one is lent from the left. -/
theorem lendRight_opens (hn : (⟨c,l,k,v,r⟩ : Node κ ν).Poised b) (hq : q k ≠ .lt)
    (hl : l.isRed = false) (hr : r.isEmpty = false) (hrb : r.isRed = false)
    (hrlb : r.left.isRed = false) : ∃ b', (⟨c,l,k,v,r⟩ : Node κ ν).lendRight.OpensRight q
      (node c l k v r) (b + c.weight) b' := by
  obtain ⟨rl, rk, rv, rr, rfl⟩ := exists_black hrb hr
  obtain ⟨b, rfl⟩ := hn.right.eq_succ
  obtain ⟨hrrb, hrl, hrr⟩ := sound_black.mp hn.right
  have hrred : (node .red rl rk rv rr).Sound b := sound_red.mpr ⟨hrlb, hrrb, hrl, hrr⟩
  obtain ⟨ll, lk, lv, lr, rfl⟩ := exists_black hl (isEmpty_of_sound hn.left)
  obtain ⟨hlrb, hll, hlr⟩ := sound_black.mp hn.left
  cases hllb : ll.isRed with
  | true =>
    obtain ⟨a, x, y, d, rfl⟩ := exists_red hllb
    obtain ⟨hab, hdb, ha, hd⟩ := sound_red.mp hll
    rw [lendRight_red]
    refine ⟨b + 1, .swung hq hlrb rfl hlr hrred, ?_⟩
    intro t x' y' ht htb
    have hp : (⟨c,.node .black a x y d,x',y',t⟩ : Node κ ν).Poised (b + 1) :=
      ⟨⟨sound_black.mpr ⟨hdb, ha, hd⟩, ht⟩, fun _ => rfl, fun _ => htb rfl⟩
    exact hp.restored fun hc => ⟨color_eq_black hc, .inl rfl⟩
  | false =>
    rw [lendRight_black hllb]
    refine ⟨b, .sound hrred (.inl rfl), ?_⟩
    intro t x y ht _
    exact flip_restored rfl rfl (sound_red.mpr ⟨hllb, hlrb, hll, hlr⟩) ht

/-- The links are made ready on the right, after a red link on the left was moved there. -/
theorem readyRight_opens (h : n.toTree.Admits q b) (hq : q n.key ≠ .lt)
    (hr : n.leanRight.right.isEmpty = false) :
    ∃ b', n.leanRight.readyRight.OpensRight q n.toTree b b' := by
  obtain ⟨b, rfl, hn, hrr⟩ := cases_of_admits h hq
  rcases n with ⟨c, l, k, v, r⟩
  cases hl : l.isRed with
  | true =>
    obtain ⟨a, x, y, d, rfl⟩ := exists_red hl
    have hrb : r.isRed = false := Bool.of_not_eq_true fun h => by simpa using (hrr h).2
    exact leanRight_opens hn hrb q
  | false =>
    have hlean : (⟨c,l,k,v,r⟩ : Node κ ν).leanRight = ⟨c,l,k,v,r⟩ := by simp [leanRight, hl]
    rw [hlean] at hr ⊢
    by_cases hred : r.isRed = true ∨ r.left.isRed = true
    · have hready : (⟨c,l,k,v,r⟩ : Node κ ν).readyRight = ⟨c,l,k,v,r⟩ := by
        unfold readyRight
        rw [if_neg (by simpa using fun h => hred.resolve_left (by simp [h]))]
      rw [hready]
      refine ⟨b, .sound hn.right hred, ?_⟩
      intro t x y ht htb
      have hp : (⟨c,l,x,y,t⟩ : Node κ ν).Poised b :=
        ⟨⟨hn.left, ht⟩, fun _ => hl, fun hc => htb (hn.right_black hc)⟩
      exact hp.restored fun hc => ⟨color_eq_black hc, .inl hl⟩
    · obtain ⟨hrb, hrlb⟩ := not_or.mp hred
      rw [Bool.not_eq_true] at hrb hrlb
      have hready : (⟨c,l,k,v,r⟩ : Node κ ν).readyRight = (⟨c,l,k,v,r⟩ : Node κ ν).lendRight := by
        simp [readyRight, hrb, hrlb]
      rw [hready]
      exact lendRight_opens hn hq hl hr hrb hrlb

end Node

end RedBlackMap
