import RedBlackMap.Proofs.Tree.Sound
import Mathlib.Analysis.SpecialFunctions.Log.Base

/-!
# Nodes and levels for a black height

A tree of black height `b` has `2 ^ b - 1` nodes at least. If it is sound and its top is black,
it has `3 ^ b - 1` nodes and `2 * b` levels at most, so that the number of levels is
logarithmic in the number of nodes.
-/
namespace RedBlackMap.Tree
universe u v
variable {κ : Type u} {ν : Type v} {t : Tree κ ν} {b : Nat}

theorem BlackHeight.two_pow_le (h : t.BlackHeight b) : 2 ^ b ≤ t.size + 1 := by
  induction h with
  | nil => exact Nat.le_refl 1
  | red k v _ _ ihl ihr =>
    rw [size]
    omega
  | black k v _ _ ihl ihr =>
    rw [size, pow_succ]
    omega

/-- A red top stands over two black ones, and a black top over a red one on the left at most. -/
theorem Sound.size_lt (h : t.Sound b) :
    t.size + 1 ≤ 2 * 3 ^ b ∧ (t.isRed = false → t.size + 1 ≤ 3 ^ b) := by
  induction t generalizing b with
  | nil =>
    obtain rfl := sound_nil.mp h
    simp [size]
  | node c l k v r ihl ihr =>
    obtain ⟨b, rfl, hl, hr, hrb, hlb⟩ := h.children
    have hleft := ihl hl
    have hright : r.size + 1 ≤ 3 ^ b := (ihr hr).2 hrb
    rw [size]
    cases c with
    | red =>
      have hblack : l.size + 1 ≤ 3 ^ b := hleft.2 (hlb rfl)
      refine ⟨?_, fun hc => ?_⟩
      · simp only [Color.weight, Nat.add_zero]
        omega
      · cases hc
    | black =>
      simp only [Color.weight, pow_succ]
      omega

/-- No two red nodes follow each other on a path. -/
theorem Sound.height_le (h : t.Sound b) :
    t.height ≤ 2 * b + 1 ∧ (t.isRed = false → t.height ≤ 2 * b) := by
  induction t generalizing b with
  | nil => simp [height]
  | node c l k v r ihl ihr =>
    obtain ⟨b, rfl, hl, hr, hrb, hlb⟩ := h.children
    have hleft := ihl hl
    have hright : r.height ≤ 2 * b := (ihr hr).2 hrb
    rw [height]
    cases c with
    | red =>
      have hblack : l.height ≤ 2 * b := hleft.2 (hlb rfl)
      refine ⟨?_, nofun⟩
      rw [Color.weight]
      omega
    | black =>
      rw [Color.weight]
      omega

theorem Sound.two_pow_height_le (h : t.Sound b) (ht : t.isRed = false) :
    2 ^ t.height ≤ (t.size + 1) ^ 2 := by
  calc
    2 ^ t.height ≤ 2 ^ (2 * b) := Nat.pow_le_pow_right two_pos (h.height_le.2 ht)
    _ = (2 ^ b) ^ 2 := by rw [Nat.mul_comm, pow_mul]
    _ ≤ (t.size + 1) ^ 2 := Nat.pow_le_pow_left h.blackHeight.two_pow_le 2

theorem Sound.height_le_logb (h : t.Sound b) (ht : t.isRed = false) :
    (t.height : ℝ) ≤ 2 * Real.logb 2 (t.size + 1) := by
  have hpow : (2 : ℝ) ^ t.height ≤ ((t.size : ℝ) + 1) ^ 2 := by
    exact_mod_cast h.two_pow_height_le ht
  calc
    (t.height : ℝ) = Real.logb 2 (2 ^ t.height) := by
      rw [Real.logb_pow, Real.logb_self_eq_one one_lt_two, mul_one]
    _ ≤ Real.logb 2 (((t.size : ℝ) + 1) ^ 2) :=
      Real.logb_le_logb_of_le one_lt_two (by positivity) hpow
    _ = 2 * Real.logb 2 (t.size + 1) := by rw [Real.logb_pow, Nat.cast_ofNat]

end RedBlackMap.Tree
