import RedBlackMap.Proofs.Map.WellFormed
import RedBlackMap.Proofs.Tree.Counting

/-!
# Balance

The number of levels of a map is logarithmic in its count, after any history. Insertions alone
keep the rules of colour and balance even where the comparator is no order at all.
-/
namespace RedBlackMap.Map
universe u v
variable {κ : Type u} {ν : Type v} {cmp : Comparator κ} {S : κ → Prop} {m : Map κ ν cmp}
  {b : Nat}

/-- The black height bounds the count from both sides and the levels from above, and so the
count bounds the levels. -/
theorem height_bounds (hcmp : TotalPreorderOn cmp S) (hm : m.Reachable S) :
    (∃ b, m.root.BlackHeight b) ∧ ∀ b, m.root.BlackHeight b →
      2 ^ b ≤ m.size + 1 ∧ m.size + 1 ≤ 3 ^ b ∧ m.root.height ≤ 2 * b ∧
        2 ^ m.root.height ≤ (m.size + 1) ^ 2 ∧
          (m.root.height : ℝ) ≤ 2 * Real.logb 2 (m.size + 1) := by
  obtain ⟨⟨b₀, hb₀⟩, -, hsize⟩ := (hm.wellFormedOn hcmp).wellFormed
  refine ⟨⟨b₀, hb₀.blackHeight⟩, fun b hb => ?_⟩
  have hblack : m.root.isRed = false := hb₀.isRed_eq_false
  have hsound : m.root.Sound b := ⟨hb₀.leansLeft, hb⟩
  rw [hsize]
  exact ⟨hb.two_pow_le, hsound.size_lt.2 hblack, hsound.height_le.2 hblack,
    hsound.two_pow_height_le hblack, hsound.height_le_logb hblack⟩

/-- Eleven keys in ascending order, two of them removed again and one missed. -/
theorem height_bounds_ascending :
    let cmp : Comparator Nat := compare
    let m : Map Nat String cmp := (Operation.run ∅
      [.insertMany ((List.range 11).map fun n => (n,"v")),.remove 4,.remove 7,.delete 50]).2
    TotalPreorderOn cmp (· < 100) ∧ m.Reachable (· < 100) ∧ m.size = 9 ∧ m.root.height = 4 ∧
      (∃ b, m.root.BlackHeight b ∧ 2 ^ b ≤ 10 ∧ 10 ≤ 3 ^ b ∧ 4 ≤ 2 * b) ∧
      (4 : ℝ) ≤ 2 * Real.logb 2 10 := by
  intro cmp m
  have hcmp : TotalPreorderOn cmp (· < 100) := .of_transCmp compare _
  have hm : m.Reachable (· < 100) := ⟨_, by decide, rfl⟩
  have hsize : m.size = 9 := by decide +kernel
  have hheight : m.root.height = 4 := by decide +kernel
  obtain ⟨⟨b, hb⟩, hbounds⟩ := height_bounds hcmp hm
  obtain ⟨hleast, hmost, hlevels, -, hlog⟩ := hbounds b hb
  rw [hsize] at hleast hmost hlog
  rw [hheight] at hlevels hlog
  have hten : ((9 : Nat) : ℝ) + 1 = 10 := by norm_num
  rw [hten] at hlog
  exact ⟨hcmp, hm, hsize, hheight, ⟨b, hb, hleast, hmost, hlevels⟩, hlog⟩

/-- The black height grows by one at most with each insertion. -/
theorem blackHeight_insertMany (hm : m.root.Balanced b) (es : List (κ × ν)) :
    ∃ b', (m.insertMany es).root.Balanced b' ∧ b ≤ b' ∧ b' ≤ b + es.length := by
  induction es generalizing m b with
  | nil => exact ⟨b, hm, Nat.le_refl b, Nat.le_refl b⟩
  | cons e es ih =>
    obtain ⟨b₁, hm₁, hb₁⟩ := hm.insert cmp e.1 e.2
    obtain ⟨b₂, hm₂, hleast, hmost⟩ := ih (m := (m.insert e.1 e.2).2) hm₁
    rw [List.length_cons]
    exact ⟨b₂, hm₂, by omega, by omega⟩

/-- Whatever the comparator answers, an insertion keeps the rules of colour and balance, and
the black height stays or grows by one. So no number of insertions leaves a node with two red
children. -/
theorem insertMany_balanced (hm : m.root.Balanced b) :
    (∀ (key : κ) (value : ν), ∃ b', (m.root.insert cmp key value).2.Balanced b' ∧
      (b' = b ∨ b' = b + 1)) ∧
    ∀ es : List (κ × ν), ∃ b', (m.insertMany es).root.Balanced b' ∧ b ≤ b' ∧
      b' ≤ b + es.length ∧ (m.insertMany es).root.NoFourNode := by
  refine ⟨hm.insert cmp, fun es => ?_⟩
  obtain ⟨b', hb', hleast, hmost⟩ := blackHeight_insertMany hm es
  exact ⟨b', hb', hleast, hmost, hb'.leansLeft.noFourNode⟩

/-- With "at most" for "less" a key is never equal to itself and goes in as often as it comes;
what is not a number is equal to whatever it meets first. -/
theorem insertMany_balanced_unordered :
    let atMost : Comparator Nat := .ofLess fun a b => a ≤ b
    let m : Map Nat String atMost := ∅
    let usual : Comparator Binary64 := .ofPartial Binary64.compare?
    let n : Map Binary64 String usual := ∅
    let nan : Binary64 := ⟨0x7ff8000000000000⟩
    let es : List (Binary64 × String) := [(.ofInt 1,"b"),(nan,"c"),(.ofInt 2,"d")]
    m.root.Balanced 0 ∧ n.root.Balanced 0 ∧
      (m.insertMany (List.replicate 20 (5,"a"))).size = 20 ∧
      (∃ b, (m.insertMany (List.replicate 20 (5,"a"))).root.Balanced b ∧ b ≤ 20) ∧
      (m.insertMany (List.replicate 20 (5,"a"))).root.NoFourNode ∧
      (n.insertMany es).toList = [(.ofInt 1,"c"),(.ofInt 2,"d")] ∧
      ∃ b, (n.insertMany es).root.Balanced b := by
  intro atMost m usual n nan es
  have hm : m.root.Balanced 0 := Tree.balanced_nil
  have hn : n.root.Balanced 0 := Tree.balanced_nil
  obtain ⟨b, hb, -, hmost, hfour⟩ := (insertMany_balanced hm).2 (List.replicate 20 (5,"a"))
  obtain ⟨b', hb', -⟩ := (insertMany_balanced hn).2 es
  exact ⟨hm, hn, by decide +kernel, ⟨b, hb, by simpa using hmost⟩, hfour, by decide +kernel,
    b', hb'⟩

end RedBlackMap.Map
