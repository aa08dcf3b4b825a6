import RedBlackMap.Order.Comparator

/-!
# Laws of orders

The laws that make a comparator an order on a set of keys, the laws of a "less than"
predicate, and what it means that a query cuts a sequence of keys.
-/
namespace RedBlackMap
universe u
variable {κ : Type u}

/-- A total preorder on the keys in `S`. Unequal keys may compare as equal. -/
structure TotalPreorderOn (cmp : Comparator κ) (S : κ → Prop) : Prop where
  refl : ∀ a, S a → cmp a a = .eq
  swap : ∀ a b, S a → S b → cmp b a = (cmp a b).swap
  trans : ∀ a b c, S a → S b → S c →
    (cmp a b).isLE = true → (cmp b c).isLE = true → (cmp a c).isLE = true

/-- A strict order in which incomparability is transitive. -/
structure StrictWeakOrder (less : κ → κ → Bool) : Prop where
  irrefl : ∀ a, less a a = false
  trans : ∀ a b c, less a b = true → less b c = true → less a c = true
  incomparable_trans : ∀ a b c, less a b = false → less b a = false →
    less b c = false → less c b = false → less a c = false ∧ less c a = false

/-- The query is greater than the keys before a block, equal to those in the block, and less
than those behind it. -/
structure Query.Cuts (q : Query κ) (before block after : List κ) : Prop where
  gt_before : ∀ k ∈ before, q k = .gt
  eq_block : ∀ k ∈ block, q k = .eq
  lt_after : ∀ k ∈ after, q k = .lt

end RedBlackMap
