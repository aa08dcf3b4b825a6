import RedBlackMap.Map.Basic

/-!
# Maps for tests

A map of generated entries, and the candidates for a smaller map when a failing
example is to be reduced. The entries are shrunk as a list, and each shorter or
smaller list is made into a map.
-/
namespace RedBlackMap
universe u v w

def shrinkElement {α : Type u} (smaller : α → List α) : List α → List (List α)
  | [] => []
  | a :: as => (smaller a).map (· :: as) ++ (shrinkElement smaller as).map (a :: ·)

/-- The list without each of its chunks of `size` elements. A rest at the end that does not
fill a chunk stays. -/
def dropChunks {α : Type u} (size : Nat) (as : List α) : List (List α) :=
  (List.range (as.length / size)).map fun i => as.take (i * size) ++ as.drop ((i + 1) * size)

/-- The lengths `n / 2`, `n / 4`, … down to one. -/
def halvings (n : Nat) : List Nat :=
  if n / 2 = 0 then [] else n / 2 :: halvings (n / 2)
termination_by n
decreasing_by omega

/-- The empty list, then the lists without one chunk, longer chunks first, then the lists
with one smaller element. An empty list has no smaller ones. -/
def shrinkList {α : Type u} (smaller : α → List α) : List α → List (List α)
  | [] => []
  | as@(_ :: _) =>
    [] :: (halvings as.length).flatMap (dropChunks · as) ++ shrinkElement smaller as

def halfOf (n : Int) : List Int := if n = 0 then [] else [n.tdiv 2]

def withoutLast (s : String) : List String :=
  match s.toList with
  | [] => []
  | cs@(_ :: _) => [String.ofList cs.dropLast]

namespace Map
variable {κ : Type u} {ν : Type v} {γ : Type w} {cmp : Comparator κ}

def generate (cmp : Comparator κ) (entries : γ → List (κ × ν) × γ) (g : γ) : Map κ ν cmp × γ :=
  (entries g).map (.ofList cmp) id

def shrinkWith (candidates : List (κ × ν) → List (List (κ × ν))) (m : Map κ ν cmp) :
    List (Map κ ν cmp) :=
  (candidates (m.cursor .owned).toList).map (.ofList cmp)

/-- Smaller maps. Keys give way to their smaller forms, and values stay. -/
def shrink (smaller : κ → List κ) (m : Map κ ν cmp) : List (Map κ ν cmp) :=
  m.shrinkWith (shrinkList fun e => (smaller e.1).map fun k => (k, e.2))

end Map

end RedBlackMap
