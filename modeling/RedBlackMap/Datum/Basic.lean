import RedBlackMap.Binary64.Basic
import RedBlackMap.Map.Basic

/-!
# Data that can be written

Keys, values and whole maps as one type of data, for the printer to write.
-/
namespace RedBlackMap
universe u v

inductive Datum
  | int (n : Int)
  | float (x : Binary64)
  | text (s : String)
  | tuple (items : List Datum)
  | list (items : List Datum)
  | map (entries : List (Datum × Datum))

class ToDatum (α : Type u) where
  toDatum : α → Datum

export ToDatum (toDatum)

instance : ToDatum Int := ⟨.int⟩
instance : ToDatum Binary64 := ⟨.float⟩
instance : ToDatum String := ⟨.text⟩

instance {α : Type u} {β : Type v} [ToDatum α] [ToDatum β] : ToDatum (α × β) :=
  ⟨fun p => .tuple [toDatum p.1, toDatum p.2]⟩

instance {α : Type u} [ToDatum α] : ToDatum (List α) := ⟨fun as => .list (as.map toDatum)⟩

instance {κ : Type u} {ν : Type v} {cmp : Comparator κ} [ToDatum κ] [ToDatum ν] :
    ToDatum (Map κ ν cmp) :=
  ⟨fun m => .map ((m.cursor .shared).toList.map fun e => (toDatum e.1, toDatum e.2))⟩

end RedBlackMap
