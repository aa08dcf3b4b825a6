import RedBlackMap.Map.Operation
import RedBlackMap.Proofs.Entries.Lookup

/-!
# Operations on ascending entries

The operations of a map as they act on the plain list of its entries, and their answers.
-/
namespace RedBlackMap
universe u v
variable {κ : Type u} {ν : Type v}

def Operation.keys : Operation κ ν → List κ
  | insert key _ | replace key _ | remove key | delete key | find key | get key | contains key =>
    [key]
  | insertMany entries | ofList entries => entries.map (·.1)
  | min | max | isEmpty | size | clear => []

namespace Entries

def insertMany (cmp : Comparator κ) (es new : List (κ × ν)) : List (κ × ν) :=
  new.foldl (fun es e => insert cmp e.1 e.2 es) es

/-- Carries out an operation on ascending entries. -/
def apply (cmp : Comparator κ) (es : List (κ × ν)) : Operation κ ν → Answer κ ν × List (κ × ν)
  | .insert key value => (.flag (find? cmp key es).isNone,insert cmp key value es)
  | .replace key value => (.value ((find? cmp key es).map (·.2)),replace cmp key value es)
  | .remove key => (.entry (find? cmp key es),erase cmp key es)
  | .delete key => (.flag (find? cmp key es).isSome,erase cmp key es)
  | .find key => (.value ((find? cmp key es).map (·.2)),es)
  | .get key =>
    match find? cmp key es with
    | some e => (.value (some e.2),es)
    | none => (.failure .keyNotFound,es)
  | .contains key => (.flag (find? cmp key es).isSome,es)
  | .min => (.entry es.head?,es)
  | .max => (.entry es.getLast?,es)
  | .isEmpty => (.flag es.isEmpty,es)
  | .size => (.count es.length,es)
  | .clear => (.done,[])
  | .insertMany new => (.done,insertMany cmp es new)
  | .ofList new => (.done,insertMany cmp [] new)

def run (cmp : Comparator κ) (es : List (κ × ν)) :
    List (Operation κ ν) → List (Answer κ ν) × List (κ × ν)
  | [] => ([],es)
  | op :: ops =>
    let (answer, next) := apply cmp es op
    let (answers, last) := run cmp next ops
    (answer :: answers,last)

variable {cmp : Comparator κ} {S : κ → Prop} {es new : List (κ × ν)} {op : Operation κ ν}

theorem Ordered.insertMany (hes : Ordered cmp S es) (h : TotalPreorderOn cmp S)
    (hnew : ∀ e ∈ new, S e.1) : Ordered cmp S (insertMany cmp es new) := by
  induction new generalizing es with
  | nil => exact hes
  | cons e new ih => exact ih (hes.insert h (hnew e (by simp))) fun x hx => hnew x (by simp [hx])

theorem Ordered.apply (hes : Ordered cmp S es) (h : TotalPreorderOn cmp S)
    (hop : ∀ k ∈ op.keys, S k) : Ordered cmp S (apply cmp es op).2 := by
  cases op with
  | insert key value => exact hes.insert h (hop key (by simp [Operation.keys]))
  | replace key value => exact hes.replace
  | remove key => exact hes.erase
  | delete key => exact hes.erase
  | get key =>
    rw [Entries.apply]
    split <;> exact hes
  | clear => exact ordered_nil
  | insertMany new => exact hes.insertMany h fun e he => hop e.1 (List.mem_map_of_mem he)
  | ofList new => exact ordered_nil.insertMany h fun e he => hop e.1 (List.mem_map_of_mem he)
  | find key => exact hes
  | contains key => exact hes
  | min => exact hes
  | max => exact hes
  | isEmpty => exact hes
  | size => exact hes

end Entries

end RedBlackMap
