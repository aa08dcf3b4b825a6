import RedBlackMap.Map.Basic

/-!
# Operations as data

An operation on one map and its answer as values, so that a history of a map is a
list of operations and its states are those that a run passes through.
-/
namespace RedBlackMap
universe u v

inductive Operation (κ : Type u) (ν : Type v)
  | insert (key : κ) (value : ν)
  | replace (key : κ) (value : ν)
  | remove (key : κ)
  | delete (key : κ)
  | find (key : κ)
  | get (key : κ)
  | contains (key : κ)
  | min
  | max
  | isEmpty
  | size
  | clear
  | insertMany (entries : List (κ × ν))
  | ofList (entries : List (κ × ν))

inductive Answer (κ : Type u) (ν : Type v)
  | done
  | flag (holds : Bool)
  | count (n : Nat)
  | value (found : Option ν)
  | entry (found : Option (κ × ν))
  | failure (error : LookupError)

namespace Operation
variable {κ : Type u} {ν : Type v} {cmp : Comparator κ}

def apply (m : Map κ ν cmp) : Operation κ ν → Answer κ ν × Map κ ν cmp
  | insert key value => (m.insert key value).map .flag id
  | replace key value => (m.replace key value).map .value id
  | remove key => (m.remove key).map .entry id
  | delete key => (m.delete key).map .flag id
  | find key => (.value (m.find? key), m)
  | get key =>
    match m.get key with
    | .ok value => (.value (some value), m)
    | .error e => (.failure e, m)
  | contains key => (.flag (m.contains key), m)
  | min => (.entry m.min?, m)
  | max => (.entry m.max?, m)
  | isEmpty => (.flag m.isEmpty, m)
  | size => (.count m.size, m)
  | clear => (.done, m.clear)
  | insertMany entries => (.done, m.insertMany entries)
  | ofList entries => (.done, .ofList cmp entries)

/-- Carries out a history and answers with each result in turn. -/
def run (m : Map κ ν cmp) : List (Operation κ ν) → List (Answer κ ν) × Map κ ν cmp
  | [] => ([], m)
  | op :: ops =>
    let (answer, next) := op.apply m
    let (answers, last) := run next ops
    (answer :: answers, last)

end Operation

end RedBlackMap
