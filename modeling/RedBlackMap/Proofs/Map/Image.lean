import RedBlackMap.Map.Operation
import RedBlackMap.Proofs.Tree.Image

/-!
# Histories of images

A history with its keys replaced by their images runs on the image of a map as the history
itself does on the map, where the images compare as the keys do: the answers differ in the
keys they show alone, and the trees have the same shape and colours at every step.
-/
namespace RedBlackMap
universe u v u'
variable {κ : Type u} {ν : Type v} {κ' : Type u'}

def Map.mapKeys {cmp : Comparator κ} {cmp' : Comparator κ'} (f : κ → κ') (m : Map κ ν cmp) :
    Map κ' ν cmp' :=
  ⟨m.root.image f id, m.size⟩

def Operation.mapKeys (f : κ → κ') : Operation κ ν → Operation κ' ν
  | insert key value => insert (f key) value
  | replace key value => replace (f key) value
  | remove key => remove (f key)
  | delete key => delete (f key)
  | find key => find (f key)
  | get key => get (f key)
  | contains key => contains (f key)
  | min => min
  | max => max
  | isEmpty => isEmpty
  | size => size
  | clear => clear
  | insertMany entries => insertMany (entries.map (Prod.map f id))
  | ofList entries => ofList (entries.map (Prod.map f id))

/-- The answer with the image of the key it shows. Flags, counts and values stay. -/
def Answer.mapKeys (f : κ → κ') : Answer κ ν → Answer κ' ν
  | entry found => entry (found.map (Prod.map f id))
  | done => done
  | flag holds => flag holds
  | count n => count n
  | value found => value found
  | failure error => failure error

variable {cmp : Comparator κ} {cmp' : Comparator κ'} {f : κ → κ'}
  (hf : ∀ a b, cmp' (f a) (f b) = cmp a b)

namespace Map
variable (m : Map κ ν cmp)
include hf

theorem insert_mapKeys (key : κ) (value : ν) :
    (m.mapKeys f : Map κ' ν cmp').insert (f key) value =
      ((m.insert key value).1,(m.insert key value).2.mapKeys f) := by
  have htree := Tree.insert_image f id hf key value m.root
  rw [id_eq] at htree
  simp only [insert, mapKeys, htree]
  rfl

theorem find?_mapKeys (key : κ) :
    (m.mapKeys f : Map κ' ν cmp').find? (f key) = m.find? key := by
  have htree := Tree.find?_image f (id : ν → ν) (hf key) m.root
  simp only [find?, valueAt?, entryAt?, mapKeys, htree, Option.map_map]
  rfl

theorem replace_mapKeys (key : κ) (value : ν) :
    (m.mapKeys f : Map κ' ν cmp').replace (f key) value =
      ((m.replace key value).1,(m.replace key value).2.mapKeys f) := by
  have hstore : ∀ v : ν, Function.const ν value (id v) = id (Function.const ν value v) :=
    fun _ => rfl
  have htree : (m.root.image f id).modify (cmp' (f key)) (Function.const ν value) =
      (m.root.modify (cmp key) (Function.const ν value)).image f id :=
    Tree.modify_image f id (hf key) hstore m.root
  rw [replace, find?_mapKeys hf]
  exact congrArg (fun t => (m.find? key,(⟨t,m.size⟩ : Map κ' ν cmp'))) htree

theorem remove_mapKeys (key : κ) :
    (m.mapKeys f : Map κ' ν cmp').remove (f key) =
      ((m.remove key).1.map (Prod.map f id),(m.remove key).2.mapKeys f) := by
  have htree := Tree.remove_image f (id : ν → ν) (hf key) m.root
  simp only [remove, removeAt, mapKeys, htree]
  simp

theorem insertMany_mapKeys (es : List (κ × ν)) :
    (m.mapKeys f : Map κ' ν cmp').insertMany (es.map (Prod.map f id)) =
      (m.insertMany es).mapKeys f := by
  induction es generalizing m with
  | nil => rfl
  | cons e es ih =>
    have hstep : ((m.mapKeys f : Map κ' ν cmp').insert (f e.1) e.2).2 =
        (m.insert e.1 e.2).2.mapKeys f := by
      rw [insert_mapKeys hf]
    calc (m.mapKeys f : Map κ' ν cmp').insertMany ((e :: es).map (Prod.map f id))
        = ((m.mapKeys f : Map κ' ν cmp').insert (f e.1) e.2).2.insertMany
            (es.map (Prod.map f id)) := rfl
      _ = ((m.insert e.1 e.2).2.mapKeys f).insertMany (es.map (Prod.map f id)) := by rw [hstep]
      _ = ((m.insert e.1 e.2).2.insertMany es).mapKeys f := ih _

end Map

namespace Operation
include hf

theorem apply_mapKeys (m : Map κ ν cmp) (op : Operation κ ν) :
    (op.mapKeys f).apply (m.mapKeys f : Map κ' ν cmp') =
      ((op.apply m).1.mapKeys f,(op.apply m).2.mapKeys f) := by
  cases op with
  | insert key value => simp only [mapKeys, apply, m.insert_mapKeys hf]; rfl
  | replace key value => simp only [mapKeys, apply, m.replace_mapKeys hf]; rfl
  | remove key => simp only [mapKeys, apply, m.remove_mapKeys hf]; rfl
  | delete key =>
    simp only [mapKeys, apply, Map.delete, m.remove_mapKeys hf, Option.isSome_map]
    rfl
  | find key => simp only [mapKeys, apply, m.find?_mapKeys hf]; rfl
  | get key =>
    simp only [mapKeys, apply, Map.get, m.find?_mapKeys hf]
    cases m.find? key <;> rfl
  | contains key => simp only [mapKeys, apply, Map.contains, m.find?_mapKeys hf]; rfl
  | min => simp only [mapKeys, apply, Map.min?, Map.mapKeys, Tree.min?_image]; rfl
  | max => simp only [mapKeys, apply, Map.max?, Map.mapKeys, Tree.max?_image]; rfl
  | isEmpty => simp only [mapKeys, apply, Map.isEmpty, Map.mapKeys, Tree.isEmpty_image]; rfl
  | size => rfl
  | clear => rfl
  | insertMany entries => simp only [mapKeys, apply, m.insertMany_mapKeys hf]; rfl
  | ofList entries =>
    have hempty : (∅ : Map κ' ν cmp') = (∅ : Map κ ν cmp).mapKeys f := rfl
    simp only [mapKeys, apply, Map.ofList, hempty, Map.insertMany_mapKeys hf]
    rfl

/-- A whole run on the image of a map. -/
theorem run_mapKeys (m : Map κ ν cmp) (ops : List (Operation κ ν)) :
    run (m.mapKeys f : Map κ' ν cmp') (ops.map (mapKeys f)) =
      ((run m ops).1.map (Answer.mapKeys f),(run m ops).2.mapKeys f) := by
  induction ops generalizing m with
  | nil => rfl
  | cons op ops ih => simp only [List.map_cons, run, apply_mapKeys hf, ih]

end Operation

end RedBlackMap
