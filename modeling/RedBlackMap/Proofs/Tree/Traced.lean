import RedBlackMap.Proofs.Entries.Lookup
import RedBlackMap.Proofs.Tree.Hooked
import RedBlackMap.Proofs.Tree.Removal

/-!
# Removal with its descent recorded

The removal together with a record of the subtrees that it enters and of the node that leaves the
tree. The result is that of the plain removal. From a subtree that a removal may enter it enters
only such subtrees, and the node that leaves is a leaf, so that nothing is lost with it.
-/
namespace RedBlackMap
universe u v
variable {κ : Type u} {ν : Type v}

namespace Traced
open RedBlackMap.Tree

def tracer : Hooks (Logged (Visit κ ν)) κ ν where
  rotateLeft _ := ([], ⟨⟩)
  rotateRight _ := ([], ⟨⟩)
  flip _ := ([], ⟨⟩)
  visit x := ([x], ⟨⟩)

def popMin? (t : Tree κ ν) : List (Visit κ ν) × Option ((κ × ν) × Tree κ ν) :=
  Hooked.popMin? (M := Logged (Visit κ ν)) tracer t

/-- Removes below a link, with the visits in their order. A node without a right child is taken
out with whatever is on its left. -/
def removeBelow (q : Query κ) (t : Tree κ ν) : List (Visit κ ν) × Option (κ × ν) × Tree κ ν :=
  Hooked.removeBelow (M := Logged (Visit κ ν)) tracer q t

theorem popMin?_snd (t : Tree κ ν) : (popMin? t).2 = t.popMin? := (Logged.passes tracer).popMin? t

theorem removeBelow_snd (q : Query κ) (t : Tree κ ν) :
    (removeBelow q t).2 = t.removeBelow q :=
  (Logged.passes tracer).removeBelow q t

/-- No turn and no flip leaves a record. -/
theorem tracer_quiet : (tracer : Hooks (Logged (Visit κ ν)) κ ν).Turns fun x a => x = pure a :=
  Hooks.turns_pure (fun _ _ => rfl) (fun _ _ => rfl) fun _ => rfl

section Visits
variable {q : Query κ} {n : Node κ ν}

theorem repair_fst {α : Type (max u v)} (n : Node κ ν) (f : n.Turned → α) :
    (Hooked.repair tracer n >>= fun m => pure (f m)).1 = [] := by
  rw [tracer_quiet.repair, pure_bind]
  rfl

theorem visit_fst {α β : Type (max u v)} (x : Visit κ ν) (y : Logged (Visit κ ν) α)
    {f : α → Logged (Visit κ ν) β} (hf : ∀ a, (f a).1 = []) :
    (tracer.visit x >>= fun _ => y >>= f).1 = x :: y.1 := by
  rw [Logged.fst_bind, Logged.fst_bind, hf, List.append_nil]
  rfl

theorem popMin?_nil : (popMin? (.nil : Tree κ ν)).1 = [] := by
  rw [popMin?, Hooked.popMin?]
  rfl

theorem popMin?_splice (hl : n.left.isEmpty = true) : (popMin? n.toTree).1 = [.splice n] := by
  rw [popMin?, Node.toTree, Hooked.popMin?, Hooked.popMinCall, if_pos hl]
  rfl

theorem popMin?_leftmost (hl : ¬ n.left.isEmpty = true) :
    (popMin? n.toTree).1 = .leftmost n.readyLeft.left :: (popMin? n.readyLeft.left).1 := by
  rw [popMin?, Node.toTree, Hooked.popMin?, Hooked.popMinCall, if_neg hl,
    tracer_quiet.readyLeft, pure_bind]
  refine visit_fst _ _ fun popped => ?_
  cases popped with
  | none => rfl
  | some popped => exact repair_fst _ _

theorem removeBelow_nil : (removeBelow q (.nil : Tree κ ν)).1 = [] := by
  rw [removeBelow, Hooked.removeBelow]
  rfl

section Less
variable (hlt : q n.key = .lt)
include hlt

theorem removeBelow_missed (hl : n.left.isEmpty = true) : (removeBelow q n.toTree).1 = [] := by
  rw [removeBelow, Node.toTree, Hooked.removeBelow, Hooked.removeCall, if_pos hlt, if_pos hl]
  exact repair_fst _ _

theorem removeBelow_left (hl : ¬ n.left.isEmpty = true) :
    (removeBelow q n.toTree).1 = .search n.readyLeft.left :: (removeBelow q n.readyLeft.left).1 := by
  rw [removeBelow, Node.toTree, Hooked.removeBelow, Hooked.removeCall, if_pos hlt, if_neg hl,
    tracer_quiet.readyLeft, pure_bind]
  exact visit_fst _ _ fun _ => repair_fst _ _

end Less

section NotLess
variable (hnlt : ¬ q n.key = .lt)
include hnlt

theorem removeBelow_takeOut (hr : n.leanRight.right.isEmpty = true)
    (heq : q n.leanRight.key = .eq) : (removeBelow q n.toTree).1 = [.takeOut n.leanRight] := by
  rw [removeBelow, Node.toTree, Hooked.removeBelow, Hooked.removeCall, if_neg hnlt,
    tracer_quiet.leanRight, pure_bind, if_pos hr, if_pos heq]
  rfl

theorem removeBelow_stop (hr : n.leanRight.right.isEmpty = true)
    (hne : ¬ q n.leanRight.key = .eq) : (removeBelow q n.toTree).1 = [] := by
  rw [removeBelow, Node.toTree, Hooked.removeBelow, Hooked.removeCall, if_neg hnlt,
    tracer_quiet.leanRight, pure_bind, if_pos hr, if_neg hne]
  exact repair_fst _ _

variable (hr : ¬ n.leanRight.right.isEmpty = true)
include hr

theorem removeBelow_top (heq : q n.leanRight.readyRight.key = .eq) :
    (removeBelow q n.toTree).1 = .leftmost n.leanRight.readyRight.right ::
      (popMin? n.leanRight.readyRight.right).1 := by
  rw [removeBelow, Node.toTree, Hooked.removeBelow, Hooked.removeCall, if_neg hnlt,
    tracer_quiet.leanRight, pure_bind, if_neg hr, Hooked.andThen, pure_bind,
    tracer_quiet.readyRight, pure_bind, pure_bind, if_pos heq]
  refine visit_fst _ _ fun popped => ?_
  cases popped with
  | none => exact repair_fst _ _
  | some popped => exact repair_fst _ _

theorem removeBelow_right (hne : ¬ q n.leanRight.readyRight.key = .eq) :
    (removeBelow q n.toTree).1 = .search n.leanRight.readyRight.right ::
      (removeBelow q n.leanRight.readyRight.right).1 := by
  rw [removeBelow, Node.toTree, Hooked.removeBelow, Hooked.removeCall, if_neg hnlt,
    tracer_quiet.leanRight, pure_bind, if_neg hr, Hooked.andThen, pure_bind,
    tracer_quiet.readyRight, pure_bind, pure_bind, if_neg hne]
  exact visit_fst _ _ fun _ => repair_fst _ _

end NotLess

end Visits

end Traced

variable {cmp : Comparator κ} {S : κ → Prop} {key : κ} {q : Query κ} {b : Nat}

/-- A visit finds what it counts on: entries in order below a red link in a subtree, and nothing
below a node that leaves. -/
def Visit.Sanctioned (cmp : Comparator κ) (S : κ → Prop) (q : Query κ) : Visit κ ν → Prop
  | search t => Entries.Ordered cmp S t.toList ∧ ∃ b, t.Enterable q b
  | leftmost t => Entries.Ordered cmp S t.toList ∧
    ∃ b, t.Sound b ∧ (t.isRed = true ∨ t.left.isRed = true)
  | takeOut n => n.left = .nil ∧ n.right = .nil
  | splice n => n.left = .nil ∧ n.right = .nil

/-- The leftmost entry may be asked for where a search to the left may enter. -/
theorem Tree.enterable_lt_iff {t : Tree κ ν} : t.Enterable (fun _ => .lt) b ↔
    t.Sound b ∧ (t.isRed = true ∨ t.left.isRed = true) := by
  constructor
  · rintro (⟨hs, hred⟩ | ⟨hk⟩)
    · exact ⟨hs, hred⟩
    · exact absurd rfl hk
  · rintro ⟨hs, hred⟩
    exact .sound hs hred

theorem Node.ordered_children {n : Node κ ν} (h : Entries.Ordered cmp S n.toList) :
    Entries.Ordered cmp S n.left.toList ∧ Entries.Ordered cmp S n.right.toList :=
  ⟨h.sublist (List.sublist_append_left _ _),
    h.sublist ((List.sublist_cons_self _ _).trans (List.sublist_append_right _ _))⟩

theorem Node.ordered_readyLeft {n : Node κ ν} (h : Entries.Ordered cmp S n.toList) :
    Entries.Ordered cmp S n.readyLeft.toList := by
  rwa [Node.toList_readyLeft]

theorem Node.ordered_readyRight {n : Node κ ν} (h : Entries.Ordered cmp S n.toList) :
    Entries.Ordered cmp S n.leanRight.readyRight.toList := by
  rwa [Node.toList_readyRight, Node.toList_leanRight]

namespace Traced
open RedBlackMap.Tree

/-- The search for the leftmost entry enters only where it may, down to a leaf. -/
theorem popMin?_sanctioned (t : Tree κ ν) (henter : t.Enterable (fun _ => .lt) b)
    (hes : Entries.Ordered cmp S t.toList) : ∀ x ∈ (popMin? t).1, x.Sanctioned cmp S q := by
  induction t using popMin?_induction generalizing b with
  | nil => cases henter.isEmpty_eq_false
  | splice n hl =>
    rw [popMin?_splice hl, List.forall_mem_singleton]
    rcases n with ⟨c, _ | _, k, v, r⟩
    · exact ⟨rfl, (henter.sound_of_lt rfl).right_eq_nil.1⟩
    · cases hl
  | leftmost n hl ih =>
    have hopens := Node.readyLeft_opens (henter.sound_of_lt rfl) (by simpa using hl)
    obtain ⟨b', henter', -⟩ := hopens (fun _ => .lt) (fun _ => .lt)
    have hleft := (Node.ordered_children (Node.ordered_readyLeft hes)).1
    rw [popMin?_leftmost hl, List.forall_mem_cons]
    exact ⟨⟨hleft, b', enterable_lt_iff.mp henter'⟩, ih henter' hleft⟩

/-- The successor is asked for in a subtree that is entered by a red link on its left. -/
theorem successor_sanctioned (hcmp : TotalPreorderOn cmp S) (hkey : S key) {m : Node κ ν}
    {t : Tree κ ν} {b' : Nat} (hes : Entries.Ordered cmp S m.toList) (heq : cmp key m.key = .eq)
    (hopen : m.OpensRight (cmp key) t b b') :
    ∀ x ∈ .leftmost m.right :: (popMin? m.right).1, Visit.Sanctioned cmp S (cmp key) x := by
  have hsep := hcmp.separates hkey hes.ascending hes.mem
  have henter : m.right.Enterable (fun _ => .lt) b' :=
    hopen.enter.of_lt fun e he => hsep.lt_right (e := m.entry) (by simp [Node.entry, heq]) he
  have hright := (Node.ordered_children hes).2
  rw [List.forall_mem_cons]
  exact ⟨⟨hright, b', enterable_lt_iff.mp henter⟩, popMin?_sanctioned m.right henter hright⟩

/-- The search for a key enters only where it may, down to the node that leaves. -/
theorem removeBelow_sanctioned (hcmp : TotalPreorderOn cmp S) (hkey : S key) (t : Tree κ ν)
    (hadmits : t.Admits (cmp key) b) (hes : Entries.Ordered cmp S t.toList) :
    ∀ x ∈ (removeBelow (cmp key) t).1, x.Sanctioned cmp S (cmp key) := by
  induction t using removeBelow_induction (cmp key) generalizing b with
  | nil => simp [removeBelow_nil]
  | missed n hlt hl => simp [removeBelow_missed hlt hl]
  | left n hlt hl ih =>
    have hopens := Node.readyLeft_opens (hadmits.sound_of_lt hlt) (by simpa using hl)
    obtain ⟨b', henter, -⟩ := hopens (cmp key) (cmp key)
    have hleft := (Node.ordered_children (Node.ordered_readyLeft hes)).1
    rw [removeBelow_left hlt hl, List.forall_mem_cons]
    exact ⟨⟨hleft, b', henter⟩, ih (.inr henter) hleft⟩
  | takeOut n hnlt hr heq =>
    rw [removeBelow_takeOut hnlt hr heq, List.forall_mem_singleton]
    rcases n with ⟨c, l, k, v, r⟩
    obtain ⟨rfl, rfl, -⟩ := leaf_of_leanRight hadmits hnlt hr
    exact ⟨rfl, rfl⟩
  | stop n hnlt hr hne => simp [removeBelow_stop hnlt hr hne]
  | top n hnlt hr heq =>
    obtain ⟨b', hopen⟩ := Node.readyRight_opens hadmits hnlt (by simpa using hr)
    rw [removeBelow_top hnlt hr heq]
    exact successor_sanctioned hcmp hkey (Node.ordered_readyRight hes) heq hopen
  | right n hnlt hr hne ih =>
    obtain ⟨b', henter, -⟩ := Node.readyRight_opens hadmits hnlt (by simpa using hr)
    have hright := (Node.ordered_children (Node.ordered_readyRight hes)).2
    rw [removeBelow_right hnlt hr hne, List.forall_mem_cons]
    exact ⟨⟨hright, b', henter⟩, ih (.inr henter) hright⟩

end Traced

namespace Tree
variable {t : Tree κ ν}

/-- What comes back for a subtree that was entered by a red link: the black height is the same,
and a black top stays black. -/
structure Regained (t : Tree κ ν) (b : Nat) (t' : Tree κ ν) : Prop where
  sound : t'.Sound b
  isRed_eq_false : t.isRed = false → t'.isRed = false

theorem Restored.regained {t' : Tree κ ν} (h : Restored q t b t') (henter : t.Enterable q b) :
    t.Regained b t' :=
  ⟨h.sound henter, h.black henter⟩

theorem Enterable.popMin? (h : t.Enterable (fun _ => .lt) b) :
    ∃ e rest, t.popMin? = some (e,rest) ∧ t.toList = e :: rest.toList ∧ t.Regained b rest := by
  obtain ⟨e, rest, hpop, hlist⟩ := popMin?_entries h.isEmpty_eq_false
  exact ⟨e, rest, hpop, hlist, (popMin?_restored t b e rest h hpop).regained h⟩

/-- A removal gives back the black height where it may enter. Below a black top it may lower it,
unless it finds a red link to carry along. -/
theorem removeBelow_regained (hsep : q.Separates t.toList) :
    (∀ b, t.Enterable q b → t.Regained b (t.removeBelow q).2) ∧
    (∀ b, t.Balanced b → ∃ b', (t.removeBelow q).2.blacken.Balanced b' ∧
      (b' = b ∨ b' + 1 = b) ∧ (t.left.isRed = true → b' = b)) := by
  have hrestored (b : Nat) (h : t.Admits q b) : Restored q t b (t.removeBelow q).2 :=
    ((removeBelow_erases q t b h hsep.descends).takes hsep).1
  refine ⟨fun b h => (hrestored b (.inr h)).regained h, fun b h => ?_⟩
  obtain ⟨ht, hs⟩ := balanced_iff.mp h
  cases hl : t.left.isRed with
  | false =>
    obtain ⟨b', hb', hfall⟩ := (hrestored b (.inl hs)).root ht
    exact ⟨b', hb', hfall, nofun⟩
  | true =>
    have henter : t.Enterable q b := .sound hs (.inr hl)
    obtain ⟨hs', hc⟩ := (hrestored b (.inr henter)).regained henter
    refine ⟨b, ?_, .inl rfl, fun _ => rfl⟩
    rw [blacken_eq_self (hc ht)]
    exact balanced_iff.mpr ⟨hc ht, hs'⟩

/-- The removal of a key, from a subtree entered by a red link or by a link that was lent to its
right, gives the black height back; one that starts at the root may lower it by one. Either takes
just the entry that a scan finds. Every call on the way down is again for a subtree that may be
entered, and the node that leaves in the end is a leaf. The same holds for the leftmost entry. -/
theorem removal_contract (hcmp : TotalPreorderOn cmp S) (hkey : S key)
    (hasc : t.Ascending cmp) (hmem : ∀ e ∈ t.toList, S e.1) :
    ((Traced.removeBelow (cmp key) t).2 = t.removeBelow (cmp key) ∧
      (Traced.popMin? t).2 = t.popMin?) ∧
    (∀ b, t.Enterable (cmp key) b → t.Regained b (t.removeBelow (cmp key)).2) ∧
    (∀ b, t.Balanced b → ∃ b', (t.removeBelow (cmp key)).2.blacken.Balanced b' ∧
      (b' = b ∨ b' + 1 = b) ∧ (t.left.isRed = true → b' = b)) ∧
    (∀ b, t.Enterable (cmp key) b ∨ t.Balanced b →
      Query.Takes (cmp key) t.toList (t.removeBelow (cmp key)).1
        (t.removeBelow (cmp key)).2.toList ∧
      ∀ x ∈ (Traced.removeBelow (cmp key) t).1, x.Sanctioned cmp S (cmp key)) ∧
    (∀ b, t.Sound b → t.isRed = true ∨ t.left.isRed = true →
      (∃ e rest, t.popMin? = some (e,rest) ∧ t.toList = e :: rest.toList ∧ t.Regained b rest) ∧
      ∀ x ∈ (Traced.popMin? t).1, x.Sanctioned cmp S (cmp key)) := by
  have hsep : Query.Separates (cmp key) t.toList := hcmp.separates hkey hasc hmem
  have hes : Entries.Ordered cmp S t.toList := ⟨hasc, hmem⟩
  obtain ⟨hentered, hroot⟩ := removeBelow_regained hsep
  refine ⟨⟨Traced.removeBelow_snd _ t, Traced.popMin?_snd t⟩, hentered, hroot, fun b h => ?_,
    fun b hs hred => ?_⟩
  · have hadmits : t.Admits (cmp key) b := h.elim .inr fun h => .inl (balanced_iff.mp h).2
    exact ⟨((removeBelow_erases _ t b hadmits hsep.descends).takes hsep).2,
      Traced.removeBelow_sanctioned hcmp hkey t hadmits hes⟩
  · have henter : t.Enterable (fun _ => .lt) b := enterable_lt_iff.mpr ⟨hs, hred⟩
    exact ⟨henter.popMin?, Traced.popMin?_sanctioned t henter hes⟩

/-- From a root without a red link below it, from a subtree with a link lent to its right, and
from one with a red link on its left. The key `16` is another spelling of `6`. -/
theorem removal_contract_byRemainder :
    let cmp := Comparator.byRemainder 10
    let one : Tree Int String := .node .black .nil 1 "a" .nil
    let six : Tree Int String := .node .black .nil 6 "c" .nil
    let root : Tree Int String := .node .black one 3 "b" six
    let lent : Tree Int String := .node .black .nil 3 "b" six.flipTop
    let low : Tree Int String := .node .black one.flipTop 3 "b" .nil
    TotalPreorderOn cmp (0 ≤ ·) ∧ root.Balanced 2 ∧ lent.Enterable (cmp 16) 1 ∧
      low.Sound 1 ∧
      (root.removeBelow (cmp 16)).1 = some (6,"c") ∧
      (∃ b, (root.removeBelow (cmp 16)).2.blacken.Balanced b ∧ (b = 2 ∨ b + 1 = 2)) ∧
      (Traced.removeBelow (cmp 16) root).1 =
        [.search six.flipTop,.takeOut ⟨.red,.nil,6,"c",.nil⟩] ∧
      (∀ x ∈ (Traced.removeBelow (cmp 16) root).1, x.Sanctioned cmp (0 ≤ ·) (cmp 16)) ∧
      lent.Regained 1 (lent.removeBelow (cmp 16)).2 ∧
      (Traced.popMin? low).1 = [.leftmost one.flipTop,.splice ⟨.red,.nil,1,"a",.nil⟩] ∧
      ∃ rest, low.popMin? = some ((1,"a"),rest) ∧ low.Regained 1 rest := by
  intro cmp one six root lent low
  have hcmp : TotalPreorderOn cmp (0 ≤ ·) := Comparator.totalPreorderOn_byRemainder 10 (0 ≤ ·)
  have hkey : (0 : Int) ≤ 16 := by decide
  have hroot : root.Balanced 2 := balanced_iff.mpr ⟨rfl, by simp [root, one, six]⟩
  have hlent : lent.Enterable (cmp 16) 1 :=
    .swung (by decide) rfl rfl (by simp) (by simp [six, flipTop, Color.flip])
  have hlow : low.Sound 1 := by simp [low, one, flipTop, Color.flip]
  have hroot' : root.Ascending cmp := by unfold Ascending; decide
  have hlent' : lent.Ascending cmp := by unfold Ascending; decide
  have hlow' : low.Ascending cmp := by unfold Ascending; decide
  obtain ⟨-, -, hfall, htakes, -⟩ := removal_contract hcmp hkey hroot' (by decide)
  obtain ⟨-, hregained, -⟩ := removal_contract hcmp hkey hlent' (by decide)
  obtain ⟨-, -, -, -, hpop⟩ := removal_contract hcmp hkey hlow' (by decide)
  obtain ⟨htaken, hvisits⟩ := htakes 2 (.inr hroot)
  obtain ⟨b, hb, hbelow, -⟩ := hfall 2 hroot
  obtain ⟨⟨e, rest, hpopped, hlist, hrest⟩, -⟩ := hpop 1 hlow (.inr rfl)
  obtain rfl : (1,"a") = e := (List.cons_eq_cons.mp hlist).1
  exact ⟨hcmp, hroot, hlent, hlow, htaken.answer_eq, ⟨b, hb, hbelow⟩, by decide +kernel, hvisits,
    hregained 1 hlent, by decide +kernel, rest, hpopped, hrest⟩

end Tree

end RedBlackMap
