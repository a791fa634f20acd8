import Mathlib.Data.List.TakeWhile
import MethodContracts.Expr.Walk
import MethodContracts.Proofs.Expr.Place

/-!
# What walks amount to

The methods of a visitor may do anything with the walk over the children. Those of the visitors here
do not do much with it: they make some records and then go into the children, past them, or nowhere.
The walk of such a visitor is a run through the nodes of the tree in preorder, without those below a
node whose children it goes past, up to the first node at which it gives up. When it goes everywhere
that is the first unrecognized instruction. So its result can be read off the preorder: the opcode
of that instruction if there is one, and everything recorded on the way otherwise.

For the count of stack markers this gives the meaning of a balanced condition: the count is
zero exactly when no node anywhere in the tree is unrecognized or a stack marker.
-/

namespace MethodContracts

variable {ρ : Type}

namespace Node

/-- The opcode of an unrecognized instruction. -/
def opcode? (n : Node) : Option String :=
  match n.op with
  | .unrecognized opcode _ => some opcode
  | _ => none

/-- Only unrecognized instructions have an opcode. -/
theorem opcode?_eq_none_iff (n : Node) : n.opcode? = none ↔ n.kind ≠ .unrecognized := by
  obtain ⟨op, offset⟩ := n
  cases op <;> simp [opcode?, kind, Op.kind]

theorem kind_of_opcode? {n : Node} {opcode : String} (h : n.opcode? = some opcode) :
    n.kind = .unrecognized := by
  obtain ⟨op, offset⟩ := n
  cases op <;> cases h
  rfl

end Node

/-! ## Visitors that record and go on -/

theorem Walk.andThen_assoc (a b c : Walk ρ) :
    (a.andThen b).andThen c = a.andThen (b.andThen c) := by
  obtain ⟨records, failure⟩ := a
  cases failure with
  | some why => rfl
  | none =>
    obtain ⟨records', failure'⟩ := b
    cases failure' with
    | some why => rfl
    | none => simp [andThen, List.append_assoc]

/-- How a walk goes on after the records at a node. -/
inductive Step where
  | descend
  | skip
  | giveUp (why : ModelError)

/-- The rest of the walk over a node. -/
def Step.follow (below : Walk ρ) : Step → Walk ρ
  | descend => below
  | skip => ⟨[], none⟩
  | giveUp why => ⟨[], some why⟩

namespace Visitor

/-- At each node the methods of the visitor make these records and go on in this way, whatever the
walk over the children is. -/
def Enters (v : Visitor ρ) (enter : Node → List ρ × Step) : Prop :=
  ∀ n below, v.node n (v.dispatch n below) =
    Walk.andThen ⟨(enter n).1, none⟩ ((enter n).2.follow below)

/-- Meets the nodes of a list in turn, up to the first at which the walk is given up. -/
def run (enter : Node → List ρ × Step) : List Node → Walk ρ
  | [] => ⟨[], none⟩
  | n :: rest =>
    match enter n with
    | (records, .giveUp why) => ⟨records, some why⟩
    | (records, _) => Walk.andThen ⟨records, none⟩ (run enter rest)

section Run

variable {v : Visitor ρ} {enter : Node → List ρ × Step}

theorem run_append (enter : Node → List ρ × Step) (ms ns : List Node) :
    run enter (ms ++ ns) = (run enter ms).andThen (run enter ns) := by
  induction ms with
  | nil => rfl
  | cons m rest ih =>
    rw [List.cons_append, run, run]
    split
    · rfl
    · rw [ih, Walk.andThen_assoc]

/-- Walks over several trees are one run when each of them is. -/
theorem all_map_run {walk : Node → Walk ρ} {nodes : Node → List Node} {ns : List Node}
    (h : ∀ n ∈ ns, walk n = run enter (nodes n)) :
    Walk.all (ns.map walk) = run enter (ns.flatMap nodes) := by
  induction ns with
  | nil => rfl
  | cons n rest ih =>
    have hrest := ih fun m hm => h m (List.mem_cons_of_mem _ hm)
    rw [List.flatMap_cons, run_append, ← hrest, ← h n List.mem_cons_self]
    rfl

/-- **A walk meets the nodes in preorder**, without those below a node where the visitor goes past
the children. Where it gives up it does not matter what is below. -/
theorem Enters.walk_eq_run (h : v.Enters enter) {hides : Node → Bool}
    (hdescend : ∀ n, (enter n).2 = .descend → hides n = false)
    (hskip : ∀ n, (enter n).2 = .skip → hides n = true) (n : Node) :
    v.walk n = run enter (n.visible hides) := by
  induction n using Node.induct with
  | step n ih =>
    rw [walk_eq, h, Node.visible_eq, run, all_map_run ih]
    rcases henter : enter n with ⟨records, step⟩
    cases step with
    | descend => simp [hdescend n (congrArg Prod.snd henter), Step.follow]
    | skip => simp [hskip n (congrArg Prod.snd henter), Step.follow, run]
    | giveUp why => simp [Step.follow, Walk.andThen]

end Run

/-! ## Visitors that give up at unrecognized instructions -/

/-- At each node some records, and then into the children, but not at unrecognized instructions. -/
def recording (record : Node → List ρ) (n : Node) : List ρ × Step :=
  (record n, match n.opcode? with
    | some opcode => .giveUp (.malformedTree opcode)
    | none => .descend)

/-- These records are made, and the walk is given up at unrecognized instructions and nowhere
else. -/
structure Strict (enter : Node → List ρ × Step) (record : Node → List ρ) : Prop where
  gives_up : ∀ n opcode, n.opcode? = some opcode →
    enter n = (record n, .giveUp (.malformedTree opcode))
  goes_on : ∀ n, n.opcode? = none → enter n = (record n, .descend) ∨ enter n = (record n, .skip)

/-- The first opcode on the way is the fault. The instruction that it belongs to is the last node
of which there are records. -/
theorem Strict.run_eq {enter : Node → List ρ × Step} {record : Node → List ρ}
    (h : Strict enter record) (ns : List Node) :
    run enter ns =
      ⟨(ns.takeWhile (·.kind ≠ .unrecognized) ++
          (ns.find? (·.kind = .unrecognized)).toList).flatMap record,
        (ns.findSome? Node.opcode?).map .malformedTree⟩ := by
  induction ns with
  | nil => rfl
  | cons n rest ih =>
    rw [run, ih, List.findSome?_cons]
    cases hopcode : n.opcode? with
    | none =>
      have hkind := n.opcode?_eq_none_iff.mp hopcode
      rcases h.goes_on n hopcode with henter | henter <;> simp [henter, Walk.andThen, hkind]
    | some opcode => simp [h.gives_up n opcode hopcode, Node.kind_of_opcode? hopcode]

theorem strict_recording (record : Node → List ρ) : Strict (recording record) record where
  gives_up n opcode hopcode := by rw [recording, hopcode]
  goes_on n hopcode := .inl (by rw [recording, hopcode])

/-- **A walk that goes everywhere meets the nodes in preorder**, up to the first unrecognized
instruction. -/
theorem Enters.walk_recording {v : Visitor ρ} {record : Node → List ρ}
    (h : v.Enters (recording record)) (n : Node) : v.walk n = run (recording record) n.preorder := by
  rw [← Node.visible_nothing]
  refine h.walk_eq_run (fun _ _ => rfl) (fun m hskip => ?_) n
  rw [recording] at hskip
  cases hopcode : m.opcode? <;> rw [hopcode] at hskip <;> cases hskip

/-- The first opcode on the way is the fault; without one everything is recorded. -/
theorem result_run_recording (record : Node → List ρ) (ns : List Node) :
    (run (recording record) ns).result =
      match ns.findSome? Node.opcode? with
      | some opcode => .error (.malformedTree opcode)
      | none => .ok (ns.flatMap record) := by
  rw [(strict_recording record).run_eq]
  cases hopcode : ns.findSome? Node.opcode? with
  | some opcode => rfl
  | none =>
    have hkind (n : Node) (hn : n ∈ ns) : n.kind ≠ .unrecognized :=
      n.opcode?_eq_none_iff.mp (List.findSome?_eq_none_iff.mp hopcode n hn)
    have hall : ns.takeWhile (·.kind ≠ .unrecognized) = ns :=
      List.takeWhile_eq_self_iff.mpr fun n hn => decide_eq_true (hkind n hn)
    have hfind : ns.find? (·.kind = .unrecognized) = none :=
      List.find?_eq_none.mpr fun n hn => by simp [hkind n hn]
    rw [hall, hfind, Option.toList_none, List.append_nil]
    rfl

/-- The methods for the kinds are left as they are. -/
theorem enters_everywhere (record : Node → List ρ) : (everywhere record).Enters (recording record) := by
  rintro ⟨op, offset⟩ below
  cases op <;> rfl

/-- The marker is the one kind that has a method of its own. -/
theorem enters_markers : markers.Enters (recording fun n => if n.isMarker then [()] else []) := by
  rintro ⟨op, offset⟩ ⟨records, failure⟩
  cases op <;> rfl

end Visitor

/-! ## Trees -/

namespace Node

/-- No node of the tree is unrecognized. -/
def Recognized (n : Node) : Prop := ∀ m ∈ n.preorder, m.kind ≠ .unrecognized

/-- No node of the tree is unrecognized, and none stands for a duplicated stack value: the
tree can be evaluated on its own. -/
def Standalone (n : Node) : Prop :=
  ∀ m ∈ n.preorder, m.kind ≠ .unrecognized ∧ m.kind ≠ .stackDuplicate

instance (n : Node) : Decidable n.Recognized := List.decidableBAll _ n.preorder

instance (n : Node) : Decidable n.Standalone := List.decidableBAll _ n.preorder

/-- Something holds at every node of a tree when it holds at the root and at every node of the
trees below it. -/
theorem forall_mem_preorder_iff {P : Node → Prop} (n : Node) :
    (∀ m ∈ n.preorder, P m) ↔ P n ∧ ∀ c ∈ n.children, ∀ m ∈ c.preorder, P m := by
  rw [preorder_eq, List.forall_mem_cons]
  refine and_congr_right fun _ => ⟨fun h c hc m hm => ?_, fun h m hm => ?_⟩
  · exact h m (List.mem_flatMap.mpr ⟨c, hc, hm⟩)
  · obtain ⟨c, hc, hmc⟩ := List.mem_flatMap.mp hm
    exact h c hc m hmc

theorem recognized_iff (n : Node) :
    n.Recognized ↔ n.kind ≠ .unrecognized ∧ ∀ c ∈ n.children, c.Recognized :=
  forall_mem_preorder_iff n

/-- A tree stands on its own when its root and the trees below it do. -/
theorem standalone_iff (n : Node) :
    n.Standalone ↔
      (n.kind ≠ .unrecognized ∧ n.kind ≠ .stackDuplicate) ∧ ∀ c ∈ n.children, c.Standalone :=
  forall_mem_preorder_iff n

/-- The first opcode in the tree decides whether there is one. -/
theorem findSome?_opcode_eq_none_iff (n : Node) :
    n.preorder.findSome? opcode? = none ↔ n.Recognized := by
  simp only [List.findSome?_eq_none_iff, opcode?_eq_none_iff, Recognized]

/-- The node is somewhere in the tree. -/
inductive OccursIn (n : Node) : Node → Prop
  | root : OccursIn n n
  | under {parent child : Node} (hchild : child ∈ parent.children) (h : OccursIn n child) :
    OccursIn n parent

/-- The preorder of a tree lists what occurs in it. -/
theorem mem_preorder_iff {n tree : Node} : n ∈ tree.preorder ↔ n.OccursIn tree := by
  constructor
  · intro h
    induction tree using induct with
    | step tree ih =>
      rw [preorder_eq, List.mem_cons, List.mem_flatMap] at h
      rcases h with rfl | ⟨child, hchild, hn⟩
      · exact .root
      · exact .under hchild (ih child hchild hn)
  · intro h
    induction h with
    | root =>
      rw [preorder_eq]
      exact List.mem_cons_self
    | @under parent child hchild _ ih =>
      rw [preorder_eq]
      exact List.mem_cons_of_mem _ (List.mem_flatMap.mpr ⟨child, hchild, ih⟩)

/-- An unrecognized instruction occurs in the trees that are not recognized. -/
theorem exists_unrecognized_iff (n : Node) :
    (∃ m : Node, m.OccursIn n ∧ m.kind = .unrecognized) ↔ ¬ n.Recognized := by
  simp only [Recognized, mem_preorder_iff, not_forall, not_not, exists_prop]

/-- The tree holds an unrecognized instruction with this opcode, and none in front of it. -/
def FirstUnrecognized (tree : Node) (opcode : String) : Prop :=
  ∃ before below offset after,
    tree.preorder = before ++ ⟨.unrecognized opcode below, offset⟩ :: after ∧
      ∀ n ∈ before, n.kind ≠ .unrecognized

/-- The opcode that a walk reports is that of the first unrecognized instruction. -/
theorem findSome?_opcode_eq_some_iff (n : Node) (opcode : String) :
    n.preorder.findSome? opcode? = some opcode ↔ n.FirstUnrecognized opcode := by
  rw [List.findSome?_eq_some_iff]
  constructor
  · rintro ⟨before, found, after, hsplit, hfound, hbefore⟩
    obtain ⟨op, offset⟩ := found
    cases op with
    | unrecognized opcode' below =>
      cases hfound
      exact ⟨before, below, offset, after, hsplit, fun m hm => m.opcode?_eq_none_iff.mp (hbefore m hm)⟩
    | _ => cases hfound
  · rintro ⟨before, below, offset, after, hsplit, hbefore⟩
    exact ⟨before, _, after, hsplit, rfl, fun m hm => m.opcode?_eq_none_iff.mpr (hbefore m hm)⟩

/-- Recording something at some nodes counts them. -/
theorem length_flatMap_ite (p : Node → Bool) (ns : List Node) :
    (ns.flatMap fun n => if p n then [()] else []).length = ns.countP p := by
  induction ns with
  | nil => rfl
  | cons n rest ih =>
    rw [List.flatMap_cons, List.length_append, ih, List.countP_cons]
    cases p n <;> simp [Nat.add_comm]

/-- The number of nodes of a tree, unless it holds an unrecognized instruction. -/
theorem checkStructure_eq (n : Node) :
    n.checkStructure =
      match n.preorder.findSome? opcode? with
      | some opcode => .error (.malformedTree opcode)
      | none => .ok n.preorder.length := by
  rw [checkStructure, (Visitor.enters_everywhere _).walk_recording, Visitor.result_run_recording]
  cases n.preorder.findSome? opcode? with
  | some opcode => rfl
  | none =>
    have hcount := length_flatMap_ite (fun _ => true) n.preorder
    rw [List.countP_true] at hcount
    exact congrArg Except.ok hcount

/-- **The count of stack markers** is that of all nodes of the tree which are markers, unless
the tree holds an unrecognized instruction. -/
theorem countMarkers_eq (n : Node) :
    n.countMarkers =
      match n.preorder.findSome? opcode? with
      | some opcode => .error (.malformedTree opcode)
      | none => .ok (n.preorder.countP isMarker) := by
  rw [countMarkers, Visitor.enters_markers.walk_recording, Visitor.result_run_recording]
  cases n.preorder.findSome? opcode? with
  | some opcode => rfl
  | none => exact congrArg Except.ok (length_flatMap_ite isMarker n.preorder)

theorem countMarkers_of_recognized {n : Node} (h : n.Recognized) :
    n.countMarkers = .ok (n.preorder.countP isMarker) := by
  rw [countMarkers_eq, (findSome?_opcode_eq_none_iff n).mpr h]

/-- A tree stands on its own when nothing in it is unrecognized and no stack marker is in it. -/
theorem standalone_iff_recognized (n : Node) :
    n.Standalone ↔ n.Recognized ∧ n.preorder.countP isMarker = 0 := by
  simp only [Standalone, Recognized, List.countP_eq_zero, isMarker, decide_eq_true_eq]
  exact ⟨fun h => ⟨fun m hm => (h m hm).1, fun m hm => (h m hm).2⟩,
    fun h m hm => ⟨h.1 m hm, h.2 m hm⟩⟩

/-- **No marker is counted exactly in trees that can be evaluated on their own.** -/
theorem countMarkers_eq_zero_iff (n : Node) : n.countMarkers = .ok 0 ↔ n.Standalone := by
  rw [countMarkers_eq, standalone_iff_recognized, ← findSome?_opcode_eq_none_iff]
  cases n.preorder.findSome? opcode? with
  | some opcode => simp
  | none => simp

end Node

end MethodContracts
