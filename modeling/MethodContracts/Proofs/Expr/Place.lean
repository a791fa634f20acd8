import Mathlib.Data.List.Basic
import MethodContracts.Expr.Node

/-!
# Places in a tree

A place is a way down from the root of a tree: the numbers of the children on it. One tree may stand
at several places of another, so what is said of each node of a tree, of the nodes above it or of
how many nodes there are is said of places.

Preorder goes through the places of a tree in lexicographic order, and to each of them once.
-/

namespace MethodContracts

/-- A way down from the root, by the numbers of the children on it. -/
abbrev Place := List Nat

/-- Numbers are given in order. -/
theorem pairwise_zipIdx {α : Type} (as : List α) :
    as.zipIdx.Pairwise fun a b => a.2 < b.2 := by
  rw [← List.pairwise_map (R := (· < ·)), List.zipIdx_map_snd]
  exact List.pairwise_lt_range'

namespace Node

/-- The node at a place, if the tree goes that far. -/
def at? (n : Node) : Place → Option Node
  | [] => some n
  | i :: place => n.children[i]?.bind fun c => c.at? place

@[simp] theorem at?_nil (n : Node) : n.at? [] = some n := rfl

theorem at?_cons (n : Node) (i : Nat) (place : Place) :
    n.at? (i :: place) = n.children[i]?.bind fun c => c.at? place := rfl

/-- The places of a tree in preorder. -/
def places (n : Node) : List Place :=
  n.fold fun _ below =>
    [] :: below.children.zipIdx.flatMap fun (places, i) => places.map (i :: ·)

theorem places_eq (n : Node) :
    n.places = [] :: n.children.zipIdx.flatMap fun (c, i) => c.places.map (i :: ·) := by
  rw [places, fold_eq, Op.children_map, List.zipIdx_map, List.flatMap_map]
  rfl

/-- The places of a tree are those at which there is a node. -/
theorem mem_places_iff {n : Node} {place : Place} :
    place ∈ n.places ↔ ∃ m, n.at? place = some m := by
  induction n using induct generalizing place with
  | step n ih =>
    rw [places_eq, List.mem_cons, List.mem_flatMap]
    cases place with
    | nil => simp
    | cons i place =>
      rw [at?_cons]
      constructor
      · rintro (h | ⟨⟨c, j⟩, hc, hplace⟩)
        · cases h
        · obtain ⟨place', hplace', heq⟩ := List.mem_map.mp hplace
          cases heq
          have hchild := List.mem_zipIdx_iff_getElem?.mp hc
          rw [hchild]
          exact (ih c (List.mem_of_getElem? hchild)).mp hplace'
      · rintro ⟨m, hm⟩
        obtain ⟨c, hchild, hm⟩ := Option.bind_eq_some_iff.mp hm
        refine .inr ⟨(c, i), List.mem_zipIdx_iff_getElem?.mpr hchild, ?_⟩
        exact List.mem_map_of_mem ((ih c (List.mem_of_getElem? hchild)).mpr ⟨m, hm⟩)

/-- **The places are in lexicographic order**: a place stands in front of those below it, and those
below one child in front of those below the next. -/
theorem pairwise_places (n : Node) : n.places.Pairwise (· < ·) := by
  induction n using induct with
  | step n ih =>
    rw [places_eq, List.pairwise_cons, List.pairwise_flatMap]
    refine ⟨fun place hplace => ?_, fun ⟨c, i⟩ hc => ?_, ?_⟩
    · obtain ⟨⟨c, i⟩, -, hplace⟩ := List.mem_flatMap.mp hplace
      obtain ⟨place, -, rfl⟩ := List.mem_map.mp hplace
      exact List.nil_lt_cons i place
    · rw [List.pairwise_map]
      have hmem := List.mem_of_getElem? (List.mem_zipIdx_iff_getElem?.mp hc)
      exact (ih c hmem).imp fun h => List.cons_lt_cons_iff.mpr (.inr ⟨rfl, h⟩)
    · refine (pairwise_zipIdx n.children).imp fun {a b} hab place hplace place' hplace' => ?_
      obtain ⟨_, -, rfl⟩ := List.mem_map.mp hplace
      obtain ⟨_, -, rfl⟩ := List.mem_map.mp hplace'
      exact List.cons_lt_cons_iff.mpr (.inl hab)

theorem nodup_places (n : Node) : n.places.Nodup := by
  refine n.pairwise_places.imp fun {place place'} hlt heq => ?_
  subst heq
  exact List.lt_irrefl place hlt

/-! ## Reading off a tree along its places -/

/-- What is read off below several trees, each with the number that it has as a child. -/
theorem flatMap_zipIdx {β : Type} {f : Node × Nat → List β} {g : Node → List β} {ns : List Node}
    (h : ∀ i c, ns[i]? = some c → f (c, i) = g c) : ns.zipIdx.flatMap f = ns.flatMap g := by
  calc ns.zipIdx.flatMap f
      = ns.zipIdx.flatMap fun a => g a.1 :=
        List.flatMap_congr fun ⟨c, i⟩ hc => h i c (List.mem_zipIdx_iff_getElem?.mp hc)
    _ = (ns.zipIdx.map Prod.fst).flatMap g := (List.flatMap_map ..).symm
    _ = ns.flatMap g := by rw [List.zipIdx_map_fst]

/-- What is read off a tree is read off at the root and then below it, child by child. -/
theorem filterMap_places {β : Type} {f : Place → Option β} {g : Node → List β} {n : Node}
    (h : ∀ i c, n.children[i]? = some c → c.places.filterMap (fun place => f (i :: place)) = g c) :
    n.places.filterMap f = (f []).toList ++ n.children.flatMap g := by
  have hbelow : (n.children.zipIdx.flatMap fun (c, i) => c.places.map (i :: ·)).filterMap f =
      n.children.flatMap g := by
    rw [List.filterMap_flatMap]
    refine flatMap_zipIdx fun i c hc => ?_
    rw [List.filterMap_map]
    exact h i c hc
  rw [places_eq, List.filterMap_cons, hbelow]
  cases f [] <;> rfl

/-- **The nodes at the places of a tree are its preorder.** -/
theorem filterMap_at?_places (n : Node) : n.places.filterMap n.at? = n.preorder := by
  induction n using induct with
  | step n ih =>
    rw [filterMap_places (g := preorder), preorder_eq]
    · rfl
    · intro i c hc
      have hat : (fun place => n.at? (i :: place)) = c.at? := by
        funext place
        rw [at?_cons, hc, Option.bind_some]
      rw [hat, ih c (List.mem_of_getElem? hc)]

/-! ## The nodes above a place -/

/-- The nodes above a place, from the root down: those at the places that the way passes. -/
def above (n : Node) (place : Place) : List Node :=
  (List.range place.length).filterMap fun length => n.at? (place.take length)

@[simp] theorem above_nil (n : Node) : n.above [] = [] := rfl

/-- Above a place below the root there is the root, and what is above the place in the child. -/
theorem above_cons {n c : Node} {i : Nat} (h : n.children[i]? = some c) (place : Place) :
    n.above (i :: place) = n :: c.above place := by
  have hbelow : (fun length => n.at? ((i :: place).take length)) ∘ Nat.succ =
      fun length => c.at? (place.take length) := by
    funext length
    rw [Function.comp_apply, List.take_succ_cons, at?_cons, h, Option.bind_some]
  rw [above, List.length_cons, List.range_succ_eq_map, List.filterMap_cons, List.filterMap_map,
    hbelow]
  rfl

/-- The nodes in preorder that are not below a node where something is hidden. -/
def visible (hides : Node → Bool) (n : Node) : List Node :=
  (n.places.filter fun place => (n.above place).all fun m => !hides m).filterMap n.at?

/-- A node is visible, and so is what is visible below it, unless it hides that. -/
theorem visible_eq (hides : Node → Bool) (n : Node) :
    n.visible hides = n :: if hides n then [] else n.children.flatMap (visible hides) := by
  -- below a child, the root is one more node above
  have hbelow (i : Nat) (c : Node) (hc : n.children[i]? = some c) :
      (c.places.filterMap fun place =>
        if (n.above (i :: place)).all fun m => !hides m then n.at? (i :: place) else none) =
      if hides n then [] else c.visible hides := by
    simp only [above_cons hc, List.all_cons, at?_cons, hc, Option.bind_some, visible,
      List.filterMap_filter]
    cases hides n <;> simp
  rw [visible, List.filterMap_filter, filterMap_places hbelow]
  cases hides n <;> simp

/-- Where nothing is hidden the whole preorder is visible. -/
theorem visible_nothing (n : Node) : n.visible (fun _ => false) = n.preorder := by
  rw [← filterMap_at?_places, visible, List.filter_eq_self.mpr fun place _ => by simp]

end Node

end MethodContracts
