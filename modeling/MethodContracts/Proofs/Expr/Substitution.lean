import MethodContracts.Proofs.Expr.Transform

/-!
# Replacing literals

The label of a node is all that it carries besides its children: its operation with their places
left empty, and its offset. A tree is determined by the labels at its places.

So replacing a literal is described place by place: where the old literal stands there is the new
one, without offset, and everywhere else there is the label that was there. The result is reported
as new exactly when the old literal stands somewhere; otherwise it is the tree that was given.
-/

namespace MethodContracts

/-- An operation is made up of what is left without its children, and of these. -/
theorem Op.eq_of_children {α : Type} {a b : Op α}
    (hmap : a.map (fun _ => ()) = b.map fun _ => ()) (hchildren : a.children = b.children) :
    a = b := by
  have htoList (x y : Option α) : x.toList = y.toList ↔ x = y := by
    cases x <;> cases y <;> simp
  cases a <;> cases b <;> simp_all [Op.map, Op.children]

namespace Node

/-! ## Labels -/

/-- A node without its children. -/
def label (n : Node) : Op Unit × Option Offset := (n.op.map fun _ => (), n.offset)

/-- **A tree is determined by the labels at its places.** -/
theorem eq_of_labels {a b : Node}
    (h : ∀ place, (a.at? place).map label = (b.at? place).map label) : a = b := by
  induction a using induct generalizing b with
  | step a ih =>
    have hroot : a.label = b.label := Option.some.inj (h [])
    have hchild (i : Nat) (place : Place) :
        (a.children[i]?.bind fun c => c.at? place).map label =
          (b.children[i]?.bind fun c => c.at? place).map label := h (i :: place)
    have hchildren : a.children = b.children := by
      refine List.ext_getElem? fun i => ?_
      -- a child with a number has a label at its own root, so both trees have it or neither
      have hsame := hchild i
      cases ha : a.children[i]? with
      | none =>
        cases hb : b.children[i]? with
        | none => rfl
        | some d =>
          rw [ha, hb] at hsame
          cases hsame []
      | some c =>
        cases hb : b.children[i]? with
        | none =>
          rw [ha, hb] at hsame
          cases hsame []
        | some d =>
          rw [ha, hb] at hsame
          exact congrArg some (ih c (List.mem_of_getElem? ha) hsame)
    obtain ⟨op, offset⟩ := a
    obtain ⟨op', offset'⟩ := b
    obtain ⟨hop, hoffset⟩ := Prod.mk.inj hroot
    exact congr (congrArg mk (Op.eq_of_children hop hchildren)) hoffset

/-! ## Replacing a literal -/

/-- The second tree is the first one with a new literal at every place of the old one. -/
def Substituted (old new : Constant) (n n' : Node) : Prop :=
  ∀ place, (n'.at? place).map label = (n.at? place).map fun m =>
    if m.op = .literal old then (.literal new, none) else m.label

/-- What is put in the place of a node. -/
def replacement (old new : Constant) (n : Node) : Option Node :=
  if n.op = .literal old then some (.unlocated (.literal new)) else none

theorem replacement_eq_none_iff {old new : Constant} {n : Node} :
    replacement old new n = none ↔ n.op ≠ .literal old := by
  rw [replacement]
  split_ifs with hliteral <;> simp [hliteral]

theorem replaceLiteral_eq (old new : Constant) (n : Node) :
    n.replaceLiteral old new = n.transform (replacement old new) := by
  refine congrArg (fun rule => n.transform rule) (funext fun m => ?_)
  obtain ⟨op, offset⟩ := m
  cases op <;> simp [replacement]

/-- The tree with the literals replaced. -/
def substitute (old new : Constant) (n : Node) : Node := (n.rewrite (replacement old new)).node

/-- A literal is replaced where it is the old one; any other node stays, around what its children
become. -/
theorem substitute_eq (old new : Constant) (n : Node) :
    n.substitute old new =
      if n.op = .literal old then .unlocated (.literal new)
      else ⟨n.op.map (substitute old new), n.offset⟩ := by
  have hliteral : n.op.map (substitute old new) = .literal old ↔ n.op = .literal old := by
    obtain ⟨op, offset⟩ := n
    cases op <;> simp [Op.map]
  have hnode : n.substitute old new =
      (replacement old new ⟨n.op.map (substitute old new), n.offset⟩).getD
        ⟨n.op.map (substitute old new), n.offset⟩ := node_rewrite _ n
  rw [hnode, replacement]
  simp only [hliteral]
  split_ifs <;> rfl

/-- The places of a tree keep their labels when literals are replaced, but for those of the old
literal. -/
theorem substituted_substitute (old new : Constant) (n : Node) :
    n.Substituted old new (n.substitute old new) := by
  intro place
  induction place generalizing n with
  | nil =>
    rw [at?_nil, at?_nil, substitute_eq, Option.map_some, Option.map_some]
    split_ifs with hliteral
    · rfl
    · rw [label, label, Op.map_map]
  | cons i place ih =>
    rw [at?_cons, at?_cons, substitute_eq]
    split_ifs with hliteral
    · have hchildren : n.children = [] := by rw [children, hliteral, Op.children]
      rw [hchildren]
      rfl
    · rw [children, Op.children_map, List.getElem?_map]
      cases n.children[i]? with
      | none => rfl
      | some c => exact ih c

/-- **Replacing a literal is substitution, exactly.** The result is the one tree that has the new
literal, without offset, at every place where the given tree has the old one, and at every other
place the same operation with the same payload and offset, or nothing where that has nothing. It is
new exactly when the old literal occurs in the given tree, be the new one the same or not; otherwise
it is the given tree. -/
theorem replaceLiteral_substitutes {n : Node} (h : n.Recognized) (old new : Constant) :
    ∃ result, n.replaceLiteral old new = .ok result ∧
      (∀ n' : Node, n' = result.node ↔ n.Substituted old new n') ∧
      (result.changed = true ↔ ∃ m : Node, m.OccursIn n ∧ m.op = .literal old) ∧
      (result.changed = false → result = ⟨n, false⟩) := by
  have hsubstituted := substituted_substitute old new n
  have hchanged : (n.rewrite (replacement old new)).changed = false ↔
      ∀ m ∈ n.preorder, replacement old new m = none := changed_rewrite_eq_false_iff n
  refine ⟨n.rewrite (replacement old new), ?_, fun n' => ⟨?_, fun hn' => ?_⟩, ?_, fun hsame => ?_⟩
  · rw [replaceLiteral_eq, transform_of_recognized _ h]
  · rintro rfl
    exact hsubstituted
  · exact eq_of_labels fun place => (hn' place).trans (hsubstituted place).symm
  · rw [← Bool.not_eq_false, hchanged]
    simp only [replacement_eq_none_iff, mem_preorder_iff, not_forall, not_not, exists_prop]
  · exact rewrite_eq_self (hchanged.mp hsame)

/-- A NaN is replaced by itself: it loses its offset, and the tree is new. A NaN with other bits
stays as it is. -/
theorem replaceLiteral_substitutes_nan :
    let nan : Constant := .double 0x7ff8000000000001
    let other : Node := ⟨.literal (.double 0x7ff8000000000000), some ⟨2⟩⟩
    let tree (literal : Node) : Node :=
      .unlocated (.block [⟨.ret (some literal), some ⟨8⟩⟩, .unlocated (.binary .eq other literal)])
    let n : Node := tree ⟨.literal nan, some ⟨4⟩⟩
    let n' : Node := tree (.unlocated (.literal nan))
    n.Recognized ∧ n.replaceLiteral nan nan = .ok ⟨n', true⟩ ∧ n.Substituted nan nan n' ∧
      ∃ m : Node, m.OccursIn n ∧ m.op = .literal nan := by
  intro nan other tree n n'
  have hn : n.Recognized := by decide
  have hreplace : n.replaceLiteral nan nan = .ok ⟨n', true⟩ := rfl
  obtain ⟨result, hresult, hsubstituted, hchanged, -⟩ := replaceLiteral_substitutes hn nan nan
  obtain rfl : _ = result := Except.ok.inj (hreplace.symm.trans hresult)
  exact ⟨hn, hreplace, (hsubstituted n').mp rfl, hchanged.mp rfl⟩

end Node

end MethodContracts
