import MethodContracts.Proofs.Extract.Guards

/-!
# More contract methods

A configuration may get further contract methods behind its own ones. The first entry for a call
counts, so every call that was covered before is covered by the same entry as before, and the
further entries matter only to *new calls*: calls that one of them covers and none of the first.

So nothing that was found gets lost. The entries of a method with more contract methods are those
without, and one for every new call that has a condition. Only the kinds of guards may differ, and
only under the rule that looks at the place of a guard, because new calls are contracts and move
the ends of the two regions.
-/

namespace MethodContracts

namespace Config

/-- The configuration with further contract methods behind its own. -/
def extend (c : Config) (more : List ContractMethod) : Config :=
  { c with methods := c.methods ++ more }

/-- The statement is a call that one of the further entries covers and none of the first. -/
def isNewCall (c : Config) (more : List ContractMethod) (stmt : Node) : Bool :=
  match stmt.op with
  | .call callee args =>
    more.any (·.Covers callee args.length) && !c.methods.any (·.Covers callee args.length)
  | _ => false

/-- The statement at the index is a new call. -/
def NewCallAt (c : Config) (more : List ContractMethod) (m : Method) (i : Nat) : Prop :=
  ∃ stmt ∈ m.statements[i]?, c.isNewCall more stmt

instance (c : Config) (more : List ContractMethod) (m : Method) (i : Nat) :
    Decidable (c.NewCallAt more m i) :=
  inferInstanceAs (Decidable (∃ stmt ∈ m.statements[i]?, c.isNewCall more stmt = true))

theorem newCallAt_iff {c : Config} {more : List ContractMethod} {m : Method} {i : Nat} {stmt : Node}
    (h : m.statements[i]? = some stmt) : c.NewCallAt more m i ↔ c.isNewCall more stmt := by
  simp [NewCallAt, h]

end Config

namespace Extractor

variable {c : Config} {more : List ContractMethod} {stmt : Node}

/-! ## One statement -/

/-- Further entries answer what was unanswered. -/
theorem lookup_extend (c : Config) (more : List ContractMethod) (callee : Callee) (arity : Nat) :
    (ofConfig (c.extend more)).table.lookup callee arity =
      ((ofConfig c).table.lookup callee arity).or
        ((more.find? fun m => m.Covers callee arity).map (·.kind)) := by
  simp only [ofConfig, Config.extend, ContractTable.lookup_ofMethods, List.find?_append]
  cases c.methods.find? fun m => m.Covers callee arity <;> rfl

/-- The table has no answer for a call that no entry covers. -/
theorem lookup_eq_none_iff (c : Config) (callee : Callee) (arity : Nat) :
    (ofConfig c).table.lookup callee arity = none ↔
      (c.methods.any (·.Covers callee arity)) = false := by
  simp [ofConfig, ContractTable.lookup_ofMethods]

/-- Only new calls change their shape. -/
theorem shape_extend (h : c.isNewCall more stmt = false) :
    (ofConfig (c.extend more)).shape stmt = (ofConfig c).shape stmt := by
  refine Node.shape_congr fun callee args hop => ?_
  rw [lookup_extend]
  cases hfound : (ofConfig c).table.lookup callee args.length with
  | some kind => rfl
  | none =>
    have hnone := (lookup_eq_none_iff c callee args.length).mp hfound
    have hmore : more.find? (fun m => m.Covers callee args.length) = none := by
      simpa [Config.isNewCall, hop, hnone] using h
    rw [hmore]
    rfl

/-- Without the further entries a new call declares nothing. -/
theorem declares_of_isNewCall (h : c.isNewCall more stmt) :
    ((ofConfig c).shape stmt).declares = false := by
  obtain ⟨op, offset⟩ := stmt
  cases op with
  | call callee args =>
    have hnone : (ofConfig c).table.lookup callee args.length = none := by
      rw [lookup_eq_none_iff]
      simpa using (Bool.and_eq_true_iff.mp h).2
    simp only [shape, Node.shape, hnone]
    split_ifs <;> rfl
  | _ => cases h

/-- A statement that is no new call declares the same clause, but for the kind of a guard. -/
theorem clause?_extend (h : c.isNewCall more stmt = false) (regions regions' : Regions) (i : Nat) :
    (ofConfig c).clause? regions i stmt =
      ((ofConfig (c.extend more)).clause? regions' i stmt).map fun clause =>
        if ((ofConfig c).shape stmt).isGuard then
          { clause with kind := regions.guardKind c.legacyRule i }
        else clause := by
  rw [clause?, clause?, shape_extend h]
  cases (ofConfig c).shape stmt <;> rfl

/-! ## All statements -/

/-- What holds for every statement that is no new call holds for the entries: those of new calls
are left out, and the others come back. -/
theorem entries_extend {m : Method} (regain : Nat → Entry → Entry)
    (h : ∀ i stmt, m.statements[i]? = some stmt → c.isNewCall more stmt = false →
      ((ofConfig c).clause? ((ofConfig c).regionsOf m) i stmt).map Entry.ofCandidate =
        ((ofConfig (c.extend more)).clause? ((ofConfig (c.extend more)).regionsOf m) i stmt).map
          fun clause => regain i (.ofCandidate clause)) :
    (ofConfig c).entries m =
      (((ofConfig (c.extend more)).entries m).filter fun p => ¬ c.NewCallAt more m p.1).map
        fun p => (p.1, regain p.1 p.2) := by
  simp only [entries, candidates, candidatesFrom, List.map_filterMap, List.filter_filterMap]
  apply List.filterMap_congr
  rintro ⟨stmt, i⟩ hmem
  have hstmt : m.statements[i]? = some stmt := List.mem_zipIdx_iff_getElem?.mp hmem
  cases hnew : c.isNewCall more stmt with
  | true =>
    have hnewAt : c.NewCallAt more m i := (Config.newCallAt_iff hstmt).mpr hnew
    have hnone := (clause?_eq_none_iff ((ofConfig c).regionsOf m) i stmt).mpr
      (declares_of_isNewCall hnew)
    rw [hnone]
    cases (ofConfig (c.extend more)).clause? ((ofConfig (c.extend more)).regionsOf m) i stmt with
    | none => rfl
    | some clause => simp [Option.filter_some, hnewAt]
  | false =>
    have hnewAt : ¬ c.NewCallAt more m i := by simp [Config.newCallAt_iff hstmt, hnew]
    have hclause := h i stmt hstmt hnew
    cases hnew' : (ofConfig (c.extend more)).clause? ((ofConfig (c.extend more)).regionsOf m) i
        stmt with
    | none =>
      simp [hnew', Option.map_eq_none_iff] at hclause
      simp [hclause]
    | some clause' =>
      rw [hnew'] at hclause
      obtain ⟨clause, hclause, hentry⟩ := Option.map_eq_some_iff.mp hclause
      simp [Option.filter_some, hnewAt, hclause, hentry]

/-- Guards may come back with another kind. -/
theorem entries_extend_kinds (c : Config) (more : List ContractMethod) (m : Method) :
    (ofConfig c).entries m =
      (((ofConfig (c.extend more)).entries m).filter fun p => ¬ c.NewCallAt more m p.1).map
        fun p => (p.1, if (ofConfig c).GuardAt m p.1 then
          p.2.withKind (((ofConfig c).regionsOf m).guardKind c.legacyRule p.1) else p.2) := by
  refine entries_extend (fun i entry => if (ofConfig c).GuardAt m i then
    entry.withKind (((ofConfig c).regionsOf m).guardKind c.legacyRule i) else entry) ?_
  intro i stmt hstmt hnew
  rw [clause?_extend hnew _ ((ofConfig (c.extend more)).regionsOf m), Option.map_map]
  congr 1
  funext clause
  have hguardAt : (ofConfig c).GuardAt m i ↔ ((ofConfig c).shape stmt).isGuard := guardAt_iff hstmt
  by_cases hguard : ((ofConfig c).shape stmt).isGuard
  · simp [hguard, hguardAt, Entry.withKind_ofCandidate]
  · simp [hguard, hguardAt]

/-- Under the rule that does not look at the place of a guard every entry comes back as it was. -/
theorem entries_extend_alwaysRequires {c : Config} (hrule : c.legacyRule = .alwaysRequires)
    (more : List ContractMethod) (m : Method) :
    (ofConfig c).entries m =
      ((ofConfig (c.extend more)).entries m).filter fun p => ¬ c.NewCallAt more m p.1 := by
  rw [entries_extend (fun _ entry => entry) ?_]
  · exact List.map_id' _
  · intro i stmt hstmt hnew
    rw [clause?, clause?, shape_extend hnew]
    cases (ofConfig c).shape stmt with
    | legacyGuard test => simp [ofConfig, Config.extend, hrule, Regions.guardKind]
    | _ => rfl

/-- **More contract methods only add clauses.** With them extraction fails where it failed without
them, and with the same fault. Where it has a result, the entries without the further methods are
those with them, in order and each at its statement, except for the entries of new calls. Under the
rule that does not look at the place of a guard nothing about an entry changes, so the contracts are
a part of the contracts and the diagnostics a part of the diagnostics; under the other rule the
kinds of guards may change and nothing else. -/
theorem extract_extend (c : Config) (more : List ContractMethod) (m : Method) :
    (∃ why, (ofConfig c).extract m = .error why ∧
      (ofConfig (c.extend more)).extract m = .error why) ∨
    ∃ e e' entries entries', ∃ kinds : Nat → ClauseKind,
      (ofConfig c).extract m = .ok e ∧ (ofConfig (c.extend more)).extract m = .ok e' ∧
      (ofConfig c).Traces m entries ∧ (ofConfig (c.extend more)).Traces m entries' ∧
      (entries = (entries'.filter fun p => ¬ c.NewCallAt more m p.1).map fun p =>
        (p.1, if (ofConfig c).GuardAt m p.1 then p.2.withKind (kinds p.1) else p.2)) ∧
      (c.legacyRule = .alwaysRequires →
        (entries = entries'.filter fun p => ¬ c.NewCallAt more m p.1) ∧
        e.contracts.clauses.Sublist e'.contracts.clauses ∧
        e.diagnostics.Sublist e'.diagnostics) := by
  cases hopcode : m.root.preorder.findSome? Node.opcode? with
  | some opcode => exact .inl ⟨_, extract_of_opcode _ hopcode, extract_of_opcode _ hopcode⟩
  | none =>
    have hroot := (Node.findSome?_opcode_eq_none_iff _).mp hopcode
    have htraces := traces_entries (x := ofConfig c) hroot
    have htraces' := traces_entries (x := ofConfig (c.extend more)) hroot
    obtain ⟨e, hextract, hcomprises⟩ := htraces.result
    obtain ⟨e', hextract', hcomprises'⟩ := htraces'.result
    refine .inr ⟨e, e', _, _, _, hextract, hextract', htraces, htraces',
      entries_extend_kinds c more m, fun hrule => ?_⟩
    have hentries := entries_extend_alwaysRequires hrule more m
    have hsublist : (((ofConfig c).entries m).map Prod.snd).Sublist
        (((ofConfig (c.extend more)).entries m).map Prod.snd) := by
      rw [hentries]
      exact List.filter_sublist.map _
    rw [hcomprises.contracts, hcomprises'.contracts, hcomprises.diagnostics,
      hcomprises'.diagnostics]
    exact ⟨hentries, hsublist.filterMap _, hsublist.filterMap _⟩

/-- A further entry for a call that is covered already changes nothing. One for another call adds a
contract and, where the condition is on the stack, a note. -/
theorem extract_extend_shadowed :
    let require : Callee := ⟨"Guard", "Require"⟩
    let check : Callee := ⟨"Guard", "Check"⟩
    let c : Config := ⟨[⟨require, 1, .requires⟩], none, .alwaysRequires⟩
    let more : List ContractMethod := [⟨require, 1, .ensures⟩, ⟨check, 1, .ensures⟩]
    let x : Node := .unlocated (.ref (.argument 0 (some "x")))
    let m : Method := ⟨"T", ⟨"f", [], "void"⟩, .replicate 0,
      [.unlocated (.call require [x]), .unlocated (.call check [x]),
        .unlocated (.call check [.unlocated .stackDuplicate]),
        .unlocated (.conditional x (.unlocated (.throw none)) none)], none⟩
    c.legacyRule = .alwaysRequires ∧ (∀ i < 4, c.NewCallAt more m i ↔ i = 1 ∨ i = 2) ∧
      ∃ e e' entries entries',
        (ofConfig c).extract m = .ok e ∧ (ofConfig (c.extend more)).extract m = .ok e' ∧
        (ofConfig c).Traces m entries ∧ (ofConfig (c.extend more)).Traces m entries' ∧
        (entries = entries'.filter fun p => ¬ c.NewCallAt more m p.1) ∧
        e.contracts.clauses.Sublist e'.contracts.clauses ∧
        e.diagnostics.Sublist e'.diagnostics := by
  intro require check c more x m
  refine ⟨rfl, by decide, ?_⟩
  rcases extract_extend c more m with ⟨why, hwhy, -⟩ | hresults
  · have hroot : m.root.Recognized := by decide
    rw [extract_of_recognized _ hroot] at hwhy
    cases hwhy
  · obtain ⟨e, e', entries, entries', -, he, he', htraces, htraces', -, halways⟩ := hresults
    obtain ⟨hentries, hcontracts, hdiagnostics⟩ := halways rfl
    exact ⟨e, e', entries, entries', he, he', htraces, htraces', hentries, hcontracts,
      hdiagnostics⟩

end Extractor

end MethodContracts
