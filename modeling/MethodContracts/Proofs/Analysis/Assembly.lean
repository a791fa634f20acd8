import Mathlib.Data.List.FinRange
import MethodContracts.Proofs.Analysis.Outcome

/-!
# Methods of an assembly do not influence each other

The methods of an assembly are analyzed in any order, and the reports stand in the order of the
assembly. When no two methods have the same fingerprint, each of them finds the record that was
there at first, and nobody else writes where it writes. So each report is the one that the method
gets alone, and the store ends up the same whatever the order was. A malformed method writes
nothing and can be put in anywhere.
-/

namespace MethodContracts.Analysis

/-! ## Orders -/

/-- Analyzes the methods of an assembly one after another, in the given order of their places. Each
report is put in the place of its method. -/
def assemblyInOrder {σ : Type} [Store σ] (x : Extractor) (a : Assembly)
    (order : List (Fin a.methods.length)) : AnalysisM σ AssemblyReport := do
  let reports ← methods x (order.map a.methods.get)
  return ⟨a.name, (List.finRange a.methods.length).filterMap fun i => (order.zip reports).lookup i⟩

/-- What was computed in turn is found in its place. -/
theorem lookup_zip_map {α β : Type} [BEq α] [LawfulBEq α] (f : α → β) {order : List α} {a : α}
    (h : a ∈ order) : (order.zip (order.map f)).lookup a = some (f a) := by
  induction order with
  | nil => cases h
  | cons b rest ih =>
    rw [List.map_cons, List.zip_cons_cons, List.lookup_cons]
    by_cases heq : a = b
    · rw [heq, beq_self_eq_true]
    · rw [beq_false_of_ne heq]
      exact ih ((List.mem_cons.mp h).resolve_left heq)

/-- When every place has its turn, every place has its report. -/
theorem filterMap_lookup_zip {β : Type} {n : Nat} {order : List (Fin n)}
    (horder : order.Perm (List.finRange n)) (f : Fin n → β) :
    ((List.finRange n).filterMap fun i => (order.zip (order.map f)).lookup i) =
      (List.finRange n).map f := by
  have hlookup (i : Fin n) : (order.zip (order.map f)).lookup i = some (f i) :=
    lookup_zip_map f (horder.mem_iff.mpr (List.mem_finRange i))
  simp only [hlookup]
  exact congrFun List.filterMap_eq_map _

/-- Every method that is analyzed has a report. -/
theorem length_of_methods {σ : Type} [Store σ] {x : Extractor} {ms : List Method} {s s' : σ}
    {reports : List MethodReport} (h : (methods x ms).on s = (.ok reports, s')) :
    reports.length = ms.length := by
  induction ms generalizing s s' reports with
  | nil =>
    cases h
    rfl
  | cons m rest ih =>
    obtain ⟨report, _, -, hmore⟩ := AnalysisM.exists_of_on_bind h
    obtain ⟨more, _, hrest, hreports⟩ := AnalysisM.exists_of_on_bind hmore
    cases hreports
    exact congrArg (· + 1) (ih hrest)

/-- The order of the assembly is one of them. -/
theorem assemblyInOrder_finRange {σ : Type} [Store σ] (x : Extractor) (a : Assembly) (s : σ) :
    (assemblyInOrder x a (List.finRange a.methods.length)).on s = (assembly x a).on s := by
  rw [assemblyInOrder, assembly, List.map_get_finRange, AnalysisM.on_bind, AnalysisM.on_bind]
  rcases hrun : (methods x a.methods).on s with ⟨why | reports, s'⟩
  · rfl
  · have hlength : reports.length = a.methods.length := length_of_methods hrun
    have hplaces {n : Nat} (h : reports.length = n) :
        ∃ f : Fin n → MethodReport, (List.finRange n).map f = reports := by
      subst h
      exact ⟨reports.get, List.map_get_finRange reports⟩
    obtain ⟨f, hf⟩ := hplaces hlength
    have hlookup := filterMap_lookup_zip (List.Perm.refl (List.finRange a.methods.length)) f
    rw [hf] at hlookup
    simp only [hlookup]

/-! ## Different fingerprints -/

/-- The report that a method gets when nothing is analyzed before it. -/
def alone (x : Extractor) (records : Records) (m : Method) : MethodReport :=
  (outcome x m records[m.fingerprint]?).report

/-- No two methods have the same fingerprint. -/
def Distinct (ms : List Method) : Prop := (ms.map (·.fingerprint)).Nodup

instance (ms : List Method) : Decidable (Distinct ms) :=
  inferInstanceAs (Decidable (ms.map (·.fingerprint)).Nodup)

section Distinct

variable {x : Extractor} {ms : List Method}

theorem distinct_cons {m : Method} {rest : List Method} :
    Distinct (m :: rest) ↔ (∀ other ∈ rest, other.fingerprint ≠ m.fingerprint) ∧ Distinct rest := by
  rw [Distinct, Distinct, List.map_cons, List.nodup_cons, List.mem_map]
  refine and_congr_left fun _ => ⟨fun h other hother heq => h ⟨other, hother, heq⟩, ?_⟩
  rintro h ⟨other, hother, heq⟩
  exact h other hother heq

theorem Distinct.perm {ms' : List Method} (h : Distinct ms) (hperm : ms'.Perm ms) : Distinct ms' :=
  (hperm.map _).nodup_iff.mpr h

/-- Each method gets the report that it gets alone. -/
theorem reports_of_distinct (h : Distinct ms) (records : Records) :
    reports x ms records = ms.map (alone x records) := by
  induction ms generalizing records with
  | nil => rfl
  | cons m rest ih =>
    obtain ⟨hm, hrest⟩ := distinct_cons.mp h
    rw [reports, ih hrest, List.map_cons]
    refine congrArg (_ :: ·) (List.map_congr_left fun other hother => ?_)
    -- the first method has not touched the record of any other
    rw [alone, alone, Records.getElem?_written_of_ne _ (hm other hother).symm]

/-- Under the fingerprint of a method is what this method has left there. -/
theorem getElem?_after_of_mem (h : Distinct ms) {m : Method} (hm : m ∈ ms) (records : Records) :
    (after x ms records)[m.fingerprint]? =
      (outcome x m records[m.fingerprint]?).written.or records[m.fingerprint]? := by
  induction ms generalizing records with
  | nil => cases hm
  | cons first rest ih =>
    obtain ⟨hfirst, hrest⟩ := distinct_cons.mp h
    rw [after]
    rcases List.mem_cons.mp hm with rfl | hm
    · rw [getElem?_after hfirst, Records.getElem?_written_self]
    · rw [ih hrest hm, Records.getElem?_written_of_ne _ (hfirst m hm).symm]

/-- The order of the methods makes no difference to the store. -/
theorem after_perm {ms' : List Method} (h : Distinct ms) (hperm : ms'.Perm ms) (records : Records) :
    after x ms' records = after x ms records := by
  apply Std.ExtHashMap.ext_getElem?
  intro fp
  by_cases hfp : ∃ m ∈ ms, m.fingerprint = fp
  · obtain ⟨m, hm, rfl⟩ := hfp
    rw [getElem?_after_of_mem h hm, getElem?_after_of_mem (h.perm hperm) (hperm.mem_iff.mpr hm)]
  · have hnone : ∀ m ∈ ms, m.fingerprint ≠ fp := fun m hm heq => hfp ⟨m, hm, heq⟩
    rw [getElem?_after hnone, getElem?_after fun m hm => hnone m (hperm.mem_iff.mp hm)]

end Distinct

/-! ## Assemblies -/

/-- Whatever the order in which the methods of the assembly are analyzed one after another, these
are the reports and these the records in the end. -/
structure ComesTo (x : Extractor) (records : Records) (a : Assembly) (reports : List MethodReport)
    (final : Records) : Prop where
  assembly : (assembly x a).on records = (.ok ⟨a.name, reports⟩, final)
  inOrder : ∀ order, order.Perm (List.finRange a.methods.length) →
    (assemblyInOrder x a order).on records = (.ok ⟨a.name, reports⟩, final)

theorem comesTo_of_distinct (x : Extractor) (records : Records) {a : Assembly}
    (h : Distinct a.methods) :
    ComesTo x records a (a.methods.map (alone x records)) (after x a.methods records) := by
  have hinOrder (order : List (Fin a.methods.length))
      (horder : order.Perm (List.finRange a.methods.length)) :
      (assemblyInOrder x a order).on records =
        (.ok ⟨a.name, a.methods.map (alone x records)⟩, after x a.methods records) := by
    have hperm : (order.map a.methods.get).Perm a.methods := by
      have hmap := horder.map a.methods.get
      rwa [List.map_get_finRange] at hmap
    have hreports : (List.finRange a.methods.length).map (alone x records ∘ a.methods.get) =
        a.methods.map (alone x records) := by
      rw [← List.map_map, List.map_get_finRange]
    have hlookup := filterMap_lookup_zip horder (alone x records ∘ a.methods.get)
    rw [hreports] at hlookup
    rw [assemblyInOrder, AnalysisM.on_bind, methods_on_eq, reports_of_distinct (h.perm hperm),
      after_perm h hperm, List.map_map]
    simp only [hlookup, AnalysisM.on_pure]
  refine ⟨?_, hinOrder⟩
  rw [← assemblyInOrder_finRange]
  exact hinOrder _ (.refl _)

/-- A malformed method without a record is reported as failed and writes nothing. -/
theorem outcome_of_malformed (x : Extractor) {m : Method} (hm : ¬ m.root.Recognized) :
    (outcome x m none).report.status = .failed ∧ (outcome x m none).written = none := by
  cases hopcode : m.root.preorder.findSome? Node.opcode? with
  | none => exact absurd ((Node.findSome?_opcode_eq_none_iff _).mp hopcode) hm
  | some opcode =>
    have hmiss (e : Extraction) : (none : Option Bytes).map Record.decode ≠ some (.ok e) := by simp
    rw [outcome_of_opcode hmiss hopcode]
    exact ⟨rfl, rfl⟩

/-- **Methods with different fingerprints do not influence each other.** Whatever the order in which
they are analyzed, nothing fails, each method gets the report that it gets on the first store alone,
and the final store is the same. So permuting the methods permutes the reports and leaves the final
store the same, and a malformed method with a fingerprint of its own and no record adds its report,
wherever it is put in, and changes no other report and no byte of the store. -/
theorem assembly_independent (x : Extractor) (records : Records) {a : Assembly}
    (h : Distinct a.methods) :
    ∃ (report : Method → MethodReport) (final : Records),
      (∀ m, ∃ records', (method x m).on records = (.ok (report m), records')) ∧
      ComesTo x records a (a.methods.map report) final ∧
      (∀ permuted : Assembly, permuted.methods.Perm a.methods →
        ComesTo x records permuted (permuted.methods.map report) final) ∧
      ∀ before m behind, a.methods = before ++ behind →
        (∀ other ∈ a.methods, other.fingerprint ≠ m.fingerprint) →
        records[m.fingerprint]? = none → ¬ m.root.Recognized →
          (report m).status = .failed ∧
            ComesTo x records ⟨a.name, before ++ m :: behind⟩
              (before.map report ++ report m :: behind.map report) final := by
  refine ⟨alone x records, after x a.methods records, fun m => ⟨_, method_on_eq x m records⟩,
    comesTo_of_distinct x records h, fun permuted hperm => ?_, ?_⟩
  · rw [← after_perm h hperm]
    exact comesTo_of_distinct x records (h.perm hperm)
  · intro before m behind hsplit hfresh hrecord hm
    obtain ⟨hfailed, hwritten⟩ := outcome_of_malformed x hm
    have hperm : (before ++ m :: behind).Perm (m :: a.methods) := by
      rw [hsplit]
      exact List.perm_middle
    have hmore : Distinct (m :: a.methods) := distinct_cons.mpr ⟨hfresh, h⟩
    -- in front of all the others the malformed method does not change the store
    have hafter : after x (before ++ m :: behind) records = after x a.methods records := by
      rw [after_perm hmore hperm, after, hrecord, hwritten]
      rfl
    have hcomes := comesTo_of_distinct x records (a := ⟨a.name, before ++ m :: behind⟩)
      (hmore.perm hperm)
    rw [List.map_append, List.map_cons, hafter] at hcomes
    refine ⟨?_, hcomes⟩
    rw [alone, hrecord]
    exact hfailed

/-- Two empty methods, of which the first finds a damaged record. They are turned round, and a
malformed method is put in between. -/
theorem assembly_independent_damaged :
    let x := Extractor.ofConfig .standard
    let f : Method := ⟨"T", ⟨"f", [], "void"⟩, .replicate 1, [], none⟩
    let g : Method := ⟨"T", ⟨"g", [], "void"⟩, .replicate 2, [], none⟩
    let malformed : Method :=
      ⟨"T", ⟨"h", [], "void"⟩, .replicate 3, [.unlocated (.unrecognized "calli" [])], none⟩
    let records := (∅ : Records).insert (.replicate 1) [0x49, 0x4c]
    Distinct [f, g] ∧
      ∃ (report : Method → MethodReport) (final : Records),
        ComesTo x records ⟨"A", [f, g]⟩ [report f, report g] final ∧
        ComesTo x records ⟨"A", [g, f]⟩ [report g, report f] final ∧
        ComesTo x records ⟨"A", [f, malformed, g]⟩ [report f, report malformed, report g] final ∧
        (report malformed).status = .failed := by
  intro x f g malformed records
  have hdistinct : Distinct [f, g] := by decide
  have hfresh : ∀ other ∈ [f, g], other.fingerprint ≠ malformed.fingerprint := by decide
  have hrecord : records[malformed.fingerprint]? = none := by
    rw [Std.ExtHashMap.getElem?_insert, if_neg (by decide), Std.ExtHashMap.getElem?_empty]
  obtain ⟨report, final, -, hcomes, hpermuted, hmalformed⟩ :=
    assembly_independent x records (a := ⟨"A", [f, g]⟩) hdistinct
  obtain ⟨hfailed, hinserted⟩ := hmalformed [f] malformed [g] rfl hfresh hrecord (by decide)
  exact ⟨hdistinct, report, final, hcomes, hpermuted ⟨"A", [g, f]⟩ (.swap f g []), hinserted,
    hfailed⟩

end MethodContracts.Analysis
