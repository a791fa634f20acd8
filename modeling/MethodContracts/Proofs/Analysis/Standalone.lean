import Mathlib.Logic.Relation
import MethodContracts.Analysis.Analyzer
import MethodContracts.Cache.Fault
import MethodContracts.Proofs.Cache.Plain
import MethodContracts.Proofs.Contract.Json

/-!
# Only conditions that stand on their own

A contract set comes from pushing clauses, from reading a stored one, from extraction, from the
cache, or from a report. Whichever way it came, no condition in it holds an unrecognized
instruction or a value duplicated on the evaluation stack.

Every set carries the verdict on its clauses, and each of these ways has to come by it. This module
says what the verdict amounts to in a world in which anyone may call anything at any time. Stores
are not trusted: they may be of any kind, hold any bytes, fail, and be written by others between
calls. The two steps of an analysis are calls of their own, so methods that are analyzed at the
same time are covered too.
-/

namespace MethodContracts

variable {σ α : Type}

/-- The result of an analysis, and the store after it. -/
def AnalysisM.on (act : AnalysisM σ α) (s : σ) : Except AnalysisError α × σ := act.run.run s

/-- A store, and every contract set that someone holds. -/
structure World (σ : Type) where
  store : σ
  sets : List ContractSet

namespace World

/-- Someone has got more contract sets. -/
def gain (w : World σ) (s : σ) (sets : List ContractSet) : World σ := ⟨s, sets ++ w.sets⟩

/-- Something happens: a call that returns a contract set or something with contract sets in it, or
a write to the store, by the cache or behind its back. -/
inductive Step [Store σ] (w : World σ) : World σ → Prop
  | new : Step w (w.gain w.store [.empty])
  | push {set set' : ContractSet} {clause : Clause} (hset : set ∈ w.sets)
      (h : set.push clause = .ok set') : Step w (w.gain w.store [set'])
  | ofClauses {clauses : List Clause} {set : ContractSet}
      (h : ContractSet.ofClauses clauses = .ok set) : Step w (w.gain w.store [set])
  /-- a contract set is read from a text -/
  | parseSet {source : Text.Source} {set : ContractSet}
      (h : ContractSet.codec.parse source = .ok set) : Step w (w.gain w.store [set])
  /-- a contract set is read from a tree at hand -/
  | decodeSet {json : Json} {set : ContractSet} (h : ContractSet.codec.decode json = .ok set) :
      Step w (w.gain w.store [set])
  | parseExtraction {source : Text.Source} {e : Extraction}
      (h : Extraction.codec.parse source = .ok e) : Step w (w.gain w.store [e.contracts])
  | decodeExtraction {json : Json} {e : Extraction} (h : Extraction.codec.decode json = .ok e) :
      Step w (w.gain w.store [e.contracts])
  | decodeRecord {record : Bytes} {e : Extraction} (h : Record.decode record = .ok e) :
      Step w (w.gain w.store [e.contracts])
  | extract {x : Extractor} {m : Method} {e : Extraction} (h : x.extract m = .ok e) :
      Step w (w.gain w.store [e.contracts])
  | lookup {fp : Fingerprint} {e : Extraction} {s : σ}
      (h : (Cache.lookup fp).on w.store = (.ok (.hit e), s)) : Step w (w.gain s [e.contracts])
  | get {fp : Fingerprint} {set : ContractSet} {s : σ}
      (h : (Cache.get? fp).on w.store = (.ok (some set), s)) : Step w (w.gain s [set])
  /-- the first step of an analysis finds a result -/
  | analyzeHit {m : Method} {report : MethodReport} {s : σ}
      (h : (Analysis.lookup m).on w.store = (.ok (.done report), s)) :
      Step w (w.gain s [report.contracts])
  /-- the second step of an analysis, any time after the first -/
  | analyzeMiss {x : Extractor} {m : Method} {remarks : List Remark} {report : MethodReport} {s : σ}
      (h : (Analysis.finish x m remarks).on w.store = (.ok report, s)) :
      Step w (w.gain s [report.contracts])
  | analyzeMethod {x : Extractor} {m : Method} {report : MethodReport} {s : σ}
      (h : (Analysis.method x m).on w.store = (.ok report, s)) :
      Step w (w.gain s [report.contracts])
  | analyzeAssembly {x : Extractor} {a : Assembly} {report : AssemblyReport} {s : σ}
      (h : (Analysis.assembly x a).on w.store = (.ok report, s)) :
      Step w (w.gain s (report.methods.map (·.contracts)))
  /-- puts, invalidations, failed calls and foreign writes leave any store whatever -/
  | write (s : σ) : Step w (w.gain s [])

/-- **In every run, over any store, every contract set that exists holds only conditions without
unrecognized instructions and without duplicated stack values.** A clause with another condition is
refused by every set, in every list that it stands in and in everything that such a list is read
from. Nothing else is kept out: clauses with such conditions are those of a set that the run can go
on to. -/
theorem standalone_of_run [Store σ] {s : σ} {w : World σ}
    (h : Relation.ReflTransGen Step ⟨s, []⟩ w) :
    (∀ set ∈ w.sets, ∀ clause ∈ set.clauses, ∀ n ∈ clause.condition.preorder,
      n.kind ≠ .unrecognized ∧ n.kind ≠ .stackDuplicate) ∧
    (∀ clauses : List Clause, ∀ clause ∈ clauses, ∀ n ∈ clause.condition.preorder,
      n.kind = .unrecognized ∨ n.kind = .stackDuplicate →
        (∀ set ∈ w.sets, ∀ set', set.push clause ≠ .ok set') ∧
        (∀ set', ContractSet.ofClauses clauses ≠ .ok set') ∧
        ∀ scope json, Clause.codec.list.read scope json = .ok clauses →
          ∀ set', ContractSet.decoder scope json ≠ .ok set') ∧
    ∀ clauses : List Clause,
      (∀ clause ∈ clauses, ∀ n ∈ clause.condition.preorder,
        n.kind ≠ .unrecognized ∧ n.kind ≠ .stackDuplicate) →
      ∃ set, set.clauses = clauses ∧
        Relation.ReflTransGen Step ⟨s, []⟩ (w.gain w.store [set]) := by
  refine ⟨fun set _ => set.standalone, ?_, ?_⟩
  · intro clauses clause hclause n hn hkind
    have hrefused : ¬ clause.condition.Standalone := fun hstandalone =>
      hkind.elim (hstandalone n hn).1 (hstandalone n hn).2
    refine ⟨fun set _ set' hpush => ?_, fun set' hset => ?_, fun scope json hread set' hset => ?_⟩
    · exact hrefused (ContractSet.push_eq_ok_iff.mp hpush).1
    · exact hrefused ((ContractSet.ofClauses_eq_ok_iff.mp hset).1 clause hclause)
    · -- what is read as a set is the list of its clauses, and so this clause is one of them
      have hclauses : clauses = set'.clauses :=
        Except.ok.inj (hread.symm.trans (ContractSet.decoder_eq_ok_iff.mp hset))
      exact hrefused (set'.standalone clause (hclauses ▸ hclause))
  · intro clauses hall
    have hset : ContractSet.ofClauses clauses = .ok (.accepted clauses) :=
      ContractSet.ofClauses_eq_ok_iff.mpr ⟨hall, ContractSet.clauses_accepted hall⟩
    exact ⟨.accepted clauses, ContractSet.clauses_accepted hall, h.tail (.ofClauses hset)⟩

/-- A new set, and a clause `x > 0` pushed onto it. A write is going to fail, and a clause with a
duplicated stack value is going to be refused. -/
theorem standalone_of_run_push :
    let x : Node := .unlocated (.ref (.argument 0 (some "x")))
    let positive : Node := .unlocated (.binary .gt x (.unlocated (.literal (.int32 0))))
    let clause : Clause := ⟨.requires, positive, ⟨0, none⟩, none⟩
    let marked : Clause := ⟨.requires, .unlocated .stackDuplicate, ⟨1, none⟩, none⟩
    let w : World FaultyRecords :=
      ⟨{ FaultyRecords.empty with failing := some .save }, [.accepted [clause], .empty]⟩
    Relation.ReflTransGen Step ⟨FaultyRecords.empty, []⟩ w ∧
      (∀ set ∈ w.sets, ∀ clause ∈ set.clauses, ∀ n ∈ clause.condition.preorder,
        n.kind ≠ .unrecognized ∧ n.kind ≠ .stackDuplicate) ∧
      ∀ set ∈ w.sets, ∀ set', set.push marked ≠ .ok set' := by
  intro x positive clause marked w
  have hpush : ContractSet.empty.push clause = .ok (.accepted [clause]) :=
    ContractSet.push_eq_ok_iff.mpr ⟨by decide, ContractSet.clauses_accepted (by decide)⟩
  have hrun : Relation.ReflTransGen Step ⟨FaultyRecords.empty, []⟩ w :=
    ((Relation.ReflTransGen.refl.tail .new).tail (.push List.mem_cons_self hpush)).tail (.write _)
  obtain ⟨hstandalone, hrefused, -⟩ := standalone_of_run hrun
  obtain ⟨hmarked, -⟩ := hrefused [marked] marked List.mem_cons_self marked.condition
    (by decide) (.inr rfl)
  exact ⟨hrun, hstandalone, hmarked⟩

end World

end MethodContracts
