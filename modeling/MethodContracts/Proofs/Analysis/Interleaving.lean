import Mathlib.Logic.Function.Basic
import Mathlib.Logic.Relation
import MethodContracts.Proofs.Analysis.Method

/-!
# Methods that are analyzed at the same time

The analysis of a method looks it up first and, when nothing is found, extracts and stores later.
Between the two steps other methods may have theirs, and when they have the same fingerprint they
may find, store or replace what this one is about.

The order makes no difference as long as methods with the same fingerprint are the same to the
extractor, and what the store already holds for them is what is extracted. Then no step fails, the
reports say what extraction finds in each method alone, and the store ends up the same. The
invariant is that under every fingerprint stands either the record that was there at first or
the record of the result, the latter only where nothing could be read at first. It holds of results
whose text nests too deep as well: their record cannot be read, and every later step replaces
it by the same bytes.
-/

namespace MethodContracts

/-! ## Steps in any order -/

/-- How far the analysis of one method has come. -/
inductive Stage where
  | waiting
  /-- it was looked up and not found -/
  | pending (remarks : List Remark)
  | finished (result : Except AnalysisError MethodReport)

/-- Where the first step leads. -/
def Stage.ofProgress : Except AnalysisError Progress → Stage
  | .ok (.done report) => .finished (.ok report)
  | .ok (.pending remarks) => .pending remarks
  | .error why => .finished (.error why)

/-- A store, and how far the analysis of each method has come. -/
structure Batch (ι : Type) where
  store : Records
  stage : ι → Stage

namespace Batch

variable {ι : Type}

/-- Nothing has happened yet. -/
def start (records : Records) : Batch ι := ⟨records, fun _ => .waiting⟩

/-- One method takes the step that it has come to. -/
inductive Step [DecidableEq ι] (x : Extractor) (ms : ι → Method) (b : Batch ι) : Batch ι → Prop
  | lookup {i : ι} {result : Except AnalysisError Progress} {store : Records}
      (hstage : b.stage i = .waiting)
      (hrun : (Analysis.lookup (ms i)).on b.store = (result, store)) :
    Step x ms b ⟨store, Function.update b.stage i (.ofProgress result)⟩
  | finish {i : ι} {remarks : List Remark} {result : Except AnalysisError MethodReport}
      {store : Records} (hstage : b.stage i = .pending remarks)
      (hrun : (Analysis.finish x (ms i) remarks).on b.store = (result, store)) :
    Step x ms b ⟨store, Function.update b.stage i (.finished result)⟩

/-- Every method has taken its steps. -/
def Complete (b : Batch ι) : Prop := ∀ i, ∃ result, b.stage i = .finished result

/-! ## The invariant -/

/-- Methods with the same fingerprint are the same to the extractor, and what can be read of the
records under their fingerprints is what is extracted. -/
structure Consistent (x : Extractor) (ms : ι → Method) (records : Records) : Prop where
  alike : ∀ i j, (ms i).fingerprint = (ms j).fingerprint →
    ∀ e, x.extract (ms i) = .ok e → x.extract (ms j) = .ok e
  stored : ∀ i e, records.entries[(ms i).fingerprint]? = some (.ok e) → x.extract (ms i) = .ok e

/-- Nothing was remarked but a record that cannot be read. -/
def OnlyStale (remarks : List Remark) : Prop := remarks = [] ∨ ∃ why, remarks = [.staleRecord why]

variable (x : Extractor) (ms : ι → Method) (records : Records)

/-- The result of a method is in the store: it could be read at first, or its record has been
written. -/
def Settled (store : Records) (i : ι) (e : Extraction) : Prop :=
  records.entries.writes (ms i).fingerprint →
    store[(ms i).fingerprint]? = some (Record.encode e)

/-- What is so of a method at a stage. -/
def StageSound (store : Records) (i : ι) : Stage → Prop
  | .waiting => True
  | .pending remarks => OnlyStale remarks
  | .finished result =>
    (∃ report before, result = .ok report ∧ OnlyStale before ∧ report.Describes x (ms i) before) ∧
      ∀ e, x.extract (ms i) = .ok e → Settled ms records store i e

/-- What is so at every moment. -/
structure Sound (b : Batch ι) : Prop where
  /-- a record is the one that was there at first, or that of a result -/
  record : ∀ fp, b.store[fp]? = records[fp]? ∨
    ∃ i e, (ms i).fingerprint = fp ∧ x.extract (ms i) = .ok e ∧ records.entries.writes fp ∧
      b.store[fp]? = some (Record.encode e)
  stage : ∀ i, StageSound x ms records b.store i (b.stage i)

variable {x ms records}

theorem sound_start : Sound x ms records (start records) where
  record _ := .inl rfl
  stage _ := trivial

section Readable

variable {b : Batch ι} {i : ι} {e e' : Extraction}

/-- What can be read of a record is what is extracted. -/
theorem Sound.extract_of_entry (h : Consistent x ms records) (hb : Sound x ms records b)
    (hentry : b.store.entries[(ms i).fingerprint]? = some (.ok e)) : x.extract (ms i) = .ok e := by
  rcases hb.record (ms i).fingerprint with hold | ⟨j, e', hfp, hextract, -, hnew⟩
  · rw [Records.getElem?_entries, hold, ← Records.getElem?_entries] at hentry
    exact h.stored i e hentry
  · -- the record of a result is read as that result or not at all
    rw [Records.getElem?_entries, hnew, Option.map_some, Record.decode_encode] at hentry
    split_ifs at hentry
    · cases hentry
      exact h.alike j i hfp _ hextract
    · cases hentry

/-- Where nothing could be read at first and something can be read now, the record of the result
has been written. -/
theorem Sound.settled_of_entry (h : Consistent x ms records) (hb : Sound x ms records b)
    (hextract : x.extract (ms i) = .ok e)
    (hentry : b.store.entries[(ms i).fingerprint]? = some (.ok e')) :
    Settled ms records b.store i e := by
  intro hwrites
  rcases hb.record (ms i).fingerprint with hold | ⟨j, e'', hfp, hextract', -, hnew⟩
  · rw [Records.getElem?_entries, hold, ← Records.getElem?_entries] at hentry
    exact absurd hentry (Entries.writes_iff.mp hwrites e')
  · have heq := (h.alike j i hfp _ hextract').symm.trans hextract
    rw [hnew, Except.ok.inj heq]

/-- Where nothing can be read now, nothing could be read at first. -/
theorem Sound.writes_of_writes {fp : Fingerprint} (hb : Sound x ms records b)
    (hwrites : b.store.entries.writes fp) : records.entries.writes fp := by
  rcases hb.record fp with hold | ⟨-, -, -, -, hfirst, -⟩
  · rw [Entries.writes_iff] at hwrites ⊢
    rwa [Records.getElem?_entries, ← hold, ← Records.getElem?_entries]
  · exact hfirst

end Readable

/-! ## Storing a result -/

section Settling

variable {b : Batch ι} {i : ι} {e : Extraction}

/-- Storing the result of a method does not change what stands for another. -/
theorem Settled.settle (h : Consistent x ms records) (hextract : x.extract (ms i) = .ok e) {j : ι}
    {e' : Extraction} (hextract' : x.extract (ms j) = .ok e') {store : Records}
    (hsettled : Settled ms records store j e') :
    Settled ms records (store.settle (ms i).fingerprint e) j e' := by
  intro hwrites
  by_cases hfp : (ms i).fingerprint = (ms j).fingerprint
  · obtain rfl := Except.ok.inj ((h.alike i j hfp _ hextract).symm.trans hextract')
    rw [hfp, Records.getElem?_settle_self]
    split_ifs
    · rfl
    · exact hsettled hwrites
  · rw [Records.getElem?_settle_of_ne _ hfp]
    exact hsettled hwrites

theorem StageSound.settle (h : Consistent x ms records) (hextract : x.extract (ms i) = .ok e)
    {j : ι} {stage : Stage} {store : Records} (hstage : StageSound x ms records store j stage) :
    StageSound x ms records (store.settle (ms i).fingerprint e) j stage := by
  cases stage with
  | waiting => trivial
  | pending remarks => exact hstage
  | finished result =>
    exact ⟨hstage.1, fun e' hextract' => (hstage.2 e' hextract').settle h hextract hextract'⟩

/-- After its result is stored, a method is settled. -/
theorem Sound.settled_settle (h : Consistent x ms records) (hb : Sound x ms records b)
    (hextract : x.extract (ms i) = .ok e) :
    Settled ms records (b.store.settle (ms i).fingerprint e) i e := by
  intro hwrites
  rw [Records.getElem?_settle_self]
  split_ifs with hstore
  · rfl
  · obtain ⟨e', hentry⟩ := Entries.not_writes_iff.mp hstore
    exact hb.settled_of_entry h hextract hentry hwrites

theorem Sound.record_settle (hb : Sound x ms records b) (hextract : x.extract (ms i) = .ok e)
    (fp : Fingerprint) :
    (b.store.settle (ms i).fingerprint e)[fp]? = records[fp]? ∨
      ∃ j e', (ms j).fingerprint = fp ∧ x.extract (ms j) = .ok e' ∧ records.entries.writes fp ∧
        (b.store.settle (ms i).fingerprint e)[fp]? = some (Record.encode e') := by
  by_cases hfp : (ms i).fingerprint = fp
  · subst hfp
    rw [Records.getElem?_settle_self]
    split_ifs with hwrites
    · exact .inr ⟨i, e, rfl, hextract, hb.writes_of_writes hwrites, rfl⟩
    · exact hb.record _
  · rw [Records.getElem?_settle_of_ne _ hfp]
    exact hb.record fp

end Settling

/-- After a complete run the records can be told from those at first. -/
theorem Sound.store_of_complete {b : Batch ι} (hb : Sound x ms records b)
    (hcomplete : b.Complete) :
    (∀ i e, x.extract (ms i) = .ok e → b.store[(ms i).fingerprint]? =
      if records.entries.writes (ms i).fingerprint then some (Record.encode e)
      else records[(ms i).fingerprint]?) ∧
    ∀ fp, (∀ i e, (ms i).fingerprint = fp → x.extract (ms i) ≠ .ok e) →
      b.store[fp]? = records[fp]? := by
  refine ⟨fun i e hextract => ?_, fun fp hnone => ?_⟩
  · split_ifs with hwrites
    · obtain ⟨result, hresult⟩ := hcomplete i
      have hstage := hb.stage i
      rw [hresult] at hstage
      exact hstage.2 e hextract hwrites
    · rcases hb.record (ms i).fingerprint with hold | ⟨-, -, -, -, hfirst, -⟩
      · exact hold
      · exact absurd hfirst hwrites
  · rcases hb.record fp with hold | ⟨i, e, hfp, hextract, -, -⟩
    · exact hold
    · exact absurd hextract (hnone i e hfp)

/-! ## Runs -/

variable [DecidableEq ι] {b b' : Batch ι}

/-- Every step keeps the invariant. -/
theorem Step.sound (h : Consistent x ms records) (hstep : Step x ms b b')
    (hb : Sound x ms records b) : Sound x ms records b' := by
  cases hstep with
  | @lookup i result store hstage hrun =>
    rw [Analysis.lookup_on] at hrun
    cases hrun
    refine ⟨hb.record, (Function.forall_update_iff _ _).mpr ⟨?_, fun j _ => hb.stage j⟩⟩
    rw [Lookup.ofRecord_eq, ← Records.getElem?_entries]
    rcases hentry : b.store.entries[(ms i).fingerprint]? with _ | why | e
    · exact .inl rfl
    · exact .inr ⟨why, rfl⟩
    · have hextract := hb.extract_of_entry h hentry
      refine ⟨⟨_, [], rfl, .inl rfl, MethodReport.describes_of_extract hextract .cache []⟩,
        fun e' hextract' => ?_⟩
      exact Sound.settled_of_entry (b := b) h hb hextract' hentry
  | @finish i remarks result store hstage hrun =>
    have hremarks : OnlyStale remarks := by
      have hpending := hb.stage i
      rwa [hstage] at hpending
    cases hopcode : (ms i).root.preorder.findSome? Node.opcode? with
    | some opcode =>
      rw [Analysis.finish_on_of_opcode hopcode] at hrun
      cases hrun
      refine ⟨hb.record, (Function.forall_update_iff _ _).mpr ⟨?_, fun j _ => hb.stage j⟩⟩
      refine ⟨⟨_, remarks, rfl, hremarks, MethodReport.describes_of_opcode hopcode x remarks⟩,
        fun e hextract => ?_⟩
      rw [x.extract_of_opcode hopcode] at hextract
      cases hextract
    | none =>
      have hextract := x.extract_of_recognized ((Node.findSome?_opcode_eq_none_iff _).mp hopcode)
      have hsame (e' : Extraction)
          (hentry : b.store.entries[(ms i).fingerprint]? = some (.ok e')) :=
        Except.ok.inj ((hb.extract_of_entry h hentry).symm.trans hextract)
      rw [Analysis.finish_on_of_extract hextract hsame] at hrun
      cases hrun
      refine ⟨hb.record_settle hextract, (Function.forall_update_iff _ _).mpr
        ⟨⟨⟨_, remarks, rfl, hremarks, MethodReport.describes_of_extract hextract _ remarks⟩,
          fun e hextract' => ?_⟩, fun j _ => (hb.stage j).settle h hextract⟩⟩
      obtain rfl := Except.ok.inj (hextract.symm.trans hextract')
      exact hb.settled_settle h hextract

/-- The invariant holds at every moment of every run. -/
theorem sound_of_run (h : Consistent x ms records)
    (hrun : Relation.ReflTransGen (Step x ms) (start records) b) : Sound x ms records b := by
  induction hrun with
  | refl => exact sound_start
  | tail _ hstep ih => exact hstep.sound h ih

/-- **The order of the steps makes no difference.** In every complete run no step has failed, every
report says of its method what extraction finds in it alone, after a remark on an unreadable
record at most, and every record is the one that was there at first or, where a result was found
and none could be read, the record of that result. So all complete runs leave the same store. -/
theorem independent_of_order (h : Consistent x ms records)
    (hrun : Relation.ReflTransGen (Step x ms) (start records) b) (hcomplete : b.Complete) :
    (∀ i, ∃ report before, b.stage i = .finished (.ok report) ∧ OnlyStale before ∧
      report.Describes x (ms i) before) ∧
    (∀ i e, x.extract (ms i) = .ok e → b.store[(ms i).fingerprint]? =
      if records.entries.writes (ms i).fingerprint then some (Record.encode e)
      else records[(ms i).fingerprint]?) ∧
    (∀ fp, (∀ i e, (ms i).fingerprint = fp → x.extract (ms i) ≠ .ok e) →
      b.store[fp]? = records[fp]?) ∧
    ∀ b', Relation.ReflTransGen (Step x ms) (start records) b' → b'.Complete →
      b'.store = b.store := by
  have hb := sound_of_run h hrun
  obtain ⟨hwritten, hkept⟩ := hb.store_of_complete hcomplete
  refine ⟨fun i => ?_, hwritten, hkept, fun b' hrun' hcomplete' => ?_⟩
  · obtain ⟨result, hresult⟩ := hcomplete i
    have hstage := hb.stage i
    rw [hresult] at hstage
    obtain ⟨⟨report, before, rfl, hbefore, hreport⟩, -⟩ := hstage
    exact ⟨report, before, hresult, hbefore, hreport⟩
  · obtain ⟨hwritten', hkept'⟩ := (sound_of_run h hrun').store_of_complete hcomplete'
    apply Std.ExtHashMap.ext_getElem?
    intro fp
    by_cases hfp : ∃ i e, (ms i).fingerprint = fp ∧ x.extract (ms i) = .ok e
    · obtain ⟨i, e, rfl, hextract⟩ := hfp
      rw [hwritten i e hextract, hwritten' i e hextract]
    · have hnone : ∀ i e, (ms i).fingerprint = fp → x.extract (ms i) ≠ .ok e :=
        fun i e heq hextract => hfp ⟨i, e, heq, hextract⟩
      rw [hkept fp hnone, hkept' fp hnone]

/-- Two empty methods with one fingerprint both find a damaged record before either goes on. -/
theorem independent_of_order_damaged :
    let x := Extractor.ofConfig .standard
    let ms (second : Bool) : Method :=
      ⟨"T", ⟨if second then "g" else "f", [], "void"⟩, .replicate 1, [], none⟩
    let records := (∅ : Records).insert (.replicate 1) [0x49, 0x4c]
    Consistent x ms records ∧
      ∃ b, Relation.ReflTransGen (Step x ms) (start records) b ∧ b.Complete ∧
        b.store[Fingerprint.replicate 1]? = some (Record.encode .empty) := by
  intro x ms records
  have hextract (i : Bool) : x.extract (ms i) = .ok .empty :=
    x.extract_of_recognized (m := ms i) (by cases i <;> decide)
  have hentry : Records.entries records =
      (∅ : Entries).insert (.replicate 1) (.error (.truncated 2 38)) := by
    rw [Records.entries_insert, Records.entries_empty]
    rfl
  have hconsistent : Consistent x ms records := by
    refine ⟨fun i j _ e h => ?_, fun i e h => ?_⟩
    · rw [hextract] at h ⊢
      exact h
    · rw [hentry, Std.ExtHashMap.getElem?_insert_self] at h
      cases h
  let remarks : List Remark := [.staleRecord (.truncated 2 38)]
  have hlookup (i : Bool) :
      (Analysis.lookup (ms i)).on records = (.ok (.pending remarks), records) := by
    rw [Analysis.lookup_on, Lookup.ofRecord_eq, ← Records.getElem?_entries, hentry,
      Std.ExtHashMap.getElem?_insert_self]
    rfl
  -- both look up, then both finish, whatever comes of it
  let b₁ : Batch Bool := ⟨records, Function.update (start records).stage false (.pending remarks)⟩
  let b₂ : Batch Bool := ⟨records, Function.update b₁.stage true (.pending remarks)⟩
  let finish (b : Batch Bool) (i : Bool) := (Analysis.finish x (ms i) remarks).on b.store
  let b₃ : Batch Bool :=
    ⟨(finish b₂ true).2, Function.update b₂.stage true (.finished (finish b₂ true).1)⟩
  let b₄ : Batch Bool :=
    ⟨(finish b₃ false).2, Function.update b₃.stage false (.finished (finish b₃ false).1)⟩
  have hrun : Relation.ReflTransGen (Step x ms) (start records) b₄ :=
    (((Relation.ReflTransGen.refl.tail (.lookup rfl (hlookup false))).tail
      (.lookup rfl (hlookup true))).tail (.finish rfl rfl)).tail (.finish rfl rfl)
  have hcomplete : b₄.Complete := by
    intro i
    cases i <;> exact ⟨_, rfl⟩
  obtain ⟨-, hwritten, -⟩ := independent_of_order hconsistent hrun hcomplete
  refine ⟨hconsistent, b₄, hrun, hcomplete, ?_⟩
  rw [show Fingerprint.replicate 1 = (ms true).fingerprint from rfl, hwritten true _ (hextract true),
    if_pos]
  rw [Entries.writes, hentry, Std.ExtHashMap.getElem?_insert_self]

end Batch

end MethodContracts
