import MethodContracts.Cache.Basic
import MethodContracts.Proofs.Cache.Plain
import MethodContracts.Proofs.Record.RoundTrip

/-!
# The cache as a map

Behind the bytes of a store stands a map: some fingerprints stand for a result, some for a record
that cannot be read, and the others for nothing. The calls of the cache can be described on that
map alone, without bytes and without codecs. This module gives the description and proves that
the cache follows it, for every sequence of calls and from every contents of the store, however
damaged: each answer is the one that the map gives, the map behind the store changes as
described, and no byte changes under a fingerprint that a call does not write to.

The only trace of the bytes in the description is `Entries.reread`: a result whose text nests
too deep turns into an unreadable record when it is written.
-/

namespace MethodContracts

/-! ## Calls -/

/-- A call of the cache. -/
inductive Operation where
  | putExtraction (fp : Fingerprint) (e : Extraction)
  | put (fp : Fingerprint) (contracts : ContractSet)
  | lookup (fp : Fingerprint)
  | get (fp : Fingerprint)
  | invalidate (fp : Fingerprint)
  | invalidateAll
  | size
deriving DecidableEq

/-- The answer of a call that does not fail. -/
inductive Answer where
  | outcome (outcome : PutOutcome)
  | found (what : Lookup)
  | contracts (contracts : Option ContractSet)
  | removed (there : Bool)
  | done
  | count (n : Nat)
deriving DecidableEq

namespace Operation

variable {σ : Type} [Store σ]

/-- Makes the call. -/
def run : Operation → StoreM σ Answer
  | putExtraction fp e => .outcome <$> Cache.putExtraction fp e
  | put fp contracts => .outcome <$> Cache.put fp contracts
  | lookup fp => .found <$> Cache.lookup fp
  | get fp => .contracts <$> Cache.get? fp
  | invalidate fp => .removed <$> Cache.invalidate fp
  | invalidateAll => (fun _ => .done) <$> Cache.invalidateAll
  | size => .count <$> Cache.size

/-- Makes calls one after another. A call that fails does not stop the next one. -/
def runAll : List Operation → σ → List (Except StorageError Answer) × σ
  | [], s => ([], s)
  | op :: rest, s =>
    ((op.run.on s).1 :: (runAll rest (op.run.on s).2).1, (runAll rest (op.run.on s).2).2)

end Operation

/-! ## The map behind a store -/

/-- What fingerprints stand for: a result, or a record that cannot be read and why. A
fingerprint that is not in the map stands for nothing. -/
abbrev Entries := Std.ExtHashMap Fingerprint (Except FormatError Extraction)

/-- The map behind records. -/
def Records.entries (records : Records) : Entries := records.map fun _ record => Record.decode record

namespace Entries

/-- What a result becomes by being written: itself, unless its text nests too deep. -/
def reread (e : Extraction) : Except FormatError Extraction :=
  if e.nesting ≤ 127 then .ok e else .error (.payload ReadError.shape.message)

variable (entries : Entries)

/-- A put writes when there is no result under the fingerprint. -/
def writes (fp : Fingerprint) : Bool :=
  match entries[fp]? with
  | some (.ok _) => false
  | _ => true

/-- The answer to a put. -/
def putAnswer (fp : Fingerprint) (e : Extraction) : Except StorageError Answer :=
  match entries[fp]? with
  | none => .ok (.outcome .stored)
  | some (.error _) => .ok (.outcome .replaced)
  | some (.ok existing) =>
    if existing = e then .ok (.outcome .unchanged) else .error (.inconsistent fp)

/-- The map after a put. -/
def putNext (fp : Fingerprint) (e : Extraction) : Entries :=
  if entries.writes fp then entries.insert fp (reread e) else entries

/-- The answer to a call. -/
def answer : Operation → Except StorageError Answer
  | .putExtraction fp e => entries.putAnswer fp e
  | .put fp contracts => entries.putAnswer fp ⟨contracts, []⟩
  | .lookup fp =>
    match entries[fp]? with
    | none => .ok (.found .miss)
    | some (.ok e) => .ok (.found (.hit e))
    | some (.error why) => .ok (.found (.stale why))
  | .get fp =>
    match entries[fp]? with
    | some (.ok e) => .ok (.contracts (some e.contracts))
    | _ => .ok (.contracts none)
  | .invalidate fp => .ok (.removed (entries.contains fp))
  | .invalidateAll => .ok .done
  | .size => .ok (.count entries.size)

/-- The map after a call. -/
def next : Operation → Entries
  | .putExtraction fp e => entries.putNext fp e
  | .put fp contracts => entries.putNext fp ⟨contracts, []⟩
  | .invalidate fp => entries.erase fp
  | .invalidateAll => ∅
  | .lookup _ | .get _ | .size => entries

/-- The call writes or removes bytes under the fingerprint. -/
def touches (op : Operation) (fp : Fingerprint) : Bool :=
  match op with
  | .putExtraction fp' _ | .put fp' _ => fp = fp' && entries.writes fp
  | .invalidate fp' => fp = fp'
  | .invalidateAll => true
  | .lookup _ | .get _ | .size => false

/-- The answers to calls one after another. -/
def answers (entries : Entries) : List Operation → List (Except StorageError Answer)
  | [] => []
  | op :: rest => entries.answer op :: (entries.next op).answers rest

/-- The map after calls. -/
def after (entries : Entries) : List Operation → Entries
  | [] => entries
  | op :: rest => (entries.next op).after rest

/-- None of the calls touches the fingerprint. -/
def untouched (entries : Entries) (fp : Fingerprint) : List Operation → Bool
  | [] => true
  | op :: rest => !entries.touches op fp && (entries.next op).untouched fp rest

end Entries

/-! ## Reading the map off the records -/

namespace Records

variable (records : Records) (fp : Fingerprint)

@[simp] theorem getElem?_entries : records.entries[fp]? = records[fp]?.map Record.decode :=
  Std.ExtHashMap.getElem?_map

@[simp] theorem entries_insert (record : Bytes) :
    entries (records.insert fp record) = records.entries.insert fp (Record.decode record) := by
  apply Std.ExtHashMap.ext_getElem?
  intro other
  rw [getElem?_entries, Std.ExtHashMap.getElem?_insert, Std.ExtHashMap.getElem?_insert,
    getElem?_entries]
  split_ifs <;> rfl

@[simp] theorem entries_erase : entries (records.erase fp) = records.entries.erase fp := by
  apply Std.ExtHashMap.ext_getElem?
  intro other
  rw [getElem?_entries, Std.ExtHashMap.getElem?_erase, Std.ExtHashMap.getElem?_erase,
    getElem?_entries]
  split_ifs <;> rfl

@[simp] theorem entries_empty : entries ∅ = ∅ := by
  apply Std.ExtHashMap.ext_getElem?
  intro other
  rw [getElem?_entries, Std.ExtHashMap.getElem?_empty, Std.ExtHashMap.getElem?_empty,
    Option.map_none]

@[simp] theorem contains_entries : records.entries.contains fp = records.contains fp :=
  Std.ExtHashMap.contains_map

@[simp] theorem size_entries : records.entries.size = records.size := Std.ExtHashMap.size_map

end Records

/-- What a look-up says is what the map says. -/
theorem Lookup.ofRecord_eq (record : Option Bytes) :
    ofRecord record =
      match record.map Record.decode with
      | none => .miss
      | some (.ok e) => .hit e
      | some (.error why) => .stale why := by
  cases record with
  | none => rfl
  | some record =>
    rw [ofRecord, Option.map_some]
    cases Record.decode record <;> rfl

/-! ## One call -/

namespace Operation

/-- The call did to the records what the map behind them says. -/
structure Obeys (op : Operation) (records : Records)
    (result : Except StorageError Answer × Records) : Prop where
  answer : result.1 = records.entries.answer op
  entries : result.2.entries = records.entries.next op
  bytes : ∀ fp, records.entries.touches op fp = false → result.2[fp]? = records[fp]?

theorem lookup_on (records : Records) (fp : Fingerprint) :
    (Cache.lookup fp : StoreM Records _).on records = (.ok (.ofRecord records[fp]?), records) :=
  rfl

theorem write_on (records : Records) (fp : Fingerprint) (e : Extraction) (outcome : PutOutcome) :
    (Cache.write fp e outcome).on records = (.ok outcome, records.insert fp (Record.encode e)) := by
  rw [Cache.write, StoreM.on_bind, Records.on_save]
  exact StoreM.on_pure outcome _

/-- A put writes the record of the result when there is no readable one, and writes nothing
otherwise. -/
theorem putExtraction_on (records : Records) (fp : Fingerprint) (e : Extraction) :
    (run (.putExtraction fp e)).on records =
      (records.entries.putAnswer fp e,
        if records.entries.writes fp then records.insert fp (Record.encode e) else records) := by
  rw [run, StoreM.on_map, Cache.putExtraction, StoreM.on_bind, Records.on_load, Entries.putAnswer,
    Entries.writes, Records.getElem?_entries]
  simp only [Lookup.ofRecord_eq]
  cases records[fp]? with
  | none =>
    simp only [Option.map_none, write_on]
    rfl
  | some record =>
    cases hdecode : Record.decode record with
    | error why =>
      simp only [Option.map_some, hdecode, write_on]
      rfl
    | ok existing =>
      simp only [Option.map_some, hdecode, Bool.false_eq_true, if_false]
      split_ifs
      · rw [StoreM.on_pure]
        rfl
      · rw [StoreM.on_throw]
        rfl

/-- A put does what the map says. -/
theorem putExtraction_obeys (fp : Fingerprint) (e : Extraction) (records : Records) :
    Obeys (.putExtraction fp e) records ((run (.putExtraction fp e)).on records) := by
  have hdecode : Record.decode (Record.encode e) = Entries.reread e := Record.decode_encode e
  rw [putExtraction_on]
  refine ⟨rfl, ?_, fun other hother => ?_⟩
  · simp only [Entries.next, Entries.putNext]
    split_ifs
    · rw [Records.entries_insert, hdecode]
    · rfl
  · simp only [Entries.touches, Bool.and_eq_false_iff, decide_eq_false_iff_not] at hother
    split_ifs with hwrites
    · have hne : ¬ fp = other := by
        rintro rfl
        rcases hother with hne | hsame
        · exact hne rfl
        · rw [hwrites] at hsame
          cases hsame
      rw [Std.ExtHashMap.getElem?_insert, if_neg (by simpa using hne)]
    · rfl

/-- **Every call does what the map behind the records says.** -/
theorem run_obeys (op : Operation) (records : Records) :
    Obeys op records (op.run.on records) := by
  cases op with
  | putExtraction fp e => exact putExtraction_obeys fp e records
  | put fp contracts =>
    -- a put of contracts is the put of a result without diagnostics
    obtain ⟨hanswer, hentries, hbytes⟩ := putExtraction_obeys fp ⟨contracts, []⟩ records
    exact ⟨hanswer, hentries, hbytes⟩
  | lookup fp =>
    refine ⟨?_, rfl, fun _ _ => rfl⟩
    rw [run, StoreM.on_map, lookup_on, Lookup.ofRecord_eq, ← Records.getElem?_entries,
      Entries.answer]
    rcases records.entries[fp]? with _ | _ | _ <;> rfl
  | get fp =>
    have hget : (Cache.get? fp : StoreM Records _).on records =
        (.ok (match records.entries[fp]? with
          | some (.ok e) => some e.contracts
          | _ => none), records) := by
      rw [Cache.get?, StoreM.on_bind, lookup_on, Lookup.ofRecord_eq, ← Records.getElem?_entries]
      rcases records.entries[fp]? with _ | _ | _ <;> rfl
    rw [run, StoreM.on_map, hget]
    refine ⟨?_, rfl, fun _ _ => rfl⟩
    rw [Entries.answer]
    rcases records.entries[fp]? with _ | _ | _ <;> rfl
  | invalidate fp =>
    rw [run, StoreM.on_map, Cache.invalidate, Records.on_remove]
    refine ⟨?_, Records.entries_erase records fp, fun other hother => ?_⟩
    · rw [Entries.answer, Records.contains_entries]
      rfl
    · have hne : ¬ other = fp := by simpa [Entries.touches] using hother
      rw [Std.ExtHashMap.getElem?_erase, if_neg fun heq => hne (beq_iff_eq.mp heq).symm]
  | invalidateAll =>
    rw [run, StoreM.on_map, Cache.invalidateAll, Records.on_clear]
    exact ⟨rfl, Records.entries_empty, nofun⟩
  | size =>
    rw [run, StoreM.on_map, Cache.size, Records.on_count]
    refine ⟨?_, rfl, fun _ _ => rfl⟩
    rw [Entries.answer, Records.size_entries]
    rfl

/-! ## Calls one after another -/

/-- Over the plain store, any number of calls do what the map says. -/
theorem runAll_records (ops : List Operation) (records : Records) :
    (runAll ops records).1 = records.entries.answers ops ∧
      (runAll ops records).2.entries = records.entries.after ops ∧
      ∀ fp, records.entries.untouched fp ops → (runAll ops records).2[fp]? = records[fp]? := by
  induction ops generalizing records with
  | nil => exact ⟨rfl, rfl, fun _ _ => rfl⟩
  | cons op rest ih =>
    obtain ⟨hanswer, hentries, hbytes⟩ := run_obeys op records
    -- the rest goes on from what the first call left, and so does the map
    obtain ⟨hanswers, hafter, hrest⟩ := ih (op.run.on records).2
    rw [hentries] at hanswers hafter hrest
    refine ⟨?_, hafter, fun fp huntouched => ?_⟩
    · rw [runAll, Entries.answers, ← hanswer, ← hanswers]
    · rw [Entries.untouched, Bool.and_eq_true, Bool.not_eq_true'] at huntouched
      exact (hrest fp huntouched.2).trans (hbytes fp huntouched.1)

section Stores

variable {σ : Type} [Store σ] {contents : σ → Records}

variable {R : ∀ {α : Type}, StoreM σ α → StoreM Records α → Prop}

theorem putExtraction_related (hR : StoreM.Respects R) (fp : Fingerprint) (e : Extraction) :
    R (Cache.putExtraction fp e) (Cache.putExtraction fp e) := by
  have hwrite (outcome : PutOutcome) :
      R (Cache.write fp e outcome) (Cache.write fp e outcome) := by
    rw [Cache.write, Cache.write, bind_pure_comp, bind_pure_comp]
    exact hR.map _ (hR.save fp (Record.encode e))
  refine hR.load fp fun record => ?_
  cases Lookup.ofRecord record with
  | miss => exact hwrite .stored
  | stale why => exact hwrite .replaced
  | hit existing =>
    by_cases heq : existing = e
    · simp only [if_pos heq]
      exact hR.pure PutOutcome.unchanged
    · simp only [if_neg heq]
      exact hR.throw (.inconsistent fp)

/-- Every call of the cache loads first and writes at most once. -/
theorem run_related (hR : StoreM.Respects R) (op : Operation) : R op.run op.run := by
  cases op with
  | putExtraction fp e => exact hR.map _ (putExtraction_related hR fp e)
  | put fp contracts => exact hR.map _ (putExtraction_related hR fp (.ofContracts contracts))
  | lookup fp => exact hR.map _ (hR.load fp fun _ => hR.pure _)
  | get fp =>
    have hget : R (Cache.get? fp) (Cache.get? fp) := by
      rw [Cache.get?, Cache.get?, Cache.lookup, Cache.lookup, bind_assoc, bind_assoc]
      refine hR.load fp fun record => ?_
      rw [pure_bind, pure_bind]
      cases Lookup.ofRecord record <;> exact hR.pure _
    exact hR.map _ hget
  | invalidate fp => exact hR.map _ (hR.remove fp)
  | invalidateAll => exact hR.map _ hR.clear
  | size => exact hR.map _ hR.count

theorem runAll_follows (hstore : Store.Plain contents) (ops : List Operation) (s : σ) :
    (runAll ops s).1 = (runAll ops (contents s)).1 ∧
      contents (runAll ops s).2 = (runAll ops (contents s)).2 := by
  induction ops generalizing s with
  | nil => exact ⟨rfl, rfl⟩
  | cons op rest ih =>
    -- a call over a store that behaves as a map follows the call over the plain store
    obtain ⟨hanswer, hcontents⟩ := run_related hstore.respects op s
    obtain ⟨hanswers, hrest⟩ := ih (op.run.on s).2
    rw [hcontents] at hanswers hrest
    exact ⟨congr (congrArg List.cons hanswer) hanswers, hrest⟩

/-- **The cache follows the map behind its store.** Over any store that behaves as a map, and
from any contents of it, calls one after another give the answers that the map gives, leave
the map that it becomes, and change no byte under a fingerprint that none of them touches. -/
theorem runAll_refines (hstore : Store.Plain contents) (ops : List Operation) (s : σ) :
    (runAll ops s).1 = (contents s).entries.answers ops ∧
      (contents (runAll ops s).2).entries = (contents s).entries.after ops ∧
      ∀ fp, (contents s).entries.untouched fp ops →
        (contents (runAll ops s).2)[fp]? = (contents s)[fp]? := by
  obtain ⟨hanswers, hcontents⟩ := runAll_follows hstore ops s
  rw [hanswers, hcontents]
  exact runAll_records ops (contents s)

end Stores

/-- A damaged record is found, replaced and kept, and stays the only one. -/
theorem runAll_refines_damaged :
    let fp := Fingerprint.replicate 1
    let records := (∅ : Records).insert fp [0x49, 0x4c]
    let ops := [lookup fp, put fp .empty, put fp .empty, size]
    Store.Plain (id : Records → Records) ∧
      (runAll ops records).1 =
        [.ok (.found (.stale (.truncated 2 38))), .ok (.outcome .replaced),
          .ok (.outcome .unchanged), .ok (.count 1)] := by
  intro fp records ops
  have hreread : Entries.reread ⟨.empty, []⟩ = .ok ⟨.empty, []⟩ := by
    rw [Entries.reread, Extraction.nesting_eq_depth]
    rfl
  have hentries : Records.entries records = (∅ : Entries).insert fp (.error (.truncated 2 38)) := by
    rw [Records.entries_insert, Records.entries_empty]
    rfl
  refine ⟨Store.plain_records, ?_⟩
  rw [(runAll_refines Store.plain_records ops records).1]
  change (Records.entries records).answers ops = _
  rw [hentries]
  simp [ops, Entries.answers, Entries.answer, Entries.next, Entries.putAnswer, Entries.putNext,
    Entries.writes, hreread, Std.ExtHashMap.size_insert]

end Operation

end MethodContracts
