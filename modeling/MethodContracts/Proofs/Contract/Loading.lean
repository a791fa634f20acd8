import MethodContracts.Proofs.Expr.Agreement
import MethodContracts.Proofs.Record.RoundTrip

/-!
# Pushing filters, loading is all or nothing

A set is kept in a variable while clauses are pushed onto it. A clause that is refused leaves
the variable as it was, so of the clauses that are pushed one after another those end up in the set
that stand on their own. A list that is made into a set as a whole, at hand or from its JSON text,
fails at its first clause that is refused, and for the same reason.
-/

namespace MethodContracts

/-- Why a clause is refused. An unrecognized instruction comes before all stack markers, wherever
it stands in the condition. -/
inductive Clause.Refused (c : Clause) : ModelError → Prop
  | malformed {opcode : String} (h : c.condition.FirstUnrecognized opcode) :
    Refused c (.malformedTree opcode)
  | unbalanced (hrecognized : c.condition.Recognized)
      (hmarked : 0 < c.condition.count (·.kind = .stackDuplicate)) :
    Refused c (.unbalancedClause c.position (c.condition.count (·.kind = .stackDuplicate)))

/-- There is a reason to refuse every clause that does not stand on its own. -/
theorem Clause.exists_refused {c : Clause} (h : ¬ c.condition.Standalone) :
    ∃ why, c.Refused why := by
  by_cases hrecognized : c.condition.Recognized
  · refine ⟨_, .unbalanced hrecognized (Nat.pos_of_ne_zero fun hzero => h ?_)⟩
    rw [Node.count_marker] at hzero
    exact (markers_eq_zero_iff hrecognized).mp hzero
  · obtain ⟨opcode, hopcode⟩ := Option.ne_none_iff_exists'.mp
      (mt (Node.findSome?_opcode_eq_none_iff _).mp hrecognized)
    exact ⟨_, .malformed ((Node.findSome?_opcode_eq_some_iff _ _).mp hopcode)⟩

namespace ContractSet

/-- A clause that is refused is not pushed onto any set. -/
theorem push_of_refused {clause : Clause} {why : ModelError} (set : ContractSet)
    (h : clause.Refused why) : set.push clause = .error why := by
  cases h with
  | malformed hopcode =>
    refine push_of_error set ?_
    rw [Node.countMarkers_eq, (Node.findSome?_opcode_eq_some_iff _ _).mpr hopcode]
  | unbalanced hrecognized hmarked =>
    refine push_of_markers set ?_ hmarked
    rw [Node.countMarkers_of_recognized hrecognized, Node.count_marker]

theorem not_standalone_of_refused {clause : Clause} {why : ModelError} (h : clause.Refused why) :
    ¬ clause.condition.Standalone := by
  intro hstandalone
  have hpush := push_of_standalone empty hstandalone
  rw [push_of_refused empty h] at hpush
  cases hpush

/-! ## Pushing onto a variable -/

/-- Pushes a clause onto the set that is kept in a variable. The variable is written last. -/
def pushing (clause : Clause) : ExceptT ModelError (StateM ContractSet) Unit :=
  match h : clause.condition.countMarkers with
  | .ok 0 => modify (·.concat clause h)
  | .ok markers => throw (.unbalancedClause clause.position markers)
  | .error why => throw why

/-- Pushes clauses one after another, whatever becomes of them. -/
def pushingEach (clauses : List Clause) : StateM ContractSet (List (Except ModelError Unit)) :=
  clauses.mapM fun clause => (pushing clause).run

/-- The variable takes the set with the clause at its end, and keeps what it has when there is
none. -/
theorem run_pushing (set : ContractSet) (clause : Clause) :
    (pushing clause).run.run set =
      match set.push clause with
      | .ok next => (.ok (), next)
      | .error why => (.error why, set) := by
  rw [pushing]
  split
  · next hmarkers =>
    rw [push_of_balanced set hmarkers]
    rfl
  · next markers hne hmarkers =>
    rw [push_of_markers set hmarkers (Nat.pos_of_ne_zero hne)]
    rfl
  · next why hmarkers =>
    rw [push_of_error set hmarkers]
    rfl

/-- What a push answers and which set it leaves. -/
inductive Pushed (clause : Clause) (set : ContractSet) :
    Except ModelError Unit → ContractSet → Prop
  | accepted {next : ContractSet} (h : clause.condition.Standalone)
      (hnext : next.clauses = set.clauses ++ [clause]) : Pushed clause set (.ok ()) next
  | refused {why : ModelError} (h : clause.Refused why) : Pushed clause set (.error why) set

/-- What pushes one after another answer, and which set the last of them leaves. -/
inductive PushedEach :
    ContractSet → List Clause → List (Except ModelError Unit) → ContractSet → Prop
  | none (set : ContractSet) : PushedEach set [] [] set
  | one {set next last : ContractSet} {clause : Clause} {rest : List Clause}
      {answer : Except ModelError Unit} {answers : List (Except ModelError Unit)}
      (hpush : Pushed clause set answer next) (hmore : PushedEach next rest answers last) :
    PushedEach set (clause :: rest) (answer :: answers) last

theorem pushed_run (set : ContractSet) (clause : Clause) :
    Pushed clause set ((pushing clause).run.run set).1 ((pushing clause).run.run set).2 := by
  rw [run_pushing]
  by_cases h : clause.condition.Standalone
  · rw [push_of_standalone set h]
    exact .accepted h rfl
  · obtain ⟨why, hrefused⟩ := Clause.exists_refused h
    rw [push_of_refused set hrefused]
    exact .refused hrefused

theorem pushedEach_run (set : ContractSet) (clauses : List Clause) :
    PushedEach set clauses ((pushingEach clauses).run set).1 ((pushingEach clauses).run set).2 := by
  induction clauses generalizing set with
  | nil => exact .none set
  | cons clause rest ih =>
    have hrun : (pushingEach (clause :: rest)).run set =
        let (answer, next) := (pushing clause).run.run set
        let (answers, last) := (pushingEach rest).run next
        (answer :: answers, last) := by
      rw [pushingEach, List.mapM_cons]
      rfl
    rw [hrun]
    exact .one (pushed_run set clause) (ih _)

/-- The set that pushes leave is the one before them, followed by the clauses that stand on their
own. -/
theorem PushedEach.last_eq {set last : ContractSet} {clauses : List Clause}
    {answers : List (Except ModelError Unit)} (h : PushedEach set clauses answers last) :
    last.clauses = set.clauses ++ clauses.filter (·.condition.Standalone) := by
  induction h with
  | none set => simp
  | one hpush _ ih =>
    rw [ih]
    cases hpush with
    | accepted hstandalone hnext => simp [hstandalone, hnext]
    | refused hrefused => simp [not_standalone_of_refused hrefused]

/-! ## Loading a list -/

/-- What becomes of a list that is made into a set as a whole. -/
inductive Loaded (clauses : List Clause) : Except ModelError ContractSet → Prop
  | all {set : ContractSet} (h : ∀ clause ∈ clauses, clause.condition.Standalone)
      (hset : set.clauses = clauses) : Loaded clauses (.ok set)
  | stopped {before after : List Clause} {clause : Clause} {why : ModelError}
      (hsplit : clauses = before ++ clause :: after)
      (hbefore : ∀ earlier ∈ before, earlier.condition.Standalone) (hrefused : clause.Refused why) :
    Loaded clauses (.error why)

theorem pushAll_append (set : ContractSet) (before after : List Clause) :
    set.pushAll (before ++ after) = (set.pushAll before >>= (·.pushAll after)) := by
  induction before generalizing set with
  | nil => rfl
  | cons clause rest ih =>
    rw [List.cons_append, pushAll, pushAll, bind_assoc]
    exact congrArg _ (funext ih)

theorem ofClauses_of_loaded {clauses : List Clause} {result : Except ModelError ContractSet}
    (h : Loaded clauses result) : ofClauses clauses = result := by
  cases h with
  | all hall hset => exact ofClauses_eq_ok_iff.mpr ⟨hall, hset⟩
  | @stopped before after clause why hsplit hbefore hrefused =>
    have hpushed : empty.pushAll before = .ok (accepted before) :=
      ofClauses_eq_ok_iff.mpr ⟨hbefore, clauses_accepted hbefore⟩
    rw [ofClauses, hsplit, pushAll_append, hpushed]
    change (accepted before).pushAll (clause :: after) = _
    rw [pushAll, push_of_refused _ hrefused]
    rfl

theorem loaded_ofClauses (clauses : List Clause) : Loaded clauses (ofClauses clauses) := by
  cases hfind : clauses.find? fun clause => ¬ clause.condition.Standalone with
  | none =>
    have hall : ∀ clause ∈ clauses, clause.condition.Standalone := by simpa using hfind
    have hloaded : Loaded clauses (.ok (accepted clauses)) := .all hall (clauses_accepted hall)
    rwa [ofClauses_of_loaded hloaded]
  | some clause =>
    obtain ⟨hclause, before, after, hsplit, hbefore⟩ := List.find?_eq_some_iff_append.mp hfind
    obtain ⟨why, hrefused⟩ := Clause.exists_refused (of_decide_eq_true hclause)
    have hloaded : Loaded clauses (.error why) :=
      .stopped hsplit (fun earlier hearlier => by simpa using hbefore earlier hearlier) hrefused
    rwa [ofClauses_of_loaded hloaded]

theorem ofClauses_eq_iff {clauses : List Clause} {result : Except ModelError ContractSet} :
    ofClauses clauses = result ↔ Loaded clauses result :=
  ⟨fun h => h ▸ loaded_ofClauses clauses, ofClauses_of_loaded⟩

/-- The text of a list is read as a set by making the list into one. -/
theorem parse_render_clauses {clauses : List Clause}
    (h : Json.nesting (Clause.codec.list.render clauses) ≤ 127) :
    codec.parse (.ofString (Clause.codec.list.render clauses)) =
      (ofClauses clauses).mapError .rejected := by
  have hlist := Clause.list_roundTrips clauses
  have hallows : Scope.wholeText.allows (Clause.codec.list.write clauses).depth := by
    rw [Codec.render, Json.nesting_render hlist.plain] at h
    exact decide_eq_true h
  rw [Codec.render, Codec.parse_render_tree codec hlist.plain]
  change decoder .wholeText (Clause.codec.list.write clauses) = _
  rw [decoder, hlist.read, Scope.answer, if_pos hallows]

/-- **Pushing filters, loading is all or nothing.** Clauses that are pushed one after another leave
the set as it was, followed by those of them that stand on their own, in the order of the pushes;
each push that is refused leaves the set in front of it. A list that is made into a set as a whole
gives the set of exactly that list when all its clauses stand on their own, and otherwise the fault
of the first that does not: the opcode of its first unrecognized instruction if there is one, and
its position with the number of its stack markers if there is none. The JSON text of the list, if it
nests no deeper than the reader allows, is read with the same result. -/
theorem pushing_filters_loading_all (set : ContractSet) (clauses : List Clause) :
    PushedEach set clauses ((pushingEach clauses).run set).1 ((pushingEach clauses).run set).2 ∧
    ((pushingEach clauses).run set).2.clauses =
      set.clauses ++ clauses.filter (·.condition.Standalone) ∧
    (∀ result, ofClauses clauses = result ↔ Loaded clauses result) ∧
    (Json.nesting (Clause.codec.list.render clauses) ≤ 127 →
      ∀ result, codec.parse (.ofString (Clause.codec.list.render clauses)) =
        result.mapError .rejected ↔ Loaded clauses result) := by
  have hpushed := pushedEach_run set clauses
  refine ⟨hpushed, hpushed.last_eq, fun result => ofClauses_eq_iff, fun hnesting result => ?_⟩
  rw [parse_render_clauses hnesting, ← ofClauses_eq_iff]
  exact mapError_inj fun _ _ => ReadError.rejected.inj

/-- One clause that stands on its own, one with two stack markers and one with a stack marker and
an unrecognized instruction. -/
theorem pushing_filters_loading_all_mixed :
    let marker : Node := .unlocated .stackDuplicate
    let kept : Clause := ⟨.requires, .unlocated (.ref .this), ⟨0, none⟩, none⟩
    let unbalanced : Clause := ⟨.invariant, .unlocated (.binary .eq marker marker), ⟨2, none⟩, none⟩
    let malformed : Clause :=
      ⟨.ensures, .unlocated (.binary .gt marker (.unlocated (.unrecognized "calli" []))),
        ⟨1, none⟩, some "both"⟩
    let clauses := [kept, unbalanced, malformed, kept]
    let text := Clause.codec.list.render clauses
    Json.nesting text ≤ 127 ∧
      ((pushingEach clauses).run (accepted [kept])).2.clauses = [kept, kept, kept] ∧
      codec.parse (.ofString text) = .error (.rejected (.unbalancedClause ⟨2, none⟩ 2)) ∧
      ofClauses [malformed, unbalanced] = .error (.malformedTree "calli") := by
  intro marker kept unbalanced malformed clauses text
  obtain ⟨-, hlast, hloaded, hparse⟩ := pushing_filters_loading_all (accepted [kept]) clauses
  have hnesting : Json.nesting text ≤ 127 := by
    have hdepth : Json.nesting text = (Clause.codec.list.write clauses).depth :=
      Json.nesting_render (Clause.list_roundTrips clauses).plain
    rw [hdepth]
    decide
  have hfirst := (hloaded (.error (.unbalancedClause ⟨2, none⟩ 2))).mp (by decide)
  refine ⟨hnesting, hlast.trans (by decide), (hparse hnesting _).mpr hfirst, by decide⟩

end ContractSet

end MethodContracts
