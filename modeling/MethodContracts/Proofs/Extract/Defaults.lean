import MethodContracts.Proofs.Extract.Json
import MethodContracts.Proofs.Json.Members
import MethodContracts.Proofs.Record.RoundTrip

/-!
# Stored configurations mean what they say

A field of a stored configuration can be missing, it can be `null`, or it can have a value. A
missing field has the value of the default configuration. The terminator may be `null`, and then
there is none, although the default configuration has one.

A configuration is checked only after all its fields are there, so contract methods that were taken
over from the default configuration are checked like those of the text.
-/

namespace MethodContracts.Config

/-! ## Checking -/

theorem validate_eq_ok {c : Config} (h : ∀ m ∈ c.methods, m.arity ≠ 0) : c.validate = .ok () := by
  have hfind : (c.methods.find? fun m => m.arity = 0) = none :=
    List.find?_eq_none.mpr fun m hm => by simp [h m hm]
  rw [validate, hfind]

/-- The first contract method without arguments is the one that is named. -/
theorem validate_eq_error {c : Config} {before after : List ContractMethod} {m : ContractMethod}
    (hsplit : c.methods = before ++ m :: after) (hbefore : ∀ earlier ∈ before, earlier.arity ≠ 0)
    (harity : m.arity = 0) :
    c.validate =
      .error (.invalidConfig ("contract method " ++ m.callee.display ++ " has arity 0")) := by
  have hfind : (c.methods.find? fun m => m.arity = 0) = some m := by
    refine List.find?_eq_some_iff_append.mpr ⟨decide_eq_true harity, before, after, hsplit, ?_⟩
    intro earlier hearlier
    simp [hbefore earlier hearlier]
  rw [validate, hfind]

theorem ofText_of_parse {source : Text.Source} {c : Config} (h : codec.parse source = .ok c) :
    ofText source = c.validate.map fun _ => c := by
  rw [ofText, h]

/-! ## Writing and reading -/

/-- The text of a configuration has few brackets, however many contract methods there are. -/
theorem depth_write_le (c : Config) : (codec.write c).depth ≤ 4 := by
  have hitems : (ContractMethod.codec.list.write c.methods).depth ≤ 3 := by
    refine Nat.succ_le_succ ?_
    induction c.methods with
    | nil => exact Nat.zero_le _
    | cons m more ih =>
      have hm : (ContractMethod.codec.write m).depth = 2 := rfl
      rw [List.map_cons, Json.depthItems, hm]
      exact Nat.max_le.mpr ⟨Nat.le_refl 2, ih⟩
  have hterminator : (Json.nullable Callee.codec.write c.terminator).depth ≤ 3 := by
    cases c.terminator with
    | none => exact Nat.zero_le _
    | some callee => exact (by decide : 1 ≤ 3)
  have hdepth : (codec.write c).depth =
      max (ContractMethod.codec.list.write c.methods).depth
        (max (Json.nullable Callee.codec.write c.terminator).depth 0) + 1 := rfl
  omega

theorem parse_render_config (c : Config) : codec.parse (.ofString (codec.render c)) = .ok c := by
  have hroundTrips := codec_roundTrips c
  have hdepth := depth_write_le c
  have hallows : Scope.wholeText.allows (codec.write c).depth :=
    decide_eq_true (Nat.le_trans hdepth (by decide))
  rw [Codec.parse_render hroundTrips, Codec.render, Json.nesting_render hroundTrips.plain,
    Scope.answer, if_pos hallows]

/-! ## Filling in defaults -/

/-- The members of an object give these fields of a configuration. The bracket of the object is one
of those that may be open at once. -/
structure Given (members : List (Option String × Json)) (methods : Option (List ContractMethod))
    (terminator : Option (Option Callee)) (rule : Option LegacyRule) : Prop where
  methods :
    Json.Gives (ContractMethod.codec.list.read (.text 126)) "contract_methods" members methods
  terminator :
    Json.Gives (Callee.codec.read.nullable (.text 126)) "end_contract_block" members terminator
  rule : Json.Gives (LegacyRule.codec.read (.text 126)) "legacy_rule" members rule

/-- The default configuration with the given fields in place of its own. -/
def overridden (methods : Option (List ContractMethod)) (terminator : Option (Option Callee))
    (rule : Option LegacyRule) : Config :=
  ⟨methods.getD standard.methods, terminator.getD standard.terminator,
    rule.getD standard.legacyRule⟩

section

variable {source : Text.Source} {members : List (Option String × Json)}
  {methods : Option (List ContractMethod)} {terminator : Option (Option Callee)}
  {rule : Option LegacyRule}

theorem parse_of_given (hread : Json.read source = ⟨.obj members, true⟩)
    (hkeys : ∀ m ∈ members, m.1.isSome) (h : Given members methods terminator rule) :
    codec.parse source = .ok (overridden methods terminator rule) := by
  have hcomplete := Json.complete_of_mem (Json.complete_of_read hread)
  let layout : Layout [List ContractMethod, Option Callee, LegacyRule] :=
    .three (.defaulted "contract_methods" ContractMethod.codec.list standard.methods)
      (.nullableDefaulted "end_contract_block" Callee.codec standard.terminator)
      (.defaulted "legacy_rule" LegacyRule.codec standard.legacyRule)
  have hslots : layout.Given (.text 126) members (methods, terminator, rule, ()) :=
    ⟨h.methods, h.terminator, h.rule, trivial⟩
  have hclose : layout.close (methods, terminator, rule, ()) =
      .ok (methods.getD standard.methods, terminator.getD standard.terminator,
        rule.getD standard.legacyRule, ()) := by
    cases methods <;> cases terminator <;> cases rule <;> rfl
  have henter : Scope.wholeText.enter = some (.text 126) := rfl
  have hlayout := (Layout.read_of_given (by decide) henter hkeys hcomplete hslots).trans hclose
  have hcodec : codec.read .wholeText (.obj members) = .ok (overridden methods terminator rule) :=
    map_eq_ok_iff.mpr ⟨_, hlayout, rfl⟩
  rw [Codec.parse, hread]
  dsimp only
  rw [hcodec]
  rfl

end

/-- **Stored configurations mean what they say.** The text of a configuration whose contract methods
all have arguments is read as that configuration, be there a terminator or not. A text that is an
object with some of the three fields, in any order and with unknown members among them, is read as
the default configuration with exactly these fields replaced, if all contract methods of the result
have arguments; otherwise the first one that has none is named. -/
theorem ofText_means_what_it_says :
    (∀ c : Config, (∀ m ∈ c.methods, m.arity ≠ 0) → ofText (.ofString (codec.render c)) = .ok c) ∧
    ∀ (source : Text.Source) (members : List (Option String × Json))
      (methods : Option (List ContractMethod)) (terminator : Option (Option Callee))
      (rule : Option LegacyRule),
      Json.read source = ⟨.obj members, true⟩ → (∀ m ∈ members, m.1.isSome) →
      Given members methods terminator rule →
      ((∀ m ∈ (overridden methods terminator rule).methods, m.arity ≠ 0) →
        ofText source = .ok (overridden methods terminator rule)) ∧
      ∀ before m after, (overridden methods terminator rule).methods = before ++ m :: after →
        (∀ earlier ∈ before, earlier.arity ≠ 0) → m.arity = 0 →
        ofText source =
          .error (.invalidConfig ("contract method " ++ m.callee.display ++ " has arity 0")) := by
  refine ⟨fun c h => ?_, fun source members methods terminator rule hread hkeys hgiven => ?_⟩
  · rw [ofText_of_parse (parse_render_config c), validate_eq_ok h]
    rfl
  · have htext := ofText_of_parse (parse_of_given hread hkeys hgiven)
    refine ⟨fun h => ?_, fun before m after hsplit hbefore harity => ?_⟩
    · rw [htext, validate_eq_ok h]
      rfl
    · rw [htext, validate_eq_error hsplit hbefore harity]
      rfl

/-- A configuration without a terminator, a text in which the terminator is `null` and there is an
unknown member, and one in which the second contract method has no arguments. -/
theorem ofText_means_what_it_says_null :
    let plain : Config := { standard with terminator := none }
    let method (arity : UInt64) : ContractMethod := ⟨⟨"T", "Check"⟩, arity, .requires⟩
    ofText (.ofString (codec.render plain)) = .ok plain ∧
      ofText (.ofString
        "\x7b\"legacy_rule\":\"always-requires\",\"x\":[0],\"end_contract_block\":null\x7d") =
          .ok { plain with legacyRule := .alwaysRequires } ∧
      ofText (.ofString (Json.render (.obj
        [(some "contract_methods", ContractMethod.codec.list.write [method 1, method 0])]))) =
          .error (.invalidConfig "contract method T::Check has arity 0") := by
  intro plain method
  obtain ⟨hwritten, hobject⟩ := ofText_means_what_it_says
  refine ⟨hwritten plain (by decide), ?_, ?_⟩
  · have hplain : (Json.obj [(some "legacy_rule", .string "always-requires"),
        (some "x", .arr [.int 0]), (some "end_contract_block", .null)]).Plain := by
      refine .obj (by simp) ?_
      simp only [List.forall_mem_cons]
      exact ⟨.string _, .arr (by simpa using .int 0), .null, nofun⟩
    have hread := Json.read_render hplain
    rw [show Json.render _ =
      "\x7b\"legacy_rule\":\"always-requires\",\"x\":[0],\"end_contract_block\":null\x7d" by
        decide +kernel] at hread
    refine (hobject _ _ none (some none) (some .alwaysRequires) hread (by simp) ?_).1 (by decide)
    exact {
      methods := .nothing (by simp)
      terminator := @Json.Gives.once _ _ _ _ [_, _] [] _ _ rfl (by simp) nofun rfl
      rule := @Json.Gives.once _ _ _ _ [] _ _ _ rfl nofun (by simp) rfl }
  · have hmethods : ContractMethod.codec.list.RoundTrips [method 1, method 0] :=
      Codec.list_roundTrips fun m _ => ContractMethod.codec_roundTrips m
    have hplain : (Json.obj [(some "contract_methods",
        ContractMethod.codec.list.write [method 1, method 0])]).Plain :=
      .obj (by simp) (by simpa using hmethods.plain)
    have hgiven : Given [(some "contract_methods",
        ContractMethod.codec.list.write [method 1, method 0])]
          (some [method 1, method 0]) none none := {
      methods := @Json.Gives.once _ _ _ _ [] [] _ _ rfl nofun nofun (hmethods.read _)
      terminator := .nothing (by simp)
      rule := .nothing (by simp) }
    obtain ⟨-, hfirst⟩ := hobject _ _ _ _ _ (Json.read_render hplain) (by simp) hgiven
    exact hfirst [method 1] (method 0) [] rfl (by decide) rfl

end MethodContracts.Config
