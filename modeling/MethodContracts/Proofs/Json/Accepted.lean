import MethodContracts.Proofs.Json.Codec

/-!
# What is accepted

A text may spell a value in many ways: with the members of an object in any order and unknown ones
among them, with a record as an array, with a variant without data as an object. Whatever the
spelling was, each part of the value was read from a part of the text, or is the one that the type
provides where nothing was written.

The writer has one spelling for each value, and that one does not nest deeper than any other in
which the value could be read. So a value that was read within a limit is written within the limit.
This is the law of this module, and each combinator keeps it.
-/

namespace MethodContracts

variable {α β : Type}

/-- What a text is read as was read from its tree. -/
theorem Codec.read_of_parse {codec : Codec α} {source : Text.Source} {a : α}
    (h : codec.parse source = .ok a) : codec.read .wholeText (Json.read source).tree = .ok a := by
  simp only [parse] at h
  split at h
  · next b hread =>
    split_ifs at h
    cases h
    exact hread
  · cases h

/-! ## Where the values of a record come from -/

/-- The value was read from a tree, or it is the one that the field has where nothing is
written. -/
inductive Field.Accepts (field : Field α) (scope : Scope) (a : α) : Prop where
  | read {json : Json} (h : field.read scope json = .ok a)
  | missing (h : field.missing = some a)
  | beyond (h : field.beyond = some a)

/-- The value of a field that has to be written was read from a tree. -/
theorem Field.Accepts.of_required {name : String} {codec : Codec α} {scope : Scope} {a : α}
    (h : (required name codec).Accepts scope a) : ∃ json, codec.read scope json = .ok a := by
  cases h with
  | read h => exact ⟨_, h⟩
  | missing h => cases h
  | beyond h => cases h

namespace Layout

variable {αs : List Type}

/-- Every value can be the value of its field. -/
def Accepts (scope : Scope) {αs : List Type} : Layout αs → Values αs → Prop
  | .nil, _ => True
  | .cons field rest, (a, values) => field.Accepts scope a ∧ rest.Accepts scope values

/-- Every value that was found so far was read from a tree. -/
def Found (scope : Scope) {αs : List Type} : Layout αs → Slots αs → Prop
  | .nil, _ => True
  | .cons field rest, (slot, slots) =>
    (∀ a ∈ slot, ∃ json, field.read scope json = .ok a) ∧ rest.Found scope slots

variable {scope : Scope} {layout : Layout αs}

theorem found_blank : layout.Found scope layout.blank := by
  induction layout with
  | nil => trivial
  | cons field rest ih => exact ⟨nofun, ih⟩

/-- One more member is one more value that was read. -/
theorem found_put {key : String} {json : Json} {slots slots' : Slots αs}
    (h : layout.Found scope slots) (hput : layout.put scope key json slots = some (.ok slots')) :
    layout.Found scope slots' := by
  induction layout with
  | nil => cases hput
  | cons field rest ih =>
    obtain ⟨slot, slots⟩ := slots
    obtain ⟨hslot, hslots⟩ := h
    simp only [put] at hput
    split_ifs at hput
    · cases slot with
      | some a => cases hput
      | none =>
        obtain ⟨a, ha, rfl⟩ := map_eq_ok_iff.mp (Option.some.inj hput)
        refine ⟨fun b hb => ?_, hslots⟩
        cases hb
        exact ⟨json, ha⟩
    · obtain ⟨result, hresult, hslots'⟩ := Option.map_eq_some_iff.mp hput
      obtain ⟨more, rfl, rfl⟩ := map_eq_ok_iff.mp hslots'
      exact ⟨hslot, ih hslots hresult⟩

theorem found_fill {members : List (Option String × Json)} {slots slots' : Slots αs}
    (h : layout.Found scope slots) (hfill : layout.fill scope slots members = .ok slots') :
    layout.Found scope slots' := by
  induction members generalizing slots with
  | nil =>
    cases hfill
    exact h
  | cons member more ih =>
    obtain ⟨_ | key, json⟩ := member
    · cases hfill
    · rw [fill] at hfill
      split at hfill
      · next slots'' hput => exact ih (found_put h hput) hfill
      · cases hfill
      · split_ifs at hfill
        exact ih h hfill

theorem accepts_close {slots : Slots αs} {values : Values αs} (h : layout.Found scope slots)
    (hclose : layout.close slots = .ok values) : layout.Accepts scope values := by
  induction layout with
  | nil => trivial
  | cons field rest ih =>
    obtain ⟨slot, slots⟩ := slots
    obtain ⟨hslot, hslots⟩ := h
    rw [close] at hclose
    split at hclose
    · next a ha =>
      obtain ⟨more, hmore, rfl⟩ := map_eq_ok_iff.mp hclose
      refine ⟨?_, ih hslots hmore⟩
      cases slot with
      | none => exact .missing ha
      | some b =>
        obtain ⟨json, hjson⟩ := hslot b rfl
        cases ha
        exact .read hjson
    · cases hclose

theorem accepts_inOrder {items : List Json} {values : Values αs}
    (h : layout.inOrder scope items = .ok values) : layout.Accepts scope values := by
  induction layout generalizing items with
  | nil => trivial
  | cons field rest ih =>
    cases items with
    | nil =>
      rw [inOrder] at h
      split at h
      · next a ha =>
        obtain ⟨more, hmore, rfl⟩ := map_eq_ok_iff.mp h
        exact ⟨.beyond ha, ih hmore⟩
      · cases h
    | cons item items =>
      rw [inOrder] at h
      split at h
      · next a ha =>
        obtain ⟨more, hmore, rfl⟩ := map_eq_ok_iff.mp h
        exact ⟨.read ha, ih hmore⟩
      · cases h

/-- **The values of a record are values of its fields**, read behind the bracket of the record. -/
theorem accepts_of_read {json : Json} {values : Values αs}
    (h : layout.read scope json = .ok values) :
    ∃ inner, scope.enter = some inner ∧ layout.Accepts inner values := by
  rw [read] at h
  split at h
  · next inner henter =>
    refine ⟨inner, henter, ?_⟩
    cases json with
    | obj members =>
      rw [readInside_obj] at h
      obtain ⟨slots, hfill, hclose⟩ := bind_eq_ok_iff.mp h
      exact accepts_close (found_fill found_blank hfill) hclose
    | arr items => exact accepts_inOrder h
    | _ => cases h
  · cases h

end Layout

/-! ## The law -/

namespace Scope

variable {scope inner : Scope} {depth depth' : Nat}

theorem allows_of_le (h : scope.allows depth') (hle : depth ≤ depth') : scope.allows depth := by
  rw [← Nat.max_eq_right hle, allows_max, Bool.and_eq_true] at h
  exact h.1

/-- One bracket less is left behind a bracket. -/
theorem allows_of_enter (henter : scope.enter = some inner) (h : inner.allows depth) :
    scope.allows (depth + 1) := by
  cases scope with
  | tree => rfl
  | text left =>
    cases left with
    | zero => cases henter
    | succ left =>
      cases henter
      simpa [allows] using h

theorem allows_depthItems {items : List Json} (h : ∀ item ∈ items, scope.allows item.depth) :
    scope.allows (Json.depthItems items) := by
  induction items with
  | nil => exact allows_zero scope
  | cons item rest ih =>
    rw [Json.depthItems, allows_max, Bool.and_eq_true]
    exact ⟨h item List.mem_cons_self, ih fun other hother => h other (List.mem_cons_of_mem _ hother)⟩

end Scope

/-- What is read within a limit has a depth within the limit. -/
def Decoder.Within (decode : Decoder α) (depth : α → Nat) : Prop :=
  ∀ ⦃scope json a⦄, decode scope json = .ok a → scope.allows (depth a)

/-- What the codec reads within a limit it writes within the limit. -/
def Codec.Shallow (codec : Codec α) : Prop := codec.read.Within fun a => (codec.write a).depth

theorem Decoder.Within.map {decode : Decoder α} {f : α → β} {depth : β → Nat}
    (h : decode.Within fun a => depth (f a)) : (decode.map f).Within depth := by
  intro scope json b hb
  obtain ⟨a, ha, rfl⟩ := map_eq_ok_iff.mp hb
  exact h ha

namespace Codec

/-- Values that are written without brackets are within any limit. -/
theorem shallow_of_flat {codec : Codec α} (h : ∀ a, (codec.write a).depth = 0) : codec.Shallow := by
  intro scope json a _
  change scope.allows (codec.write a).depth
  rw [h]
  exact Scope.allows_zero scope

theorem string_shallow : string.Shallow := shallow_of_flat fun _ => rfl

theorem uint8_shallow : uint8.Shallow := shallow_of_flat fun _ => rfl

theorem uint16_shallow : uint16.Shallow := shallow_of_flat fun _ => rfl

theorem uint64_shallow : uint64.Shallow := shallow_of_flat fun _ => rfl

theorem named_shallow (all : List α) (name : α → String) : (named all name).Shallow :=
  shallow_of_flat fun _ => rfl

/-- Values of another type in the same form are as deep as that form is. -/
theorem guarded_shallow {codec : Codec α} {inner : β → α} {of : α → Option β}
    (h : codec.Shallow) (hof : ∀ a b, of a = some b → inner b = a) :
    (Codec.mk (fun b => codec.write (inner b)) (codec.read.guarded of)).Shallow := by
  intro scope json b hb
  simp only [Decoder.guarded] at hb
  split at hb
  · next a ha =>
    split at hb
    · next b' hb' =>
      cases hb
      change scope.allows (codec.write (inner b)).depth
      rw [hof a b hb']
      exact h ha
    · cases hb
  · cases hb

theorem list_shallow {item : Codec α} (h : item.Shallow) : item.list.Shallow := by
  intro scope json as has
  cases json with
  | arr items =>
    simp only [list, Decoder.list] at has
    split at has
    · next inner henter =>
      refine Scope.allows_of_enter henter (Scope.allows_depthItems fun json hjson => ?_)
      obtain ⟨a, ha, rfl⟩ := List.mem_map.mp hjson
      obtain ⟨json, hread⟩ := mem_of_mapM_eq_ok has ha
      exact h hread
    · cases has
  | _ => cases has

end Codec

/-! ## Variants -/

namespace Decoder

/-- What a variant carries has one bracket less than the variant. -/
def Case.Within (depth : α → Nat) : Case α → Prop
  | .unit a => depth a = 0
  | .data decode => decode.Within fun a => depth a - 1
  | .body decode => decode.Within fun a => depth a - 1

theorem Case.Within.allows {depth : α → Nat} {found : Case α} (h : found.Within depth)
    {scope : Scope} {json : Json} {a : α} (hread : found.read scope json = .ok a) :
    scope.allows (depth a - 1) := by
  cases found with
  | unit b =>
    rw [Case.read.eq_def] at hread
    simp only at hread
    split_ifs at hread
    cases hread
    rw [show depth a = 0 from h]
    exact Scope.allows_zero scope
  | data decode => exact h hread
  | body decode =>
    rw [Case.read] at hread
    split_ifs at hread
    exact h hread

theorem within_variants {case? : String → Option (Case α)} {depth : α → Nat}
    (h : ∀ name found, case? name = some found → found.Within depth) :
    (variants case?).Within depth := by
  intro scope json a ha
  rw [variants.eq_def] at ha
  split at ha
  · next name =>
    split at ha
    · next b hcase =>
      cases ha
      rw [show depth a = 0 from h name _ hcase]
      exact Scope.allows_zero scope
    · cases ha
  · next name json =>
    split at ha
    · next inner found henter hcase =>
      have hinner := (h name found hcase).allows ha
      exact Scope.allows_of_le (Scope.allows_of_enter henter hinner) (by omega)
    · cases ha
  · cases ha

/-- A variant has one bracket more than what it carries. -/
theorem Within.of_variant {write : α → Json} {write' : β → Json} {decode : Decoder β} {of : β → α}
    (h : decode.Within fun b => (write' b).depth)
    (hwrite : ∀ b, ∃ name, write (of b) = .variant name (write' b)) :
    (decode.map of).Within fun a => (write a).depth - 1 := by
  refine .map fun scope json b hb => ?_
  obtain ⟨name, hname⟩ := hwrite b
  change scope.allows ((write (of b)).depth - 1)
  rw [hname, Json.depth_variant, Nat.add_sub_cancel]
  exact h hb

theorem Case.within_data {write : α → Json} {codec : Codec β} {of : β → α} (h : codec.Shallow)
    (hwrite : ∀ b, ∃ name, write (of b) = .variant name (codec.write b)) :
    (Case.data (codec.read.map of)).Within fun a => (write a).depth :=
  .of_variant h hwrite

end Decoder

/-! ## Records -/

/-- What is read of the field within a limit is written within it. -/
def Field.Shallow (scope : Scope) (field : Field α) : Prop :=
  ∀ a, field.Accepts scope a → ∀ json ∈ field.write a, scope.allows json.depth

namespace Field

variable {scope : Scope} {name : String} {codec : Codec α}

theorem required_shallow (h : codec.Shallow) : (required name codec).Shallow scope := by
  rintro a ha _ ⟨⟩
  obtain ⟨json, hread⟩ := ha.of_required
  exact h hread

/-- A value that is not missing was read. -/
theorem allows_nullable (h : codec.Shallow) {json : Json} {a : Option α}
    (hread : codec.read.nullable scope json = .ok a) :
    ∀ b ∈ a, scope.allows (codec.write b).depth := by
  rintro b ⟨⟩
  rw [Decoder.nullable.eq_def] at hread
  split at hread
  · cases hread
  · obtain ⟨b, hb, ⟨⟩⟩ := map_eq_ok_iff.mp hread
    exact h hb

theorem nullable_shallow (h : codec.Shallow) : (nullable name codec).Shallow scope := by
  rintro a ha _ ⟨⟩
  cases a with
  | none => exact Scope.allows_zero scope
  | some b =>
    cases ha with
    | read hread => exact allows_nullable h hread b rfl
    | missing h => cases h
    | beyond h => cases h

theorem optional_shallow (h : codec.Shallow) : (optional name codec).Shallow scope := by
  intro a ha json hjson
  obtain ⟨b, rfl, rfl⟩ := Option.map_eq_some_iff.mp hjson
  cases ha with
  | read hread => exact allows_nullable h hread b rfl
  | missing h => cases h
  | beyond h => cases h

/-- The value that stands in for a missing one has to be within the limit too. -/
theorem defaulted_shallow {value : α} (h : codec.Shallow)
    (hvalue : scope.allows (codec.write value).depth) :
    (defaulted name codec value).Shallow scope := by
  rintro a ha _ ⟨⟩
  cases ha with
  | read hread => exact h hread
  | missing h => cases h; exact hvalue
  | beyond h => cases h; exact hvalue

theorem nullableDefaulted_shallow {value : Option α} (h : codec.Shallow)
    (hvalue : ∀ b ∈ value, scope.allows (codec.write b).depth) :
    (nullableDefaulted name codec value).Shallow scope := by
  rintro a ha _ ⟨⟩
  cases a with
  | none => exact Scope.allows_zero scope
  | some b =>
    cases ha with
    | read hread => exact allows_nullable h hread b rfl
    | missing h => exact hvalue b (Option.some.inj h)
    | beyond h => exact hvalue b (Option.some.inj h)

end Field

namespace Layout

/-- Every field is written within a limit in which it was read. -/
def Shallow (scope : Scope) {αs : List Type} : Layout αs → Prop
  | .nil => True
  | .cons field rest => field.Shallow scope ∧ rest.Shallow scope

variable {αs : List Type} {scope : Scope} {layout : Layout αs}

theorem allows_members {values : Values αs} (h : layout.Shallow scope)
    (hvalues : layout.Accepts scope values) :
    scope.allows (Json.depthMembers (keyed (layout.members values))) := by
  induction layout with
  | nil => exact Scope.allows_zero scope
  | cons field rest ih =>
    obtain ⟨a, values⟩ := values
    obtain ⟨hfield, hrest⟩ := h
    obtain ⟨ha, hvalues⟩ := hvalues
    have hmore := ih hrest hvalues
    rw [members]
    split
    · next json hjson =>
      rw [keyed, List.map_cons, Json.depthMembers, Scope.allows_max, Bool.and_eq_true]
      exact ⟨hfield a ha json hjson, hmore⟩
    · exact hmore

/-- Values that are accepted behind a bracket are written within the limit in front of it. -/
theorem allows_write {inner : Scope} (henter : scope.enter = some inner) {values : Values αs}
    (h : layout.Shallow inner) (hvalues : layout.Accepts inner values) :
    scope.allows (layout.write values).depth :=
  Scope.allows_of_enter henter (allows_members h hvalues)

/-- **Records are written within the limit in which they were read** when their fields are. -/
theorem within_read (h : ∀ scope, layout.Shallow scope) :
    layout.read.Within fun values => (layout.write values).depth := by
  intro scope json values hread
  obtain ⟨inner, henter, hvalues⟩ := accepts_of_read hread
  exact allows_write henter (h inner) hvalues

end Layout

theorem Codec.record_shallow {αs : List Type} {layout : Layout αs} {values : α → Values αs}
    {of : Values αs → α} (h : ∀ scope, layout.Shallow scope) (hof : ∀ vs, values (of vs) = vs) :
    (Codec.record layout values of).Shallow := by
  refine Decoder.Within.map fun scope json vs hread => ?_
  change scope.allows (layout.write (values (of vs))).depth
  rw [hof]
  exact Layout.within_read h hread

theorem Decoder.Case.within_body {write : α → Json} {αs : List Type} {layout : Layout αs}
    {of : Values αs → α} (h : ∀ scope, layout.Shallow scope)
    (hwrite : ∀ vs, ∃ name, write (of vs) = .variant name (layout.write vs)) :
    (Case.body (layout.read.map of)).Within fun a => (write a).depth :=
  Decoder.Within.of_variant (Layout.within_read h) hwrite

end MethodContracts
