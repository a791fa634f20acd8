import MethodContracts.Json.Text
import MethodContracts.Proofs.Json.Reader
import MethodContracts.Proofs.Result

/-!
# Codecs that round-trip

A codec round-trips at a value when it writes a plain tree for it and reads the value back
from that tree, unless too many brackets are open: then the answer is a fault in shape, and
never another value. The law is about one value and not about all of a type, because a tree
codec only ever has to read back the children of the tree at hand.

Each combinator keeps the law, and brackets are counted as they are written: one for an
array, one for a record, one for a variant.
-/

namespace MethodContracts

variable {α β : Type}

namespace Json

@[simp] theorem depth_int (n : Int) : (Json.int n).depth = 0 := rfl

@[simp] theorem depth_string (s : String) : (Json.string s).depth = 0 := rfl

@[simp] theorem depth_arr (items : List Json) : (Json.arr items).depth = depthItems items + 1 := rfl

@[simp] theorem depth_variant (name : String) (data : Json) :
    (Json.variant name data).depth = data.depth + 1 := by
  simp [variant, depth, depthMembers]

/-- No item is deeper than the deepest. -/
theorem depth_le_depthItems {item : Json} {items : List Json} (h : item ∈ items) :
    item.depth ≤ depthItems items := by
  induction items with
  | nil => cases h
  | cons first rest ih =>
    rw [depthItems]
    rcases List.mem_cons.mp h with rfl | h
    · exact Nat.le_max_left ..
    · exact Nat.le_trans (ih h) (Nat.le_max_right ..)

/-- No member is deeper than the deepest. -/
theorem depth_le_depthMembers {key : Option String} {value : Json}
    {members : List (Option String × Json)} (h : (key, value) ∈ members) :
    value.depth ≤ depthMembers members := by
  induction members with
  | nil => cases h
  | cons first rest ih =>
    obtain ⟨key', value'⟩ := first
    rw [depthMembers]
    rcases List.mem_cons.mp h with h | h
    · cases h
      exact Nat.le_max_left ..
    · exact Nat.le_trans (ih h) (Nat.le_max_right ..)

/-- A member of a record has fewer brackets than the record. -/
theorem depth_lt_record {key : String} {value : Json} {members : List (String × Json)}
    (h : (key, value) ∈ members) : value.depth < (record members).depth :=
  Nat.lt_succ_of_le (depth_le_depthMembers (List.mem_map_of_mem h))

/-- A member of a record under the name of a variant has fewer brackets than the variant. -/
theorem depth_lt_variant {name key : String} {value : Json} {members : List (String × Json)}
    (h : (key, value) ∈ members) : value.depth < (variant name (record members)).depth := by
  have hrecord := depth_lt_record h
  rw [depth_variant]
  omega

/-- A value that may be absent is written as any other when it is there. -/
theorem nullable_of_mem {write : α → Json} {a : α} {as : Option α} (h : a ∈ as.toList) :
    nullable write as = write a := by
  cases as with
  | none => cases h
  | some b => rw [List.mem_singleton.mp h, nullable]

end Json

/-- An item of an array has fewer brackets than the array. -/
theorem Codec.depth_lt_list {item : Codec α} {a : α} {as : List α} (h : a ∈ as) :
    (item.write a).depth < (item.list.write as).depth :=
  Nat.lt_succ_of_le (Json.depth_le_depthItems (List.mem_map_of_mem h))

/-! ## What a limit allows -/

namespace Scope

/-- So many brackets may be open at once. -/
def allows : Scope → Nat → Bool
  | text left, depth => depth ≤ left
  | tree, _ => true

/-- The answer for a value with so many brackets in its tree. -/
def answer (scope : Scope) (depth : Nat) (a : α) : Except ReadError α :=
  if scope.allows depth then .ok a else .error .shape

@[simp] theorem allows_zero (scope : Scope) : scope.allows 0 = true := by
  cases scope <;> simp [allows]

@[simp] theorem allows_max (scope : Scope) (depth depth' : Nat) :
    scope.allows (max depth depth') = (scope.allows depth && scope.allows depth') := by
  cases scope with
  | tree => rfl
  | text left =>
    rw [allows, allows, allows, ← Bool.decide_and]
    exact decide_eq_decide.mpr Nat.max_le

@[simp] theorem answer_zero (scope : Scope) (a : α) : scope.answer 0 a = .ok a := by
  simp [answer]

@[simp] theorem map_answer (scope : Scope) (depth : Nat) (a : α) (f : α → β) :
    (scope.answer depth a).map f = scope.answer depth (f a) := by
  unfold answer
  split_ifs <;> rfl

/-- One bracket uses up one level. -/
theorem answer_succ (scope : Scope) (depth : Nat) (a : α) :
    scope.answer (depth + 1) a =
      match scope.enter with
      | some inner => inner.answer depth a
      | none => .error .shape := by
  cases scope with
  | tree => rfl
  | text left => cases left <;> simp [answer, allows, enter]

/-- Of two parts, one read after the other, the deeper one decides. -/
theorem answer_bind {scope : Scope} {depth depth' : Nat} {a : α} {b : β}
    {next : α → Except ReadError β} (h : next a = scope.answer depth' b) :
    (scope.answer depth a >>= next) = scope.answer (max depth depth') b := by
  simp only [answer, allows_max, Bool.and_eq_true] at h ⊢
  by_cases hdepth : scope.allows depth
  · simp [hdepth, bind, Except.bind, h]
  · simp [hdepth, bind, Except.bind]

end Scope

/-! ## The law -/

/-- The codec writes a plain tree for the value and reads the value back, within the limit. -/
structure Codec.RoundTrips (codec : Codec α) (a : α) : Prop where
  plain : (codec.write a).Plain
  read : ∀ scope : Scope, codec.read scope (codec.write a) = scope.answer (codec.write a).depth a

namespace Codec

theorem bool_roundTrips (b : Bool) : bool.RoundTrips b :=
  ⟨.bool b, fun _ => (Scope.answer_zero ..).symm⟩

theorem string_roundTrips (s : String) : string.RoundTrips s :=
  ⟨.string s, fun _ => (Scope.answer_zero ..).symm⟩

/-- A codec for integers of some width round-trips at the integers of that width. -/
theorem int_roundTrips {codec : Codec α} {low high n : Int} {of : Int → α} {a : α}
    (hwrite : codec.write a = .int n) (hread : codec.read = (Decoder.intIn low high).map of)
    (hlow : low ≤ n) (hhigh : n ≤ high) (hof : of n = a) : codec.RoundTrips a := by
  refine ⟨hwrite ▸ .int n, fun scope => ?_⟩
  rw [hread, hwrite, Json.depth_int, Scope.answer_zero]
  simp [Decoder.map, Decoder.intIn, hlow, hhigh, hof, Except.map]

theorem uint8_roundTrips (n : UInt8) : uint8.RoundTrips n := by
  have hlt := n.toNat_lt
  exact int_roundTrips rfl rfl (by omega) (by omega) (by simp)

theorem uint16_roundTrips (n : UInt16) : uint16.RoundTrips n := by
  have hlt := n.toNat_lt
  exact int_roundTrips rfl rfl (by omega) (by omega) (by simp)

theorem uint32_roundTrips (n : UInt32) : uint32.RoundTrips n := by
  have hlt := n.toNat_lt
  exact int_roundTrips rfl rfl (by omega) (by omega) (by simp)

theorem uint64_roundTrips (n : UInt64) : uint64.RoundTrips n := by
  have hlt := n.toNat_lt
  exact int_roundTrips rfl rfl (by omega) (by omega) (by simp)

theorem int32_roundTrips (n : Int32) : int32.RoundTrips n := by
  have hlow := n.le_toInt
  have hlt := n.toInt_lt
  exact int_roundTrips rfl rfl (by omega) (by omega) (by simp)

theorem int64_roundTrips (n : Int64) : int64.RoundTrips n := by
  have hlow := n.le_toInt
  have hlt := n.toInt_lt
  exact int_roundTrips rfl rfl (by omega) (by omega) (by simp)

/-- Values of another type in the same form round-trip as that form does. -/
theorem via_roundTrips {codec : Codec α} {inner : β → α} {of : α → β} {b : β}
    (h : codec.RoundTrips (inner b)) (hof : of (inner b) = b) :
    (codec.via inner of).RoundTrips b := by
  refine ⟨h.plain, fun scope => ?_⟩
  change (codec.read scope (codec.write (inner b))).map of = _
  rw [h.read, Scope.map_answer, hof]
  rfl

/-- Values of another type in the same form, of which not every one is a value of the type. -/
theorem guarded_roundTrips {codec : Codec α} {inner : β → α} {of : α → Option β} {b : β}
    (h : codec.RoundTrips (inner b)) (hof : of (inner b) = some b) :
    (Codec.mk (fun b => codec.write (inner b)) (codec.read.guarded of)).RoundTrips b := by
  refine ⟨h.plain, fun scope => ?_⟩
  change codec.read.guarded of scope (codec.write (inner b)) =
    scope.answer (codec.write (inner b)).depth b
  rw [Decoder.guarded, h.read]
  unfold Scope.answer
  split_ifs
  · simp only [hof]
  · rfl

/-- Arrays round-trip when their items do. -/
theorem list_roundTrips {item : Codec α} {as : List α} (h : ∀ a ∈ as, item.RoundTrips a) :
    item.list.RoundTrips as := by
  have hitems (scope : Scope) : (as.map item.write).mapM (item.read scope) =
      scope.answer (Json.depthItems (as.map item.write)) as := by
    induction as with
    | nil => simp [Json.depthItems, pure, Except.pure]
    | cons a as ih =>
      have hmore := ih fun b hb => h b (List.mem_cons_of_mem _ hb)
      rw [List.map_cons, List.mapM_cons, (h a List.mem_cons_self).read, hmore, Json.depthItems]
      refine Scope.answer_bind ?_
      exact (Scope.map_answer ..)
  refine ⟨.arr fun json hjson => ?_, fun scope => ?_⟩
  · obtain ⟨a, ha, rfl⟩ := List.mem_map.mp hjson
    exact (h a ha).plain
  · rw [show item.list.write as = .arr (as.map item.write) from rfl, Json.depth_arr,
      Scope.answer_succ]
    change (match scope.enter with
      | some inner => (as.map item.write).mapM (item.read inner)
      | none => .error .shape) = _
    cases scope.enter with
    | none => rfl
    | some inner => exact hitems inner

end Codec

/-! ## Variants and names -/

namespace Decoder

variable {case? : String → Option (Case α)}

/-- A variant without data is read from its name. -/
theorem variants_name {name : String} {a : α} (h : case? name = some (.unit a)) (scope : Scope) :
    variants case? scope (.string name) = scope.answer (Json.string name).depth a := by
  rw [Json.depth_string, Scope.answer_zero, variants, h]

/-- A variant with data is read from the object under its name. -/
theorem variants_variant {name : String} {found : Case α} {data : Json} {a : α}
    (h : case? name = some found)
    (hdata : ∀ scope : Scope, found.read scope data = scope.answer data.depth a) (scope : Scope) :
    variants case? scope (.variant name data) =
      scope.answer (Json.variant name data).depth a := by
  rw [Json.depth_variant, Scope.answer_succ, Json.variant, variants, h]
  cases scope.enter with
  | none => rfl
  | some inner => exact hdata inner

end Decoder

namespace Codec

/-- Names round-trip when no other value has the name. -/
theorem named_roundTrips {all : List α} {name : α → String} {a : α} (hmem : a ∈ all)
    (hname : ∀ b ∈ all, name b = name a → b = a) : (named all name).RoundTrips a := by
  refine ⟨.string _, fun scope => ?_⟩
  have hfind : (all.find? fun b => name b = name a) = some a := by
    cases h : all.find? fun b => name b = name a with
    | none =>
      have hnone := List.find?_eq_none.mp h a hmem
      simp at hnone
    | some b =>
      have hb : name b = name a := by simpa using List.find?_some h
      rw [hname b (List.mem_of_find?_eq_some h) hb]
  have hcase : (all.find? fun b => name b = name a).map Decoder.Case.unit = some (.unit a) := by
    rw [hfind, Option.map_some]
  exact @Decoder.variants_name α (fun s => (all.find? fun b => name b = s).map .unit) (name a) a
    hcase scope

end Codec

/-! ## Records -/

/-- The field is written as a plain tree and read back, or left out where that means the
same. -/
structure Field.RoundTrips (field : Field α) (a : α) : Prop where
  written : ∀ json, field.write a = some json → json.Plain ∧
    ∀ scope : Scope, field.read scope json = scope.answer json.depth a
  leftOut : field.write a = none → field.missing = some a

namespace Field

theorem required_roundTrips {name : String} {codec : Codec α} {a : α} (h : codec.RoundTrips a) :
    (required name codec).RoundTrips a where
  written := by
    rintro _ ⟨⟩
    exact ⟨h.plain, h.read⟩
  leftOut := nofun

theorem defaulted_roundTrips {name : String} {codec : Codec α} {value a : α}
    (h : codec.RoundTrips a) : (defaulted name codec value).RoundTrips a where
  written := by
    rintro _ ⟨⟩
    exact ⟨h.plain, h.read⟩
  leftOut := nofun

/-- What is not written as `null` is not taken for a missing value. -/
theorem read_nullable {codec : Codec α} {a : α} (h : codec.RoundTrips a)
    (hnull : codec.write a ≠ .null) (scope : Scope) :
    codec.read.nullable scope (codec.write a) = scope.answer (codec.write a).depth (some a) := by
  rw [Decoder.nullable, h.read, Scope.map_answer]
  exact hnull

/-- A value that may be `null` is read back as it was. -/
theorem nullable_written {codec : Codec α} {a : Option α}
    (h : ∀ b ∈ a, codec.RoundTrips b ∧ codec.write b ≠ .null) :
    (Json.nullable codec.write a).Plain ∧ ∀ scope : Scope,
      codec.read.nullable scope (Json.nullable codec.write a) =
        scope.answer (Json.nullable codec.write a).depth a := by
  cases a with
  | none => exact ⟨.null, fun scope => (Scope.answer_zero ..).symm⟩
  | some b => exact ⟨(h b rfl).1.plain, read_nullable (h b rfl).1 (h b rfl).2⟩

theorem nullable_roundTrips {name : String} {codec : Codec α} {a : Option α}
    (h : ∀ b ∈ a, codec.RoundTrips b ∧ codec.write b ≠ .null) :
    (nullable name codec).RoundTrips a where
  written := by
    rintro _ ⟨⟩
    exact nullable_written h
  leftOut := nofun

theorem nullableDefaulted_roundTrips {name : String} {codec : Codec α} {value a : Option α}
    (h : ∀ b ∈ a, codec.RoundTrips b ∧ codec.write b ≠ .null) :
    (nullableDefaulted name codec value).RoundTrips a where
  written := by
    rintro _ ⟨⟩
    exact nullable_written h
  leftOut := nofun

theorem optional_roundTrips {name : String} {codec : Codec α} {a : Option α}
    (h : ∀ b ∈ a, codec.RoundTrips b ∧ codec.write b ≠ .null) :
    (optional name codec).RoundTrips a where
  written := by
    intro json hjson
    cases a with
    | none => cases hjson
    | some b =>
      cases hjson
      exact ⟨(h b rfl).1.plain, read_nullable (h b rfl).1 (h b rfl).2⟩
  leftOut := by
    intro hnone
    cases a with
    | none => rfl
    | some b => cases hnone

end Field

namespace Layout

/-- The names of the fields. -/
def names {αs : List Type} : Layout αs → List String
  | .nil => []
  | .cons field rest => field.name :: rest.names

/-- Every field round-trips at its value. -/
def RoundTrips {αs : List Type} : Layout αs → Values αs → Prop
  | .nil, _ => True
  | .cons field rest, (a, values) => field.RoundTrips a ∧ rest.RoundTrips values

/-- The slots as they are when every written member has been read. -/
def filled {αs : List Type} : Layout αs → Values αs → Slots αs
  | .nil, _ => ()
  | .cons field rest, (a, values) => ((field.write a).map fun _ => a, rest.filled values)

/-- The written members with their keys as a tree has them. -/
def keyed (members : List (String × Json)) : List (Option String × Json) :=
  members.map fun (key, value) => (some key, value)

/-- The key of every written member is the name of a field. -/
theorem name_of_mem_members {αs : List Type} (layout : Layout αs) (values : Values αs) :
    ∀ m ∈ layout.members values, m.1 ∈ layout.names := by
  induction layout with
  | nil => exact nofun
  | cons field rest ih =>
    intro m hm
    rw [members] at hm
    split at hm
    · rcases List.mem_cons.mp hm with rfl | hm
      · exact List.mem_cons_self
      · exact List.mem_cons_of_mem _ (ih _ m hm)
    · exact List.mem_cons_of_mem _ (ih _ m hm)

/-- A member with the name of the first field is its value. -/
theorem put_cons_self {αs : List Type} (field : Field α) (rest : Layout αs) (scope : Scope)
    (json : Json) (slots : Slots αs) :
    put scope field.name json (.cons field rest) (none, slots) =
      some ((field.read scope json).map fun a => (some a, slots)) :=
  if_pos rfl

/-- A member with another name is for the fields behind the first. -/
theorem put_cons_of_ne {αs : List Type} {field : Field α} {key : String} (h : field.name ≠ key)
    (rest : Layout αs) (scope : Scope) (json : Json) (slot : Option α) (slots : Slots αs) :
    put scope key json (.cons field rest) (slot, slots) =
      (rest.put scope key json slots).map (·.map fun slots => (slot, slots)) :=
  if_neg h

/-- A field is left alone by members with other names. -/
theorem fill_cons_of_ne {αs : List Type} {field : Field α} {rest : Layout αs} (scope : Scope)
    {members : List (Option String × Json)} (h : ∀ m ∈ members, m.1 ≠ some field.name)
    (slot : Option α) (slots : Slots αs) :
    fill scope (.cons field rest) (slot, slots) members =
      (fill scope rest slots members).map fun slots => (slot, slots) := by
  induction members generalizing slots with
  | nil => rfl
  | cons member more ih =>
    obtain ⟨key, json⟩ := member
    cases key with
    | none => rfl
    | some key =>
      have hkey : field.name ≠ key := fun heq => h _ List.mem_cons_self (heq ▸ rfl)
      have hmore := ih fun m hm => h m (List.mem_cons_of_mem _ hm)
      rw [fill, fill, put_cons_of_ne hkey]
      cases rest.put scope key json slots with
      | none =>
        simp only [Option.map_none]
        split_ifs
        · exact hmore slots
        · rfl
      | some result =>
        cases result with
        | error e => rfl
        | ok slots => exact hmore slots

/-- The written members fill the slots, up to the limit. -/
theorem fill_members {αs : List Type} {layout : Layout αs} (hnames : layout.names.Nodup)
    {values : Values αs} (h : layout.RoundTrips values) (scope : Scope) :
    layout.fill scope layout.blank (keyed (layout.members values)) =
      scope.answer (Json.depthMembers (keyed (layout.members values))) (layout.filled values) := by
  induction layout with
  | nil => exact (Scope.answer_zero ..).symm
  | cons field rest ih =>
    obtain ⟨a, values⟩ := values
    obtain ⟨hfield, hrest⟩ := h
    rw [names, List.nodup_cons] at hnames
    have hmore := ih hnames.2 hrest
    -- the members of the other fields leave the slot of this one alone
    have hother : ∀ m ∈ keyed (rest.members values), m.1 ≠ some field.name := by
      intro m hm heq
      obtain ⟨⟨key, json⟩, hmem, rfl⟩ := List.mem_map.mp hm
      have hkey : key ∈ rest.names := name_of_mem_members rest values _ hmem
      exact hnames.1 (Option.some.inj heq ▸ hkey)
    cases hwrite : field.write a with
    | none =>
      rw [members, hwrite, filled, hwrite, blank, fill_cons_of_ne scope hother, hmore]
      exact Scope.map_answer ..
    | some json =>
      obtain ⟨-, hread⟩ := hfield.written json hwrite
      have hrest' : (Layout.cons field rest).fill scope (some a, rest.blank)
          (keyed (rest.members values)) =
            scope.answer (Json.depthMembers (keyed (rest.members values)))
              (some a, rest.filled values) := by
        rw [fill_cons_of_ne scope hother, hmore, Scope.map_answer]
      have hkeyed : keyed ((Layout.cons field rest).members (a, values)) =
          (some field.name, json) :: keyed (rest.members values) := by
        rw [members, hwrite]
        rfl
      have hnext : (scope.answer json.depth (some a, rest.blank) >>= fun slots =>
          (Layout.cons field rest).fill scope slots (keyed (rest.members values))) =
            scope.answer (max json.depth (Json.depthMembers (keyed (rest.members values))))
              (some a, rest.filled values) := Scope.answer_bind hrest'
      rw [hkeyed, filled, hwrite, blank, fill, put_cons_self, hread, Scope.map_answer,
        Json.depthMembers, Option.map_some, ← hnext]
      cases scope.answer json.depth (some a, rest.blank) <;> rfl

/-- A left-out field has the value that its absence stands for. -/
theorem close_filled {αs : List Type} {layout : Layout αs} {values : Values αs}
    (h : layout.RoundTrips values) : layout.close (layout.filled values) = .ok values := by
  induction layout with
  | nil => rfl
  | cons field rest ih =>
    obtain ⟨a, values⟩ := values
    obtain ⟨hfield, hrest⟩ := h
    have hslot : (((field.write a).map fun _ => a) <|> field.missing) = some a := by
      cases hwrite : field.write a with
      | none => exact hfield.leftOut hwrite
      | some json => rfl
    rw [filled, close, hslot, ih hrest]
    rfl

/-- The members of a record are plain. -/
theorem plain_of_mem_members {αs : List Type} {layout : Layout αs} {values : Values αs}
    (h : layout.RoundTrips values) : ∀ m ∈ layout.members values, m.2.Plain := by
  induction layout with
  | nil => exact nofun
  | cons field rest ih =>
    obtain ⟨a, values⟩ := values
    obtain ⟨hfield, hrest⟩ := h
    intro m hm
    rw [members] at hm
    cases hwrite : field.write a with
    | none =>
      rw [hwrite] at hm
      exact ih hrest m hm
    | some json =>
      rw [hwrite] at hm
      rcases List.mem_cons.mp hm with rfl | hm
      · exact (hfield.written _ hwrite).1
      · exact ih hrest m hm

/-- A record is written as a plain tree. -/
theorem plain_write {αs : List Type} {layout : Layout αs} {values : Values αs}
    (h : layout.RoundTrips values) : (layout.write values).Plain := by
  refine .obj (fun m hm => ?_) fun m hm => ?_
  · obtain ⟨m, _, rfl⟩ := List.mem_map.mp hm
    rfl
  · obtain ⟨m, hmem, rfl⟩ := List.mem_map.mp hm
    exact plain_of_mem_members h m hmem

/-- An object is read by going through its members and closing the record. -/
theorem readInside_obj {αs : List Type} (layout : Layout αs) (scope : Scope)
    (members : List (Option String × Json)) :
    layout.readInside scope (.obj members) = layout.fill scope layout.blank members >>= layout.close := by
  rw [readInside]
  cases layout.fill scope layout.blank members <;> rfl

/-- **Records round-trip** when their fields do and no name stands for two of them. -/
theorem read_write {αs : List Type} {layout : Layout αs} (hnames : layout.names.Nodup)
    {values : Values αs} (h : layout.RoundTrips values) (scope : Scope) :
    layout.read scope (layout.write values) =
      scope.answer (layout.write values).depth values := by
  have hinside (inner : Scope) : layout.readInside inner (layout.write values) =
      inner.answer (Json.depthMembers (keyed (layout.members values))) values := by
    have hclose : layout.close (layout.filled values) = inner.answer 0 values := by
      rw [close_filled h, Scope.answer_zero]
    change layout.readInside inner (.obj (keyed (layout.members values))) = _
    rw [readInside_obj, fill_members hnames h inner, Scope.answer_bind hclose, Nat.max_zero]
  have hdepth : (layout.write values).depth =
      Json.depthMembers (keyed (layout.members values)) + 1 := rfl
  rw [hdepth, Scope.answer_succ, read]
  cases scope.enter with
  | none => rfl
  | some inner => exact hinside inner

end Layout

/-- Values written as records round-trip when their fields do. -/
theorem Codec.record_roundTrips {αs : List Type} {layout : Layout αs} {values : α → Values αs}
    {of : Values αs → α} {a : α} (hnames : layout.names.Nodup) (h : layout.RoundTrips (values a))
    (hof : of (values a) = a) : (Codec.record layout values of).RoundTrips a := by
  refine ⟨Layout.plain_write h, fun scope => ?_⟩
  change (layout.read scope (layout.write (values a))).map of = _
  rw [Layout.read_write hnames h, Scope.map_answer, hof]
  rfl

/-- A variant round-trips when its data do. -/
theorem Codec.variant_roundTrips {write : α → Json} {case? : String → Option (Decoder.Case α)}
    {name : String} {found : Decoder.Case α} {data : Json} {a : α}
    (hwrite : write a = .variant name data) (hcase : case? name = some found)
    (hplain : data.Plain)
    (hdata : ∀ scope : Scope, found.read scope data = scope.answer data.depth a) :
    (Codec.mk write (.variants case?)).RoundTrips a where
  plain := by
    change (write a).Plain
    rw [hwrite]
    refine .obj (fun m hm => ?_) fun m hm => ?_ <;> rw [List.mem_singleton.mp hm]
    · rfl
    · exact hplain
  read scope := by
    change Decoder.variants case? scope (write a) = scope.answer (write a).depth a
    rw [hwrite]
    exact Decoder.variants_variant hcase hdata scope

/-- A variant without data round-trips. -/
theorem Codec.unit_roundTrips {write : α → Json} {case? : String → Option (Decoder.Case α)}
    {name : String} {a : α} (hwrite : write a = .string name) (hcase : case? name = some (.unit a)) :
    (Codec.mk write (.variants case?)).RoundTrips a where
  plain := by
    change (write a).Plain
    rw [hwrite]
    exact .string name
  read scope := by
    change Decoder.variants case? scope (write a) = scope.answer (write a).depth a
    rw [hwrite]
    exact Decoder.variants_name hcase scope

/-- A variant with one value round-trips when the value does. -/
theorem Codec.data_roundTrips {write : α → Json} {case? : String → Option (Decoder.Case α)}
    {name : String} {codec : Codec β} {of : β → α} {b : β} {a : α}
    (hwrite : write a = .variant name (codec.write b))
    (hcase : case? name = some (.data (codec.read.map of))) (h : codec.RoundTrips b)
    (hof : of b = a) : (Codec.mk write (.variants case?)).RoundTrips a := by
  refine variant_roundTrips hwrite hcase h.plain fun scope => ?_
  change (codec.read scope (codec.write b)).map of = _
  rw [h.read, Scope.map_answer, hof]

/-- A variant with a record round-trips when the fields of the record do. -/
theorem Codec.body_roundTrips {write : α → Json} {case? : String → Option (Decoder.Case α)}
    {name : String} {αs : List Type} {layout : Layout αs} {of : Values αs → α}
    {values : Values αs} {a : α} (hwrite : write a = .variant name (layout.write values))
    (hcase : case? name = some (.body (layout.read.map of))) (hnames : layout.names.Nodup)
    (h : layout.RoundTrips values) (hof : of values = a) :
    (Codec.mk write (.variants case?)).RoundTrips a := by
  refine variant_roundTrips hwrite hcase (Layout.plain_write h) fun scope => ?_
  have hbody : scope.allowsBody (layout.write values) = true := by cases scope <;> rfl
  rw [Decoder.Case.read, if_pos hbody]
  change (layout.read scope (layout.write values)).map of = _
  rw [Layout.read_write hnames h, Scope.map_answer, hof]

end MethodContracts
