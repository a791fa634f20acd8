import MethodContracts.Proofs.Json.Codec

/-!
# Objects with some of their members

An object may give any of the fields of a record, in any order, with unknown members among them.
Each field that is given has the value that is read from its member, and each field that is not
given has the value that its absence stands for.

Unknown members are skipped, but they have to be JSON. That need not be said of them when they stand
in a text that was read up to its end: then nothing in the tree is cut off.
-/

namespace MethodContracts

open MethodContracts.Text

variable {α β : Type}

namespace Json

/-! ## What is read to its end is complete -/

/-- When there is a rest of the text, nothing in front of it was cut off. -/
def Whole (complete : β → Bool) (found : β × Option Source) : Prop :=
  found.2.isSome → complete found.1

theorem complete_of_number {source rest : Source} {json : Json}
    (h : number? source = some (json, rest)) : json.complete := by
  rw [number?] at h
  dsimp only at h
  obtain ⟨⟨digits, rest'⟩, -, h⟩ := Option.bind_eq_some_iff.mp h
  obtain ⟨⟨frac, rest''⟩, -, h⟩ := Option.bind_eq_some_iff.mp h
  obtain ⟨⟨expo, rest'''⟩, -, h⟩ := Option.bind_eq_some_iff.mp h
  split_ifs at h <;> cases h <;> rfl

theorem complete_of_scalar {source rest : Source} {json : Json}
    (h : scalar? source = some (json, rest)) : json.complete := by
  unfold scalar? at h
  split at h
  case h_5 => exact complete_of_number h
  all_goals
    obtain ⟨found, -, heq⟩ := Option.map_eq_some_iff.mp h
    cases heq
    rfl

theorem whole_none (complete : β → Bool) (found : β) : Whole complete (found, none) := nofun

theorem whole_value {fuel : Nat} (hitems : ∀ source, Whole completeItems (itemsFrom fuel source))
    (hmembers : ∀ source, Whole completeMembers (membersFrom fuel source)) (source : Source) :
    Whole complete (value (fuel + 1) source) := by
  rw [value]
  split
  · split
    · exact fun _ => rfl
    · exact hitems _
  · split
    · exact fun _ => rfl
    · exact hmembers _
  · rw [scalar]
    split
    · next h => exact fun _ => complete_of_scalar h
    · exact whole_none _ _

theorem whole_items {fuel : Nat} (hvalue : ∀ source, Whole complete (value fuel source))
    (hitems : ∀ source, Whole completeItems (itemsFrom fuel source)) (source : Source) :
    Whole completeItems (itemsFrom (fuel + 1) source) := by
  rw [itemsFrom]
  split
  · exact whole_none _ _
  · next item rest h =>
    have hitem : item.complete := by simpa [h, Whole] using hvalue source
    split
    · next more _ =>
      intro hrest
      simp [completeItems, hitem, hitems more hrest]
    · simp [Whole, completeItems, hitem]
    · exact whole_none _ _

theorem whole_members {fuel : Nat} (hvalue : ∀ source, Whole complete (value fuel source))
    (hmembers : ∀ source, Whole completeMembers (membersFrom fuel source)) (source : Source) :
    Whole completeMembers (membersFrom (fuel + 1) source) := by
  rw [membersFrom]
  split
  · split
    · exact whole_none _ _
    · split
      · next text _ =>
        split
        · exact whole_none _ _
        · next item rest h =>
          have hitem : item.complete := by simpa [h, Whole] using hvalue text
          split
          · next more _ =>
            intro hrest
            simp [completeMembers, hitem, hmembers more hrest]
          · simp [Whole, completeMembers, hitem]
          · exact whole_none _ _
      · exact whole_none _ _
  · exact whole_none _ _

/-- The reading functions leave nothing cut off in front of a rest. -/
theorem whole_of_fuel (fuel : Nat) :
    (∀ source, Whole complete (value fuel source)) ∧
      (∀ source, Whole completeItems (itemsFrom fuel source)) ∧
      ∀ source, Whole completeMembers (membersFrom fuel source) := by
  induction fuel with
  | zero => exact ⟨fun _ => whole_none _ _, fun _ => whole_none _ _, fun _ => whole_none _ _⟩
  | succ fuel ih =>
    obtain ⟨hvalue, hitems, hmembers⟩ := ih
    exact ⟨whole_value hitems hmembers, whole_items hvalue hitems, whole_members hvalue hmembers⟩

/-- A text that ends after its tree is JSON all through. -/
theorem complete_of_read {source : Source} {json : Json} (h : read source = ⟨json, true⟩) :
    json.complete := by
  obtain ⟨hvalue, -⟩ := whole_of_fuel (2 * source.length + 2)
  have hwhole := hvalue source
  rcases hresult : value (2 * source.length + 2) source with ⟨tree, rest⟩
  rw [hresult] at hwhole
  rw [read, hresult] at h
  obtain ⟨rfl, hends⟩ := Document.mk.inj h
  cases rest with
  | none => cases hends
  | some rest => exact hwhole rfl

theorem complete_of_mem {members : List (Option String × Json)} (h : completeMembers members) :
    ∀ m ∈ members, m.2.complete := by
  induction members with
  | nil => exact nofun
  | cons first more ih =>
    rw [completeMembers, Bool.and_eq_true] at h
    exact List.forall_mem_cons.mpr ⟨h.1, ih h.2⟩

/-- What an object gives under a key: nothing, or what is read from its only member with the key. -/
inductive Gives (read : Json → Except ReadError α) (key : String)
    (members : List (Option String × Json)) : Option α → Prop
  | nothing (h : ∀ m ∈ members, m.1 ≠ some key) : Gives read key members none
  | once {before after : List (Option String × Json)} {json : Json} {a : α}
      (hsplit : members = before ++ (some key, json) :: after)
      (hbefore : ∀ m ∈ before, m.1 ≠ some key) (hafter : ∀ m ∈ after, m.1 ≠ some key)
      (hread : read json = .ok a) : Gives read key members (some a)

end Json

/-! ## Filling a record -/

namespace Layout

variable {αs : List Type}

/-- The fields that the members of an object give, with their values. -/
def Given (scope : Scope) (members : List (Option String × Json)) {αs : List Type} :
    Layout αs → Slots αs → Prop
  | .nil, _ => True
  | .cons field rest, (slot, slots) =>
    Json.Gives (field.read scope) field.name members slot ∧ rest.Given scope members slots

theorem fill_append (scope : Scope) (layout : Layout αs) (slots : Slots αs)
    (before after : List (Option String × Json)) :
    layout.fill scope slots (before ++ after) =
      (layout.fill scope slots before >>= fun slots => layout.fill scope slots after) := by
  induction before generalizing slots with
  | nil => rfl
  | cons member more ih =>
    obtain ⟨_ | key, json⟩ := member
    · rfl
    · rw [List.cons_append, fill, fill]
      split
      · exact ih _
      · rfl
      · split_ifs
        · exact ih _
        · rfl

/-- A record has no place for a key that names none of its fields. -/
theorem put_eq_none {layout : Layout αs} {key : String} (h : key ∉ layout.names) (scope : Scope)
    (json : Json) (slots : Slots αs) : layout.put scope key json slots = none := by
  induction layout with
  | nil => rfl
  | cons field rest ih =>
    obtain ⟨slot, slots⟩ := slots
    rw [names, List.mem_cons, not_or] at h
    rw [put_cons_of_ne (Ne.symm h.1), ih h.2]
    rfl

theorem fill_of_unknown {layout : Layout αs} {key : String} (h : key ∉ layout.names) {json : Json}
    (hjson : json.complete) (scope : Scope) (slots : Slots αs)
    (more : List (Option String × Json)) :
    layout.fill scope slots ((some key, json) :: more) = layout.fill scope slots more := by
  rw [fill, put_eq_none h]
  exact if_pos hjson

/-- A record without fields takes nothing from an object. -/
theorem fill_nil (scope : Scope) {members : List (Option String × Json)}
    (hkeys : ∀ m ∈ members, m.1.isSome) (hcomplete : ∀ m ∈ members, m.2.complete) :
    fill scope .nil () members = .ok () := by
  induction members with
  | nil => rfl
  | cons member more ih =>
    rw [List.forall_mem_cons] at hkeys hcomplete
    obtain ⟨key, json⟩ := member
    obtain ⟨key, rfl⟩ := Option.isSome_iff_exists.mp hkeys.1
    rw [fill_of_unknown List.not_mem_nil hcomplete.1]
    exact ih hkeys.2 hcomplete.2

/-- **The fields that are given get their values and the others none**, whatever the order. -/
theorem fill_of_given {layout : Layout αs} (hnames : layout.names.Nodup) {scope : Scope}
    {members : List (Option String × Json)} (hkeys : ∀ m ∈ members, m.1.isSome)
    (hcomplete : ∀ m ∈ members, m.2.complete) {slots : Slots αs}
    (h : layout.Given scope members slots) :
    layout.fill scope layout.blank members = .ok slots := by
  induction layout with
  | nil => exact fill_nil scope hkeys hcomplete
  | cons field rest ih =>
    obtain ⟨slot, slots⟩ := slots
    obtain ⟨hgives, hrest⟩ := h
    rw [names, List.nodup_cons] at hnames
    have hmore := ih hnames.2 hrest
    cases hgives with
    | nothing hnone =>
      rw [blank, fill_cons_of_ne scope hnone, hmore]
      rfl
    | @once before after json a hsplit hbefore hafter hread =>
      subst hsplit
      have hjson : json.complete := hcomplete _ List.mem_append_cons_self
      -- for the other fields this member is an unknown one
      rw [fill_append] at hmore
      obtain ⟨found, hfound, hmore⟩ := bind_eq_ok_iff.mp hmore
      rw [fill_of_unknown hnames.1 hjson] at hmore
      rw [blank, fill_append, fill_cons_of_ne scope hbefore, hfound]
      change fill scope (.cons field rest) (none, found) ((some field.name, json) :: after) = _
      rw [fill, put_cons_self, hread]
      change fill scope (.cons field rest) (some a, found) after = _
      rw [fill_cons_of_ne scope hafter, hmore]
      rfl

/-- A record is read from an object by closing what the object gives. -/
theorem read_of_given {layout : Layout αs} (hnames : layout.names.Nodup) {scope inner : Scope}
    (henter : scope.enter = some inner) {members : List (Option String × Json)}
    (hkeys : ∀ m ∈ members, m.1.isSome) (hcomplete : ∀ m ∈ members, m.2.complete)
    {slots : Slots αs} (h : layout.Given inner members slots) :
    layout.read scope (.obj members) = layout.close slots := by
  rw [read, henter]
  change layout.readInside inner (.obj members) = _
  rw [readInside_obj, fill_of_given hnames hkeys hcomplete h]
  rfl

end Layout

end MethodContracts
