import MethodContracts.Proofs.Json.Reader

/-!
# Brackets in a text

How deep the brackets of a text nest can be read off its characters, without building a tree:
count what is open, and look past everything inside a string. For the text of a plain tree the
answer is the depth of the tree. So a limit on the tree is a limit on the text.
-/

namespace MethodContracts.Json

/-- Where a character of a text stands. -/
inductive Place where
  | outside
  | inString
  /-- behind a backslash inside a string -/
  | escaped
deriving DecidableEq, Repr

/-- How many brackets are open at the deepest place from here on. -/
def nestingFrom (place : Place) (opened : Nat) : List Char → Nat
  | [] => opened
  | c :: rest =>
    match place with
    | .outside =>
      if c = '"' then nestingFrom .inString opened rest
      else if c = '[' ∨ c = '\x7b' then nestingFrom .outside (opened + 1) rest
      else if c = ']' ∨ c = '\x7d' then max opened (nestingFrom .outside (opened - 1) rest)
      else nestingFrom .outside opened rest
    | .inString =>
      if c = '"' then nestingFrom .outside opened rest
      else if c = '\\' then nestingFrom .escaped opened rest
      else nestingFrom .inString opened rest
    | .escaped => nestingFrom .inString opened rest

/-- How many brackets of a text are open at its deepest place. -/
def nesting (text : String) : Nat := nestingFrom .outside 0 text.toList

/-- What is open here counts. -/
theorem le_nestingFrom (cs : List Char) (place : Place) (opened : Nat) :
    opened ≤ nestingFrom place opened cs := by
  induction cs generalizing place opened with
  | nil => exact Nat.le_refl opened
  | cons c rest ih =>
    have hmore := Nat.le_of_succ_le (ih .outside (opened + 1))
    cases place with
    | outside =>
      rw [nestingFrom]
      split_ifs
      · exact ih _ _
      · exact hmore
      · exact Nat.le_max_left ..
      · exact ih _ _
    | inString =>
      rw [nestingFrom]
      split_ifs <;> exact ih _ _
    | escaped => exact ih _ _

/-! ## Marks and strings -/

/-- The characters that the count looks at outside strings. -/
def isMark (c : Char) : Bool := c ∈ ['"', '[', ']', '\x7b', '\x7d']

/-- Characters that are no marks do not change the count. -/
theorem nestingFrom_unmarked {cs : List Char} (h : ∀ c ∈ cs, isMark c = false) (opened : Nat)
    (rest : List Char) :
    nestingFrom .outside opened (cs ++ rest) = nestingFrom .outside opened rest := by
  induction cs with
  | nil => rfl
  | cons c cs ih =>
    have hc := h c List.mem_cons_self
    simp only [isMark, List.mem_cons, List.not_mem_nil, or_false, decide_eq_false_iff_not,
      not_or] at hc
    obtain ⟨hquote, hopen, hclose, hobj, hend⟩ := hc
    rw [List.cons_append, nestingFrom]
    simp only [hquote, hopen, hclose, hobj, hend, or_self, if_false]
    exact ih fun d hd => h d (List.mem_cons_of_mem c hd)

/-- Neither sign nor digits of an integer are marks. -/
theorem isMark_int (n : Int) : ∀ c ∈ (toString n).toList, isMark c = false := by
  have hdigit (c : Char) (hc : c.isDigit) : isMark c = false := by
    cases h : isMark c with
    | false => rfl
    | true =>
      simp only [isMark, List.mem_cons, List.not_mem_nil, or_false, decide_eq_true_eq] at h
      rcases h with rfl | rfl | rfl | rfl | rfl <;> exact absurd hc (by decide)
  intro c hc
  rw [toList_toString_int, List.mem_append] at hc
  rcases hc with hc | hc
  · split_ifs at hc
    · rw [List.mem_singleton.mp hc]
      decide
    · cases hc
  · exact hdigit c (Nat.isDigit_of_mem_toDigits (by decide) (by decide) hc)

/-- A hexadecimal digit does not end a string. -/
theorem digitChar_ne_quote : ∀ n < 16, Nat.digitChar n ≠ '"' ∧ Nat.digitChar n ≠ '\\' := by decide

/-- A written character stays inside its string. -/
theorem nestingFrom_escapeChar (c : Char) (opened : Nat) (rest : List Char) :
    nestingFrom .inString opened (escapeChar c ++ rest) = nestingFrom .inString opened rest := by
  unfold escapeChar
  split_ifs with hquote hslash hb ht hn hf hr hcontrol
  -- a backslash with one character behind it
  iterate 7 rfl
  · obtain ⟨hhigh, hhigh'⟩ := digitChar_ne_quote (c.toNat / 16) (by omega)
    obtain ⟨hlow, hlow'⟩ := digitChar_ne_quote (c.toNat % 16) (by omega)
    simp [controlEscape, nestingFrom, hhigh, hhigh', hlow, hlow']
  · simp [nestingFrom, hquote, hslash]

/-- A written string does not change the count, whatever brackets it holds. -/
theorem nestingFrom_stringChars (text : String) (opened : Nat) (rest : List Char) :
    nestingFrom .outside opened (stringChars text ++ rest) = nestingFrom .outside opened rest := by
  have hbody (cs : List Char) :
      nestingFrom .inString opened (cs.flatMap escapeChar ++ '"' :: rest) =
        nestingFrom .outside opened rest := by
    induction cs with
    | nil => rfl
    | cons c cs ih => rw [List.flatMap_cons, List.append_assoc, nestingFrom_escapeChar, ih]
  rw [stringChars, List.cons_append, List.cons_append, List.append_assoc]
  exact hbody text.toList

/-! ## Trees -/

/-- The text of a tree adds its depth to what is open in front of it. -/
def Nests (json : Json) : Prop :=
  ∀ (opened : Nat) (rest : List Char), nestingFrom .outside opened (json.chars ++ rest) =
    max (opened + json.depth) (nestingFrom .outside opened rest)

/-- A tree without brackets nests when its text does not change the count. -/
theorem nests_of_flat {json : Json} (hdepth : json.depth = 0)
    (h : ∀ opened rest, nestingFrom .outside opened (json.chars ++ rest) =
      nestingFrom .outside opened rest) : Nests json := by
  intro opened rest
  have := le_nestingFrom rest .outside opened
  rw [h, hdepth]
  omega

/-- Items that nest add the depth of the deepest. -/
theorem nestingFrom_itemChars {items : List Json} (h : ∀ item ∈ items, Nests item) (opened : Nat)
    (rest : List Char) :
    nestingFrom .outside opened (itemChars items ++ rest) =
      max (opened + depthItems items) (nestingFrom .outside opened rest) := by
  induction items with
  | nil =>
    have := le_nestingFrom rest .outside opened
    simp only [itemChars, List.nil_append, depthItems]
    omega
  | cons item more ih =>
    have hitem := h item List.mem_cons_self
    have hmore := ih fun item hitem => h item (List.mem_cons_of_mem _ hitem)
    cases more with
    | nil =>
      rw [itemChars, hitem, depthItems, depthItems]
      omega
    | cons next more =>
      have hcomma : nestingFrom .outside opened (',' :: (itemChars (next :: more) ++ rest)) =
          nestingFrom .outside opened (itemChars (next :: more) ++ rest) := rfl
      have hdepth : depthItems (item :: next :: more) =
          max item.depth (depthItems (next :: more)) := rfl
      rw [itemChars_cons_cons, List.append_assoc, List.cons_append, hitem, hcomma, hmore, hdepth]
      omega

/-- Members whose values nest add the depth of the deepest. -/
theorem nestingFrom_memberChars {members : List (Option String × Json)}
    (hkeys : ∀ m ∈ members, m.1.isSome) (h : ∀ m ∈ members, Nests m.2) (opened : Nat)
    (rest : List Char) :
    nestingFrom .outside opened (memberChars members ++ rest) =
      max (opened + depthMembers members) (nestingFrom .outside opened rest) := by
  induction members with
  | nil =>
    have := le_nestingFrom rest .outside opened
    simp only [memberChars, List.nil_append, depthMembers]
    omega
  | cons member more ih =>
    have hjson : Nests member.2 := h member List.mem_cons_self
    have hmore := ih (fun m hm => hkeys m (List.mem_cons_of_mem _ hm))
      fun m hm => h m (List.mem_cons_of_mem _ hm)
    obtain ⟨key, json⟩ := member
    replace hjson : Nests json := hjson
    obtain ⟨key, rfl⟩ := Option.isSome_iff_exists.mp (hkeys (key, json) List.mem_cons_self)
    have hkey (rest : List Char) : nestingFrom .outside opened (textChars (some key) ++ ':' :: rest) =
        nestingFrom .outside opened rest := by
      rw [textChars, nestingFrom_stringChars]
      rfl
    cases more with
    | nil =>
      rw [memberChars, List.append_assoc, List.cons_append, hkey, hjson, depthMembers, depthMembers]
      omega
    | cons next more =>
      have hcomma : nestingFrom .outside opened (',' :: (memberChars (next :: more) ++ rest)) =
          nestingFrom .outside opened (memberChars (next :: more) ++ rest) := rfl
      have hdepth : depthMembers ((some key, json) :: next :: more) =
          max json.depth (depthMembers (next :: more)) := rfl
      rw [memberChars_cons_cons, List.append_assoc, List.append_assoc, List.cons_append,
        List.cons_append, hkey, hjson, hcomma, hmore, hdepth]
      omega

/-- Plain trees nest. -/
theorem Plain.nests {json : Json} (h : Plain json) : Nests json := by
  induction h with
  | null => exact nests_of_flat rfl fun _ _ => rfl
  | bool b => cases b <;> exact nests_of_flat rfl fun _ _ => rfl
  | int n => exact nests_of_flat rfl fun opened rest => nestingFrom_unmarked (isMark_int n) opened rest
  | string s => exact nests_of_flat rfl fun opened rest => nestingFrom_stringChars s opened rest
  | @arr items hitems ih =>
    intro opened rest
    have hclose : nestingFrom .outside (opened + 1) (']' :: rest) =
        max (opened + 1) (nestingFrom .outside opened rest) := rfl
    have hopen : nestingFrom .outside opened ((Json.arr items).chars ++ rest) =
        nestingFrom .outside (opened + 1) (itemChars items ++ ']' :: rest) := by
      rw [chars, List.cons_append, List.cons_append, List.append_assoc]
      rfl
    rw [hopen, nestingFrom_itemChars ih, hclose, depth]
    omega
  | @obj members hkeys hmembers ih =>
    intro opened rest
    have hclose : nestingFrom .outside (opened + 1) ('\x7d' :: rest) =
        max (opened + 1) (nestingFrom .outside opened rest) := rfl
    have hopen : nestingFrom .outside opened ((Json.obj members).chars ++ rest) =
        nestingFrom .outside (opened + 1) (memberChars members ++ '\x7d' :: rest) := by
      rw [chars, List.cons_append, List.cons_append, List.append_assoc]
      rfl
    rw [hopen, nestingFrom_memberChars hkeys ih, hclose, depth]
    omega

/-- **Text and tree agree.** The brackets of the text of a plain tree nest as deep as the tree. -/
theorem nesting_render {json : Json} (h : Plain json) : nesting json.render = json.depth := by
  have := h.nests 0 []
  rw [List.append_nil] at this
  rw [nesting, render, String.toList_ofList, this, nestingFrom]
  omega

end MethodContracts.Json
