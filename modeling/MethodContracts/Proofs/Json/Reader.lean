import Mathlib.Tactic.SplitIfs
import MethodContracts.Json.Printer
import MethodContracts.Json.Reader

/-!
# The reader inverts the printer

A *plain* tree has integers for numbers, known texts for strings, and nothing cut off. Every
tree that a codec of this library writes is plain, and a plain tree comes back from its text.

The scanners of the reader take as much as they can, so what matters is what follows a value
in a text: a number must not be followed by something that continues it. The rest of a text
after which a number ends is an *end*; commas and closing brackets start one.
-/

namespace MethodContracts.Json

open MethodContracts.Text

/-- The characters of a text as the reader sees them. -/
abbrev source (cs : List Char) : Source := cs.map some

/-! ## Strings -/

/-- What the reader finds where the printer has written a character: a number for a control
without a letter of its own, and otherwise the character. -/
def pieceOf (c : Char) : Piece :=
  if c.toNat < 0x20 ∧ c.toNat ∉ [0x8, 0x9, 0xa, 0xc, 0xd] then .unit c.toNat else .char c

/-- A hexadecimal digit is read with the value it was written for. -/
theorem hexValue?_digitChar : ∀ n < 16, Bytes.hexValue? (Nat.digitChar n) = some n := by decide

/-- The escape of a control character is read as its number. -/
theorem hexQuad?_control {n : Nat} (h : n < 0x20) :
    hexQuad? (some '0') (some '0') (some (Nat.digitChar (n / 16)))
      (some (Nat.digitChar (n % 16))) = some n := by
  have hzero : Bytes.hexValue? '0' = some 0 := by decide
  have hhigh := hexValue?_digitChar (n / 16) (by omega)
  have hlow := hexValue?_digitChar (n % 16) (by omega)
  simp only [hexQuad?, hzero, hhigh, hlow, Option.bind_eq_bind, Option.bind_some, Option.pure_def]
  congr 1
  omega

/-- A character that needs no escape is taken as it is. -/
theorem pieces_raw {c : Char} (hquote : c ≠ '"') (hslash : c ≠ '\\') (hcontrol : ¬ c.toNat < 0x20)
    (rest : Source) :
    pieces (some c :: rest) = (pieces rest).map fun (more, rest) => (.char c :: more, rest) := by
  rw [pieces]
  · simp only [hcontrol, if_false]
    cases pieces rest <;> rfl
  all_goals simp [hquote, hslash]

/-- A character by a letter is read as what the letter stands for. -/
theorem pieces_letter {e c : Char} (hu : e ≠ 'u') (h : escaped? e = some c) (rest : Source) :
    pieces (some '\\' :: some e :: rest) =
      (pieces rest).map fun (more, rest) => (.char c :: more, rest) := by
  rw [pieces]
  · rw [h]
    cases pieces rest <;> rfl
  · simp [hu]

/-- A character by its number. -/
theorem pieces_control {n : Nat} (h : n < 0x20) (rest : Source) :
    pieces (source ['\\', 'u', '0', '0', Nat.digitChar (n / 16), Nat.digitChar (n % 16)] ++ rest) =
      (pieces rest).map fun (more, rest) => (.unit n :: more, rest) := by
  simp only [source, List.map_cons, List.map_nil, List.cons_append, List.nil_append]
  rw [pieces, hexQuad?_control h]
  cases pieces rest <;> rfl

/-- One written character is read as one piece. -/
theorem pieces_escapeChar (c : Char) (rest : Source) :
    pieces (source (escapeChar c) ++ rest) =
      (pieces rest).map fun (more, rest) => (pieceOf c :: more, rest) := by
  have hnat (d : Char) (h : c.toNat = d.toNat) : c = d := Char.toNat_inj.mp h
  unfold escapeChar
  split_ifs with hquote hslash hb ht hn hf hr hcontrol
  · subst hquote
    exact pieces_letter (by decide) (by decide) rest
  · subst hslash
    exact pieces_letter (by decide) (by decide) rest
  · obtain rfl := hnat '\x08' hb
    exact pieces_letter (by decide) (by decide) rest
  · subst ht
    exact pieces_letter (by decide) (by decide) rest
  · subst hn
    exact pieces_letter (by decide) (by decide) rest
  · obtain rfl := hnat '\x0c' hf
    exact pieces_letter (by decide) (by decide) rest
  · subst hr
    exact pieces_letter (by decide) (by decide) rest
  · -- a control without a letter: the only case in which the piece is a number
    have hpiece : pieceOf c = .unit c.toNat := by
      have h9 : c.toNat ≠ 0x9 := fun h => ht (hnat '\t' h)
      have ha : c.toNat ≠ 0xa := fun h => hn (hnat '\n' h)
      have hd : c.toNat ≠ 0xd := fun h => hr (hnat '\r' h)
      simp [pieceOf, hcontrol, hb, h9, ha, hf, hd]
    rw [hpiece]
    exact pieces_control hcontrol rest
  · have hpiece : pieceOf c = .char c := by simp [pieceOf, hcontrol]
    rw [hpiece]
    exact pieces_raw hquote hslash hcontrol rest

/-- A written text is read as one piece per character. -/
theorem pieces_escaped (cs : List Char) (rest : Source) :
    pieces (source (cs.flatMap escapeChar) ++ some '"' :: rest) = some (cs.map pieceOf, rest) := by
  induction cs with
  | nil => simp [source, pieces]
  | cons c cs ih =>
    rw [List.flatMap_cons, source, List.map_append, List.append_assoc, pieces_escapeChar, ih]
    rfl

/-- The pieces of a written text stand for its characters. -/
theorem pieceChars?_pieceOf (cs : List Char) : pieceChars? none (cs.map pieceOf) = some cs := by
  induction cs with
  | nil => rfl
  | cons c cs ih =>
    rw [List.map_cons, pieceOf]
    split_ifs with h
    · have hhigh : isHighUnit c.toNat = false := by simp [isHighUnit]; omega
      have hlow : isLowUnit c.toNat = false := by simp [isLowUnit]; omega
      simp [pieceChars?, hhigh, hlow, ih, Char.ofNat_toNat]
    · simp [pieceChars?, ih]

/-- A written string is read as its text, whatever follows. -/
theorem stringText?_escaped (text : String) (rest : Source) :
    stringText? (source (text.toList.flatMap escapeChar) ++ some '"' :: rest) =
      some (some text, rest) := by
  simp [stringText?, pieces_escaped, pieceChars?_pieceOf]

/-! ## Numbers -/

/-- The rest of a text does not continue a number. -/
def endsNumber : Source → Bool
  | some c :: _ => !(c.isDigit || c = '.' || c = 'e' || c = 'E')
  | _ => true

/-- Digits are taken up to the end of the number. -/
theorem spanDigits_append {digits : List Char} (hdigits : ∀ c ∈ digits, c.isDigit)
    {rest : Source} (hrest : endsNumber rest) :
    spanDigits (source digits ++ rest) = (digits, rest) := by
  induction digits with
  | nil =>
    cases rest with
    | nil => rfl
    | cons c rest =>
      cases c with
      | none => rfl
      | some c =>
        have hc : c.isDigit = false := by simp_all [endsNumber]
        simp [spanDigits, hc]
  | cons c digits ih =>
    have hc : c.isDigit := hdigits c List.mem_cons_self
    have hmore := ih fun d hd => hdigits d (List.mem_cons_of_mem c hd)
    simp only [source] at hmore
    simp [spanDigits, hc, hmore]

/-- The digits of a number do not start with a zero unless it is their only one. -/
theorem toDigits_ne_zero_cons (n : Nat) (d : Char) (more : List Char) :
    Nat.toDigits 10 n ≠ '0' :: d :: more := by
  induction n using Nat.base_induction 10 (by decide) generalizing d more with
  | single m hm =>
    rw [Nat.toDigits_of_lt_base hm]
    simp
  | digit m k hk hm ih =>
    rw [← Nat.toDigits_append_toDigits (by decide) hm hk, Nat.toDigits_of_lt_base hk]
    intro h
    cases hfront : Nat.toDigits 10 m with
    | nil => exact Nat.toDigits_ne_nil hfront
    | cons c front =>
      rw [hfront, List.cons_append, List.cons.injEq] at h
      cases front with
      | nil =>
        -- a single leading zero would be the number zero
        have hzero : m = 0 := by
          rw [← Nat.ofDigitChars_ten_toDigits (n := m), hfront, h.1]
          rfl
        omega
      | cons c' front' => exact ih c' front' (by rw [hfront, h.1])

/-- The digits of a natural number are its whole part. -/
theorem whole?_toDigits (n : Nat) {rest : Source} (hrest : endsNumber rest) :
    whole? (source (Nat.toDigits 10 n) ++ rest) = some (Nat.toDigits 10 n, rest) := by
  have hdigits : ∀ c ∈ Nat.toDigits 10 n, c.isDigit := fun c hc =>
    Nat.isDigit_of_mem_toDigits (by decide) (by decide) hc
  rw [whole?, spanDigits_append hdigits hrest]
  split
  · next h => exact absurd (congrArg Prod.fst h) Nat.toDigits_ne_nil
  · next h => exact absurd (congrArg Prod.fst h) (toDigits_ne_zero_cons n _ _)
  · next h => rw [h]

theorem fraction?_end {rest : Source} (hrest : endsNumber rest) :
    fraction? rest = some ([], rest) := by
  rw [fraction?]
  rintro more rfl
  simp [endsNumber] at hrest

theorem exponent?_end {rest : Source} (hrest : endsNumber rest) :
    exponent? rest = some ([], rest) := by
  cases rest with
  | nil => rfl
  | cons c rest =>
    cases c with
    | none => rfl
    | some c =>
      have hc : ¬(c = 'e' ∨ c = 'E') := by simp_all [endsNumber]
      simp [exponent?, hc]

/-- A number without a sign. -/
theorem numberSign_toDigits (n : Nat) (rest : Source) :
    numberSign (source (Nat.toDigits 10 n) ++ rest) =
      (false, source (Nat.toDigits 10 n) ++ rest) := by
  rw [numberSign]
  intro more h
  cases hdigits : Nat.toDigits 10 n with
  | nil => exact Nat.toDigits_ne_nil hdigits
  | cons c digits =>
    have hdigit : c.isDigit := Nat.isDigit_of_mem_toDigits (by decide) (by decide)
      (hdigits ▸ List.mem_cons_self : c ∈ Nat.toDigits 10 n)
    rw [hdigits] at h
    simp only [source, List.map_cons, List.cons_append, List.cons.injEq, Option.some.injEq] at h
    rw [h.1] at hdigit
    exact absurd hdigit (by decide)

/-- An integer is written as its digits behind its sign. -/
theorem toList_toString_int (n : Int) :
    (toString n).toList = (if n < 0 then ['-'] else []) ++ Nat.toDigits 10 n.natAbs := by
  rw [Int.toString_eq_repr, Int.repr_eq_if]
  split_ifs with hle hlt hlt
  · omega
  · rw [Nat.toList_repr, List.nil_append]
    congr 1
    omega
  · rw [String.toList_append, Nat.toList_repr]
    congr 2
    omega
  · omega

/-- A written integer is read as that integer. -/
theorem number?_int (n : Int) {rest : Source} (hrest : endsNumber rest) :
    number? (source (toString n).toList ++ rest) = some (.int n, rest) := by
  have hsign : numberSign (source (toString n).toList ++ rest) =
      (decide (n < 0), source (Nat.toDigits 10 n.natAbs) ++ rest) := by
    rw [toList_toString_int]
    split_ifs with h
    · simp [source, numberSign, h]
    · rw [List.nil_append, numberSign_toDigits]
      simp [h]
  simp only [number?, hsign, whole?_toDigits _ hrest, fraction?_end hrest, exponent?_end hrest,
    Nat.ofDigitChars_ten_toDigits, Option.bind_eq_bind, Option.bind_some]
  -- a sign is never written in front of a zero
  have hzero : ¬(decide (n < 0) = true ∧ n.natAbs = 0) := by
    rw [decide_eq_true_iff]
    omega
  rw [if_pos ⟨trivial, trivial, hzero⟩]
  congr 3
  split_ifs with h <;> rw [decide_eq_true_iff] at h <;> omega

/-! ## Values -/

/-- A tree with integers for numbers, with known texts, and whole. -/
inductive Plain : Json → Prop where
  | null : Plain .null
  | bool (b : Bool) : Plain (.bool b)
  | int (n : Int) : Plain (.int n)
  | string (s : String) : Plain (.string s)
  | arr {items : List Json} (h : ∀ item ∈ items, Plain item) : Plain (.arr items)
  | obj {members : List (Option String × Json)} (hkeys : ∀ m ∈ members, m.1.isSome)
      (h : ∀ m ∈ members, Plain m.2) : Plain (.obj members)

/-- The characters that a plain tree can start with. -/
def startsValue (c : Char) : Bool := c.isDigit || c ∈ ['n', 't', 'f', '"', '[', '\x7b', '-']

/-- An integer starts with its sign or with a digit. -/
theorem toString_int_cons (n : Int) :
    ∃ c cs, (toString n).toList = c :: cs ∧ (c = '-' ∨ c.isDigit) := by
  rw [toList_toString_int]
  split_ifs with h
  · exact ⟨'-', _, rfl, .inl rfl⟩
  · cases hdigits : Nat.toDigits 10 n.natAbs with
    | nil => exact absurd hdigits Nat.toDigits_ne_nil
    | cons c cs =>
      exact ⟨c, cs, rfl, .inr <| Nat.isDigit_of_mem_toDigits (by decide) (by decide)
        (hdigits ▸ List.mem_cons_self)⟩

/-- A plain tree has a text, and it starts as values do. -/
theorem Plain.chars_cons {json : Json} (h : Plain json) :
    ∃ c cs, json.chars = c :: cs ∧ startsValue c := by
  cases h with
  | null => exact ⟨'n', _, rfl, by decide⟩
  | bool b => cases b <;> exact ⟨_, _, rfl, by decide⟩
  | int n =>
    obtain ⟨c, cs, hcs, hc⟩ := toString_int_cons n
    refine ⟨c, cs, hcs, ?_⟩
    rcases hc with rfl | hc
    · decide
    · simp [startsValue, hc]
  | string s => exact ⟨'"', _, rfl, by decide⟩
  | arr _ => exact ⟨'[', _, rfl, by decide⟩
  | obj _ _ => exact ⟨'\x7b', _, rfl, by decide⟩

/-- Nothing is skipped in front of a character that is not blank. -/
theorem skipSpace_mark {c : Char} (h : isSpace c = false) (rest : Source) :
    skipSpace (some c :: rest) = some c :: rest := by
  rw [skipSpace, h]
  rfl

/-- Nothing is skipped in front of a value. -/
theorem skipSpace_value {c : Char} (h : startsValue c) (rest : Source) :
    skipSpace (some c :: rest) = some c :: rest := by
  refine skipSpace_mark ?_ rest
  cases hs : isSpace c with
  | false => rfl
  | true =>
    simp only [isSpace, Bool.or_eq_true, decide_eq_true_eq] at hs
    rcases hs with ((rfl | rfl) | rfl) | rfl <;> exact absurd h (by decide)

/-- What starts neither an array nor an object is a value without parts. -/
theorem value_scalar {c : Char} (hstart : startsValue c) (harr : c ≠ '[') (hobj : c ≠ '\x7b')
    (fuel : Nat) (rest : Source) : value (fuel + 1) (some c :: rest) = scalar (some c :: rest) := by
  rw [value, skipSpace_value hstart]
  split
  · next h => exact absurd (Option.some.inj (List.cons.inj h).1) harr
  · next h => exact absurd (Option.some.inj (List.cons.inj h).1) hobj
  · rfl

/-- A written integer is read as a value. -/
theorem scalar_int (n : Int) {rest : Source} (hrest : endsNumber rest) :
    scalar (source (toString n).toList ++ rest) = (.int n, some rest) := by
  have hnumber := number?_int n hrest
  obtain ⟨c, cs, hcs, hc⟩ := toString_int_cons n
  have hne (d : Char) (hd : d.isDigit = false) (hminus : d ≠ '-') : c ≠ d := by
    rintro rfl
    rcases hc with rfl | hc
    · exact hminus rfl
    · rw [hd] at hc
      cases hc
  rw [hcs] at hnumber ⊢
  simp only [source, List.map_cons, List.cons_append] at hnumber ⊢
  -- neither a sign nor a digit starts a string or a name
  have hscalar : scalar? (some c :: (cs.map some ++ rest)) =
      number? (some c :: (cs.map some ++ rest)) := by
    rw [scalar?]
    · exact fun _ h => hne '"' (by decide) (by decide) (Option.some.inj (List.cons.inj h).1)
    · exact fun _ h => hne 'n' (by decide) (by decide) (Option.some.inj (List.cons.inj h).1)
    · exact fun _ h => hne 't' (by decide) (by decide) (Option.some.inj (List.cons.inj h).1)
    · exact fun _ h => hne 'f' (by decide) (by decide) (Option.some.inj (List.cons.inj h).1)
  rw [scalar, hscalar, hnumber]

/-- Items are separated by commas. -/
theorem itemChars_cons_cons (item next : Json) (more : List Json) :
    itemChars (item :: next :: more) = item.chars ++ ',' :: itemChars (next :: more) := by
  rw [itemChars]
  simp

/-- Members are separated by commas. -/
theorem memberChars_cons_cons (key : Option String) (json : Json) (next : Option String × Json)
    (more : List (Option String × Json)) :
    memberChars ((key, json) :: next :: more) =
      textChars key ++ ':' :: json.chars ++ ',' :: memberChars (next :: more) := by
  rw [memberChars]
  simp

/-- The items of an array start as the first of them does. -/
theorem itemChars_start {item : Json} (h : Plain item) (more : List Json) :
    ∃ c cs, itemChars (item :: more) = c :: cs ∧ startsValue c := by
  obtain ⟨c, cs, hcs, hc⟩ := h.chars_cons
  cases more with
  | nil => exact ⟨c, cs, hcs, hc⟩
  | cons next more =>
    rw [itemChars_cons_cons, hcs]
    exact ⟨c, _, rfl, hc⟩

/-- The members of an object start with the quote of the first key. -/
theorem memberChars_start (key : String) (json : Json) (more : List (Option String × Json)) :
    ∃ cs, memberChars ((some key, json) :: more) = '"' :: cs := by
  cases more with
  | nil => exact ⟨_, rfl⟩
  | cons next more =>
    rw [memberChars_cons_cons]
    exact ⟨_, rfl⟩

/-- A tree whose text is read as the tree, whatever follows, given two calls per character. -/
def Readable (json : Json) : Prop :=
  ∀ (fuel : Nat) (rest : Source), 2 * json.chars.length ≤ fuel → endsNumber rest →
    value fuel (source json.chars ++ rest) = (json, some rest)

/-- A tree without parts is readable when its characters are scanned as the tree. -/
theorem readable_of_scalar {json : Json} {c : Char} {cs : List Char} (hchars : json.chars = c :: cs)
    (hstart : startsValue c) (harr : c ≠ '[') (hobj : c ≠ '\x7b')
    (hscalar : ∀ rest, endsNumber rest → scalar (source json.chars ++ rest) = (json, some rest)) :
    Readable json := by
  intro fuel rest hfuel hrest
  cases fuel with
  | zero =>
    rw [hchars, List.length_cons] at hfuel
    omega
  | succ fuel =>
    rw [← hscalar rest hrest, hchars]
    exact value_scalar hstart harr hobj fuel _

/-- The items of an array are read up to its closing bracket. -/
theorem itemsFrom_chars {items : List Json} (hne : items ≠ [])
    (h : ∀ item ∈ items, Readable item) :
    ∀ (fuel : Nat) (rest : Source), 2 * (itemChars items).length + 1 ≤ fuel →
      itemsFrom fuel (source (itemChars items) ++ some ']' :: rest) = (items, some rest) := by
  induction items with
  | nil => exact absurd rfl hne
  | cons item more ih =>
    intro fuel rest hfuel
    obtain ⟨fuel, rfl⟩ : ∃ k, fuel = k + 1 := ⟨fuel - 1, by omega⟩
    have hitem := h item List.mem_cons_self
    cases more with
    | nil =>
      rw [itemChars] at hfuel ⊢
      rw [itemsFrom, hitem fuel _ (by omega) rfl]
      rfl
    | cons next more =>
      have hmore := ih (by simp) fun item hitem => h item (List.mem_cons_of_mem _ hitem)
      rw [itemChars_cons_cons, List.length_append, List.length_cons] at hfuel
      have hsplit : source (itemChars (item :: next :: more)) ++ some ']' :: rest =
          source item.chars ++ (some ',' :: (source (itemChars (next :: more)) ++
            some ']' :: rest)) := by
        simp [itemChars_cons_cons, source]
      rw [hsplit, itemsFrom, hitem fuel _ (by omega) rfl]
      -- the comma pays for the call that reads the items behind it
      simp only [skipSpace_mark (c := ',') rfl]
      rw [hmore fuel rest (by omega)]

section Member

variable {key : String} {item : Json} {fuel : Nat} {before rest : Source}

theorem source_key (key : String) (rest : Source) :
    source (textChars (some key) ++ [':']) ++ rest =
      some '"' :: (source (key.toList.flatMap escapeChar) ++ some '"' :: some ':' :: rest) := by
  simp [textChars, stringChars, source]

/-- Behind a key and its value the bracket ends the object. -/
theorem membersFrom_last (hvalue : value fuel before = (item, some (some '\x7d' :: rest))) :
    membersFrom (fuel + 1) (source (textChars (some key) ++ [':']) ++ before) =
      ([(some key, item)], some rest) := by
  have hcolon := skipSpace_mark (c := ':') rfl before
  have hclose := skipSpace_mark (c := '\x7d') rfl rest
  rw [source_key, membersFrom, skipSpace_value (by decide)]
  simp only [stringText?_escaped, hcolon, hvalue, hclose]

/-- Behind a key and its value a comma lets the next member follow. -/
theorem membersFrom_next (hvalue : value fuel before = (item, some (some ',' :: rest))) :
    membersFrom (fuel + 1) (source (textChars (some key) ++ [':']) ++ before) =
      ((some key, item) :: (membersFrom fuel rest).1, (membersFrom fuel rest).2) := by
  have hcolon := skipSpace_mark (c := ':') rfl before
  have hcomma := skipSpace_mark (c := ',') rfl rest
  rw [source_key, membersFrom, skipSpace_value (by decide)]
  simp only [stringText?_escaped, hcolon, hvalue, hcomma]

end Member

/-- The members of an object are read up to its closing bracket. -/
theorem membersFrom_chars {members : List (Option String × Json)} (hne : members ≠ [])
    (hkeys : ∀ m ∈ members, m.1.isSome) (h : ∀ m ∈ members, Readable m.2) :
    ∀ (fuel : Nat) (rest : Source), 2 * (memberChars members).length + 1 ≤ fuel →
      membersFrom fuel (source (memberChars members) ++ some '\x7d' :: rest) =
        (members, some rest) := by
  induction members with
  | nil => exact absurd rfl hne
  | cons member more ih =>
    intro fuel rest hfuel
    obtain ⟨fuel, rfl⟩ : ∃ k, fuel = k + 1 := ⟨fuel - 1, by omega⟩
    have hjson := h member List.mem_cons_self
    obtain ⟨key, json⟩ := member
    obtain ⟨key, rfl⟩ := Option.isSome_iff_exists.mp (hkeys (key, json) List.mem_cons_self)
    cases more with
    | nil =>
      rw [memberChars, List.length_append, List.length_cons] at hfuel
      have hvalue : 2 * json.chars.length ≤ fuel := by omega
      have hsplit : source (memberChars [(some key, json)]) ++ some '\x7d' :: rest =
          source (textChars (some key) ++ [':']) ++ (source json.chars ++ some '\x7d' :: rest) := by
        simp [memberChars, source]
      rw [hsplit, membersFrom_last (hjson fuel _ hvalue rfl)]
    | cons next more =>
      have hmore := ih (by simp) (fun m hm => hkeys m (List.mem_cons_of_mem _ hm))
        fun m hm => h m (List.mem_cons_of_mem _ hm)
      rw [memberChars_cons_cons] at hfuel
      simp only [List.length_append, List.length_cons] at hfuel
      have hvalue : 2 * json.chars.length ≤ fuel := by omega
      have hsplit : source (memberChars ((some key, json) :: next :: more)) ++
            some '\x7d' :: rest =
          source (textChars (some key) ++ [':']) ++ (source json.chars ++
            some ',' :: (source (memberChars (next :: more)) ++ some '\x7d' :: rest)) := by
        simp [memberChars_cons_cons, source]
      rw [hsplit, membersFrom_next (hjson fuel _ hvalue rfl), hmore fuel rest (by omega)]

/-- **A plain tree is readable.** Every bracket of its text gives the reader one more call, and
every two characters pay for two calls. -/
theorem Plain.readable {json : Json} (h : Plain json) : Readable json := by
  induction h with
  | null => exact readable_of_scalar rfl (by decide) (by decide) (by decide) fun _ _ => rfl
  | bool b =>
    cases b <;>
      exact readable_of_scalar rfl (by decide) (by decide) (by decide) fun _ _ => rfl
  | int n =>
    obtain ⟨c, cs, hcs, hc⟩ := toString_int_cons n
    have hchars : (Json.int n).chars = c :: cs := hcs
    refine readable_of_scalar hchars ?_ ?_ ?_ fun rest hrest => scalar_int n hrest
    · rcases hc with rfl | hc
      · decide
      · simp [startsValue, hc]
    · rintro rfl
      revert hc
      decide
    · rintro rfl
      revert hc
      decide
  | string s =>
    refine readable_of_scalar rfl (by decide) (by decide) (by decide) fun rest _ => ?_
    have hsplit : source (Json.string s).chars ++ rest =
        some '"' :: (source (s.toList.flatMap escapeChar) ++ some '"' :: rest) := by
      simp [chars, textChars, stringChars, source]
    rw [hsplit, scalar, scalar?, stringText?_escaped]
    rfl
  | @arr items hitems ih =>
    intro fuel rest hfuel hrest
    rw [chars, List.length_append, List.length_cons, List.length_singleton] at hfuel
    obtain ⟨fuel, rfl⟩ : ∃ k, fuel = k + 1 := ⟨fuel - 1, by omega⟩
    have hsplit : source (Json.arr items).chars ++ rest =
        some '[' :: (source (itemChars items) ++ some ']' :: rest) := by
      simp [chars, source]
    rw [hsplit, value, skipSpace_value (by decide)]
    cases items with
    | nil => rfl
    | cons item more =>
      have hitems' := itemsFrom_chars (by simp) ih fuel rest (by omega)
      obtain ⟨c, cs, hcs, hc⟩ := itemChars_start (hitems item List.mem_cons_self) more
      -- no item starts as the array ends, so the array is not taken for an empty one
      have hclose : c ≠ ']' := by
        rintro rfl
        exact absurd hc (by decide)
      rw [hcs] at hitems' ⊢
      simp only [source, List.map_cons, List.cons_append] at hitems' ⊢
      rw [skipSpace_value hc]
      split
      · next h => exact absurd (Option.some.inj (List.cons.inj h).1) hclose
      · rw [hitems']
  | @obj members hkeys hmembers ih =>
    intro fuel rest hfuel hrest
    rw [chars, List.length_append, List.length_cons, List.length_singleton] at hfuel
    obtain ⟨fuel, rfl⟩ : ∃ k, fuel = k + 1 := ⟨fuel - 1, by omega⟩
    have hsplit : source (Json.obj members).chars ++ rest =
        some '\x7b' :: (source (memberChars members) ++ some '\x7d' :: rest) := by
      simp [chars, source]
    rw [hsplit, value, skipSpace_value (by decide)]
    cases members with
    | nil => rfl
    | cons member more =>
      have hmembers' := membersFrom_chars (by simp) hkeys ih fuel rest (by omega)
      obtain ⟨key, json⟩ := member
      obtain ⟨key, rfl⟩ := Option.isSome_iff_exists.mp (hkeys (key, json) List.mem_cons_self)
      obtain ⟨cs, hcs⟩ := memberChars_start key json more
      rw [hcs] at hmembers' ⊢
      simp only [source, List.map_cons, List.cons_append] at hmembers' ⊢
      rw [skipSpace_value (by decide)]
      split
      · next h => exact absurd (Option.some.inj (List.cons.inj h).1) (by decide)
      · rw [hmembers']

/-- **Reading back.** The text of a plain tree is read as the tree, and it ends there. -/
theorem read_render {json : Json} (h : Plain json) :
    read (.ofString json.render) = ⟨json, true⟩ := by
  have hsource : Source.ofString json.render = source json.chars ++ [] := by
    rw [Source.ofString, render, String.toList_ofList, List.append_nil]
  have hvalue := h.readable (2 * (source json.chars ++ []).length + 2) [] (by simp) rfl
  rw [read, hsource, hvalue]
  rfl

end MethodContracts.Json
