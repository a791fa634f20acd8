import Mathlib.Data.List.TakeWhile
import MethodContracts.Expr.Text
import MethodContracts.Proofs.Json.Reader

/-!
# Rendered conditions are uniquely readable

Without precedence and with few parentheses a rendered condition could be the text of two different
ones. Among the trees made of variables, simple constants and operators it is not: what stands in
front of a blank, a closing parenthesis or the end of the text is the text of one operand at most.
A word is read up to the first character that no word has, a parenthesis opens a binary operation,
and any other sign is that of an operator with one operand.

The variables are those that are shown by their slot, since a name can be any text, and the numbers
are those without a sign, since a sign in front of a number is also that of the negation.
-/

namespace MethodContracts

/-- Variables without a name of their own, and constants that are words. -/
inductive Op.IsAtom : Op Node → Prop
  | this : IsAtom (.ref .this)
  | localSlot (index : UInt16) : IsAtom (.ref (.localSlot index))
  | argument (index : UInt16) : IsAtom (.ref (.argument index none))
  | null : IsAtom (.literal .null)
  | bool (value : Bool) : IsAtom (.literal (.bool value))
  | int32 {value : Int32} (h : 0 ≤ value.toInt) : IsAtom (.literal (.int32 value))
  | int64 {value : Int64} (h : 0 ≤ value.toInt) : IsAtom (.literal (.int64 value))

namespace Node

/-- The trees made of atoms and operators. -/
inductive OperatorTree : Node → Prop
  | atom {op : Op Node} (h : op.IsAtom) (offset : Option Offset) : OperatorTree ⟨op, offset⟩
  | binary (op : BinaryOperator) {lhs rhs : Node} (hlhs : lhs.OperatorTree)
      (hrhs : rhs.OperatorTree) (offset : Option Offset) : OperatorTree ⟨.binary op lhs rhs, offset⟩
  | unary (op : UnaryOperator) {operand : Node} (h : operand.OperatorTree)
      (offset : Option Offset) : OperatorTree ⟨.unary op operand, offset⟩

/-! ## Trees without offsets -/

/-- The tree without its offsets. -/
def bare (n : Node) : Node := n.fold fun _ below => .unlocated below

theorem bare_eq (n : Node) : n.bare = .unlocated (n.op.map bare) := by
  rw [bare, fold_eq]
  rfl

theorem rendered_eq (n : Node) : n.rendered = ⟨(n.op.map rendered).display, n.op.isBinary⟩ := by
  have hbinary : (n.op.map rendered).isBinary = n.op.isBinary := by cases n.op <;> rfl
  rw [rendered, fold_eq]
  change (⟨(n.op.map rendered).display, (n.op.map rendered).isBinary⟩ : Rendered) = _
  rw [hbinary]

/-- Offsets are not shown. -/
theorem rendered_bare (n : Node) : n.bare.rendered = n.rendered := by
  induction n using induct with
  | step n ih =>
    have hbelow : (n.op.map bare).map rendered = n.op.map rendered := by
      rw [Op.map_map]
      exact Op.map_congr ih
    have hbinary : (n.op.map bare).isBinary = n.op.isBinary := by cases n.op <;> rfl
    rw [bare_eq, rendered_eq n, rendered_eq, hbelow, hbinary]

/-! ## Operands -/

/-- The text of the tree as an operand. -/
def operand (n : Node) : String := n.rendered.operand

theorem operand_eq (n : Node) :
    n.operand = if n.op.isBinary then "(" ++ n.display ++ ")" else n.display := by
  rw [operand, Rendered.operand, display, rendered_eq]

variable (offset : Option Offset)

theorem display_binary (op : BinaryOperator) (lhs rhs : Node) :
    display ⟨.binary op lhs rhs, offset⟩ =
      lhs.operand ++ " " ++ op.symbol ++ " " ++ rhs.operand := by
  rw [display, rendered_eq]
  rfl

theorem display_unary (op : UnaryOperator) (n : Node) :
    display ⟨.unary op n, offset⟩ = op.symbol ++ n.operand := by
  rw [display, rendered_eq]
  rfl

theorem operand_literal (value : Constant) : operand ⟨.literal value, offset⟩ = value.display := by
  rw [operand, Rendered.operand, rendered_eq]
  rfl

theorem operand_ref (var : Variable) : operand ⟨.ref var, offset⟩ = var.display := by
  rw [operand, Rendered.operand, rendered_eq]
  rfl

theorem toList_operand_binary (op : BinaryOperator) (lhs rhs : Node) :
    (operand ⟨.binary op lhs rhs, offset⟩).toList =
      '(' :: (lhs.operand.toList ++
        ' ' :: (op.symbol.toList ++ ' ' :: (rhs.operand.toList ++ [')']))) := by
  rw [operand_eq]
  change ("(" ++ display ⟨.binary op lhs rhs, offset⟩ ++ ")").toList = _
  rw [display_binary]
  simp [String.toList_append]

theorem toList_operand_unary (op : UnaryOperator) (n : Node) :
    (operand ⟨.unary op n, offset⟩).toList = op.symbol.toList ++ n.operand.toList := by
  rw [operand_eq]
  change (display ⟨.unary op n, offset⟩).toList = _
  rw [display_unary, String.toList_append]

end Node

/-! ## Words -/

/-- A front of some class of characters ends where a text goes on with another one. -/
theorem takeWhile_append_of_all {p : Char → Bool} {front rest : List Char} (hfront : front.all p)
    (hrest : ∀ c ∈ rest.head?, p c = false) : (front ++ rest).takeWhile p = front := by
  rw [List.takeWhile_append_of_pos (List.all_eq_true.mp hfront)]
  cases rest with
  | nil => simp
  | cons c rest => simp [hrest c rfl]

/-- A front of some class of characters is determined by the text when it ends there. -/
theorem append_inj_of_all {p : Char → Bool} {front front' rest rest' : List Char}
    (hfront : front.all p) (hfront' : front'.all p) (hrest : ∀ c ∈ rest.head?, p c = false)
    (hrest' : ∀ c ∈ rest'.head?, p c = false) (h : front ++ rest = front' ++ rest') :
    front = front' ∧ rest = rest' := by
  have hfronts := congrArg (List.takeWhile p) h
  rw [takeWhile_append_of_all hfront hrest, takeWhile_append_of_all hfront' hrest'] at hfronts
  subst hfronts
  exact ⟨rfl, List.append_cancel_left h⟩

namespace Op

/-- The text of an atom. -/
def word : Op Node → List Char
  | .ref .this => ['t', 'h', 'i', 's']
  | .ref (.localSlot index) => 'l' :: 'o' :: 'c' :: Nat.toDigits 10 index.toNat
  | .ref (.argument index none) => 'a' :: 'r' :: 'g' :: Nat.toDigits 10 index.toNat
  | .literal .null => ['n', 'u', 'l', 'l']
  | .literal (.bool true) => ['t', 'r', 'u', 'e']
  | .literal (.bool false) => ['f', 'a', 'l', 's', 'e']
  | .literal (.int32 value) => Nat.toDigits 10 value.toInt.natAbs
  | .literal (.int64 value) => Nat.toDigits 10 value.toInt.natAbs ++ ['L']
  | _ => []

theorem word_localSlot (index : UInt16) :
    word (.ref (.localSlot index)) = ['l', 'o', 'c'] ++ Nat.toDigits 10 index.toNat := rfl

theorem word_argument (index : UInt16) :
    word (.ref (.argument index none)) = ['a', 'r', 'g'] ++ Nat.toDigits 10 index.toNat := rfl

theorem word_int32 (value : Int32) :
    word (.literal (.int32 value)) = Nat.toDigits 10 value.toInt.natAbs := rfl

theorem word_int64 (value : Int64) :
    word (.literal (.int64 value)) = Nat.toDigits 10 value.toInt.natAbs ++ ['L'] := rfl

/-- The constant with the given text of digits, which may end with a mark. -/
def ofNumeral (word : List Char) : Op Node :=
  let digits := word.takeWhile Char.isDigit
  let n : Int := Nat.ofDigitChars 10 digits 0
  if word = digits then .literal (.int32 (Int32.ofInt n)) else .literal (.int64 (Int64.ofInt n))

/-- The atom with the given text. -/
def ofWord (word : List Char) : Op Node :=
  if (word.headD ' ').isDigit then ofNumeral word
  else
    match word with
    | 'l' :: _ :: _ :: digits => .ref (.localSlot (UInt16.ofNat (Nat.ofDigitChars 10 digits 0)))
    | 'a' :: _ :: _ :: digits => .ref (.argument (UInt16.ofNat (Nat.ofDigitChars 10 digits 0)) none)
    | 't' :: 'h' :: _ => .ref .this
    | 't' :: _ => .literal (.bool true)
    | 'f' :: _ => .literal (.bool false)
    | _ => .literal .null

theorem isDigit_of_mem_toDigits {c : Char} {n : Nat} (h : c ∈ Nat.toDigits 10 n) : c.isDigit :=
  Nat.isDigit_of_mem_toDigits (by decide) (by decide) h

/-- The digits of a number, with anything behind them that is no digit. -/
theorem takeWhile_toDigits (n : Nat) {rest : List Char}
    (hrest : ∀ c ∈ rest.head?, c.isDigit = false) :
    (Nat.toDigits 10 n ++ rest).takeWhile Char.isDigit = Nat.toDigits 10 n :=
  takeWhile_append_of_all (List.all_eq_true.mpr fun _ => isDigit_of_mem_toDigits) hrest

theorem isDigit_headD_toDigits (n : Nat) (rest : List Char) :
    ((Nat.toDigits 10 n ++ rest).headD ' ').isDigit := by
  cases hdigits : Nat.toDigits 10 n with
  | nil => exact absurd hdigits Nat.toDigits_ne_nil
  | cons c more =>
    have hc : c ∈ Nat.toDigits 10 n := hdigits ▸ List.mem_cons_self
    exact isDigit_of_mem_toDigits hc

/-- The number of a slot is read back from its digits. -/
theorem ofDigitChars_slot (index : UInt16) :
    UInt16.ofNat (Nat.ofDigitChars 10 (Nat.toDigits 10 index.toNat) 0) = index := by
  rw [Nat.ofDigitChars_ten_toDigits, UInt16.ofNat_toNat]

namespace IsAtom

variable {op op' : Op Node}

/-- An atom is read back from its text. -/
theorem ofWord_word (h : op.IsAtom) : ofWord op.word = op := by
  cases h with
  | this => rfl
  | null => rfl
  | bool value => cases value <;> rfl
  | localSlot index => exact congrArg (fun i => ref (.localSlot i)) (ofDigitChars_slot index)
  | argument index => exact congrArg (fun i => ref (.argument i none)) (ofDigitChars_slot index)
  | @int32 value hvalue =>
    have hhead := isDigit_headD_toDigits value.toInt.natAbs []
    have htake := @takeWhile_toDigits value.toInt.natAbs [] nofun
    rw [List.append_nil] at hhead htake
    have hword : ofWord (word (.literal (.int32 value))) = ofNumeral (Nat.toDigits 10 _) :=
      if_pos hhead
    rw [hword, ofNumeral, htake, if_pos rfl, Nat.ofDigitChars_ten_toDigits,
      Int.natAbs_of_nonneg hvalue, Int32.ofInt_toInt]
  | @int64 value hvalue =>
    have hhead := isDigit_headD_toDigits value.toInt.natAbs ['L']
    have htake := @takeWhile_toDigits value.toInt.natAbs ['L'] (by simp)
    have hword : ofWord (word (.literal (.int64 value))) = ofNumeral (Nat.toDigits 10 _ ++ ['L']) :=
      if_pos hhead
    rw [hword, ofNumeral, htake, if_neg (by simp), Nat.ofDigitChars_ten_toDigits,
      Int.natAbs_of_nonneg hvalue, Int64.ofInt_toInt]

theorem word_inj (h : op.IsAtom) (h' : op'.IsAtom) (hword : op.word = op'.word) : op = op' := by
  rw [← h.ofWord_word, hword, h'.ofWord_word]

theorem word_ne_nil (h : op.IsAtom) : op.word ≠ [] := by
  cases h with
  | bool value => cases value <;> exact nofun
  | int32 => exact Nat.toDigits_ne_nil
  | int64 => exact List.concat_ne_nil _ _
  | _ => exact nofun

/-- Atoms are words of letters and digits. -/
theorem all_word (h : op.IsAtom) : op.word.all Char.isAlphanum := by
  have hdigits (n : Nat) : (Nat.toDigits 10 n).all Char.isAlphanum :=
    List.all_eq_true.mpr fun c hc => by simp [Char.isAlphanum, isDigit_of_mem_toDigits hc]
  cases h with
  | this => rfl
  | null => rfl
  | bool value => cases value <;> rfl
  | localSlot index =>
    rw [word_localSlot, List.all_append, hdigits]
    rfl
  | argument index =>
    rw [word_argument, List.all_append, hdigits]
    rfl
  | int32 =>
    rw [word_int32]
    exact hdigits _
  | int64 =>
    rw [word_int64, List.all_append, hdigits]
    rfl

/-- The atom is shown as its word, and it is not put in parentheses. -/
theorem toList_operand (h : op.IsAtom) (offset : Option Offset) :
    (Node.operand ⟨op, offset⟩).toList = op.word := by
  have hnat (n : Nat) : (toString n).toList = Nat.toDigits 10 n := Nat.toList_repr
  have hint {n : Int} (hn : 0 ≤ n) : (toString n).toList = Nat.toDigits 10 n.natAbs := by
    rw [Json.toList_toString_int, if_neg (Int.not_lt.mpr hn), List.nil_append]
  cases h with
  | this =>
    rw [Node.operand_ref]
    rfl
  | null =>
    rw [Node.operand_literal]
    rfl
  | bool value =>
    rw [Node.operand_literal]
    cases value <;> rfl
  | localSlot index =>
    rw [Node.operand_ref, Variable.display, String.toList_append, hnat]
    rfl
  | argument index =>
    rw [Node.operand_ref, Variable.display, String.toList_append, hnat]
    rfl
  | int32 hvalue =>
    rw [Node.operand_literal, Constant.display, hint hvalue]
    rfl
  | int64 hvalue =>
    rw [Node.operand_literal, Constant.display, String.toList_append, hint hvalue]
    rfl

end IsAtom

end Op

/-! ## Unique readability -/

/-- What follows a word does not continue it. -/
def EndsWord (rest : List Char) : Prop := ∀ c ∈ rest.head?, c.isAlphanum = false

theorem endsWord_nil : EndsWord [] := nofun

theorem endsWord_cons {c : Char} (h : c.isAlphanum = false) (cs : List Char) :
    EndsWord (c :: cs) := by
  rintro _ ⟨⟩
  exact h

/-- What the text of an operand can start with. -/
inductive Opening where
  | word | parenthesis | sign
deriving DecidableEq

/-- What a text starts with that has this character in front. -/
def Opening.ofChar (c : Char) : Opening :=
  if c.isAlphanum then word else if c = '(' then parenthesis else sign

/-- What the text of an operation starts with when it is an operand. -/
def Op.opening : Op Node → Opening
  | .binary .. => .parenthesis
  | .unary .. => .sign
  | _ => .word

theorem Op.IsAtom.opening_eq {op : Op Node} (h : op.IsAtom) : op.opening = .word := by
  cases h <;> rfl

/-- Symbols of operators with one operand are single signs. -/
theorem UnaryOperator.toList_symbol (op : UnaryOperator) :
    ∃ sign, op.symbol.toList = [sign] ∧ Opening.ofChar sign = .sign := by
  cases op <;> exact ⟨_, rfl, rfl⟩

theorem UnaryOperator.symbol_inj {op op' : UnaryOperator}
    (h : op.symbol.toList = op'.symbol.toList) : op = op' := by
  revert h
  cases op <;> cases op' <;> decide

theorem BinaryOperator.symbol_inj {op op' : BinaryOperator}
    (h : op.symbol.toList = op'.symbol.toList) : op = op' := by
  have hall : ∀ op ∈ all, ∀ op' ∈ all, op.symbol.toList = op'.symbol.toList → op = op' := by decide
  exact hall op (by cases op <;> decide) op' (by cases op' <;> decide) h

/-- There is no blank in a symbol. -/
theorem BinaryOperator.all_symbol (op : BinaryOperator) : op.symbol.toList.all (· ≠ ' ') := by
  cases op <;> rfl

namespace Node

variable {s t : Node} {rest rest' : List Char}

theorem OperatorTree.operand_cons (h : s.OperatorTree) :
    ∃ c cs, s.operand.toList = c :: cs ∧ Opening.ofChar c = s.op.opening := by
  cases h with
  | @atom op hop offset =>
    rw [hop.toList_operand, hop.opening_eq]
    have hall := hop.all_word
    cases hword : op.word with
    | nil => exact absurd hword hop.word_ne_nil
    | cons c cs =>
      rw [hword, List.all_cons, Bool.and_eq_true] at hall
      exact ⟨c, cs, rfl, if_pos hall.1⟩
  | binary op _ _ offset => exact ⟨_, _, toList_operand_binary offset op _ _, rfl⟩
  | @unary op n _ offset =>
    obtain ⟨sign, hsign, hopening⟩ := op.toList_symbol
    refine ⟨sign, n.operand.toList, ?_, hopening⟩
    rw [toList_operand_unary, hsign]
    rfl

/-- Operands at the front of one text start alike. -/
theorem opening_eq (hs : s.OperatorTree) (ht : t.OperatorTree)
    (h : s.operand.toList ++ rest = t.operand.toList ++ rest') : s.op.opening = t.op.opening := by
  obtain ⟨c, cs, hc, hopening⟩ := hs.operand_cons
  obtain ⟨c', cs', hc', hopening'⟩ := ht.operand_cons
  rw [hc, hc'] at h
  rw [← hopening, ← hopening', (List.cons.inj h).1]

/-- **The text of an operand ends where it has to.** Two texts that begin with an operand, followed
by something that does not continue a word, are equal only when the operands are equal up to offsets
and the texts behind them are equal. -/
theorem operand_inj (hs : s.OperatorTree) (ht : t.OperatorTree)
    (hrest : EndsWord rest) (hrest' : EndsWord rest')
    (h : s.operand.toList ++ rest = t.operand.toList ++ rest') :
    s.bare = t.bare ∧ rest = rest' := by
  induction hs generalizing t rest rest' with
  | @atom op hop offset =>
    have hopening := opening_eq (.atom hop offset) ht h
    rw [hop.opening_eq] at hopening
    cases ht with
    | binary => cases hopening
    | unary => cases hopening
    | @atom op' hop' offset' =>
      rw [hop.toList_operand, hop'.toList_operand] at h
      obtain ⟨hword, hrest⟩ := append_inj_of_all hop.all_word hop'.all_word hrest hrest' h
      rw [bare_eq, bare_eq ⟨op', offset'⟩, hop.word_inj hop' hword]
      exact ⟨rfl, hrest⟩
  | @binary op lhs rhs hlhs hrhs offset ihlhs ihrhs =>
    have hopening := opening_eq (.binary op hlhs hrhs offset) ht h
    cases ht with
    | atom hop' => cases hopening.trans hop'.opening_eq
    | unary => cases hopening
    | @binary op' lhs' rhs' hlhs' hrhs' offset' =>
      rw [toList_operand_binary, toList_operand_binary] at h
      simp only [List.cons_append, List.append_assoc, List.cons.injEq, true_and,
        List.nil_append] at h
      -- the left operand ends at the blank, the symbol at the next one, the right operand at the
      -- closing parenthesis
      have hblank := @endsWord_cons ' ' rfl
      have hparen := @endsWord_cons ')' rfl
      obtain ⟨hlhs, h⟩ := ihlhs hlhs' (hblank _) (hblank _) h
      obtain ⟨hsymbol, h⟩ := append_inj_of_all op.all_symbol op'.all_symbol (by simp) (by simp)
        (List.cons.inj h).2
      obtain ⟨hrhs, h⟩ := ihrhs hrhs' (hparen _) (hparen _) (List.cons.inj h).2
      rw [bare_eq, bare_eq ⟨.binary op' lhs' rhs', offset'⟩, Op.map, Op.map, hlhs, hrhs,
        BinaryOperator.symbol_inj hsymbol]
      exact ⟨rfl, (List.cons.inj h).2⟩
  | @unary op n hn offset ih =>
    have hopening := opening_eq (.unary op hn offset) ht h
    cases ht with
    | atom hop' => cases hopening.trans hop'.opening_eq
    | binary => cases hopening
    | @unary op' n' hn' offset' =>
      rw [toList_operand_unary, toList_operand_unary, List.append_assoc, List.append_assoc] at h
      obtain ⟨sign, hsign, -⟩ := op.toList_symbol
      obtain ⟨sign', hsign', -⟩ := op'.toList_symbol
      have hlength : op.symbol.toList.length = op'.symbol.toList.length := by
        rw [hsign, hsign']
        rfl
      obtain ⟨hsymbol, h⟩ := List.append_inj h hlength
      obtain ⟨hbare, h⟩ := ih hn' hrest hrest' h
      rw [bare_eq, bare_eq ⟨.unary op' n', offset'⟩, Op.map, Op.map, hbare,
        UnaryOperator.symbol_inj hsymbol]
      exact ⟨rfl, h⟩

/-- A binary operation is not shown as an operand. -/
theorem isBinary_of_display_eq (hs : s.OperatorTree) (ht : t.OperatorTree)
    (h : s.display = t.display) (hbinary : s.op.isBinary) : t.op.isBinary := by
  by_contra hnot
  cases hs with
  | atom hop => cases hop <;> cases hbinary
  | unary => cases hbinary
  | @binary op lhs rhs hlhs hrhs offset =>
    -- the whole text would be the operand `t`, and a part of it the left operand
    have hchars : lhs.operand.toList ++ ' ' :: (op.symbol.toList ++ ' ' :: rhs.operand.toList) =
        t.operand.toList ++ [] := by
      rw [operand_eq t, if_neg hnot, ← h, display_binary]
      simp [String.toList_append]
    obtain ⟨-, hrest⟩ := operand_inj hlhs ht (endsWord_cons rfl _) endsWord_nil hchars
    cases hrest

/-- **Rendered conditions are uniquely readable.** Two trees made of unnamed variables, constants
that are words and operators, of any depth, are shown as the same text exactly when they are equal
up to offsets. -/
theorem display_eq_iff (hs : s.OperatorTree) (ht : t.OperatorTree) :
    s.display = t.display ↔ s.bare = t.bare := by
  constructor
  · intro h
    have hbinary : s.op.isBinary = t.op.isBinary :=
      Bool.eq_iff_iff.mpr ⟨isBinary_of_display_eq hs ht h, isBinary_of_display_eq ht hs h.symm⟩
    have hoperand : s.operand = t.operand := by rw [operand_eq, operand_eq t, h, hbinary]
    exact (operand_inj hs ht endsWord_nil endsWord_nil (by rw [hoperand])).1
  · intro h
    rw [display, display, ← rendered_bare, h, rendered_bare]

/-- The offset of an operand is not shown. The negation of a difference is shown in another way than
the difference of a negation. -/
theorem display_eq_iff_minus :
    let slot : Node := .unlocated (.ref (.localSlot 0))
    let negated (n : Node) : Node := .unlocated (.unary .neg n)
    let one (offset : Option Offset) : Node := ⟨.literal (.int64 1), offset⟩
    let s : Node := negated (.unlocated (.binary .sub slot (negated (one (some ⟨4⟩)))))
    let t : Node := negated (.unlocated (.binary .sub slot (negated (one none))))
    let u : Node := .unlocated (.binary .sub (negated slot) (negated (one none)))
    s ≠ t ∧ s.display = t.display ∧ t.display ≠ u.display := by
  intro slot negated one s t u
  have hslot : slot.OperatorTree := .atom (.localSlot 0) none
  have hone (offset : Option Offset) : (one offset).OperatorTree :=
    .atom (.int64 (by decide)) offset
  have hs : s.OperatorTree :=
    .unary .neg (.binary .sub hslot (.unary .neg (hone (some ⟨4⟩)) none) none) none
  have ht : t.OperatorTree :=
    .unary .neg (.binary .sub hslot (.unary .neg (hone none) none) none) none
  have hu : u.OperatorTree :=
    .binary .sub (.unary .neg hslot none) (.unary .neg (hone none) none) none
  exact ⟨by decide, (display_eq_iff hs ht).mpr (by decide),
    mt (display_eq_iff ht hu).mp (by decide)⟩

end Node

end MethodContracts
