import MethodContracts.Expr.Json
import MethodContracts.Proofs.Json.Accepted

/-!
# Stored expressions come back

Every constant, variable, callee, operation and tree round-trips: the stored form keeps each
bit of a floating-point constant, each optional child and each offset. The induction is over
the tree. A codec for trees of bounded height has to read back only the children of the node
at hand, and these are stored with fewer brackets than the node.

Whatever spelling a tree was read from, it is stored with no more brackets than that spelling has.
-/

namespace MethodContracts

theorem Offset.codec_roundTrips (o : Offset) : codec.RoundTrips o :=
  Codec.via_roundTrips (Codec.uint32_roundTrips o.byte) rfl

theorem BinaryOperator.codec_roundTrips (op : BinaryOperator) : codec.RoundTrips op :=
  Codec.named_roundTrips (by cases op <;> decide) (by cases op <;> decide)

theorem UnaryOperator.codec_roundTrips (op : UnaryOperator) : codec.RoundTrips op :=
  Codec.named_roundTrips (by cases op <;> decide) (by cases op <;> decide)

theorem Kind.codec_roundTrips (kind : Kind) : codec.RoundTrips kind :=
  Codec.named_roundTrips (by cases kind <;> decide) (by cases kind <;> decide)

/-! ## Constants, variables, callees -/

theorem Constant.codec_roundTrips (c : Constant) : codec.RoundTrips c := by
  cases c with
  | null => exact Codec.unit_roundTrips rfl rfl
  | bool b => exact Codec.data_roundTrips rfl rfl (Codec.bool_roundTrips b) rfl
  | int32 n => exact Codec.data_roundTrips rfl rfl (Codec.int32_roundTrips n) rfl
  | int64 n => exact Codec.data_roundTrips rfl rfl (Codec.int64_roundTrips n) rfl
  | double bits => exact Codec.data_roundTrips rfl rfl (Codec.uint64_roundTrips bits) rfl
  | string s => exact Codec.data_roundTrips rfl rfl (Codec.string_roundTrips s) rfl

theorem Variable.codec_roundTrips (v : Variable) : codec.RoundTrips v := by
  cases v with
  | this => exact Codec.unit_roundTrips rfl rfl
  | argument index name =>
    have hname : (Field.optional "name" Codec.string).RoundTrips name :=
      Field.optional_roundTrips fun s _ => ⟨Codec.string_roundTrips s, nofun⟩
    exact Codec.body_roundTrips rfl rfl (by decide)
      ⟨Field.required_roundTrips (Codec.uint16_roundTrips index), hname, trivial⟩ rfl
  | localSlot index =>
    exact Codec.body_roundTrips rfl rfl (by decide)
      ⟨Field.required_roundTrips (Codec.uint16_roundTrips index), trivial⟩ rfl

theorem Callee.codec_roundTrips (c : Callee) : codec.RoundTrips c :=
  Codec.record_roundTrips (by decide)
    ⟨Field.required_roundTrips (Codec.string_roundTrips _),
      Field.required_roundTrips (Codec.string_roundTrips _), trivial⟩ rfl

/-! ## Operations -/

namespace Op

/-- An operation round-trips when its children do. No child is written as `null`, so an absent
child is told from a present one. -/
theorem codec_roundTrips {child : Codec α} {op : Op α}
    (h : ∀ c ∈ op.children, child.RoundTrips c) (hnull : ∀ c ∈ op.children, child.write c ≠ .null) :
    (codec child).RoundTrips op := by
  have hoption {name : String} {as : Option α} (has : ∀ c ∈ as, c ∈ op.children) :
      (Field.nullable name child).RoundTrips as :=
    Field.nullable_roundTrips fun c hc => ⟨h c (has c hc), hnull c (has c hc)⟩
  cases op with
  | literal value =>
    exact Codec.body_roundTrips rfl rfl (by decide)
      ⟨Field.required_roundTrips (Constant.codec_roundTrips value), trivial⟩ rfl
  | ref v =>
    exact Codec.body_roundTrips rfl rfl (by decide)
      ⟨Field.required_roundTrips (Variable.codec_roundTrips v), trivial⟩ rfl
  | field target owner name =>
    have hnames : ["target", "declaring_type", "field"].Nodup := by decide
    exact Codec.body_roundTrips rfl rfl hnames
      ⟨hoption fun c hc => Option.mem_toList.mpr hc,
        Field.required_roundTrips (Codec.string_roundTrips owner),
        Field.required_roundTrips (Codec.string_roundTrips name), trivial⟩ rfl
  | binary op lhs rhs =>
    have hnames : ["op", "lhs", "rhs"].Nodup := by decide
    exact Codec.body_roundTrips rfl rfl hnames
      ⟨Field.required_roundTrips (BinaryOperator.codec_roundTrips op),
        Field.required_roundTrips (h lhs (by simp [children])),
        Field.required_roundTrips (h rhs (by simp [children])), trivial⟩ rfl
  | unary op operand =>
    have hnames : ["op", "operand"].Nodup := by decide
    exact Codec.body_roundTrips rfl rfl hnames
      ⟨Field.required_roundTrips (UnaryOperator.codec_roundTrips op),
        Field.required_roundTrips (h operand List.mem_cons_self), trivial⟩ rfl
  | call callee args =>
    have hnames : ["callee", "args"].Nodup := by decide
    exact Codec.body_roundTrips rfl rfl hnames
      ⟨Field.required_roundTrips (Callee.codec_roundTrips callee),
        Field.required_roundTrips (Codec.list_roundTrips h), trivial⟩ rfl
  | newObject callee args =>
    have hnames : ["ctor", "args"].Nodup := by decide
    exact Codec.body_roundTrips rfl rfl hnames
      ⟨Field.required_roundTrips (Callee.codec_roundTrips callee),
        Field.required_roundTrips (Codec.list_roundTrips h), trivial⟩ rfl
  | stackDuplicate => exact Codec.unit_roundTrips rfl rfl
  | block stmts =>
    have hnames : ["stmts"].Nodup := by decide
    exact Codec.body_roundTrips rfl rfl hnames
      ⟨Field.required_roundTrips (Codec.list_roundTrips h), trivial⟩ rfl
  | conditional test thenBranch elseBranch =>
    have hnames : ["test", "then_branch", "else_branch"].Nodup := by decide
    have helse : ∀ c ∈ elseBranch, c ∈ (conditional test thenBranch elseBranch).children := by
      rintro c ⟨⟩
      simp [children]
    exact Codec.body_roundTrips rfl rfl hnames
      ⟨Field.required_roundTrips (h test (by simp [children])),
        Field.required_roundTrips (h thenBranch (by simp [children])), hoption helse, trivial⟩ rfl
  | throw exception =>
    have hnames : ["exception"].Nodup := by decide
    exact Codec.body_roundTrips rfl rfl hnames
      ⟨hoption fun c hc => Option.mem_toList.mpr hc, trivial⟩ rfl
  | ret value =>
    have hnames : ["value"].Nodup := by decide
    exact Codec.body_roundTrips rfl rfl hnames
      ⟨hoption fun c hc => Option.mem_toList.mpr hc, trivial⟩ rfl
  | unrecognized opcode children =>
    have hnames : ["opcode", "children"].Nodup := by decide
    exact Codec.body_roundTrips rfl rfl hnames
      ⟨Field.required_roundTrips (Codec.string_roundTrips opcode),
        Field.required_roundTrips (Codec.list_roundTrips h), trivial⟩ rfl

/-- A child is written with fewer brackets than the operation around it. -/
theorem depth_child_lt (child : Codec α) {op : Op α} {c : α} (h : c ∈ op.children) :
    (child.write c).depth < (encode child op).depth := by
  have hitem {name key : String} {members : List (String × Json)} {as : List α}
      (hmem : (key, child.list.write as) ∈ members) (has : c ∈ as) :
      (child.write c).depth < (Json.variant name (.record members)).depth :=
    Nat.lt_trans (Codec.depth_lt_list has) (Json.depth_lt_variant hmem)
  have hoption {name key : String} {members : List (String × Json)} {as : Option α}
      (hmem : (key, Json.nullable child.write as) ∈ members) (has : c ∈ as.toList) :
      (child.write c).depth < (Json.variant name (.record members)).depth :=
    Json.depth_lt_variant (Json.nullable_of_mem has ▸ hmem)
  cases op with
  | literal | ref | stackDuplicate => cases h
  | field target owner name => exact hoption List.mem_cons_self h
  | binary op lhs rhs =>
    have hmem : c = lhs ∨ c = rhs := by simpa [children] using h
    rcases hmem with rfl | rfl
    · exact Json.depth_lt_variant (List.mem_of_getElem? (i := 1) rfl)
    · exact Json.depth_lt_variant (List.mem_of_getElem? (i := 2) rfl)
  | unary op operand =>
    rw [List.mem_singleton.mp h]
    exact Json.depth_lt_variant (List.mem_of_getElem? (i := 1) rfl)
  | call callee args => exact hitem (List.mem_of_getElem? (i := 1) rfl) h
  | newObject callee args => exact hitem (List.mem_of_getElem? (i := 1) rfl) h
  | block stmts => exact hitem List.mem_cons_self h
  | conditional test thenBranch elseBranch =>
    have hmem : c = test ∨ c = thenBranch ∨ c ∈ elseBranch.toList := by
      simpa only [children, List.mem_cons] using h
    rcases hmem with rfl | rfl | helse
    · exact Json.depth_lt_variant List.mem_cons_self
    · exact Json.depth_lt_variant (List.mem_of_getElem? (i := 1) rfl)
    · exact hoption (List.mem_of_getElem? (i := 2) rfl) helse
  | throw exception => exact hoption List.mem_cons_self h
  | ret value => exact hoption List.mem_cons_self h
  | unrecognized opcode children => exact hitem (List.mem_of_getElem? (i := 1) rfl) h

/-- Writing an operation over written children is writing the operation. -/
theorem encode_map {child : Codec α} (op : Op α) :
    Op.encode .tree (op.map child.write) = Op.encode child op := by
  have hlist (as : List α) : Codec.tree.list.write (as.map child.write) = child.list.write as :=
    congrArg Json.arr (List.map_id _)
  have hoption (as : Option α) :
      Json.nullable Codec.tree.write (as.map child.write) = Json.nullable child.write as := by
    cases as <;> rfl
  cases op with
  | literal | ref | binary | unary | stackDuplicate => rfl
  | field target owner name =>
    exact congrArg (fun json => Json.variant "FieldRef" (.record
      [("target", json), ("declaring_type", .string owner), ("field", .string name)]))
      (hoption target)
  | call callee args =>
    exact congrArg (fun json => Json.variant "Call" (.record
      [("callee", Callee.codec.write callee), ("args", json)])) (hlist args)
  | newObject callee args =>
    exact congrArg (fun json => Json.variant "NewObject" (.record
      [("ctor", Callee.codec.write callee), ("args", json)])) (hlist args)
  | block stmts =>
    exact congrArg (fun json => Json.variant "Block" (.record [("stmts", json)])) (hlist stmts)
  | conditional test thenBranch elseBranch =>
    exact congrArg (fun json => Json.variant "Conditional" (.record
      [("test", child.write test), ("then_branch", child.write thenBranch), ("else_branch", json)]))
      (hoption elseBranch)
  | throw exception =>
    exact congrArg (fun json => Json.variant "Throw" (.record [("exception", json)]))
      (hoption exception)
  | ret value =>
    exact congrArg (fun json => Json.variant "Return" (.record [("value", json)])) (hoption value)
  | unrecognized opcode children =>
    exact congrArg (fun json => Json.variant "Unrecognized" (.record
      [("opcode", .string opcode), ("children", json)])) (hlist children)

end Op

/-! ## Nodes -/

namespace Node

/-- A node is stored as the record of its operation, over children in stored form. -/
theorem encode_eq (child : Codec Node) (hchild : child.write = encode) (n : Node) :
    n.encode = (layout child).write (n.op, n.offset, ()) := by
  have hop : (Op.codec .tree).write (n.op.map encode) = (Op.codec child).write n.op :=
    hchild ▸ Op.encode_map n.op
  have hfold : n.encode = (layout .tree).write (n.op.map encode, n.offset, ()) := by
    rw [encode, fold_eq]
    rfl
  rw [hfold]
  simp only [layout, Layout.write, Layout.two, Layout.one, Layout.members, Field.required, hop]

/-- A stored node is an object, never `null`. -/
theorem encode_ne_null (n : Node) : n.encode ≠ .null := by
  rw [encode_eq codec rfl]
  exact nofun

/-- A child is stored with fewer brackets than the node around it. -/
theorem depth_encode_lt {c n : Node} (h : c ∈ n.children) : c.encode.depth < n.encode.depth := by
  have hop : (Op.encode codec n.op).depth < n.encode.depth := by
    rw [encode_eq codec rfl]
    exact Json.depth_lt_record List.mem_cons_self
  exact Nat.lt_trans (Op.depth_child_lt codec h) hop

theorem codecWithin_write (height : Nat) : (codecWithin height).write = encode := by
  cases height <;> rfl

/-- The codec of higher trees is that of a record over the codec of lower ones. -/
theorem codecWithin_succ (height : Nat) :
    codecWithin (height + 1) = .record (layout (codecWithin height))
      (fun n => (n.op, n.offset, ())) fun (op, offset, _) => ⟨op, offset⟩ :=
  congrArg (Codec.mk · _) (funext (encode_eq _ (codecWithin_write height)))

/-- A tree round-trips through the codec of trees as high as its brackets are deep. -/
theorem codecWithin_roundTrips (n : Node) :
    ∀ height, n.encode.depth ≤ height → (codecWithin height).RoundTrips n := by
  induction n using induct with
  | step n ih =>
    intro height hle
    cases height with
    | zero =>
      rw [encode_eq codec rfl] at hle
      cases hle
    | succ height =>
      -- a child has fewer brackets, so one level less is high enough for it
      have hchildren : ∀ c ∈ n.op.children, (codecWithin height).RoundTrips c := by
        intro c hc
        have hlt := depth_encode_lt hc
        exact ih c hc height (by omega)
      have hop : (Field.required "op" (Op.codec (codecWithin height))).RoundTrips n.op :=
        Field.required_roundTrips (Op.codec_roundTrips hchildren fun c _ =>
          codecWithin_write height ▸ encode_ne_null c)
      have hoffset : (Field.optional "offset" Offset.codec).RoundTrips n.offset :=
        Field.optional_roundTrips fun o _ => ⟨Offset.codec_roundTrips o, nofun⟩
      have hnames : ["op", "offset"].Nodup := by decide
      rw [codecWithin_succ]
      cases n
      exact Codec.record_roundTrips hnames ⟨hop, hoffset, trivial⟩ rfl

/-- **Every tree round-trips.** -/
theorem codec_roundTrips (n : Node) : codec.RoundTrips n := by
  have h := codecWithin_roundTrips n n.encode.depth (Nat.le_refl _)
  have hwrite := codecWithin_write n.encode.depth
  refine ⟨?_, fun scope => ?_⟩
  · have hplain := h.plain
    rw [hwrite] at hplain
    exact hplain
  · have hread := h.read scope
    rw [hwrite] at hread
    exact hread

end Node

theorem Op.nodeCodec_roundTrips (op : Op Node) : nodeCodec.RoundTrips op :=
  codec_roundTrips (fun c _ => c.codec_roundTrips) fun c _ => c.encode_ne_null

/-! ## Limits -/

theorem Offset.codec_shallow : codec.Shallow := Codec.shallow_of_flat fun _ => rfl

theorem Constant.codec_shallow : codec.Shallow := by
  refine Decoder.within_variants fun name found hfound => ?_
  unfold case? at hfound
  split at hfound <;> cases hfound
  · rfl
  -- whatever a constant carries is written without brackets
  all_goals exact Decoder.Case.within_data (Codec.shallow_of_flat fun _ => rfl) fun _ => ⟨_, rfl⟩

theorem Variable.codec_shallow : codec.Shallow := by
  have hindex {scope : Scope} : (Field.required "index" Codec.uint16).Shallow scope :=
    Field.required_shallow Codec.uint16_shallow
  have hname {scope : Scope} : (Field.optional "name" Codec.string).Shallow scope :=
    Field.optional_shallow Codec.string_shallow
  refine Decoder.within_variants fun name found hfound => ?_
  unfold case? at hfound
  split at hfound <;> cases hfound
  · rfl
  · exact Decoder.Case.within_body (fun _ => ⟨hindex, hname, trivial⟩) fun _ => ⟨_, rfl⟩
  · exact Decoder.Case.within_body (fun _ => ⟨hindex, trivial⟩) fun _ => ⟨_, rfl⟩

theorem Callee.codec_shallow : codec.Shallow :=
  Codec.record_shallow (fun _ =>
    ⟨Field.required_shallow Codec.string_shallow, Field.required_shallow Codec.string_shallow,
      trivial⟩) fun _ => rfl

/-- An operation is written within the limit in which it was read when its children are. -/
theorem Op.codec_shallow {child : Codec α} (h : child.Shallow) : (codec child).Shallow := by
  have hstring {scope : Scope} {name : String} : (Field.required name Codec.string).Shallow scope :=
    Field.required_shallow Codec.string_shallow
  have hcallee {scope : Scope} {name : String} : (Field.required name Callee.codec).Shallow scope :=
    Field.required_shallow Callee.codec_shallow
  have hchild {scope : Scope} {name : String} : (Field.required name child).Shallow scope :=
    Field.required_shallow h
  have hoption {scope : Scope} {name : String} : (Field.nullable name child).Shallow scope :=
    Field.nullable_shallow h
  have hlist {scope : Scope} {name : String} : (Field.required name child.list).Shallow scope :=
    Field.required_shallow (Codec.list_shallow h)
  refine Decoder.within_variants fun name found hfound => ?_
  unfold case? at hfound
  -- the variants stand in the order of the constructors
  split at hfound <;> cases hfound
  · exact Decoder.Case.within_body
      (fun _ => ⟨Field.required_shallow Constant.codec_shallow, trivial⟩) fun _ => ⟨_, rfl⟩
  · exact Decoder.Case.within_body
      (fun _ => ⟨Field.required_shallow Variable.codec_shallow, trivial⟩) fun _ => ⟨_, rfl⟩
  · exact Decoder.Case.within_body (fun _ => ⟨hoption, hstring, hstring, trivial⟩) fun _ => ⟨_, rfl⟩
  · exact Decoder.Case.within_body
      (fun _ => ⟨Field.required_shallow (Codec.named_shallow ..), hchild, hchild, trivial⟩)
      fun _ => ⟨_, rfl⟩
  · exact Decoder.Case.within_body
      (fun _ => ⟨Field.required_shallow (Codec.named_shallow ..), hchild, trivial⟩)
      fun _ => ⟨_, rfl⟩
  · exact Decoder.Case.within_body (fun _ => ⟨hcallee, hlist, trivial⟩) fun _ => ⟨_, rfl⟩
  · exact Decoder.Case.within_body (fun _ => ⟨hcallee, hlist, trivial⟩) fun _ => ⟨_, rfl⟩
  · rfl
  · exact Decoder.Case.within_body (fun _ => ⟨hlist, trivial⟩) fun _ => ⟨_, rfl⟩
  · exact Decoder.Case.within_body (fun _ => ⟨hchild, hchild, hoption, trivial⟩) fun _ => ⟨_, rfl⟩
  · exact Decoder.Case.within_body (fun _ => ⟨hoption, trivial⟩) fun _ => ⟨_, rfl⟩
  · exact Decoder.Case.within_body (fun _ => ⟨hoption, trivial⟩) fun _ => ⟨_, rfl⟩
  · exact Decoder.Case.within_body (fun _ => ⟨hstring, hlist, trivial⟩) fun _ => ⟨_, rfl⟩

theorem Node.codecWithin_shallow (height : Nat) : (codecWithin height).Shallow := by
  induction height with
  | zero => exact nofun
  | succ height ih =>
    rw [codecWithin_succ]
    exact Codec.record_shallow (fun _ =>
      ⟨Field.required_shallow (Op.codec_shallow ih),
        Field.optional_shallow Offset.codec_shallow, trivial⟩) fun _ => rfl

/-- **Every tree is written within the limit in which it was read.** -/
theorem Node.codec_shallow : codec.Shallow := by
  intro scope json n hn
  have hwithin := codecWithin_shallow json.depth hn
  rwa [codecWithin_write] at hwithin

end MethodContracts
