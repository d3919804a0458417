import TraitLang.Proofs.Decoding

/-!
Trees survive the interchange format. Main statement: for each kind of tree, reading any text that
a library writes for a tree without floats gives the tree back, if no more containers are open at
once than it admits, counts fit 64 bits and tables have one entry for each key.
-/
namespace TraitLang

def Literal.floatFree : Literal → Bool
  | .float _ => false
  | _ => true

mutual

def Pattern.floatFree : Pattern → Bool
  | .wildcard | .var _ => true
  | .literal l => l.floatFree
  | .constructor _ ps | .tuple ps => Pattern.allFloatFree ps
  | .record ps => Pattern.fieldsFloatFree ps

def Pattern.allFloatFree : List Pattern → Bool
  | [] => true
  | p :: ps => p.floatFree && Pattern.allFloatFree ps

def Pattern.fieldsFloatFree : List (String × Pattern) → Bool
  | [] => true
  | (_, p) :: ps => p.floatFree && Pattern.fieldsFloatFree ps

end

mutual

/-- No float stands in the expression, in its patterns or in the functions in it. -/
def Expr.floatFree : Expr → Bool
  | .lit l => l.floatFree
  | .var _ | .operator _ | .dict _ _ => true
  | .list items | .tuple items | .block items => allFloatFree items
  | .record fields => fieldsFloatFree fields
  | .range e e' | .binary e _ e' | .compose e e' | .letIn _ _ e e' =>
    nodeFloatFree e && nodeFloatFree e'
  | .lambda f => f.floatFree
  | .call _ e args | .methodCall _ e _ args => nodeFloatFree e && allFloatFree args
  | .field e _ | .unary _ e | .assign _ e | .annotated e _ | .attempt e => nodeFloatFree e
  | .cond test yes no => nodeFloatFree test && nodeFloatFree yes && nodeFloatFree no
  | .choose scrutinee arms => nodeFloatFree scrutinee && armsFloatFree arms
  | .doChain binds body => bindsFloatFree binds && nodeFloatFree body

def nodeFloatFree : Spanned Expr → Bool
  | ⟨e, _⟩ => e.floatFree

def allFloatFree : List (Spanned Expr) → Bool
  | [] => true
  | e :: es => nodeFloatFree e && allFloatFree es

def fieldsFloatFree : List (String × Spanned Expr) → Bool
  | [] => true
  | (_, e) :: es => nodeFloatFree e && fieldsFloatFree es

def armsFloatFree : List Arm → Bool
  | [] => true
  | ⟨pattern, body⟩ :: arms =>
    pattern.node.floatFree && nodeFloatFree body && armsFloatFree arms

def bindsFloatFree : List DoBind → Bool
  | [] => true
  | ⟨_, value⟩ :: binds => nodeFloatFree value && bindsFloatFree binds

def Func.floatFree : Func → Bool
  | ⟨_, params, _, _, _, body, _⟩ => paramsFloatFree params && nodeFloatFree body

def paramsFloatFree : List Param → Bool
  | [] => true
  | ⟨_, _, default, _⟩ :: params => defaultFloatFree default && paramsFloatFree params

def defaultFloatFree : Option (Spanned Expr) → Bool
  | none => true
  | some e => nodeFloatFree e

end

def Item.floatFree : Item → Bool
  | .func f => f.floatFree
  | .data _ | .traitDecl _ => true
  | .inst i => i.methods.all Func.floatFree
  | .const c => nodeFloatFree c.value

def AnalyzedProgram.floatFree (p : AnalyzedProgram) : Bool :=
  p.program.items.all Item.floatFree && p.hints.traitDefaults.all fun e => e.2.all Func.floatFree

def DispatchPos.inRange : DispatchPos → Bool
  | .arg index => index < UInt64.size
  | .result => true

def TraitMethod.inRange (m : TraitMethod) : Bool :=
  m.arity < UInt64.size && m.dispatch.all fun ds => ds.all DispatchPos.inRange

/-- The counts in the item fit 64 bits. -/
def Item.inRange : Item → Bool
  | .data d => d.constructors.all fun c => c.arity < UInt64.size
  | .traitDecl t => t.methods.all TraitMethod.inRange
  | .func _ | .inst _ | .const _ => true

/-- Each table has at most one entry for a key. -/
structure Hints.Keyed (h : Hints) : Prop where
  nodeTypes : (Assoc.keys h.nodeTypes).Nodup
  instantiations : (Assoc.keys h.instantiations).Nodup
  instantiation : ∀ e ∈ h.instantiations, (Assoc.keys e.2).Nodup
  aliases : (Assoc.keys h.aliases).Nodup
  superTraits : (Assoc.keys h.superTraits).Nodup
  methodOrder : (Assoc.keys h.methodOrder).Nodup
  traitDefaults : (Assoc.keys h.traitDefaults).Nodup

section Leaves

theorem Span.reads (s : Span) : Reads Span.ofJson? s.toJson s :=
  .record [⟨"line", .uint32 s.line⟩, ⟨"col", .uint32 s.col⟩] Span.mk fun _ => rfl

theorem BinOp.reads (op : BinOp) : Reads BinOp.ofJson? op.toJson op := by
  refine ⟨rfl, fun room _ => ?_⟩
  cases op <;> rfl

theorem UnOp.reads (op : UnOp) : Reads UnOp.ofJson? op.toJson op := by
  refine ⟨rfl, fun room _ => ?_⟩
  cases op <;> rfl

theorem Literal.reads : ∀ l : Literal, l.floatFree = true → Reads Literal.ofJson? l.toJson l
  | .int n, _ => .variant (.int64 n) Literal.int fun _ => rfl
  | .float _, h => absurd h Bool.false_ne_true
  | .bool b, _ => .variant (.bool b) Literal.bool fun _ => rfl
  | .char c, _ => .variant (.char c) Literal.char fun _ => rfl
  | .str s, _ => .variant (.text s) Literal.str fun _ => rfl
  | .unit, _ => ⟨rfl, fun _ _ => rfl⟩

end Leaves

-- Each field list repeats the record that is written, and `rfl` compares the reader's own steps
-- with `Field.gather`. Lists go through `Reads.array` inside the blocks: a lemma on whole lists
-- would call the one on their items at the same list, and the recursion would no longer be
-- structural.

mutual

theorem Ty.reads : ∀ t : Ty, Reads Ty.ofJson? t.toJson t
  | .con name => .variant (.text name) Ty.con fun _ => rfl
  | .var name => .variant (.text name) Ty.var fun _ => rfl
  | .app head args =>
    .fields Ty.fieldsOfJson?
      [⟨"head", head.reads⟩, ⟨"args", .array (Ty.reads_each args) fun _ => rfl⟩] Ty.app
      (fun _ => rfl) fun _ => rfl
  | .fn params ret =>
    .fields Ty.fieldsOfJson?
      [⟨"params", .array (Ty.reads_each params) fun _ => rfl⟩, ⟨"ret", ret.reads⟩] Ty.fn
      (fun _ => rfl) fun _ => rfl
  | .tuple elems => .variant (.array (Ty.reads_each elems) fun _ => rfl) Ty.tuple fun _ => rfl

theorem Ty.reads_each : ∀ ts : List Ty, List.Forall₂ (Reads Ty.ofJson?) (Ty.allToJson ts) ts
  | [] => .nil
  | t :: ts => .cons t.reads (Ty.reads_each ts)

end

theorem Ty.reads_list (ts : List Ty) : Reads Ty.allOfJson? (.array (Ty.allToJson ts)) ts :=
  .array (Ty.reads_each ts) fun _ => rfl

theorem Ty.reads_option (o : Option Ty) :
    Reads (fun room => Json.nullable (Ty.ofJson? room)) (.ofOption Ty.toJson o) o :=
  .option o (fun t _ => t.reads) fun t => by cases t <;> nofun

mutual

theorem Pattern.reads : ∀ p : Pattern, p.floatFree = true → Reads Pattern.ofJson? p.toJson p
  | .wildcard, _ => ⟨rfl, fun room _ => by cases room <;> rfl⟩
  | .var name, _ => .variant (.text name) Pattern.var fun _ => rfl
  -- that the content is not null, which would make the variant a bare tag, is seen case by case
  | .literal l, h => .variant (l.reads h) Pattern.literal fun _ => by cases l <;> rfl
  | .constructor name ps, h =>
    .fields (fun room _ => Pattern.constructorOfJson? room)
      [⟨"name", .text name⟩, ⟨"fields", .array (Pattern.reads_each ps h) fun _ => rfl⟩]
      Pattern.constructor (fun _ => rfl) fun _ => rfl
  | .tuple ps, h =>
    .variant (.array (Pattern.reads_each ps h) fun _ => rfl) Pattern.tuple fun _ => rfl
  | .record ps, h =>
    .variant (.array (Pattern.reads_fields ps h) fun _ => rfl) Pattern.record fun _ => rfl

theorem Pattern.reads_each : ∀ ps : List Pattern, Pattern.allFloatFree ps = true →
    List.Forall₂ (Reads Pattern.ofJson?) (Pattern.allToJson ps) ps
  | [], _ => .nil
  | p :: ps, h => by
    obtain ⟨hp, hps⟩ := Bool.and_eq_true_iff.1 h
    exact .cons (p.reads hp) (Pattern.reads_each ps hps)

theorem Pattern.reads_fields : ∀ ps : List (String × Pattern), Pattern.fieldsFloatFree ps = true →
    List.Forall₂ (Reads Pattern.fieldOfJson?) (Pattern.fieldsToJson ps) ps
  | [], _ => .nil
  | (name, p) :: ps, h => by
    obtain ⟨hp, hps⟩ := Bool.and_eq_true_iff.1 h
    exact .cons (.entry name (p.reads hp) fun _ => rfl) (Pattern.reads_fields ps hps)

end

theorem Pattern.reads_node (p : Spanned Pattern) (h : p.node.floatFree = true) :
    Reads (Spanned.ofJson? Pattern.ofJson?)
      (.record [("node", p.node.toJson), ("span", p.span.toJson)]) p :=
  .record [⟨"node", p.node.reads h⟩, ⟨"span", p.span.reads⟩] Spanned.mk fun _ => rfl

theorem Constraint.reads (c : Constraint) : Reads Constraint.ofJson? c.toJson c :=
  .record [⟨"type_var", .text c.typeVar⟩, ⟨"trait_name", .text c.traitName⟩] Constraint.mk
    fun _ => rfl

theorem WitnessParam.reads (p : WitnessParam) : Reads WitnessParam.ofJson? p.toJson p :=
  .record [⟨"name", .text p.name⟩, ⟨"trait_name", .text p.traitName⟩] WitnessParam.mk fun _ => rfl

mutual

theorem Expr.reads : ∀ e : Expr, e.floatFree = true → Reads Expr.ofJson? e.toJson e
  | .lit l, h => .variant (l.reads h) Expr.lit fun _ => rfl
  | .var name, _ => .variant (.text name) Expr.var fun _ => rfl
  | .list items, h =>
    .variant (.array (Expr.reads_each items h) fun _ => rfl) Expr.list fun _ => rfl
  | .tuple items, h =>
    .variant (.array (Expr.reads_each items h) fun _ => rfl) Expr.tuple fun _ => rfl
  | .record fs, h =>
    .variant (.array (Expr.reads_fields fs h) fun _ => rfl) Expr.record fun _ => rfl
  | .range start stop, h => by
    obtain ⟨hstart, hstop⟩ := Bool.and_eq_true_iff.1 h
    exact .fields Expr.variantOfJson? [⟨"start", Expr.reads_node start hstart⟩,
      ⟨"end", Expr.reads_node stop hstop⟩] Expr.range (fun _ => rfl) fun _ => rfl
  | .lambda f, h => .variant (f.reads h) Expr.lambda fun _ => rfl
  | .call id callee args, h => by
    obtain ⟨hcallee, hargs⟩ := Bool.and_eq_true_iff.1 h
    exact .fields Expr.variantOfJson? [⟨"id", .uint32 id⟩,
      ⟨"callee", Expr.reads_node callee hcallee⟩,
      ⟨"args", .array (Expr.reads_each args hargs) fun _ => rfl⟩] Expr.call
      (fun _ => rfl) fun _ => rfl
  | .methodCall id receiver method args, h => by
    obtain ⟨hreceiver, hargs⟩ := Bool.and_eq_true_iff.1 h
    exact .fields Expr.variantOfJson? [⟨"id", .uint32 id⟩,
      ⟨"receiver", Expr.reads_node receiver hreceiver⟩, ⟨"method", .text method⟩,
      ⟨"args", .array (Expr.reads_each args hargs) fun _ => rfl⟩] Expr.methodCall
      (fun _ => rfl) fun _ => rfl
  | .field target name, h =>
    .fields Expr.variantOfJson? [⟨"target", Expr.reads_node target h⟩, ⟨"field", .text name⟩]
      Expr.field (fun _ => rfl) fun _ => rfl
  | .binary left op right, h => by
    obtain ⟨hleft, hright⟩ := Bool.and_eq_true_iff.1 h
    exact .fields Expr.variantOfJson? [⟨"left", Expr.reads_node left hleft⟩, ⟨"op", op.reads⟩,
      ⟨"right", Expr.reads_node right hright⟩] Expr.binary (fun _ => rfl) fun _ => rfl
  | .unary op operand, h =>
    .fields Expr.variantOfJson? [⟨"op", op.reads⟩, ⟨"expr", Expr.reads_node operand h⟩] Expr.unary
      (fun _ => rfl) fun _ => rfl
  | .operator op, _ => .variant op.reads Expr.operator fun _ => rfl
  | .compose outer inner, h => by
    obtain ⟨houter, hinner⟩ := Bool.and_eq_true_iff.1 h
    exact .fields Expr.variantOfJson? [⟨"outer", Expr.reads_node outer houter⟩,
      ⟨"inner", Expr.reads_node inner hinner⟩] Expr.compose (fun _ => rfl) fun _ => rfl
  | .cond test yes no, h => by
    obtain ⟨hboth, hno⟩ := Bool.and_eq_true_iff.1 h
    obtain ⟨htest, hyes⟩ := Bool.and_eq_true_iff.1 hboth
    exact .fields Expr.variantOfJson? [⟨"cond", Expr.reads_node test htest⟩,
      ⟨"then_branch", Expr.reads_node yes hyes⟩, ⟨"else_branch", Expr.reads_node no hno⟩] Expr.cond
      (fun _ => rfl) fun _ => rfl
  | .letIn name ty value body, h => by
    obtain ⟨hvalue, hbody⟩ := Bool.and_eq_true_iff.1 h
    exact .fields Expr.variantOfJson? [⟨"name", .text name⟩, ⟨"ty", Ty.reads_option ty⟩,
      ⟨"value", Expr.reads_node value hvalue⟩, ⟨"body", Expr.reads_node body hbody⟩] Expr.letIn
      (fun _ => rfl) fun _ => rfl
  | .block body, h =>
    .variant (.array (Expr.reads_each body h) fun _ => rfl) Expr.block fun _ => rfl
  | .assign name value, h =>
    .fields Expr.variantOfJson? [⟨"name", .text name⟩, ⟨"value", Expr.reads_node value h⟩]
      Expr.assign (fun _ => rfl) fun _ => rfl
  | .annotated e ty, h =>
    .fields Expr.variantOfJson? [⟨"expr", Expr.reads_node e h⟩, ⟨"ty", ty.reads⟩] Expr.annotated
      (fun _ => rfl) fun _ => rfl
  | .choose scrutinee arms, h => by
    obtain ⟨hscrutinee, harms⟩ := Bool.and_eq_true_iff.1 h
    exact .fields Expr.variantOfJson? [⟨"expr", Expr.reads_node scrutinee hscrutinee⟩,
      ⟨"arms", .array (Arm.reads_each arms harms) fun _ => rfl⟩] Expr.choose
      (fun _ => rfl) fun _ => rfl
  | .dict traitName types, _ =>
    .fields Expr.variantOfJson? [⟨"trait_name", .text traitName⟩, ⟨"types", Ty.reads_list types⟩]
      Expr.dict (fun _ => rfl) fun _ => rfl
  | .doChain binds body, h => by
    obtain ⟨hbinds, hbody⟩ := Bool.and_eq_true_iff.1 h
    exact .fields Expr.variantOfJson?
      [⟨"binds", .array (DoBind.reads_each binds hbinds) fun _ => rfl⟩,
        ⟨"body", Expr.reads_node body hbody⟩] Expr.doChain (fun _ => rfl) fun _ => rfl
  | .attempt body, h => .variant (Expr.reads_node body h) Expr.attempt fun _ => rfl

theorem Expr.reads_node : ∀ e : Spanned Expr, nodeFloatFree e = true →
    Reads Expr.nodeOfJson? (Expr.nodeToJson e) e
  | ⟨node, span⟩, h =>
    .record [⟨"node", node.reads h⟩, ⟨"span", span.reads⟩] Spanned.mk fun _ => rfl

theorem Expr.reads_each : ∀ es : List (Spanned Expr), allFloatFree es = true →
    List.Forall₂ (Reads Expr.nodeOfJson?) (Expr.allToJson es) es
  | [], _ => .nil
  | e :: es, h => by
    obtain ⟨he, hes⟩ := Bool.and_eq_true_iff.1 h
    exact .cons (Expr.reads_node e he) (Expr.reads_each es hes)

theorem Expr.reads_fields : ∀ es : List (String × Spanned Expr), fieldsFloatFree es = true →
    List.Forall₂ (Reads Expr.fieldOfJson?) (Expr.fieldsToJson es) es
  | [], _ => .nil
  | (name, e) :: es, h => by
    obtain ⟨he, hes⟩ := Bool.and_eq_true_iff.1 h
    exact .cons (.entry name (Expr.reads_node e he) fun _ => rfl) (Expr.reads_fields es hes)

theorem Func.reads : ∀ f : Func, f.floatFree = true → Reads Func.ofJson? f.toJson f
  | ⟨name, params, retTy, constraints, witnessParams, body, span⟩, h => by
    obtain ⟨hparams, hbody⟩ := Bool.and_eq_true_iff.1 h
    exact .record [⟨"name", .text name⟩,
      ⟨"params", .array (Param.reads_each params hparams) fun _ => rfl⟩,
      ⟨"ret_ty", Ty.reads_option retTy⟩, ⟨"constraints", .list fun c _ => c.reads⟩,
      ⟨"witness_params", .list fun p _ => p.reads⟩, ⟨"body", Expr.reads_node body hbody⟩,
      ⟨"span", span.reads⟩] Func.mk fun _ => rfl

theorem Param.reads_each : ∀ ps : List Param, paramsFloatFree ps = true →
    List.Forall₂ (Reads Param.ofJson?) (Param.allToJson ps) ps
  | [], _ => .nil
  | ⟨name, ty, default, variadic⟩ :: ps, h => by
    obtain ⟨hdefault, hps⟩ := Bool.and_eq_true_iff.1 h
    have hp : Reads Param.ofJson? (Param.toJson ⟨name, ty, default, variadic⟩) _ :=
      .record [⟨"name", .text name⟩, ⟨"ty", Ty.reads_option ty⟩,
        ⟨"default", Expr.reads_default default hdefault⟩, ⟨"variadic", .bool variadic⟩] Param.mk
        fun _ => rfl
    exact .cons hp (Param.reads_each ps hps)

theorem Expr.reads_default : ∀ o : Option (Spanned Expr), defaultFloatFree o = true →
    Reads (fun room => Json.nullable (Expr.nodeOfJson? room)) (Expr.optionToJson o) o
  | none, _ => .absent
  | some e, h => (Expr.reads_node e h).present (by cases e; nofun)

theorem Arm.reads_each : ∀ as : List Arm, armsFloatFree as = true →
    List.Forall₂ (Reads Arm.ofJson?) (Arm.allToJson as) as
  | [], _ => .nil
  | ⟨pattern, body⟩ :: as, h => by
    obtain ⟨hboth, has⟩ := Bool.and_eq_true_iff.1 h
    obtain ⟨hpattern, hbody⟩ := Bool.and_eq_true_iff.1 hboth
    have ha : Reads Arm.ofJson? (Arm.toJson ⟨pattern, body⟩) _ :=
      .record [⟨"pattern", Pattern.reads_node pattern hpattern⟩,
        ⟨"body", Expr.reads_node body hbody⟩] Arm.mk fun _ => rfl
    exact .cons ha (Arm.reads_each as has)

theorem DoBind.reads_each : ∀ bs : List DoBind, bindsFloatFree bs = true →
    List.Forall₂ (Reads DoBind.ofJson?) (DoBind.allToJson bs) bs
  | [], _ => .nil
  | ⟨name, value⟩ :: bs, h => by
    obtain ⟨hvalue, hbs⟩ := Bool.and_eq_true_iff.1 h
    have hb : Reads DoBind.ofJson? (DoBind.toJson ⟨name, value⟩) _ :=
      .record [⟨"name", .text name⟩, ⟨"value", Expr.reads_node value hvalue⟩] DoBind.mk fun _ => rfl
    exact .cons hb (DoBind.reads_each bs hbs)

end

section Programs

theorem Func.reads_list {fs : List Func} (h : fs.all Func.floatFree = true) :
    Reads (Json.list? Func.ofJson?) (.array (fs.map Func.toJson)) fs :=
  .list fun f hf => f.reads (List.all_eq_true.1 h f hf)

theorem Ctor.reads {c : Ctor} (h : c.arity < UInt64.size) : Reads Ctor.ofJson? c.toJson c :=
  .record [⟨"name", .text c.name⟩, ⟨"arity", .count h⟩] Ctor.mk fun _ => rfl

theorem DispatchPos.reads :
    ∀ d : DispatchPos, d.inRange = true → Reads DispatchPos.ofJson? d.toJson d
  | .arg _, h => .variant (.count (of_decide_eq_true h)) DispatchPos.arg fun _ => rfl
  | .result, _ => ⟨rfl, fun _ _ => rfl⟩

theorem TraitMethod.reads {m : TraitMethod} (h : m.inRange = true) :
    Reads TraitMethod.ofJson? m.toJson m := by
  obtain ⟨harity, hdispatch⟩ := Bool.and_eq_true_iff.1 h
  have hpositions : Reads (fun room => Json.nullable (Json.list? DispatchPos.ofJson? room))
      (.ofOption (fun ds => .array (ds.map DispatchPos.toJson)) m.dispatch) m.dispatch := by
    refine .option m.dispatch (fun ds hds => .list fun d hd => ?_) nofun
    rw [hds] at hdispatch
    exact d.reads (List.all_eq_true.1 hdispatch d hd)
  exact .record [⟨"name", .text m.name⟩, ⟨"arity", .count (of_decide_eq_true harity)⟩,
    ⟨"dispatch", hpositions⟩] TraitMethod.mk fun _ => rfl

theorem Item.reads :
    ∀ i : Item, i.floatFree = true → i.inRange = true → Reads Item.ofJson? i.toJson i
  | .func f, hfree, _ => .variant (f.reads hfree) Item.func fun _ => rfl
  | .data d, _, hrange => by
    have hctor (c : Ctor) (hc : c ∈ d.constructors) : Reads Ctor.ofJson? c.toJson c :=
      Ctor.reads (of_decide_eq_true (List.all_eq_true.1 hrange c hc))
    have hd : Reads DataDef.ofJson? (.record [("name", .ofString d.name),
        ("constructors", .array (d.constructors.map Ctor.toJson))]) d :=
      .record [⟨"name", .text d.name⟩, ⟨"constructors", .list hctor⟩] DataDef.mk fun _ => rfl
    exact hd.variant Item.data fun _ => rfl
  | .traitDecl t, _, hrange => by
    have hmethod (m : TraitMethod) (hm : m ∈ t.methods) : Reads TraitMethod.ofJson? m.toJson m :=
      TraitMethod.reads (List.all_eq_true.1 hrange m hm)
    have ht : Reads TraitDef.ofJson? (.record [("name", .ofString t.name),
        ("methods", .array (t.methods.map TraitMethod.toJson))]) t :=
      .record [⟨"name", .text t.name⟩, ⟨"methods", .list hmethod⟩] TraitDef.mk fun _ => rfl
    exact ht.variant Item.traitDecl fun _ => rfl
  | .inst i, hfree, _ => by
    have hi : Reads InstanceDef.ofJson? (.record [("trait_name", .ofString i.traitName),
        ("types", .array (i.types.map Ty.toJson)),
        ("methods", .array (i.methods.map Func.toJson))]) i :=
      .record [⟨"trait_name", .text i.traitName⟩,
        ⟨"types", .array (Reads.each fun t _ => t.reads) fun _ => rfl⟩,
        ⟨"methods", Func.reads_list hfree⟩] InstanceDef.mk fun _ => rfl
    exact hi.variant Item.inst fun _ => rfl
  | .const c, hfree, _ => by
    have hc : Reads ConstDef.ofJson? (.record [("name", .ofString c.name),
        ("ty", .ofOption Ty.toJson c.ty), ("value", Expr.nodeToJson c.value)]) c :=
      .record [⟨"name", .text c.name⟩, ⟨"ty", Ty.reads_option c.ty⟩,
        ⟨"value", Expr.reads_node c.value hfree⟩] ConstDef.mk fun _ => rfl
    exact hc.variant Item.const fun _ => rfl

theorem Program.reads {p : Program} (hfree : p.items.all Item.floatFree = true)
    (hrange : p.items.all Item.inRange = true) : Reads Program.ofJson? p.toJson p := by
  have hitem (i : Item) (hi : i ∈ p.items) : Reads Item.ofJson? i.toJson i :=
    i.reads (List.all_eq_true.1 hfree i hi) (List.all_eq_true.1 hrange i hi)
  exact .record [⟨"file", .text p.file⟩, ⟨"items", .list hitem⟩] Program.mk fun _ => rfl

theorem Hints.reads {h : Hints} (hkeyed : h.Keyed)
    (hfree : (h.traitDefaults.all fun e => e.2.all Func.floatFree) = true) :
    Reads Hints.ofJson? h.toJson h := by
  have names {table : List (String × List String)} (ht : (Assoc.keys table).Nodup) :
      Reads (Json.table? some (Json.list? fun _ => Json.text?)) (.ofTable id Json.strings table)
        table :=
    .table (fun _ => rfl) ht fun _ _ => .list fun s _ => .text s
  have types {table : List (String × Ty)} (ht : (Assoc.keys table).Nodup) :
      Reads (Json.table? some Ty.ofJson?) (.ofTable id Ty.toJson table) table :=
    .table (fun _ => rfl) ht fun e _ => e.2.reads
  have hdefaults : Reads (Json.table? some (Json.list? Func.ofJson?))
      (.ofTable id (fun fs => .array (fs.map Func.toJson)) h.traitDefaults) h.traitDefaults :=
    .table (fun _ => rfl) hkeyed.traitDefaults
      fun e he => Func.reads_list (List.all_eq_true.1 hfree e he)
  exact .record [
    ⟨"node_types", .table Json.nodeKey?_toString hkeyed.nodeTypes fun e _ => e.2.reads⟩,
    ⟨"instantiations", .table Json.nodeKey?_toString hkeyed.instantiations
      fun e he => types (hkeyed.instantiation e he)⟩,
    ⟨"aliases", types hkeyed.aliases⟩, ⟨"super_traits", names hkeyed.superTraits⟩,
    ⟨"method_order", names hkeyed.methodOrder⟩, ⟨"trait_defaults", hdefaults⟩] Hints.mk fun _ => rfl

theorem AnalyzedProgram.reads {p : AnalyzedProgram} (hfree : p.floatFree = true)
    (hrange : p.program.items.all Item.inRange = true) (hkeyed : p.hints.Keyed) :
    Reads AnalyzedProgram.ofJson? p.toJson p := by
  obtain ⟨hitems, hdefaults⟩ := Bool.and_eq_true_iff.1 hfree
  exact .record [⟨"program", Program.reads hitems hrange⟩,
    ⟨"hints", Hints.reads hkeyed hdefaults⟩] AnalyzedProgram.mk fun _ => rfl

end Programs

/-- Whatever library writes and reads the standard notation, and whatever codecs follow the format:
a tree of any kind is read back from its line, its indented text and its dump. -/
theorem tree_read_back (lib : Json.Library) (hlib : lib.Standard) :
    (∀ p : AnalyzedProgram, p.floatFree = true → p.program.items.all Item.inRange = true →
      p.hints.Keyed → lib.ReadsBack AnalyzedProgram.toJson AnalyzedProgram.ofJson? p) ∧
    (∀ i : Item, i.floatFree = true → i.inRange = true →
      lib.ReadsBack Item.toJson Item.ofJson? i) ∧
    (∀ f : Func, f.floatFree = true → lib.ReadsBack Func.toJson Func.ofJson? f) ∧
    (∀ e : Spanned Expr, nodeFloatFree e = true →
      lib.ReadsBack Expr.nodeToJson Expr.nodeOfJson? e) ∧
    (∀ t : Ty, lib.ReadsBack Ty.toJson Ty.ofJson? t) ∧
    (∀ p : Pattern, p.floatFree = true → lib.ReadsBack Pattern.toJson Pattern.ofJson? p) ∧
    (∀ l : Literal, l.floatFree = true → lib.ReadsBack Literal.toJson Literal.ofJson? l) ∧
    (∀ op : BinOp, lib.ReadsBack BinOp.toJson BinOp.ofJson? op) ∧
    ∀ op : UnOp, lib.ReadsBack UnOp.toJson UnOp.ofJson? op :=
  ⟨fun _ hfree hrange hkeyed => (AnalyzedProgram.reads hfree hrange hkeyed).readsBack hlib,
    fun i hfree hrange => (i.reads hfree hrange).readsBack hlib,
    fun f hfree => (f.reads hfree).readsBack hlib,
    fun e hfree => (Expr.reads_node e hfree).readsBack hlib,
    fun t => t.reads.readsBack hlib,
    fun p hfree => (p.reads hfree).readsBack hlib,
    fun l hfree => (l.reads hfree).readsBack hlib,
    fun op => op.reads.readsBack hlib,
    fun op => op.reads.readsBack hlib⟩

/-- A program whose texts need every escape, with extreme integers, absent and present options, and
an entry in every table. -/
def awkward : AnalyzedProgram where
  program := {
    file := "dir\\\"a\".dc"
    items := [
      .data { name := "Shape", constructors := [⟨"Dot", 0⟩, ⟨"Mesh", 18446744073709551615⟩] },
      .traitDecl {
        name := "Show"
        methods := [⟨"show", 1, some [.arg 0, .result]⟩, ⟨"tag", 0, none⟩] },
      .func {
        name := "pick"
        params := [⟨"x", some (.app (.con "Option") [.var "a"]), none, false⟩,
          ⟨"rest", none, some ⟨.lit (.int (-9223372036854775808)), ⟨1, 2⟩⟩, true⟩]
        retTy := some (.fn [.tuple []] (.con "Str"))
        constraints := [⟨"a", "Show"⟩]
        witnessParams := [⟨"d", "Show"⟩]
        body := ⟨.choose ⟨.tuple [⟨.var "x", {}⟩, ⟨.lit (.char '😀'), {}⟩], {}⟩
          [⟨⟨.constructor "Some" [.literal (.str "\x00\x1f\t\r\n\x08\x0c\x7f")], {}⟩,
              ⟨.methodCall 4294967295 ⟨.var "x", {}⟩ "show" [], {}⟩⟩,
            ⟨⟨.record [("größe", .wildcard)], {}⟩,
              ⟨.binary ⟨.lit (.str "\\\"/é"), {}⟩ .ge ⟨.unary .not ⟨.lit .unit, {}⟩, {}⟩, {}⟩⟩], {}⟩
        span := ⟨7, 4294967295⟩ },
      .inst ⟨"Show", [.con "Shape"], [default]⟩,
      .const ⟨"answer", none, ⟨.lit (.bool true), {}⟩⟩] }
  hints := {
    nodeTypes := [(4294967295, .var "b"), (0, .con "Int")]
    instantiations := [(7, [("b", .con "Int"), ("a", .con "Str")])]
    aliases := [("\"", .con "Int")]
    superTraits := [("Ord", ["Eq"])]
    methodOrder := [("Show", ["tag", "show"])]
    traitDefaults := [("Show", [default])] }

/-- With the library and the codecs of this development, the theorem applies to a program, to its
items and to a tree of each of the other kinds. -/
theorem tree_read_back_awkward :
    (awkward.floatFree = true ∧ awkward.program.items.all Item.inRange = true ∧
      awkward.hints.Keyed ∧ awkward.toJson.depth ≤ nestingLimit ∧
      ∀ text ∈ awkward.toJson.texts, AnalyzedProgram.parse? text = some awkward) ∧
    (∀ i ∈ awkward.program.items,
      (i.floatFree = true ∧ i.inRange = true ∧ i.toJson.depth ≤ nestingLimit) ∧
      ∀ text ∈ i.toJson.texts, (Json.parse? text).bind (Item.ofJson? nestingLimit) = some i) ∧
    (∀ text ∈ (default : Func).toJson.texts,
      (Json.parse? text).bind (Func.ofJson? nestingLimit) = some default) ∧
    (∀ text ∈ (Expr.nodeToJson ⟨.list [], ⟨3, 4⟩⟩).texts,
      (Json.parse? text).bind (Expr.nodeOfJson? nestingLimit) = some ⟨.list [], ⟨3, 4⟩⟩) ∧
    (∀ text ∈ (Ty.fn [.var "a"] (.tuple [])).toJson.texts,
      (Json.parse? text).bind (Ty.ofJson? nestingLimit) = some (.fn [.var "a"] (.tuple []))) ∧
    (∀ text ∈ (Pattern.tuple [.literal (.char '"'), .wildcard]).toJson.texts,
      (Json.parse? text).bind (Pattern.ofJson? nestingLimit) =
        some (.tuple [.literal (.char '"'), .wildcard])) ∧
    (∀ text ∈ (Literal.int (-1)).toJson.texts,
      (Json.parse? text).bind (Literal.ofJson? nestingLimit) = some (.int (-1))) ∧
    (∀ text ∈ BinOp.and.toJson.texts,
      (Json.parse? text).bind (BinOp.ofJson? nestingLimit) = some .and) ∧
    ∀ text ∈ UnOp.neg.toJson.texts,
      (Json.parse? text).bind (UnOp.ofJson? nestingLimit) = some .neg := by
  have hfree : awkward.floatFree = true := by decide
  have hrange : awkward.program.items.all Item.inRange = true := by decide
  have hkeyed : awkward.hints.Keyed := by constructor <;> decide
  have hdepth : awkward.toJson.depth ≤ nestingLimit := by decide
  have hitems : ∀ i ∈ awkward.program.items,
      i.floatFree = true ∧ i.inRange = true ∧ i.toJson.depth ≤ nestingLimit := by decide
  obtain ⟨hprogram, hitem, hfunc, hnode, hty, hpattern, hliteral, hbinOp, hunOp⟩ :=
    tree_read_back .own Json.Library.own_standard
  refine ⟨⟨hfree, hrange, hkeyed, hdepth, ?_⟩, ?_, ?_, ?_, ?_, ?_, ?_, ?_, ?_⟩
  · exact hprogram _ hfree hrange hkeyed _ (Codec.own_follows _ _) hdepth
  · intro i hi
    obtain ⟨hfree, hrange, hdepth⟩ := hitems i hi
    exact ⟨⟨hfree, hrange, hdepth⟩, hitem i hfree hrange _ (Codec.own_follows _ _) hdepth⟩
  · exact hfunc default (by decide) _ (Codec.own_follows _ _) (by decide)
  · exact hnode ⟨.list [], ⟨3, 4⟩⟩ (by decide) _ (Codec.own_follows _ _) (by decide)
  · exact hty (.fn [.var "a"] (.tuple [])) _ (Codec.own_follows _ _) (by decide)
  · exact hpattern (.tuple [.literal (.char '"'), .wildcard]) (by decide) _
      (Codec.own_follows _ _) (by decide)
  · exact hliteral (.int (-1)) (by decide) _ (Codec.own_follows _ _) (by decide)
  · exact hbinOp .and _ (Codec.own_follows _ _) (by decide)
  · exact hunOp .neg _ (Codec.own_follows _ _) (by decide)

end TraitLang
