import TraitLang.Proofs.RelabeledTraits

/-!
Values up to part of their faults. A mask says what of a fault counts; two values are alike if they
become the same once the faults in them are masked. Whatever the operations on values look at
survives a mask that keeps causes.
-/
namespace TraitLang

mutual

/-- A value with its faults masked. -/
def Value.mask (g : Fault → Fault) : Value → Value
  | .unit => .unit
  | .int n => .int n
  | .float x => .float x
  | .bool b => .bool b
  | .char c => .char c
  | .str s => .str s
  | .list items => .list (maskAll g items)
  | .tuple items => .tuple (maskAll g items)
  | .record fields => .record (maskFields g fields)
  | .data type ctor fields => .data type ctor (maskAll g fields)
  | .range start stop => .range start stop
  | .error id f => .error id (g f)
  | .typeRep t => .typeRep t
  | .host type handle => .host type handle
  | .function id c => .function id c
  | .builtin b => .builtin (b.mask g)
  | .partialApp id callee args n => .partialApp id (callee.mask g) (maskAll g args) n
  | .constructor id type name arity => .constructor id type name arity
  | .method id m => .method id m
  | .dictionary d => .dictionary (d.mask g)
  | .bound id callee receiver => .bound id (callee.mask g) (receiver.mask g)
  | .operator op => .operator op
  | .composed id outer inner => .composed id (outer.mask g) (inner.mask g)

def Dictionary.mask (g : Fault → Fault) : Dictionary → Dictionary
  | ⟨id, traitName, key, methods, supers⟩ =>
    ⟨id, traitName, key, maskAll g methods, maskDictionaries g supers⟩

def Builtin.mask (g : Fault → Fault) : Builtin → Builtin
  | ⟨id, name, native, signature, defaults⟩ => ⟨id, name, native, signature, maskAll g defaults⟩

def maskAll (g : Fault → Fault) : List Value → List Value
  | [] => []
  | v :: vs => v.mask g :: maskAll g vs

def maskFields (g : Fault → Fault) : List (String × Value) → List (String × Value)
  | [] => []
  | (name, v) :: fields => (name, v.mask g) :: maskFields g fields

def maskDictionaries (g : Fault → Fault) : List Dictionary → List Dictionary
  | [] => []
  | d :: ds => d.mask g :: maskDictionaries g ds

end

/-- A binding with the faults in its value masked. -/
def maskBinding (g : Fault → Fault) (b : String × Value) : String × Value := (b.1, b.2.mask g)

section

variable (g : Fault → Fault)

theorem maskAll_eq (vs : List Value) : maskAll g vs = vs.map (Value.mask g) := by
  induction vs with
  | nil => rw [maskAll, List.map_nil]
  | cons v vs ih => rw [maskAll, ih, List.map_cons]

theorem maskFields_eq (fields : List (String × Value)) :
    maskFields g fields = fields.map (maskBinding g) := by
  induction fields with
  | nil => rw [maskFields, List.map_nil]
  | cons b fields ih =>
    obtain ⟨name, v⟩ := b
    rw [maskFields, ih, List.map_cons, maskBinding]

theorem maskDictionaries_eq (ds : List Dictionary) :
    maskDictionaries g ds = ds.map (Dictionary.mask g) := by
  induction ds with
  | nil => rw [maskDictionaries, List.map_nil]
  | cons d ds ih => rw [maskDictionaries, ih, List.map_cons]

end

attribute [simp] Value.mask Builtin.mask Dictionary.mask maskAll_eq maskFields_eq
  maskDictionaries_eq

mutual

theorem Value.mask_id : ∀ v : Value, v.mask id = v
  | .list items | .tuple items | .data _ _ items => by simp [Value.mask_id_all items]
  | .record fields => by simp [Value.mask_id_fields fields]
  | .builtin b => by simp [Builtin.mask_id b]
  | .partialApp _ callee args _ => by simp [Value.mask_id callee, Value.mask_id_all args]
  | .dictionary d => by simp [Dictionary.mask_id d]
  | .bound _ callee receiver => by simp [Value.mask_id callee, Value.mask_id receiver]
  | .composed _ outer inner => by simp [Value.mask_id outer, Value.mask_id inner]
  | .unit | .int _ | .float _ | .bool _ | .char _ | .str _ | .range _ _ | .error _ _ | .typeRep _
  | .host _ _ | .function _ _ | .constructor _ _ _ _ | .method _ _ | .operator _ => by simp

theorem Value.mask_id_all : ∀ vs : List Value, vs.map (Value.mask id) = vs
  | [] => rfl
  | v :: vs => by simp [Value.mask_id v, Value.mask_id_all vs]

theorem Value.mask_id_fields :
    ∀ fields : List (String × Value), fields.map (maskBinding id) = fields
  | [] => rfl
  | (name, v) :: fields => by simp [maskBinding, Value.mask_id v, Value.mask_id_fields fields]

theorem Builtin.mask_id : ∀ b : Builtin, b.mask id = b
  | ⟨_, _, _, _, defaults⟩ => by simp [Value.mask_id_all defaults]

theorem Dictionary.mask_id : ∀ d : Dictionary, d.mask id = d
  | ⟨_, _, _, methods, supers⟩ => by simp [Value.mask_id_all methods, Dictionary.mask_id_all supers]

theorem Dictionary.mask_id_all : ∀ ds : List Dictionary, ds.map (Dictionary.mask id) = ds
  | [] => rfl
  | d :: ds => by simp [Dictionary.mask_id d, Dictionary.mask_id_all ds]

end

/-! ### Masking as a replacement -/

/-- Replaces faults only. -/
def masking (g : Fault → Fault) : Relabeling := { fault := g }

theorem masking_lawful {g : Fault → Fault} (hg : ∀ f, (g f).cause = f.cause) :
    (masking g).Lawful :=
  ⟨hg, fun _ => rfl⟩

section

variable (g : Fault → Fault)

mutual

theorem Value.mask_eq_relabel : ∀ v : Value, v.mask g = v.relabel (masking g)
  | .list items | .tuple items | .data _ _ items => by simp [Value.mask_eq_relabel_all items]
  | .record fields => by simp [Value.mask_eq_relabel_fields fields]
  | .builtin b => by simp [Builtin.mask_eq_relabel b]
  | .partialApp _ callee args _ => by
    simp [Value.mask_eq_relabel callee, Value.mask_eq_relabel_all args]
  | .dictionary d => by simp [Dictionary.mask_eq_relabel d]
  | .bound _ callee receiver => by
    simp [Value.mask_eq_relabel callee, Value.mask_eq_relabel receiver]
  | .composed _ outer inner => by
    simp [Value.mask_eq_relabel outer, Value.mask_eq_relabel inner]
  | .unit | .int _ | .float _ | .bool _ | .char _ | .str _ | .range _ _ | .error _ _ | .typeRep _
  | .host _ _ | .function _ _ | .constructor _ _ _ _ | .method _ _ | .operator _ => by
    simp [masking, Relabeling.closure]

theorem Value.mask_eq_relabel_all : ∀ vs : List Value,
    vs.map (Value.mask g) = vs.map (Value.relabel (masking g))
  | [] => rfl
  | v :: vs => by simp [Value.mask_eq_relabel v, Value.mask_eq_relabel_all vs]

theorem Value.mask_eq_relabel_fields : ∀ fields : List (String × Value),
    fields.map (maskBinding g) = Assoc.mapValues (Value.relabel (masking g)) fields
  | [] => rfl
  | (name, v) :: fields => by
    simp [maskBinding, Value.mask_eq_relabel v, Value.mask_eq_relabel_fields fields]

theorem Builtin.mask_eq_relabel : ∀ b : Builtin, b.mask g = b.relabel (masking g)
  | ⟨_, _, _, _, defaults⟩ => by simp [Value.mask_eq_relabel_all defaults, masking]

theorem Dictionary.mask_eq_relabel : ∀ d : Dictionary, d.mask g = d.relabel (masking g)
  | ⟨_, _, _, methods, supers⟩ => by
    simp [Value.mask_eq_relabel_all methods, Dictionary.mask_eq_relabel_all supers]

theorem Dictionary.mask_eq_relabel_all : ∀ ds : List Dictionary,
    ds.map (Dictionary.mask g) = ds.map (Dictionary.relabel (masking g))
  | [] => rfl
  | d :: ds => by simp [Dictionary.mask_eq_relabel d, Dictionary.mask_eq_relabel_all ds]

end

theorem Value.mask_eq : Value.mask g = Value.relabel (masking g) :=
  funext (Value.mask_eq_relabel g)

theorem Dictionary.mask_eq : Dictionary.mask g = Dictionary.relabel (masking g) :=
  funext (Dictionary.mask_eq_relabel g)

theorem map_maskBinding_eq :
    List.map (maskBinding g) = Assoc.mapValues (Value.relabel (masking g)) :=
  funext (Value.mask_eq_relabel_fields g)

end

section Parts

variable (g : Fault → Fault) (b : Builtin)

@[simp] theorem Builtin.name_mask : (b.mask g).name = b.name := by cases b; simp

@[simp] theorem Builtin.native_mask : (b.mask g).native = b.native := by cases b; simp

@[simp] theorem Builtin.defaults_mask : (b.mask g).defaults = b.defaults.map (Value.mask g) := by
  cases b; simp

@[simp] theorem Builtin.arity_mask : (b.mask g).arity = b.arity := by
  rw [Builtin.mask_eq_relabel, Builtin.arity_relabel]

end Parts

namespace Value

variable (g : Fault → Fault)

@[simp] theorem typeName_mask (v : Value) : (v.mask g).typeName = v.typeName := by
  rw [mask_eq, typeName_relabel]

@[simp] theorem isCallable_mask (v : Value) : (v.mask g).isCallable = v.isCallable := by
  rw [mask_eq, isCallable_relabel]

@[simp] theorem foreign?_mask (v : Value) : (v.mask g).foreign? = v.foreign? := by
  rw [mask_eq, foreign?_relabel]

@[simp] theorem isMethod_mask (id : Ident) (v : Value) :
    (v.mask g).isMethod id = v.isMethod id := by
  rw [mask_eq, isMethod_relabel]

@[simp] theorem type?_mask (v : Value) : (v.mask g).type? = v.type? := by
  rw [mask_eq, type?_relabel]

theorem upTo_mask (v w : Value) :
    (v.mask g).upTo (w.mask g) = (v.upTo w).map (mask g) := by
  rw [mask_eq, upTo_relabel]

theorem member?_mask (name : String) (v : Value) :
    (v.mask g).member? name = (v.member? name).map (mask g) := by
  rw [mask_eq, member?_relabel]

theorem field_mask (name : String) (v : Value) :
    (v.mask g).field name = (v.field name).map (mask g) := by
  rw [mask_eq, field_relabel]

@[simp] theorem callableName_mask (v : Value) : (v.mask g).callableName = v.callableName := by
  rw [mask_eq, callableName_relabel fun _ => rfl]

theorem text_mask {g : Fault → Fault} (hg : ∀ f, (g f).cause = f.cause) (v : Value) :
    (v.mask g).text = v.text := by
  rw [mask_eq, text_relabel (masking_lawful hg)]

end Value

/-- Operators do not look into faults. -/
theorem BinOp.eval_mask (g : Fault → Fault) (op : BinOp) (v w : Value) :
    op.eval (v.mask g) (w.mask g) = (op.eval v w).map (Value.mask g) := by
  rw [Value.mask_eq, eval_relabel]

theorem UnOp.eval_mask (g : Fault → Fault) (op : UnOp) (v : Value) :
    op.eval (v.mask g) = (op.eval v).map (Value.mask g) := by
  rw [Value.mask_eq, eval_relabel]

section Arguments

variable (g : Fault → Fault)

theorem plainArgs_mask (args : List Value) :
    plainArgs (args.map (Value.mask g)) = (plainArgs args).map (Value.mask g) := by
  rw [Value.mask_eq, plainArgs_relabel]

theorem leadingDictionaries_mask (args : List Value) :
    leadingDictionaries (args.map (Value.mask g)) =
      (leadingDictionaries args).map (Dictionary.mask g) := by
  rw [Value.mask_eq, Dictionary.mask_eq, leadingDictionaries_relabel]

theorem witnessBindings?_mask (first : Dictionary) (ps : List WitnessParam)
    (ds : List Dictionary) :
    witnessBindings? (first.mask g) ps (ds.map (Dictionary.mask g)) =
      (witnessBindings? first ps ds).map (List.map (maskBinding g)) := by
  rw [Dictionary.mask_eq, map_maskBinding_eq, witnessBindings?_relabel]

theorem Pattern.isSome_bindings?_mask (p : Pattern) (v : Value) :
    (p.bindings? (v.mask g)).isSome = (p.bindings? v).isSome := by
  rw [Value.mask_eq, isSome_bindings?_relabel]

theorem Pattern.written_mask (p : Pattern) (v : Value) :
    p.written (v.mask g) = (p.written v).map (maskBinding g) := by
  rw [Value.mask_eq, map_maskBinding_eq, written_relabel]

theorem insert_map_maskBinding (name : String) (v : Value) (fields : List (String × Value)) :
    Assoc.insert name (v.mask g) (fields.map (maskBinding g)) =
      (Assoc.insert name v fields).map (maskBinding g) := by
  rw [Value.mask_eq, map_maskBinding_eq, Assoc.mapValues_insert]

end Arguments

/-- A scope with the faults in its values masked. -/
def Scope.mask (g : Fault → Fault) (scope : Scope) : Scope :=
  { scope with bindings := scope.bindings.map (maskBinding g) }

namespace Store

/-- A store with the faults in its values masked. -/
def mask (g : Fault → Fault) (s : Store) : Store := ⟨s.scopes.map (Scope.mask g)⟩

variable (g : Fault → Fault) (s : Store)

theorem mask_id : s.mask id = s := by
  have h : Scope.mask id = id := by
    funext scope
    simp only [Scope.mask, Value.mask_id_fields, id]
  rw [mask, h, Array.map_id]

theorem mask_eq : s.mask g = s.relabel (masking g) := by
  have h : Scope.mask g = Scope.relabel (masking g) := by
    funext scope
    rw [Scope.mask, map_maskBinding_eq, Scope.relabel]
  rw [mask, h, relabel]

theorem size_mask : (s.mask g).scopes.size = s.scopes.size := by
  rw [mask_eq, size_relabel]

theorem owner?_mask (id : ScopeId) (name : String) :
    (s.mask g).owner? id name = s.owner? id name := by
  rw [mask_eq, owner?_relabel]

theorem get?_mask (id : ScopeId) (name : String) :
    (s.mask g).get? id name = (s.get? id name).map (Value.mask g) := by
  rw [mask_eq, get?_relabel, Value.mask_eq]

theorem mask_define (id : ScopeId) (name : String) (v : Value) :
    (s.define id name v).mask g = (s.mask g).define id name (v.mask g) := by
  rw [mask_eq, mask_eq, relabel_define, Value.mask_eq]

theorem mask_child (parent : ScopeId) :
    (s.child parent).1.mask g = ((s.mask g).child parent).1 := by
  rw [mask_eq, mask_eq, relabel_child]

end Store

/-- What is known about traits, with the faults in it masked. -/
abbrev Registry.mask (g : Fault → Fault) (r : Registry) : Registry := r.relabel (masking g)

theorem Registry.mask_id (r : Registry) : r.mask id = r := by
  have hvalue : Value.relabel (masking id) = id := by
    rw [← Value.mask_eq]
    exact funext Value.mask_id
  have hmap {κ α : Type} (f : α → α) (hf : f = id) : Assoc.mapValues (κ := κ) f = id := by
    funext table
    simp [Assoc.mapValues, hf]
  have hfunc : (masking id).func = id := rfl
  simp only [mask, relabel, hfunc, hmap _ rfl, hmap _ hvalue, id_eq]

namespace Value

/-- Two values, masked alike, as far as applying them goes. -/
inductive Alike (g : Fault → Fault) : Value → Value → Prop where
  | function (id : Ident) (c : Closure) : Alike g (.function id c) (.function id c)
  | builtin {b b' : Builtin} : b.mask g = b'.mask g → Alike g (.builtin b) (.builtin b')
  | partialApp (id : Ident) {callee callee' : Value} {args args' : List Value} (n : Nat) :
      callee.mask g = callee'.mask g → args.map (mask g) = args'.map (mask g) →
      Alike g (.partialApp id callee args n) (.partialApp id callee' args' n)
  | constructor (id : Ident) (type name : String) (arity : Nat) :
      Alike g (.constructor id type name arity) (.constructor id type name arity)
  | method (id : Ident) (m : ClassMethod) : Alike g (.method id m) (.method id m)
  | bound (id : Ident) {callee callee' receiver receiver' : Value} :
      callee.mask g = callee'.mask g → receiver.mask g = receiver'.mask g →
      Alike g (.bound id callee receiver) (.bound id callee' receiver')
  | operator (op : BinOp) : Alike g (.operator op) (.operator op)
  | composed (id : Ident) {outer outer' inner inner' : Value} :
      outer.mask g = outer'.mask g → inner.mask g = inner'.mask g →
      Alike g (.composed id outer inner) (.composed id outer' inner')
  | inert {v v' : Value} : v.isCallable = false → v'.isCallable = false → Alike g v v'

theorem alike_of_mask_eq {g : Fault → Fault} {v v' : Value} (h : v.mask g = v'.mask g) :
    Alike g v v' := by
  have hcallable : v'.isCallable = v.isCallable := by
    rw [← isCallable_mask g v', ← h, isCallable_mask]
  cases v with
  | function id c =>
    cases v' with
    | function id' c' => simp only [mask, function.injEq] at h; exact h.1 ▸ h.2 ▸ .function id c
    | _ => cases h
  | builtin b =>
    cases v' with
    | builtin b' => simp only [mask, builtin.injEq] at h; exact .builtin h
    | _ => cases h
  | partialApp id callee args n =>
    cases v' with
    | partialApp id' callee' args' n' =>
      simp only [mask, maskAll_eq, partialApp.injEq] at h
      obtain ⟨rfl, hcallee, hargs, rfl⟩ := h
      exact .partialApp id n hcallee hargs
    | _ => cases h
  | constructor id type name arity =>
    cases v' with
    | constructor id' type' name' arity' =>
      simp only [mask, constructor.injEq] at h
      obtain ⟨rfl, rfl, rfl, rfl⟩ := h
      exact .constructor id type name arity
    | _ => cases h
  | method id m =>
    cases v' with
    | method id' m' => simp only [mask, method.injEq] at h; exact h.1 ▸ h.2 ▸ .method id m
    | _ => cases h
  | bound id callee receiver =>
    cases v' with
    | bound id' callee' receiver' =>
      simp only [mask, bound.injEq] at h
      obtain ⟨rfl, hcallee, hreceiver⟩ := h
      exact .bound id hcallee hreceiver
    | _ => cases h
  | operator op =>
    cases v' with
    | operator op' => simp only [mask, operator.injEq] at h; exact h ▸ .operator op
    | _ => cases h
  | composed id outer inner =>
    cases v' with
    | composed id' outer' inner' =>
      simp only [mask, composed.injEq] at h
      obtain ⟨rfl, houter, hinner⟩ := h
      exact .composed id houter hinner
    | _ => cases h
  | _ => exact .inert rfl hcallable

end Value

/-- The builtins of every interpreter do not look at what of a fault is masked. -/
theorem CoreNative.action_mask {g : Fault → Fault} (hg : ∀ f, (g f).cause = f.cause)
    (c : CoreNative) (args : List Value) :
    c.action (args.map (Value.mask g)) = c.action args := by
  rw [Value.mask_eq, action_relabel (masking_lawful hg)]

end TraitLang
