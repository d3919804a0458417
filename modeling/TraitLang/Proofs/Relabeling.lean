import TraitLang.Interpreter

/-!
Values with the faults, closures and natives inside them replaced. Whatever the operations on values
look at survives a replacement that keeps the causes of faults and the names of functions.
-/
namespace TraitLang

namespace Assoc

variable {κ α β : Type}

/-- The same keys with other values. -/
def mapValues (f : α → β) (table : List (κ × α)) : List (κ × β) := table.map fun e => (e.1, f e.2)

@[simp] theorem mapValues_nil (f : α → β) : mapValues f ([] : List (κ × α)) = [] := rfl

@[simp] theorem mapValues_cons (f : α → β) (e : κ × α) (table : List (κ × α)) :
    mapValues f (e :: table) = (e.1, f e.2) :: mapValues f table := rfl

@[simp] theorem mapValues_append (f : α → β) (table table' : List (κ × α)) :
    mapValues f (table ++ table') = mapValues f table ++ mapValues f table' :=
  List.map_append

theorem mapValues_mapValues {γ : Type} (f : β → γ) (g : α → β) (table : List (κ × α)) :
    mapValues f (mapValues g table) = mapValues (fun v => f (g v)) table := by
  simp [mapValues]

@[simp] theorem length_mapValues (f : α → β) (table : List (κ × α)) :
    (mapValues f table).length = table.length :=
  List.length_map _

@[simp] theorem keys_mapValues (f : α → β) (table : List (κ × α)) :
    keys (mapValues f table) = keys table := by
  simp [keys, mapValues]

variable [BEq κ]

@[simp] theorem lookup_mapValues (f : α → β) (k : κ) (table : List (κ × α)) :
    (mapValues f table).lookup k = (table.lookup k).map f := by
  induction table with
  | nil => rfl
  | cons e table ih =>
    obtain ⟨key, v⟩ := e
    cases h : k == key <;> simp [List.lookup_cons, h, ih]

@[simp] theorem contains_mapValues (f : α → β) (k : κ) (table : List (κ × α)) :
    contains k (mapValues f table) = contains k table := by
  simp [contains]

theorem mapValues_insert (f : α → β) (k : κ) (v : α) (table : List (κ × α)) :
    mapValues f (insert k v table) = insert k (f v) (mapValues f table) := by
  induction table with
  | nil => rfl
  | cons e table ih =>
    obtain ⟨key, w⟩ := e
    simp only [insert, mapValues_cons]
    split <;> simp [ih]

theorem mapValues_insertAll (f : α → β) (new table : List (κ × α)) :
    mapValues f (insertAll new table) = insertAll (mapValues f new) (mapValues f table) := by
  unfold insertAll
  induction new generalizing table with
  | nil => rfl
  | cons e new ih => simp [ih, mapValues_insert]

end Assoc

/-- What becomes of the parts of values that values do not consist of. -/
structure Relabeling where
  fault : Fault → Fault := id
  func : Func → Func := id
  native : Native → Native := id

namespace Relabeling

def closure (ρ : Relabeling) (c : Closure) : Closure := { c with func := ρ.func c.func }

/-- Causes and names are what values show of faults and functions. -/
structure Lawful (ρ : Relabeling) : Prop where
  cause : ∀ f, (ρ.fault f).cause = f.cause
  name : ∀ f, (ρ.func f).name = f.name

def comp (ρ σ : Relabeling) : Relabeling :=
  ⟨ρ.fault ∘ σ.fault, ρ.func ∘ σ.func, ρ.native ∘ σ.native⟩

end Relabeling

mutual

/-- A value with the faults, closures and natives in it replaced. -/
def Value.relabel (ρ : Relabeling) : Value → Value
  | .unit => .unit
  | .int n => .int n
  | .float x => .float x
  | .bool b => .bool b
  | .char c => .char c
  | .str s => .str s
  | .list items => .list (relabelAll ρ items)
  | .tuple items => .tuple (relabelAll ρ items)
  | .record fields => .record (relabelFields ρ fields)
  | .data type ctor fields => .data type ctor (relabelAll ρ fields)
  | .range start stop => .range start stop
  | .error id f => .error id (ρ.fault f)
  | .typeRep t => .typeRep t
  | .host type handle => .host type handle
  | .function id c => .function id (ρ.closure c)
  | .builtin b => .builtin (b.relabel ρ)
  | .partialApp id callee args n => .partialApp id (callee.relabel ρ) (relabelAll ρ args) n
  | .constructor id type name arity => .constructor id type name arity
  | .method id m => .method id m
  | .dictionary d => .dictionary (d.relabel ρ)
  | .bound id callee receiver => .bound id (callee.relabel ρ) (receiver.relabel ρ)
  | .operator op => .operator op
  | .composed id outer inner => .composed id (outer.relabel ρ) (inner.relabel ρ)

def Dictionary.relabel (ρ : Relabeling) : Dictionary → Dictionary
  | ⟨id, traitName, key, methods, supers⟩ =>
    ⟨id, traitName, key, relabelAll ρ methods, relabelDictionaries ρ supers⟩

def Builtin.relabel (ρ : Relabeling) : Builtin → Builtin
  | ⟨id, name, native, signature, defaults⟩ =>
    ⟨id, name, ρ.native native, signature, relabelAll ρ defaults⟩

def relabelAll (ρ : Relabeling) : List Value → List Value
  | [] => []
  | v :: vs => v.relabel ρ :: relabelAll ρ vs

def relabelFields (ρ : Relabeling) : List (String × Value) → List (String × Value)
  | [] => []
  | (name, v) :: fields => (name, v.relabel ρ) :: relabelFields ρ fields

def relabelDictionaries (ρ : Relabeling) : List Dictionary → List Dictionary
  | [] => []
  | d :: ds => d.relabel ρ :: relabelDictionaries ρ ds

end

section

variable (ρ : Relabeling)

theorem relabelAll_eq (vs : List Value) : relabelAll ρ vs = vs.map (Value.relabel ρ) := by
  induction vs with
  | nil => rw [relabelAll, List.map_nil]
  | cons v vs ih => rw [relabelAll, ih, List.map_cons]

theorem relabelFields_eq (fields : List (String × Value)) :
    relabelFields ρ fields = Assoc.mapValues (Value.relabel ρ) fields := by
  induction fields with
  | nil => rw [relabelFields, Assoc.mapValues_nil]
  | cons b fields ih =>
    obtain ⟨name, v⟩ := b
    rw [relabelFields, ih, Assoc.mapValues_cons]

theorem relabelDictionaries_eq (ds : List Dictionary) :
    relabelDictionaries ρ ds = ds.map (Dictionary.relabel ρ) := by
  induction ds with
  | nil => rw [relabelDictionaries, List.map_nil]
  | cons d ds ih => rw [relabelDictionaries, ih, List.map_cons]

end

attribute [simp] Value.relabel Builtin.relabel Dictionary.relabel relabelAll_eq relabelFields_eq
  relabelDictionaries_eq

/-! ### Two replacements in a row -/

section Comp

variable (ρ σ : Relabeling)

mutual

theorem Value.relabel_relabel : ∀ v : Value, (v.relabel σ).relabel ρ = v.relabel (ρ.comp σ)
  | .list items | .tuple items | .data _ _ items => by simp [Value.relabel_relabel_all items]
  | .record fields => by simp [Value.relabel_relabel_fields fields]
  | .builtin b => by simp [Builtin.relabel_relabel b]
  | .partialApp _ callee args _ => by
    simp [Value.relabel_relabel callee, Value.relabel_relabel_all args]
  | .dictionary d => by simp [Dictionary.relabel_relabel d]
  | .bound _ callee receiver => by
    simp [Value.relabel_relabel callee, Value.relabel_relabel receiver]
  | .composed _ outer inner => by simp [Value.relabel_relabel outer, Value.relabel_relabel inner]
  | .unit | .int _ | .float _ | .bool _ | .char _ | .str _ | .range _ _ | .error _ _ | .typeRep _
  | .host _ _ | .function _ _ | .constructor _ _ _ _ | .method _ _ | .operator _ => by
    simp [Relabeling.comp, Relabeling.closure]

theorem Value.relabel_relabel_all : ∀ vs : List Value,
    vs.map (Value.relabel ρ ∘ Value.relabel σ) = vs.map (Value.relabel (ρ.comp σ))
  | [] => rfl
  | v :: vs => by simp [Value.relabel_relabel v, Value.relabel_relabel_all vs]

theorem Value.relabel_relabel_fields : ∀ fields : List (String × Value),
    Assoc.mapValues (Value.relabel ρ) (Assoc.mapValues (Value.relabel σ) fields) =
      Assoc.mapValues (Value.relabel (ρ.comp σ)) fields
  | [] => rfl
  | (name, v) :: fields => by simp [Value.relabel_relabel v, Value.relabel_relabel_fields fields]

theorem Builtin.relabel_relabel : ∀ b : Builtin, (b.relabel σ).relabel ρ = b.relabel (ρ.comp σ)
  | ⟨_, _, _, _, defaults⟩ => by simp [Value.relabel_relabel_all defaults, Relabeling.comp]

theorem Dictionary.relabel_relabel : ∀ d : Dictionary,
    (d.relabel σ).relabel ρ = d.relabel (ρ.comp σ)
  | ⟨_, _, _, methods, supers⟩ => by
    simp [Value.relabel_relabel_all methods, Dictionary.relabel_relabel_all supers]

theorem Dictionary.relabel_relabel_all : ∀ ds : List Dictionary,
    ds.map (Dictionary.relabel ρ ∘ Dictionary.relabel σ) = ds.map (Dictionary.relabel (ρ.comp σ))
  | [] => rfl
  | d :: ds => by simp [Dictionary.relabel_relabel d, Dictionary.relabel_relabel_all ds]

end

end Comp

section Parts

variable (ρ : Relabeling) (b : Builtin) (d : Dictionary)

@[simp] theorem Builtin.id_relabel : (b.relabel ρ).id = b.id := by cases b; simp

@[simp] theorem Builtin.name_relabel : (b.relabel ρ).name = b.name := by cases b; simp

@[simp] theorem Builtin.native_relabel : (b.relabel ρ).native = ρ.native b.native := by
  cases b; simp

@[simp] theorem Builtin.signature_relabel : (b.relabel ρ).signature = b.signature := by
  cases b; simp

@[simp] theorem Builtin.defaults_relabel :
    (b.relabel ρ).defaults = b.defaults.map (Value.relabel ρ) := by
  cases b; simp

@[simp] theorem Builtin.arity_relabel : (b.relabel ρ).arity = b.arity := by simp [arity]

@[simp] theorem Dictionary.id_relabel : (d.relabel ρ).id = d.id := by cases d; simp

@[simp] theorem Dictionary.traitName_relabel : (d.relabel ρ).traitName = d.traitName := by
  cases d; simp

end Parts

namespace Value

variable (ρ : Relabeling)

@[simp] theorem typeName_relabel (v : Value) : (v.relabel ρ).typeName = v.typeName := by
  cases v <;> simp [typeName]

@[simp] theorem isCallable_relabel (v : Value) : (v.relabel ρ).isCallable = v.isCallable := by
  cases v <;> simp [isCallable]

@[simp] theorem isDictionary_relabel (v : Value) : (v.relabel ρ).isDictionary = v.isDictionary := by
  cases v <;> simp [isDictionary]

@[simp] theorem foreign?_relabel (v : Value) : (v.relabel ρ).foreign? = v.foreign? := by
  cases v <;> simp [foreign?]

@[simp] theorem isMethod_relabel (id : Ident) (v : Value) :
    (v.relabel ρ).isMethod id = v.isMethod id := by
  cases v <;> simp [isMethod]

@[simp] theorem type?_relabel (v : Value) : (v.relabel ρ).type? = v.type? := by
  cases v <;> simp [type?]

@[simp] theorem scalar?_relabel (v : Value) : (v.relabel ρ).scalar? = v.scalar? := by
  cases v <;> simp [scalar?]

@[simp] theorem relabel_ofLiteral (l : Literal) : (ofLiteral l).relabel ρ = ofLiteral l := by
  cases l <;> simp [ofLiteral]

theorem callableName_relabel {ρ : Relabeling} (hρ : ∀ f, (ρ.func f).name = f.name) :
    ∀ v : Value, (v.relabel ρ).callableName = v.callableName
  | .partialApp _ callee _ _ => by simp [callableName, callableName_relabel hρ callee]
  | .bound _ callee _ => by simp [callableName, callableName_relabel hρ callee]
  | .function _ c => hρ c.func
  | .unit | .int _ | .float _ | .bool _ | .char _ | .str _ | .list _ | .tuple _ | .record _
  | .data _ _ _ | .range _ _ | .error _ _ | .typeRep _ | .host _ _ | .builtin _
  | .constructor _ _ _ _ | .method _ _ | .dictionary _ | .operator _ | .composed _ _ _ => by
    simp [callableName, typeName]

@[simp] theorem scalarEqual_relabel (v w : Value) :
    scalarEqual (v.relabel ρ) (w.relabel ρ) = scalarEqual v w := by
  simp [scalarEqual]

mutual

theorem equal_relabel : ∀ v w : Value, equal (v.relabel ρ) (w.relabel ρ) = equal v w
  | .list vs, w | .tuple vs, w | .data _ _ vs, w => by
    cases w <;> simp [equal, equalAll_relabel vs, scalarEqual, scalar?]
  | .record fields, w => by
    cases w <;> simp [equal, equalFields_relabel fields, scalarEqual, scalar?]
  | .unit, w | .int _, w | .float _, w | .bool _, w | .char _, w | .str _, w | .range _ _, w
  | .error _ _, w | .typeRep _, w | .host _ _, w | .function _ _, w | .constructor _ _ _ _, w
  | .method _ _, w | .operator _, w | .partialApp _ _ _ _, w | .bound _ _ _, w
  | .composed _ _ _, w | .builtin _, w | .dictionary _, w => scalarEqual_relabel ρ _ w

theorem equalAll_relabel : ∀ vs ws : List Value,
    equalAll (vs.map (relabel ρ)) (ws.map (relabel ρ)) = equalAll vs ws
  | [], ws => by cases ws <;> simp [equalAll]
  | v :: vs, ws => by cases ws <;> simp [equalAll, equal_relabel v, equalAll_relabel vs]

theorem equalFields_relabel : ∀ fields others : List (String × Value),
    equalFields (Assoc.mapValues (Value.relabel ρ) fields)
        (Assoc.mapValues (Value.relabel ρ) others) =
      equalFields fields others
  | [], _ => by simp [equalFields]
  | (name, v) :: fields, others => by
    have hv : (fun w => equal (v.relabel ρ) (w.relabel ρ)) = fun w => equal v w :=
      funext (equal_relabel v)
    simp [equalFields, equalFields_relabel fields, Option.any_map, hv]

end

@[simp] theorem beq_relabel (v w : Value) : (v.relabel ρ == w.relabel ρ) = (v == w) :=
  equal_relabel ρ v w

theorem compare_relabel (v w : Value) : (v.relabel ρ).compare (w.relabel ρ) = v.compare w := by
  unfold compare
  simp only [typeName_relabel]
  cases v with
  | int _ | float _ | str _ | char _ => cases w <;> simp
  | _ => simp

theorem upTo_relabel (v w : Value) :
    (v.relabel ρ).upTo (w.relabel ρ) = (v.upTo w).map (relabel ρ) := by
  have hfail (v : Value) :
      (Except.error
          (.typeError "Int..Int" ((v.relabel ρ).typeName ++ ".." ++ (w.relabel ρ).typeName)) :
        Except Cause Value) =
      .error (.typeError "Int..Int" (v.typeName ++ ".." ++ w.typeName)) := by
    simp only [typeName_relabel]
  cases v with
  | int n =>
    cases w with
    | int _ => rfl
    | _ => exact hfail (int n)
  | _ => exact hfail _

theorem member?_relabel (name : String) (v : Value) :
    (v.relabel ρ).member? name = (v.member? name).map (relabel ρ) := by
  cases v with
  | record fields =>
    cases h : fields.lookup name with
    | none => simp [member?, h]
    | some w => cases hw : w.isCallable <;> simp [member?, h, Option.filter, hw]
  | _ => simp [member?]

theorem field_relabel (name : String) (v : Value) :
    (v.relabel ρ).field name = (v.field name).map (relabel ρ) := by
  cases v with
  | record fields => cases h : fields.lookup name <;> simp [field, h, Except.map]
  | tuple items =>
    cases h : index? name with
    | none => simp [field, h, Except.map]
    | some i => cases hi : items[i]? <;> simp [field, h, hi, Except.map]
  | _ => simp [field, Except.map, typeName]

section Text

variable {ρ : Relabeling}

mutual

theorem textIn_relabel (hρ : ρ.Lawful) :
    ∀ (nested : Bool) (v : Value), (v.relabel ρ).textIn nested = v.textIn nested
  | _, .list items => congrArg ("[" ++ · ++ "]") (textAll_relabel hρ items)
  | _, .tuple items => congrArg ("(" ++ · ++ ")") (textAll_relabel hρ items)
  | _, .data _ ctor (f :: fs) => congrArg (ctor ++ "(" ++ · ++ ")") (textAll_relabel hρ (f :: fs))
  | _, .record fields => congrArg ("\x7b" ++ · ++ " \x7d") (textFields_relabel hρ fields)
  | _, .error _ f => congrArg ("<error: " ++ ·.message ++ ">") (hρ.cause f)
  | _, .function _ c => congrArg ("<function " ++ · ++ ">") (hρ.name c.func)
  | _, .partialApp _ callee _ n =>
    congrArg ("<partial " ++ · ++ " awaiting " ++ toString n ++ ">")
      (textIn_relabel hρ false callee)
  | _, .bound _ callee _ => congrArg ("<bound " ++ · ++ ">") (textIn_relabel hρ false callee)
  | _, .composed _ outer inner => by
    show "<" ++ textIn false (outer.relabel ρ) ++ " . " ++ textIn false (inner.relabel ρ) ++ ">" = _
    rw [textIn_relabel hρ false outer, textIn_relabel hρ false inner]
    rfl
  | _, .builtin ⟨_, _, _, _, _⟩ | _, .dictionary ⟨_, _, _, _, _⟩ => rfl
  | _, .unit | _, .int _ | _, .float _ | _, .bool _ | _, .char _ | _, .str _ | _, .data _ _ []
  | _, .range _ _ | _, .typeRep _ | _, .host _ _ | _, .constructor _ _ _ _
  | _, .method _ _ | _, .operator _ => rfl

theorem textAll_relabel (hρ : ρ.Lawful) :
    ∀ vs : List Value, textAll (relabelAll ρ vs) = textAll vs
  | [] => rfl
  | [v] => textIn_relabel hρ true v
  | v :: w :: rest => by
    show textIn true (v.relabel ρ) ++ ", " ++ textAll (relabelAll ρ (w :: rest)) = _
    rw [textIn_relabel hρ true v, textAll_relabel hρ (w :: rest)]
    rfl

theorem textFields_relabel (hρ : ρ.Lawful) :
    ∀ fields : List (String × Value), textFields (relabelFields ρ fields) = textFields fields
  | [] => rfl
  | [(name, v)] => congrArg (" " ++ name ++ ": " ++ ·) (textIn_relabel hρ true v)
  | (name, v) :: f :: rest => by
    show " " ++ name ++ ": " ++ textIn true (v.relabel ρ) ++ "," ++
      textFields (relabelFields ρ (f :: rest)) = _
    rw [textIn_relabel hρ true v, textFields_relabel hρ (f :: rest)]
    rfl

end

theorem text_relabel (hρ : ρ.Lawful) (v : Value) : (v.relabel ρ).text = v.text :=
  textIn_relabel hρ false v

end Text

end Value

namespace BinOp

variable (ρ : Relabeling)

theorem operandError_relabel (expected : String) (op : BinOp) (v w : Value) :
    operandError expected op (v.relabel ρ) (w.relabel ρ) = operandError expected op v w := by
  simp only [operandError, Value.typeName_relabel]

theorem arithmetic_relabel (op : BinOp) {onInts : Int64 → Int64 → Except Cause Value}
    (onFloats : Float → Float → Float)
    (hints : ∀ a b, (onInts a b).map (Value.relabel ρ) = onInts a b) (v w : Value) :
    arithmetic op onInts onFloats (v.relabel ρ) (w.relabel ρ) =
      (arithmetic op onInts onFloats v w).map (Value.relabel ρ) := by
  have hfail (v : Value) := operandError_relabel ρ "numeric" op v w
  cases v with
  | int a =>
    cases w with
    | int b => exact (hints a b).symm
    | float _ => rfl
    | _ => exact hfail (.int a)
  | float a =>
    cases w with
    | int _ | float _ => rfl
    | _ => exact hfail (.float a)
  | _ => exact hfail _

/-- Operators do not look at what is replaced. -/
theorem eval_relabel (op : BinOp) (v w : Value) :
    op.eval (v.relabel ρ) (w.relabel ρ) = (op.eval v w).map (Value.relabel ρ) := by
  have hfail (expected : String) (v : Value) := operandError_relabel ρ expected op v w
  cases op with
  | add =>
    cases v with
    | int _ | float _ | str _ =>
      cases w with
      | int _ | float _ | str _ => rfl
      | _ => exact hfail _ _
    | list vs =>
      cases w with
      | list ws => simp [eval, Except.map]
      | _ => exact hfail _ (.list vs)
    | _ => exact hfail _ _
  | sub | mul => exact arithmetic_relabel ρ _ _ (fun _ _ => rfl) v w
  | div => exact arithmetic_relabel ρ _ _ (fun a b => by split <;> rfl) v w
  | mod =>
    cases v with
    | int a =>
      cases w with
      | int b => simp only [eval, Value.relabel]; split <;> rfl
      | _ => rfl
    | _ => rfl
  | eq | ne => simp [eval, Except.map, bne]
  | lt | gt | le | ge =>
    simp only [eval, Value.compare_relabel]
    cases v.compare w <;> rfl
  | and | or =>
    cases v with
    | bool _ =>
      cases w with
      | bool _ => rfl
      | _ => exact hfail _ _
    | _ => exact hfail _ _

end BinOp

theorem UnOp.eval_relabel (ρ : Relabeling) (op : UnOp) (v : Value) :
    op.eval (v.relabel ρ) = (op.eval v).map (Value.relabel ρ) := by
  cases op <;> cases v <;> rfl

section Arguments

variable (ρ : Relabeling)

theorem plainArgs_relabel (args : List Value) :
    plainArgs (args.map (Value.relabel ρ)) = (plainArgs args).map (Value.relabel ρ) := by
  have h : Value.isDictionary ∘ Value.relabel ρ = Value.isDictionary :=
    funext (Value.isDictionary_relabel ρ)
  rw [plainArgs, List.dropWhile_map, h, plainArgs]

theorem leadingDictionaries_relabel (args : List Value) :
    leadingDictionaries (args.map (Value.relabel ρ)) =
      (leadingDictionaries args).map (Dictionary.relabel ρ) := by
  induction args with
  | nil => rfl
  | cons v vs ih =>
    cases v with
    | dictionary d => simp [leadingDictionaries, ih]
    | _ => simp [leadingDictionaries]

mutual

theorem Dictionary.findSuper_relabel (traitName : String) :
    ∀ d : Dictionary, (d.relabel ρ).findSuper traitName = (d.findSuper traitName).map (relabel ρ)
  | ⟨_, _, _, _, supers⟩ => by simp [findSuper, findIn_relabel traitName supers]

theorem Dictionary.findIn_relabel (traitName : String) : ∀ ds : List Dictionary,
    findIn traitName (ds.map (relabel ρ)) = (findIn traitName ds).map (relabel ρ)
  | [] => by simp [findIn]
  | d :: ds => by
    simp only [List.map_cons, findIn, traitName_relabel]
    rw [findSuper_relabel traitName d, findIn_relabel traitName ds]
    split
    · rfl
    · cases findSuper traitName d <;> rfl

end

theorem witnessBindings?_relabel (first : Dictionary) (ps : List WitnessParam)
    (ds : List Dictionary) :
    witnessBindings? (first.relabel ρ) ps (ds.map (Dictionary.relabel ρ)) =
      (witnessBindings? first ps ds).map (Assoc.mapValues (Value.relabel ρ)) := by
  induction ps generalizing ds with
  | nil => simp [witnessBindings?]
  | cons p ps ih =>
    cases ds with
    | cons d ds =>
      have h := ih ds
      cases hb : witnessBindings? first ps ds <;> simp [witnessBindings?, h, hb]
    | nil =>
      have h := ih []
      rw [List.map_nil] at h
      cases hd : first.findSuper p.traitName with
      | none => simp [witnessBindings?, Dictionary.findSuper_relabel, hd]
      | some d =>
        cases hb : witnessBindings? first ps [] <;>
          simp [witnessBindings?, Dictionary.findSuper_relabel, hd, h, hb]

end Arguments

namespace Pattern

variable (ρ : Relabeling)

mutual

theorem bindings?_relabel : ∀ (p : Pattern) (v : Value),
    p.bindings? (v.relabel ρ) = (p.bindings? v).map (Assoc.mapValues (Value.relabel ρ))
  | wildcard, v => by simp [bindings?]
  | var name, v => by simp [bindings?]
  | literal l, v => by
    have h : (Value.ofLiteral l == v.relabel ρ) = (Value.ofLiteral l == v) := by
      rw [← Value.beq_relabel ρ (Value.ofLiteral l) v, Value.relabel_ofLiteral]
    simp only [bindings?, h]
    split <;> rfl
  | constructor name ps, v => by
    cases v with
    | data type ctor vs =>
      simp only [Value.relabel, relabelAll_eq, bindings?, bindingsAll?_relabel ps vs]
      split <;> rfl
    | _ => simp [bindings?]
  | tuple ps, v => by
    cases v with
    | tuple vs => simp [bindings?, bindingsAll?_relabel ps vs]
    | _ => simp [bindings?]
  | record ps, v => by
    cases v with
    | record fields => simp [bindings?, bindingsFields?_relabel ps fields]
    | _ => simp [bindings?]

theorem bindingsAll?_relabel : ∀ (ps : List Pattern) (vs : List Value),
    bindingsAll? ps (vs.map (Value.relabel ρ)) =
      (bindingsAll? ps vs).map (Assoc.mapValues (Value.relabel ρ))
  | [], vs => by cases vs <;> simp [bindingsAll?]
  | p :: ps, vs => by
    cases vs with
    | nil => simp [bindingsAll?]
    | cons v vs =>
      simp only [List.map_cons, bindingsAll?, bindings?_relabel p v, bindingsAll?_relabel ps vs]
      cases p.bindings? v <;> cases bindingsAll? ps vs <;> simp

theorem bindingsFields?_relabel : ∀ (ps : List (String × Pattern)) (fields : List (String × Value)),
    bindingsFields? ps (Assoc.mapValues (Value.relabel ρ) fields) =
      (bindingsFields? ps fields).map (Assoc.mapValues (Value.relabel ρ))
  | [], fields => by simp [bindingsFields?]
  | (name, p) :: ps, fields => by
    simp only [bindingsFields?, Assoc.lookup_mapValues, bindingsFields?_relabel ps fields]
    cases fields.lookup name with
    | none => rfl
    | some v =>
      simp only [Option.map_some, Option.bind_eq_bind, Option.bind_some, bindings?_relabel p v]
      cases p.bindings? v <;> cases bindingsFields? ps fields <;> simp

end

/-- Whether a value matches does not depend on what is replaced. -/
theorem isSome_bindings?_relabel (p : Pattern) (v : Value) :
    (p.bindings? (v.relabel ρ)).isSome = (p.bindings? v).isSome := by
  rw [bindings?_relabel, Option.isSome_map]

mutual

theorem written_relabel : ∀ (p : Pattern) (v : Value),
    p.written (v.relabel ρ) = Assoc.mapValues (Value.relabel ρ) (p.written v)
  | wildcard, v => by simp [written]
  | var name, v => by simp [written]
  | literal l, v => by simp [written]
  | constructor name ps, v => by
    cases v with
    | data type ctor vs =>
      simp only [Value.relabel, relabelAll_eq, written, List.length_map, writtenAll_relabel ps vs]
      split <;> rfl
    | _ => simp [written]
  | tuple ps, v => by
    cases v with
    | tuple vs =>
      simp only [Value.relabel, relabelAll_eq, written, List.length_map, writtenAll_relabel ps vs]
      split <;> rfl
    | _ => simp [written]
  | record ps, v => by
    cases v with
    | record fields => simp [written, writtenFields_relabel ps fields]
    | _ => simp [written]

theorem writtenAll_relabel : ∀ (ps : List Pattern) (vs : List Value),
    writtenAll ps (vs.map (Value.relabel ρ)) =
      Assoc.mapValues (Value.relabel ρ) (writtenAll ps vs)
  | [], vs => by simp [writtenAll]
  | p :: ps, vs => by
    cases vs with
    | nil => simp [writtenAll]
    | cons v vs =>
      simp only [List.map_cons, writtenAll, isSome_bindings?_relabel, written_relabel p v,
        writtenAll_relabel ps vs]
      split <;> simp

theorem writtenFields_relabel : ∀ (ps : List (String × Pattern)) (fields : List (String × Value)),
    writtenFields ps (Assoc.mapValues (Value.relabel ρ) fields) =
      Assoc.mapValues (Value.relabel ρ) (writtenFields ps fields)
  | [], fields => by simp [writtenFields]
  | (name, p) :: ps, fields => by
    simp only [writtenFields, Assoc.lookup_mapValues, writtenFields_relabel ps fields]
    cases fields.lookup name with
    | none => rfl
    | some v =>
      simp only [Option.map_some, isSome_bindings?_relabel, written_relabel p v]
      split <;> simp

end

end Pattern

/-- A scope with what is in its values replaced. -/
def Scope.relabel (ρ : Relabeling) (scope : Scope) : Scope :=
  { scope with bindings := Assoc.mapValues (Value.relabel ρ) scope.bindings }

namespace Store

/-- A store with what is in its values replaced. -/
def relabel (ρ : Relabeling) (s : Store) : Store := ⟨s.scopes.map (Scope.relabel ρ)⟩

variable (ρ : Relabeling) (s : Store)

theorem size_relabel : (s.relabel ρ).scopes.size = s.scopes.size := by simp [relabel]

theorem relabel_relabel (σ : Relabeling) :
    (s.relabel σ).relabel ρ = s.relabel (ρ.comp σ) := by
  have hscope : Scope.relabel ρ ∘ Scope.relabel σ = Scope.relabel (ρ.comp σ) := by
    funext scope
    simp [Scope.relabel, Value.relabel_relabel_fields]
  simp [relabel, hscope]

theorem getElem?_relabel (id : ScopeId) :
    (s.relabel ρ).scopes[id]? = s.scopes[id]?.map (Scope.relabel ρ) := by simp [relabel]

theorem ownerFrom_relabel (name : String) (fuel : Nat) (id : ScopeId) :
    (s.relabel ρ).ownerFrom name fuel id = s.ownerFrom name fuel id := by
  induction fuel generalizing id with
  | zero => rfl
  | succ fuel ih =>
    rw [ownerFrom, ownerFrom, getElem?_relabel]
    cases s.scopes[id]? with
    | none => rfl
    | some scope => simp [Scope.relabel, funext ih]

theorem owner?_relabel (id : ScopeId) (name : String) :
    (s.relabel ρ).owner? id name = s.owner? id name :=
  ownerFrom_relabel ρ s name (id + 1) id

theorem get?_relabel (id : ScopeId) (name : String) :
    (s.relabel ρ).get? id name = (s.get? id name).map (Value.relabel ρ) := by
  have hbinding (owner : ScopeId) :
      (s.relabel ρ).binding? owner name = (s.binding? owner name).map (Value.relabel ρ) := by
    rw [binding?, getElem?_relabel, binding?]
    cases s.scopes[owner]? <;> simp [Scope.relabel]
  rw [get?_eq_owner?, get?_eq_owner?, owner?_relabel]
  cases s.owner? id name with
  | none => rfl
  | some owner => exact hbinding owner

theorem relabel_define (id : ScopeId) (name : String) (v : Value) :
    (s.define id name v).relabel ρ = (s.relabel ρ).define id name (v.relabel ρ) := by
  unfold define relabel
  congr 1
  apply Array.ext_getElem?
  intro i
  simp only [Array.getElem?_map, Array.getElem?_modify]
  split
  · cases s.scopes[i]? with
    | none => rfl
    | some scope => simp [Scope.relabel, Assoc.mapValues_insert]
  · rfl

theorem relabel_child (parent : ScopeId) :
    (s.child parent).1.relabel ρ = ((s.relabel ρ).child parent).1 := by
  simp [child, relabel, Scope.relabel]

end Store

namespace CoreNative

variable {ρ : Relabeling}

theorem joined_relabel (hρ : ρ.Lawful) (args : List Value) :
    joined (args.map (Value.relabel ρ)) = joined args := by
  have h : Value.text ∘ Value.relabel ρ = Value.text := funext (Value.text_relabel hρ)
  rw [joined, List.map_map, h, joined]

theorem lengthOf_relabel (args : List Value) :
    lengthOf (args.map (Value.relabel ρ)) = lengthOf args := by
  rcases args with _ | ⟨v, _ | ⟨w, rest⟩⟩
  · rfl
  · cases v <;> simp [lengthOf, Value.typeName]
  · simp [lengthOf]

/-- The builtins of every interpreter do not look at what is replaced. -/
theorem action_relabel (hρ : ρ.Lawful) (c : CoreNative) (args : List Value) :
    c.action (args.map (Value.relabel ρ)) = c.action args := by
  cases c with
  | print | println => simp [action, joined_relabel hρ]
  | display => cases args <;> simp [action, shown, Value.text_relabel hρ]
  | length => exact lengthOf_relabel args
  | fail => cases args <;> simp [action, Value.text_relabel hρ]
  | errorMessage =>
    rcases args with _ | ⟨v, rest⟩
    · rfl
    · cases v <;> simp [action, Value.typeName, Fault.message, hρ.cause]
  | callDepth | witnessDepth => rfl
  | eq | neq =>
    rcases args with _ | ⟨v, _ | ⟨w, rest⟩⟩
    · rfl
    · rfl
    · simp [action, bne]

end CoreNative

end TraitLang
