import Mathlib.Data.List.Forall2
import TraitLang.Proofs.JsonText
import TraitLang.Tree.OfJson
import TraitLang.Tree.ToJson

/-!
Documents that a reader takes apart again. `Reads f j a` says that the text of `j` is read back and
that `f` gets `a` out of `j` whenever there is room for the containers of `j`, so that one induction
over a tree covers both. There is one rule for each way to put documents together: variants, records
with any number of fields, lists, optional values and tables. What follows for trees holds of every
library that writes and reads the standard notation and of every codec for the format.
-/
namespace TraitLang

theorem mapM_of_forall₂ {α β : Type} {f : α → Option β} {as : List α} {bs : List β}
    (h : List.Forall₂ (fun a b => f a = some b) as bs) : as.mapM f = some bs := by
  induction h with
  | nil => rfl
  | cons hb _ ih =>
    rw [List.mapM_cons, hb, ih]
    rfl

namespace Assoc

variable {κ α : Type} [BEq κ] [LawfulBEq κ]

theorem insert_of_not_mem {k : κ} {table : List (κ × α)} (h : k ∉ keys table) (v : α) :
    insert k v table = table ++ [(k, v)] := by
  induction table with
  | nil => rfl
  | cons e rest ih =>
    obtain ⟨hne, hrest⟩ := not_or.1 (mt List.mem_cons.2 h)
    rw [insert, if_neg (mt eq_of_beq hne), ih hrest]
    rfl

/-- Entries with keys that are new and distinct are added as they are. -/
theorem insertAll_eq_append {new table : List (κ × α)} (h : (keys (table ++ new)).Nodup) :
    insertAll new table = table ++ new := by
  induction new generalizing table with
  | nil => rw [List.append_nil]; rfl
  | cons e new ih =>
    have hsplit : table ++ e :: new = (table ++ [e]) ++ new := by simp
    have hfresh : e.1 ∉ keys table := by
      simp only [keys, List.map_append, List.map_cons] at h
      intro hmem
      exact (List.nodup_append.1 h).2.2 _ hmem _ List.mem_cons_self rfl
    rw [hsplit] at h ⊢
    rw [← ih h, ← insert_of_not_mem hfresh]
    rfl

end Assoc

namespace Json

theorem depthAll_le_iff {items : List Json} {n : Nat} :
    depthAll items ≤ n ↔ ∀ j ∈ items, j.depth ≤ n := by
  induction items with
  | nil => simp [depthAll]
  | cons j items ih => rw [depthAll, Nat.max_le, ih, List.forall_mem_cons]

theorem depthMembers_le_iff {members : List (Option String × Json)} {n : Nat} :
    depthMembers members ≤ n ↔ ∀ m ∈ members, m.2.depth ≤ n := by
  induction members with
  | nil => simp [depthMembers]
  | cons m members ih =>
    obtain ⟨key, j⟩ := m
    rw [depthMembers, Nat.max_le, ih, List.forall_mem_cons]

theorem depth_array_le_iff {items : List Json} {room : Nat} :
    (array items).depth ≤ room ↔ ∃ n, room = n + 1 ∧ ∀ j ∈ items, j.depth ≤ n := by
  cases room with
  | zero => simp [depth]
  | succ n => simp [depth, depthAll_le_iff]

theorem depth_record_le_iff {members : List (String × Json)} {room : Nat} :
    (record members).depth ≤ room ↔ ∃ n, room = n + 1 ∧ ∀ m ∈ members, m.2.depth ≤ n := by
  cases room with
  | zero => simp [record, depth]
  | succ n =>
    rw [record, depth, Nat.add_le_add_iff_right, depthMembers_le_iff, List.forall_mem_map]
    simp

theorem plain_record_iff {members : List (String × Json)} :
    (record members).Plain ↔ ∀ m ∈ members, m.2.Plain := by
  rw [record, Plain, membersPlain_iff, List.forall_mem_map]
  simp

theorem plain_ofNat {n : Nat} (h : n < UInt64.size) : (ofNat n).Plain := by
  have hmin : Int64.minValue.toInt ≤ 0 := by decide
  exact ⟨by omega, Int.ofNat_lt.2 h⟩

theorem intIn?_ofInt {low high n : Int} (h : low ≤ n ∧ n ≤ high) :
    (ofInt n).intIn? low high = some n :=
  if_pos h

theorem uint32?_ofNat (n : UInt32) : (ofNat n.toNat).uint32? = some n := by
  have hn : n.toNat < UInt32.size := n.toNat_lt
  have hrange : (0 : Int) ≤ n.toNat ∧ (n.toNat : Int) ≤ UInt32.size - 1 := by omega
  rw [uint32?, ofNat, intIn?_ofInt hrange, Option.map_some, Int.toNat_natCast, UInt32.ofNat_toNat]

/-- The digits of a node identity are read back as a key. -/
theorem nodeKey?_toString (id : NodeId) : nodeKey? (toString id) = some id := by
  have hread := readNumber_toString (id.toNat : Int) stops_nil
  rw [List.append_nil] at hread
  have htext : toString id = toString (id.toNat : Int) := rfl
  rw [nodeKey?, htext, hread]
  exact uint32?_ofNat id

end Json

/-- The text of `j` is read back, and `f` reads `j` as `a` if there is room for its containers. -/
structure Reads {α : Type} (f : Nat → Json → Option α) (j : Json) (a : α) : Prop where
  plain : j.Plain
  read : ∀ room, j.depth ≤ room → f room j = some a

namespace Reads

section Scalars

theorem text (s : String) : Reads (fun _ => Json.text?) (.ofString s) s :=
  ⟨rfl, fun _ _ => rfl⟩

theorem bool (b : Bool) : Reads (fun _ => Json.bool?) (.bool b) b :=
  ⟨trivial, fun _ _ => rfl⟩

theorem char (c : Char) : Reads (fun _ => Json.char?) (.ofString c.toString) c := by
  refine ⟨rfl, fun room _ => ?_⟩
  simp [Json.char?, Json.text?, Json.ofString]

theorem int64 (n : Int64) : Reads (fun _ => Json.int64?) (.ofInt n.toInt) n := by
  have hlt : n.toInt < UInt64.size := Int.lt_of_le_of_lt (Int64.toInt_le n) (by decide)
  refine ⟨⟨Int64.minValue_le_toInt n, hlt⟩, fun room _ => ?_⟩
  have hread := Json.intIn?_ofInt ⟨Int64.minValue_le_toInt n, Int64.toInt_le n⟩
  rw [Json.int64?, hread, Option.map_some, Int64.ofInt_toInt]

theorem uint32 (n : UInt32) : Reads (fun _ => Json.uint32?) (.ofNat n.toNat) n :=
  ⟨Json.plain_ofNat (Nat.lt_trans n.toNat_lt (by decide)), fun _ _ => Json.uint32?_ofNat n⟩

theorem count {n : Nat} (hn : n < UInt64.size) : Reads (fun _ => Json.count?) (.ofNat n) n := by
  refine ⟨Json.plain_ofNat hn, fun room _ => ?_⟩
  have hrange : (0 : Int) ≤ n ∧ (n : Int) ≤ UInt64.size - 1 := by omega
  rw [Json.count?, Json.ofNat, Json.intIn?_ofInt hrange, Option.map_some, Int.toNat_natCast]

end Scalars

end Reads

/-- A field of a record and how it is read. -/
structure Field where
  {type : Type}
  name : String
  {json : Json}
  {read : Nat → Json → Option type}
  {value : type}
  reads : Reads read json value

namespace Field

variable {α : Type}

def members (fs : List Field) : List (String × Json) := fs.map fun f => (f.name, f.json)

/-- What makes a value out of the fields. -/
def Maker : List Field → Type → Type
  | [], α => α
  | f :: fs, α => f.type → Maker fs α

/-- Reads the fields one after the other. -/
def gather (room : Nat) : (fs : List Field) → Maker fs α → Option α
  | [], a => some a
  | f :: fs, make => (f.read room f.json).bind fun b => gather room fs (make b)

/-- The value that the fields make up. -/
def assemble : (fs : List Field) → Maker fs α → α
  | [], a => a
  | f :: fs, make => assemble fs (make f.value)

theorem gather_eq {room : Nat} {fs : List Field} (h : ∀ m ∈ members fs, m.2.depth ≤ room)
    (make : Maker fs α) : gather room fs make = some (assemble fs make) := by
  induction fs with
  | nil => rfl
  | cons f fs ih =>
    obtain ⟨hf, hfs⟩ := List.forall_mem_cons.1 h
    rw [gather, f.reads.read room hf, Option.bind_some, ih hfs]
    rfl

end Field

namespace Reads

section Containers

variable {α β : Type} {f : Nat → Json → Option α} {g : Nat → Json → Option β} {j : Json} {a : α}
  {b : β} {tag : String}

/-- A record whose reader reads its fields in their order. -/
theorem record (fs : List Field) (make : Field.Maker fs α)
    (hf : ∀ room, f (room + 1) (.record (Field.members fs)) = Field.gather room fs make) :
    Reads f (.record (Field.members fs)) (Field.assemble fs make) := by
  constructor
  · rw [Json.plain_record_iff, Field.members, List.forall_mem_map]
    exact fun field _ => field.reads.plain
  · intro room hroom
    obtain ⟨n, rfl, hn⟩ := Json.depth_record_le_iff.1 hroom
    rw [hf, Field.gather_eq hn]

theorem of_variant (h : Reads g j b)
    (hf : ∀ room, g room j = some b → f (room + 1) (.variant tag j) = some a) :
    Reads f (.variant tag j) a := by
  have hrecord : Json.variant tag j = .record [(tag, j)] := rfl
  constructor
  · rw [hrecord, Json.plain_record_iff, List.forall_mem_singleton]
    exact h.plain
  · intro room hroom
    obtain ⟨n, rfl, hn⟩ := Json.depth_record_le_iff.1 (hrecord ▸ hroom)
    exact hf n (h.read n (hn _ List.mem_cons_self))

/-- A variant that wraps its content. -/
theorem variant (h : Reads g j b) (make : β → α)
    (hf : ∀ room, f (room + 1) (.variant tag j) = (g room j).bind fun b => some (make b)) :
    Reads f (.variant tag j) (make b) :=
  h.of_variant fun room hread => by rw [hf, hread, Option.bind_some]

/-- A variant with named fields, which a reader `g` gets from the tag and the content. -/
theorem fields (g : Nat → String → Json → Option α) (fs : List Field) (make : Field.Maker fs α)
    (hf : ∀ room, f (room + 1) (.fields tag (Field.members fs)) =
      g room tag (.record (Field.members fs)))
    (hg : ∀ room, g (room + 1) tag (.record (Field.members fs)) = Field.gather room fs make) :
    Reads f (.fields tag (Field.members fs)) (Field.assemble fs make) :=
  (record fs make hg).of_variant fun room hread => by rw [← hread]; exact hf room

theorem array {g : Nat → Json → Option (List α)} {items : List Json} {as : List α}
    (h : List.Forall₂ (Reads f) items as)
    (hg : ∀ room, g (room + 1) (.array items) = items.mapM (f room)) :
    Reads g (.array items) as := by
  constructor
  · rw [Json.Plain, Json.allPlain_iff]
    clear hg
    induction h with
    | nil => simp
    | cons hj _ ih => exact List.forall_mem_cons.2 ⟨hj.plain, ih⟩
  · intro room hroom
    obtain ⟨n, rfl, hn⟩ := Json.depth_array_le_iff.1 hroom
    have hread := ((List.forall₂_and_left _ _).2 ⟨hn, h⟩).imp fun _ _ hj => hj.2.read n hj.1
    rw [hg, mapM_of_forall₂ hread]

theorem each {write : α → Json} {as : List α} (h : ∀ a ∈ as, Reads f (write a) a) :
    List.Forall₂ (Reads f) (as.map write) as := by
  rw [List.forall₂_map_left_iff, List.forall₂_same]
  exact h

theorem list {write : α → Json} {as : List α} (h : ∀ a ∈ as, Reads f (write a) a) :
    Reads (Json.list? f) (.array (as.map write)) as :=
  array (each h) fun _ => rfl

/-- A name and a value, as a list of two. -/
theorem entry {f : Nat → Json → Option (String × β)} (name : String) (h : Reads g j b)
    (hf : ∀ room, f (room + 1) (.array [.ofString name, j]) =
      (g room j).bind fun b => some (name, b)) :
    Reads f (.array [.ofString name, j]) (name, b) := by
  constructor
  · rw [Json.Plain, Json.allPlain_iff]
    exact List.forall_mem_cons.2 ⟨rfl, List.forall_mem_singleton.2 h.plain⟩
  · intro room hroom
    obtain ⟨n, rfl, hn⟩ := Json.depth_array_le_iff.1 hroom
    have hj : j.depth ≤ n := hn j (by simp)
    rw [hf, h.read n hj, Option.bind_some]

theorem absent : Reads (fun room => Json.nullable (f room)) .null none :=
  ⟨trivial, fun _ _ => rfl⟩

theorem present (h : Reads f j a) (hj : j ≠ .null) :
    Reads (fun room => Json.nullable (f room)) j (some a) := by
  refine ⟨h.plain, fun room hroom => ?_⟩
  have hnullable : Json.nullable (f room) j = (f room j).map some := by
    cases j <;> first | exact absurd rfl hj | rfl
  rw [hnullable, h.read room hroom, Option.map_some]

theorem option {write : α → Json} (o : Option α) (h : ∀ a, o = some a → Reads f (write a) a)
    (hwrite : ∀ a, write a ≠ .null) :
    Reads (fun room => Json.nullable (f room)) (.ofOption write o) o := by
  cases o with
  | none => exact absent
  | some a => exact (h a rfl).present (hwrite a)

end Containers

/-- A table with distinct keys, the text of each of which is read back. -/
theorem table {κ α : Type} [BEq κ] [LawfulBEq κ] {f : Nat → Json → Option α} {key : κ → String}
    {key? : String → Option κ} {write : α → Json} {entries : List (κ × α)}
    (hkey : ∀ k, key? (key k) = some k) (hdistinct : (Assoc.keys entries).Nodup)
    (h : ∀ e ∈ entries, Reads f (write e.2) e.2) :
    Reads (Json.table? key? f) (.ofTable key write entries) entries := by
  constructor
  · rw [Json.ofTable, Json.plain_record_iff, List.forall_mem_map]
    exact fun e he => (h e he).plain
  · intro room hroom
    obtain ⟨n, rfl, hn⟩ := Json.depth_record_le_iff.1 hroom
    rw [List.forall_mem_map] at hn
    have hobject : Json.ofTable key write entries =
        .object (entries.map fun e => (some (key e.1), write e.2)) := by
      rw [Json.ofTable, Json.record, List.map_map]
      rfl
    have hread : List.Forall₂
        (fun m e => (do return (← key? (← m.1), ← f n m.2)) = some e)
        (entries.map fun e => (some (key e.1), write e.2)) entries := by
      rw [List.forall₂_map_left_iff, List.forall₂_same]
      intro e he
      simp [hkey, (h e he).read n (hn e he)]
    have hall : Assoc.insertAll entries [] = entries := Assoc.insertAll_eq_append hdistinct
    rw [hobject, Json.table?]
    exact Option.bind_eq_some_iff.2 ⟨entries, mapM_of_forall₂ hread, congrArg some hall⟩

end Reads

/-! ### Libraries -/

/-- What a program uses of a library for JSON: it writes documents on one line or indented, and
reads texts. -/
structure Json.Library where
  compact : Json → String
  pretty : Json → String
  read? : String → Option Json

/-- The library writes the notation of this development, and reads what is written in it unless too
many containers are open at once. -/
structure Json.Library.Standard (lib : Json.Library) : Prop where
  compact : ∀ {j : Json}, j.Plain → lib.compact j = j.compact
  pretty : ∀ {j : Json}, j.Plain → lib.pretty j = j.pretty 0
  read? : ∀ {text : String} {j : Json}, Json.parse? text = some j → j.Plain →
    j.depth ≤ nestingLimit → lib.read? text = some j

/-- Code that makes documents out of trees of one kind, and trees out of documents. -/
structure Codec (α : Type) where
  encode : α → Json
  decode? : Json → Option α

/-- The codec makes the documents that `write` makes, and reads what `read?` reads with room for as
many containers as a text may have. -/
structure Codec.Follows {α : Type} (c : Codec α) (write : α → Json)
    (read? : Nat → Json → Option α) : Prop where
  encode : ∀ a, c.encode a = write a
  decode? : ∀ {j a}, read? nestingLimit j = some a → c.decode? j = some a

/-- What the library writes for a tree: a line, an indented text, and one with a line break behind
it as in a dump. -/
def Codec.texts {α : Type} (c : Codec α) (lib : Json.Library) (a : α) : List String :=
  [lib.compact (c.encode a), lib.pretty (c.encode a), lib.pretty (c.encode a) ++ "\n"]

/-- Every codec for the format `write` reads a tree back from each text that the library writes for
it, if no more containers are open at once than the library admits. -/
def Json.Library.ReadsBack {α : Type} (lib : Json.Library) (write : α → Json)
    (read? : Nat → Json → Option α) (a : α) : Prop :=
  ∀ c : Codec α, c.Follows write read? → (write a).depth ≤ nestingLimit →
    ∀ text ∈ c.texts lib a, (lib.read? text).bind c.decode? = some a

theorem Reads.readsBack {α : Type} {write : α → Json} {f : Nat → Json → Option α} {a : α}
    (h : Reads f (write a) a) {lib : Json.Library} (hlib : lib.Standard) :
    lib.ReadsBack write f a := by
  intro c hc hdepth text htext
  have hwritten : text ∈ (write a).texts := by
    rwa [Codec.texts, hc.encode, hlib.compact h.plain, hlib.pretty h.plain] at htext
  have hread := Json.parse?_of_mem_texts h.plain hwritten
  rw [hlib.read? hread h.plain hdepth, Option.bind_some]
  exact hc.decode? (h.read nestingLimit hdepth)

/-- The library of this development. -/
def Json.Library.own : Json.Library where
  compact := Json.compact
  pretty := Json.pretty 0
  read? := Json.parse?

theorem Json.Library.own_standard : Json.Library.own.Standard where
  compact _ := rfl
  pretty _ := rfl
  read? h _ _ := h

/-- The codec of this development for a kind of tree. -/
def Codec.own {α : Type} (write : α → Json) (read? : Nat → Json → Option α) : Codec α where
  encode := write
  decode? := read? nestingLimit

theorem Codec.own_follows {α : Type} (write : α → Json) (read? : Nat → Json → Option α) :
    (Codec.own write read?).Follows write read? :=
  ⟨fun _ => rfl, id⟩

end TraitLang
