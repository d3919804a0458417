import TraitLang.Assoc

/-!
TOML documents: their values, and the tables of a document under construction, which remember how
they came about because that decides who may add to them.
-/
namespace TraitLang

inductive Toml where
  | string (s : String)
  | integer (n : Int)
  /-- the value is not kept -/
  | float
  | bool (b : Bool)
  /-- a date, a time or both; the value is not kept -/
  | datetime
  | array (items : List Toml)
  | table (entries : List (String × Toml))
deriving Inhabited

namespace Toml

/-- How a table came about. -/
inductive Origin where
  /-- on the way to a table with a header of its own -/
  | implicit
  | header
  /-- by a dotted key -/
  | dotted
deriving DecidableEq, Repr

inductive Entry where
  | value (v : Toml)
  | table (origin : Origin) (entries : List (String × Entry))
  /-- a table for each header in double brackets -/
  | tables (items : List (List (String × Entry)))
deriving Inhabited

abbrev Entries := List (String × Entry)

mutual

def Entry.close : Entry → Toml
  | .value v => v
  | .table _ entries => .table (closeAll entries)
  | .tables items => .array (closeTables items)

def closeAll : List (String × Entry) → List (String × Toml)
  | [] => []
  | (k, e) :: rest => (k, e.close) :: closeAll rest

def closeTables : List (List (String × Entry)) → List Toml
  | [] => []
  | t :: ts => .table (closeAll t) :: closeTables ts

end

/-- Changes the table at the end of a path. Tables missing on the way are made with origin `made`,
and those found there have to be `open?`; of several tables under one name the last is meant. -/
def within (made : Origin) (open? : Origin → Bool) (f : Origin → Entries → Option Entries) :
    Origin → List String → Entries → Option Entries
  | origin, [], entries => f origin entries
  | _, k :: ks, entries =>
    match entries.lookup k with
    | none => do return Assoc.insert k (.table made (← within made open? f made ks [])) entries
    | some (.table origin sub) =>
      if open? origin then do
        return Assoc.insert k (.table origin (← within made open? f origin ks sub)) entries
      else none
    | some (.tables items) => do
      let last ← within made open? f .header ks (← items.getLast?)
      return Assoc.insert k (.tables (items.dropLast ++ [last])) entries
    | some (.value _) => none

/-- Adds a value under a dotted key. Only tables made by dotted keys can be extended by them. -/
def addValue (path : List String) (key : String) (v : Toml) (entries : Entries) : Option Entries :=
  within .dotted (· != .header)
    (fun origin table =>
      if (origin == .dotted) == path.isEmpty || Assoc.contains key table then none
      else some (Assoc.insert key (.value v) table))
    .header path entries

def addTable (path : List String) (key : String) (entries : Entries) : Option Entries :=
  within .implicit (fun _ => true)
    (fun _ table =>
      match table.lookup key with
      | none => some (Assoc.insert key (.table .header []) table)
      | some (.table .implicit sub) => some (Assoc.insert key (.table .header sub) table)
      | some _ => none)
    .header path entries

/-- Opens one more table of a header in double brackets. -/
def addArrayTable (path : List String) (key : String) (entries : Entries) : Option Entries :=
  within .implicit (fun _ => true)
    (fun _ table =>
      match table.lookup key with
      | none => some (Assoc.insert key (.tables [[]]) table)
      | some (.tables items) => some (Assoc.insert key (.tables (items ++ [[]])) table)
      | some _ => none)
    .header path entries

/-- Adds a value to the table whose header came last. -/
def addUnder (current path : List String) (key : String) (v : Toml) (entries : Entries) :
    Option Entries :=
  within .implicit (fun _ => true) (fun _ table => addValue path key v table) .header current
    entries

end Toml

end TraitLang
