import TraitLang.Json.Printer
import TraitLang.Json.Reader

/-!
JSON text that is written is read back. Both ways of writing, on one line and indented, differ in
their blanks only. Main statement: for a document whose numbers are integers and whose strings are
whole, reading either text gives the document, also with a line break behind it.
-/
namespace TraitLang.Json

section Blanks

variable {blanks rest : List Char} {c : Char}

theorem isBlank_iff : isBlank c = true ↔ c = ' ' ∨ c = '\t' ∨ c = '\n' ∨ c = '\r' := by
  simp [isBlank, or_assoc]

theorem isBlank_of_isDigit (h : c.isDigit = true) : isBlank c = false := by
  cases hblank : isBlank c with
  | false => rfl
  | true =>
    rcases isBlank_iff.1 hblank with rfl | rfl | rfl | rfl <;> revert h <;> decide

theorem skipBlank_append (h : ∀ c ∈ blanks, isBlank c = true) :
    skipBlank (blanks ++ rest) = skipBlank rest :=
  List.dropWhile_append_of_pos h

theorem skipBlank_cons (h : isBlank c = false) : skipBlank (c :: rest) = c :: rest := by
  simp [skipBlank, h]

theorem skipBlank_append_cons (h : ∀ c ∈ blanks, isBlank c = true) (hc : isBlank c = false) :
    skipBlank (blanks ++ c :: rest) = c :: rest := by
  rw [skipBlank_append h, skipBlank_cons hc]

end Blanks

section Numbers

variable {rest : List Char} {c : Char}

/-- The text does not go on with a number. -/
def Stops (rest : List Char) : Prop :=
  ∀ c, rest.head? = some c → c.isDigit = false ∧ c ≠ '.' ∧ c ≠ 'e' ∧ c ≠ 'E'

theorem stops_nil : Stops [] := by
  intro c hc
  cases hc

theorem stops_cons (h : c.isDigit = false ∧ c ≠ '.' ∧ c ≠ 'e' ∧ c ≠ 'E') : Stops (c :: rest) := by
  intro d hd
  cases hd
  exact h

theorem stops_blank (h : isBlank c = true) : Stops (c :: rest) := by
  rcases isBlank_iff.1 h with rfl | rfl | rfl | rfl <;> exact stops_cons (by decide)

theorem Stops.append {blanks : List Char} (h : Stops rest)
    (hblanks : ∀ c ∈ blanks, isBlank c = true) : Stops (blanks ++ rest) := by
  cases blanks with
  | nil => exact h
  | cons c blanks => exact stops_blank (hblanks c List.mem_cons_self)

theorem spanDigits_append {ds : List Char} (hds : ∀ c ∈ ds, c.isDigit = true) (h : Stops rest) :
    spanDigits (ds ++ rest) = (ds, rest) := by
  have htake : rest.takeWhile Char.isDigit = [] ∧ rest.dropWhile Char.isDigit = rest := by
    cases rest with
    | nil => exact ⟨rfl, rfl⟩
    | cons c rest => simp [(h c rfl).1]
  rw [spanDigits, List.takeWhile_append_of_pos hds, List.dropWhile_append_of_pos hds, htake.1,
    htake.2, List.append_nil]

theorem digitsValue_toDigits (n : Nat) : digitsValue (Nat.toDigits 10 n) = n := by
  have hvalue := @Nat.ofDigitChars_ten_toDigits n
  rw [Nat.ofDigitChars_eq_foldl] at hvalue
  simpa only [digitsValue, Nat.mul_comm] using hvalue

/-- A number of more than one digit does not start with zero. -/
theorem toDigits_ne_zero_cons (n : Nat) (d : Char) (ds : List Char) :
    Nat.toDigits 10 n ≠ '0' :: d :: ds := by
  intro h
  induction n using Nat.strongRecOn generalizing d ds with
  | ind n ih =>
    by_cases hn : n < 10
    · rw [Nat.toDigits_of_lt_base hn] at h
      simp at h
    · rw [Nat.toDigits_of_base_le (by decide) (by omega)] at h
      have hlt : n / 10 < n := by omega
      cases hq : Nat.toDigits 10 (n / 10) with
      | nil => exact Nat.toDigits_ne_nil hq
      | cons e es =>
        rw [hq] at h
        obtain ⟨rfl, h⟩ := List.cons.inj h
        cases es with
        | nil =>
          have hvalue := digitsValue_toDigits (n / 10)
          rw [hq] at hvalue
          have hzero : n / 10 = 0 := hvalue.symm
          omega
        | cons d' es => exact ih (n / 10) hlt d' es hq

theorem readFraction_stops (h : Stops rest) : readFraction rest = some ([], rest) := by
  cases rest with
  | nil => rfl
  | cons c rest =>
    have hpoint := (h c rfl).2.1
    unfold readFraction
    split
    · simp_all
    · rfl

theorem readExponent_stops (h : Stops rest) : readExponent rest = some (none, rest) := by
  cases rest with
  | nil => rfl
  | cons c rest =>
    have hmark := (h c rfl).2.2
    simp [readExponent, hmark.1, hmark.2]

theorem readMagnitude_toDigits {negative : Bool} {n : Nat} (hn : negative = true → n ≠ 0)
    (h : Stops rest) : readMagnitude negative (Nat.toDigits 10 n ++ rest) =
      some (.integer (if negative then -n else n), rest) := by
  have hspan : spanDigits (Nat.toDigits 10 n ++ rest) = (Nat.toDigits 10 n, rest) :=
    spanDigits_append (fun c hc => Nat.isDigit_of_mem_toDigits (by decide) (by decide) hc) h
  unfold readMagnitude
  rw [hspan]
  dsimp only
  split
  · rename_i hempty
    exact absurd hempty Nat.toDigits_ne_nil
  · rename_i hzero
    exact absurd hzero (toDigits_ne_zero_cons n _ _)
  · cases negative with
    | false => simp [readFraction_stops h, readExponent_stops h, digitsValue_toDigits]
    | true => simp [readFraction_stops h, readExponent_stops h, digitsValue_toDigits, hn rfl]

theorem toDigits_head (n : Nat) :
    ∃ d ds, Nat.toDigits 10 n = d :: ds ∧ d.isDigit = true := by
  cases hdigits : Nat.toDigits 10 n with
  | nil => exact absurd hdigits Nat.toDigits_ne_nil
  | cons d ds =>
    have hmem : d ∈ Nat.toDigits 10 n := by simp [hdigits]
    exact ⟨d, ds, rfl, Nat.isDigit_of_mem_toDigits (by decide) (by decide) hmem⟩

/-- An integer starts with a digit or with its sign. -/
theorem toString_head (n : Int) :
    ∃ c cs, (toString n).toList = c :: cs ∧ (c.isDigit = true ∨ c = '-') := by
  rw [Int.toString_eq_repr, Int.repr_eq_if]
  split
  · obtain ⟨d, ds, hdigits, hd⟩ := toDigits_head n.toNat
    exact ⟨d, ds, by rw [Nat.toList_repr, hdigits], .inl hd⟩
  · exact ⟨'-', _, String.toList_append, .inr rfl⟩

theorem readNumber_toString (n : Int) (h : Stops rest) :
    readNumber ((toString n).toList ++ rest) = some (.integer n, rest) := by
  rw [Int.toString_eq_repr, Int.repr_eq_if]
  by_cases hn : 0 ≤ n
  · rw [if_pos hn, Nat.toList_repr]
    have hread : readMagnitude false (Nat.toDigits 10 n.toNat ++ rest) =
        some (.integer n, rest) := by
      rw [readMagnitude_toDigits (by simp) h]
      simp [Int.toNat_of_nonneg hn]
    obtain ⟨d, ds, hdigits, hd⟩ := toDigits_head n.toNat
    rw [hdigits] at hread ⊢
    unfold readNumber
    split
    · simp_all
    · exact hread
  · rw [if_neg hn, String.toList_append, Nat.toList_repr]
    have hvalue : -((-n).toNat : Int) = n := by omega
    have hread : readMagnitude true (Nat.toDigits 10 (-n).toNat ++ rest) =
        some (.integer n, rest) := by
      rw [readMagnitude_toDigits (by omega) h, if_pos rfl, hvalue]
    exact hread

end Numbers

section Strings

theorem hexValue?_hexDigit : ∀ n < 16, hexValue? (hexDigit n) = some n := by decide

variable {p : Draft} {rest : List Char} {c : Char}

theorem Draft.unit_eq_push (hp : p.high = none) {n : Nat} (hn : n < 0x20) :
    p.unit n = p.push (Char.ofNat n) := by
  have hhigh : ¬ 0xD800 ≤ n := by omega
  have hlow : ¬ 0xDC00 ≤ n := by omega
  simp [Draft.unit, hp, hhigh, hlow]

theorem readText_control (hp : p.high = none) (hc : c.toNat < 0x20) :
    readText p ('\\' :: 'u' :: '0' :: '0' :: hexDigit (c.toNat / 16) :: hexDigit (c.toNat % 16) ::
      rest) = readText (p.push c) rest := by
  have hfirst := hexValue?_hexDigit (c.toNat / 16) (by omega)
  have hsecond := hexValue?_hexDigit (c.toNat % 16) (by omega)
  have hzero : hexValue? '0' = some 0 := by decide
  have hcode : hex4? '0' '0' (hexDigit (c.toNat / 16)) (hexDigit (c.toNat % 16)) =
      some c.toNat := by
    simp only [hex4?, hfirst, hsecond, hzero, Option.pure_def, Option.bind_eq_bind,
      Option.bind_some]
    congr 1
    omega
  rw [readText]
  simp only [hcode, Draft.unit_eq_push hp hc, Char.ofNat_toNat]

theorem readText_printable (hquote : c ≠ '"') (hback : c ≠ '\\') (hc : ¬ c.toNat < 0x20) :
    readText p (c :: rest) = readText (p.push c) rest := by
  rw [readText, if_neg (by simp [hc, hback])] <;> simp_all

/-- An escaped character is read as itself. -/
theorem readText_escape (hp : p.high = none) (c : Char) (rest : List Char) :
    readText p (escape c ++ rest) = readText (p.push c) rest := by
  by_cases hshort : c ∈ ['"', '\\', '\x08', '\x0c', '\n', '\r', '\t']
  · simp only [List.mem_cons, List.not_mem_nil, or_false] at hshort
    rcases hshort with rfl | rfl | rfl | rfl | rfl | rfl | rfl <;> rfl
  simp only [List.mem_cons, List.not_mem_nil, or_false, not_or] at hshort
  obtain ⟨hquote, hback, hb, hf, hn, hr, ht⟩ := hshort
  rw [escape, if_neg hquote, if_neg hback, if_neg hb, if_neg hf, if_neg hn, if_neg hr, if_neg ht]
  by_cases hc : c.toNat < 0x20
  · rw [if_pos hc]
    exact readText_control hp hc
  · rw [if_neg hc]
    exact readText_printable hquote hback hc

theorem readText_flatMap (cs rest : List Char) (hp : p.high = none) :
    readText p (cs.flatMap escape ++ '"' :: rest) =
      some ((Draft.mk (cs.reverse ++ p.chars) none p.sound).finish, rest) := by
  induction cs generalizing p with
  | nil =>
    rw [List.flatMap_nil, List.nil_append, readText]
    obtain ⟨chars, high, sound⟩ := p
    obtain rfl : high = none := hp
    rfl
  | cons c cs ih =>
    rw [List.flatMap_cons, List.append_assoc, readText_escape hp, ih rfl]
    simp [Draft.push, hp]

/-- A string that was quoted is read up to its closing quote. -/
theorem readText_quote (s : String) (rest : List Char) :
    ∃ cs, (quote s).toList = '"' :: cs ∧ readText {} (cs ++ rest) = some (some s, rest) := by
  refine ⟨s.toList.flatMap escape ++ ['"'], ?_, ?_⟩
  · rw [quote, String.toList_ofList, List.cons_append]
  · rw [List.append_assoc, List.singleton_append, readText_flatMap _ _ rfl]
    simp [Draft.finish, String.ofList_toList]

end Strings

mutual

/-- All numbers are integers of 64 bits, with or without a sign, and all strings are whole. -/
def Plain : Json → Prop
  | null | bool _ => True
  | number (.integer n) => Int64.minValue.toInt ≤ n ∧ n < UInt64.size
  | number (.decimal _ _) => False
  | string s => s.isSome
  | array items => allPlain items
  | object members => membersPlain members

def allPlain : List Json → Prop
  | [] => True
  | j :: js => j.Plain ∧ allPlain js

def membersPlain : List (Option String × Json) → Prop
  | [] => True
  | (key, j) :: members => (key.isSome ∧ j.Plain) ∧ membersPlain members

end

@[simp] theorem allPlain_iff (items : List Json) : allPlain items ↔ ∀ j ∈ items, j.Plain := by
  induction items with
  | nil => simp [allPlain]
  | cons j items ih => simp [allPlain, ih]

@[simp] theorem membersPlain_iff (members : List (Option String × Json)) :
    membersPlain members ↔ ∀ m ∈ members, m.1.isSome ∧ m.2.Plain := by
  induction members with
  | nil => simp [membersPlain]
  | cons m members ih => simp [membersPlain, ih]

/-- Where blanks stand. -/
structure Layout where
  /-- in front of an item at a level, and of the bracket that ends a list of items below it -/
  gap : Nat → List Char
  /-- behind a colon -/
  space : List Char
  isBlank_gap : ∀ level, ∀ c ∈ gap level, isBlank c = true
  isBlank_space : ∀ c ∈ space, isBlank c = true

namespace Layout

mutual

/-- The text of a document at a level. -/
def text (l : Layout) (level : Nat) : Json → List Char
  | .null => ['n', 'u', 'l', 'l']
  | .bool true => ['t', 'r', 'u', 'e']
  | .bool false => ['f', 'a', 'l', 's', 'e']
  | .number n => (numberText n).toList
  | .string s => (quote (s.getD "")).toList
  | .array [] => ['[', ']']
  | .array (j :: items) =>
    '[' :: (l.gap (level + 1) ++ (l.itemsText (level + 1) (j :: items) ++ (l.gap level ++ [']'])))
  | .object [] => ['\x7b', '\x7d']
  | .object (m :: members) =>
    '\x7b' :: (l.gap (level + 1) ++
      (l.membersText (level + 1) (m :: members) ++ (l.gap level ++ ['\x7d'])))

def itemsText (l : Layout) (level : Nat) : List Json → List Char
  | [] => []
  | [j] => l.text level j
  | j :: k :: items => l.text level j ++ ',' :: (l.gap level ++ l.itemsText level (k :: items))

def membersText (l : Layout) (level : Nat) : List (Option String × Json) → List Char
  | [] => []
  | [(key, j)] => (quote (key.getD "")).toList ++ ':' :: (l.space ++ l.text level j)
  | (key, j) :: m :: members =>
    (quote (key.getD "")).toList ++ ':' :: (l.space ++ (l.text level j ++
      ',' :: (l.gap level ++ l.membersText level (m :: members))))

end

/-- No blanks at all. -/
def onOneLine : Layout where
  gap _ := []
  space := []
  isBlank_gap _ _ h := absurd h List.not_mem_nil
  isBlank_space _ h := absurd h List.not_mem_nil

/-- Each item on a line of its own. -/
def indented : Layout where
  gap level := (newline level).toList
  space := [' ']
  isBlank_gap level c h := by
    have htext : (newline level).toList = '\n' :: List.replicate (2 * level) ' ' := by
      simp [newline]
    rw [htext] at h
    rcases List.mem_cons.1 h with rfl | h
    · decide
    · rw [List.eq_of_mem_replicate h]
      decide
  isBlank_space c h := by simp [List.mem_singleton.1 h, isBlank]

end Layout

mutual

theorem toList_compact : ∀ (j : Json) (level : Nat),
    j.compact.toList = Layout.onOneLine.text level j
  | .null, _ | .bool true, _ | .bool false, _ | .number _, _ | .string _, _ => by
    simp [compact, Layout.text]
  | .array [], _ | .object [], _ => by
    simp [compact, compactItems, compactMembers, Layout.text]
  | .array (j :: items), level => by
    simp [compact, Layout.text, toList_compactItems (j :: items) (level + 1), Layout.onOneLine]
  | .object (m :: members), level => by
    simp [compact, Layout.text, toList_compactMembers (m :: members) (level + 1), Layout.onOneLine]

theorem toList_compactItems : ∀ (items : List Json) (level : Nat),
    (compactItems items).toList = Layout.onOneLine.itemsText level items
  | [], _ => by simp [compactItems, Layout.itemsText]
  | [j], level => by simp [compactItems, Layout.itemsText, toList_compact j level]
  | j :: k :: items, level => by
    simp [compactItems, Layout.itemsText, toList_compact j level,
      toList_compactItems (k :: items) level, Layout.onOneLine]

theorem toList_compactMembers : ∀ (members : List (Option String × Json)) (level : Nat),
    (compactMembers members).toList = Layout.onOneLine.membersText level members
  | [], _ => by simp [compactMembers, Layout.membersText]
  | [(key, j)], level => by
    simp [compactMembers, Layout.membersText, toList_compact j level, Layout.onOneLine]
  | (key, j) :: m :: members, level => by
    simp [compactMembers, Layout.membersText, toList_compact j level,
      toList_compactMembers (m :: members) level, Layout.onOneLine]

end

mutual

theorem toList_pretty : ∀ (j : Json) (level : Nat),
    (j.pretty level).toList = Layout.indented.text level j
  | .null, _ | .bool true, _ | .bool false, _ | .number _, _ | .string _, _ | .array [], _
  | .object [], _ => by simp [pretty, Layout.text]
  | .array (j :: items), level => by
    simp [pretty, Layout.text, toList_prettyItems (j :: items) (level + 1), Layout.indented]
  | .object (m :: members), level => by
    simp [pretty, Layout.text, toList_prettyMembers (m :: members) (level + 1), Layout.indented]

theorem toList_prettyItems : ∀ (items : List Json) (level : Nat), items ≠ [] →
    (prettyItems level items).toList =
      (newline level).toList ++ Layout.indented.itemsText level items
  | [], _, h => absurd rfl h
  | [j], level, _ => by simp [prettyItems, Layout.itemsText, toList_pretty j level]
  | j :: k :: items, level, _ => by
    have hrest := toList_prettyItems (k :: items) level (by simp)
    simp [prettyItems, Layout.itemsText, toList_pretty j level, hrest, Layout.indented]

theorem toList_prettyMembers : ∀ (members : List (Option String × Json)) (level : Nat),
    members ≠ [] → (prettyMembers level members).toList =
      (newline level).toList ++ Layout.indented.membersText level members
  | [], _, h => absurd rfl h
  | [(key, j)], level, _ => by
    simp [prettyMembers, Layout.membersText, toList_pretty j level, Layout.indented]
  | (key, j) :: m :: members, level, _ => by
    have hrest := toList_prettyMembers (m :: members) level (by simp)
    simp [prettyMembers, Layout.membersText, toList_pretty j level, hrest, Layout.indented]

end

section Steps

variable {fuel : Nat} {blanks space cs rest : List Char} {c : Char} {j : Json} {items : List Json}
  {key : Option String} {members : List (Option String × Json)}

theorem readValue_number (hc : c.isDigit = true ∨ c = '-') :
    readValue (fuel + 1) (c :: cs) =
      (readNumber (c :: cs)).map fun r => (.number r.1, r.2) := by
  have hne : c ≠ 'n' ∧ c ≠ 't' ∧ c ≠ 'f' ∧ c ≠ '"' ∧ c ≠ '[' ∧ c ≠ '\x7b' := by
    refine ⟨?_, ?_, ?_, ?_, ?_, ?_⟩ <;> rintro rfl <;> revert hc <;> decide
  rw [readValue] <;> simp_all

theorem readValue_array (hblanks : ∀ c ∈ blanks, isBlank c = true) (hc : isBlank c = false)
    (hne : c ≠ ']') : readValue (fuel + 1) ('[' :: (blanks ++ c :: cs)) =
      (readItems fuel (c :: cs)).map fun r => (.array r.1, r.2) := by
  rw [readValue, skipBlank_append_cons hblanks hc]
  split
  · simp_all
  · rfl

theorem readValue_object (hblanks : ∀ c ∈ blanks, isBlank c = true) :
    readValue (fuel + 1) ('\x7b' :: (blanks ++ '"' :: cs)) =
      (readMembers fuel ('"' :: cs)).map fun r => (.object r.1, r.2) := by
  rw [readValue, skipBlank_append_cons hblanks (by decide)]
  rfl

theorem readItems_last (hblanks : ∀ c ∈ blanks, isBlank c = true)
    (hj : readValue fuel cs = some (j, blanks ++ ']' :: rest)) :
    readItems (fuel + 1) cs = some ([j], rest) := by
  simp [readItems, hj, skipBlank_append_cons hblanks (c := ']') (by decide)]

theorem readItems_cons (hblanks : ∀ c ∈ blanks, isBlank c = true) (hc : isBlank c = false)
    (hj : readValue fuel cs = some (j, ',' :: (blanks ++ c :: rest)))
    {rest' : List Char} (hitems : readItems fuel (c :: rest) = some (items, rest')) :
    readItems (fuel + 1) cs = some (j :: items, rest') := by
  simp [readItems, hj, skipBlank_cons (c := ',') (by decide), skipBlank_append_cons hblanks hc,
    hitems]

theorem readMembers_last (hkey : readText {} cs = some (key, ':' :: (space ++ c :: rest)))
    (hspace : ∀ c ∈ space, isBlank c = true) (hc : isBlank c = false) {rest' : List Char}
    (hblanks : ∀ c ∈ blanks, isBlank c = true)
    (hj : readValue fuel (c :: rest) = some (j, blanks ++ '\x7d' :: rest')) :
    readMembers (fuel + 1) ('"' :: cs) = some ([(key, j)], rest') := by
  simp [readMembers, hkey, skipBlank_cons (c := ':') (by decide), skipBlank_append_cons hspace hc,
    hj, skipBlank_append_cons hblanks (c := '\x7d') (by decide)]

theorem readMembers_cons (hkey : readText {} cs = some (key, ':' :: (space ++ c :: rest)))
    (hspace : ∀ c ∈ space, isBlank c = true) (hc : isBlank c = false) {rest₁ rest₂ : List Char}
    (hblanks : ∀ c ∈ blanks, isBlank c = true)
    (hj : readValue fuel (c :: rest) = some (j, ',' :: (blanks ++ '"' :: rest₁)))
    (hmembers : readMembers fuel ('"' :: rest₁) = some (members, rest₂)) :
    readMembers (fuel + 1) ('"' :: cs) = some ((key, j) :: members, rest₂) := by
  simp [readMembers, hkey, skipBlank_cons (c := ':') (by decide), skipBlank_append_cons hspace hc,
    hj, skipBlank_cons (c := ',') (by decide), skipBlank_append_cons hblanks (c := '"') (by decide),
    hmembers]

end Steps

namespace Layout

variable {l : Layout}

/-- A text starts with no blank, and with no bracket that closes. -/
theorem text_head {j : Json} (hj : j.Plain) (level : Nat) :
    ∃ c cs, l.text level j = c :: cs ∧ isBlank c = false ∧ c ≠ ']' := by
  cases j with
  | null => exact ⟨'n', _, rfl, by decide⟩
  | bool b => cases b <;> exact ⟨_, _, rfl, by decide⟩
  | number n =>
    cases n with
    | decimal negative magnitude => exact hj.elim
    | integer n =>
      obtain ⟨c, cs, htext, hc⟩ := toString_head n
      refine ⟨c, cs, htext, ?_⟩
      rcases hc with hdigit | rfl
      · refine ⟨isBlank_of_isDigit hdigit, ?_⟩
        rintro rfl
        revert hdigit
        decide
      · decide
  | string s =>
    obtain ⟨cs, htext, -⟩ := readText_quote (s.getD "") []
    exact ⟨'"', cs, htext, by decide⟩
  | array items => cases items <;> exact ⟨'[', _, rfl, by decide⟩
  | object members => cases members <;> exact ⟨'\x7b', _, rfl, by decide⟩

theorem itemsText_head {j : Json} (hj : j.Plain) (items : List Json) (level : Nat) :
    ∃ c cs, l.itemsText level (j :: items) = c :: cs ∧ isBlank c = false ∧ c ≠ ']' := by
  obtain ⟨c, cs, htext, hc⟩ := l.text_head hj level
  cases items with
  | nil => exact ⟨c, cs, htext, hc⟩
  | cons k items => exact ⟨c, _, by rw [itemsText, htext, List.cons_append], hc⟩

theorem membersText_head (m : Option String × Json) (members : List (Option String × Json))
    (level : Nat) : ∃ cs, l.membersText level (m :: members) = '"' :: cs := by
  obtain ⟨key, j⟩ := m
  obtain ⟨cs, htext, -⟩ := readText_quote (key.getD "") []
  cases members with
  | nil => exact ⟨_, by rw [membersText, htext, List.cons_append]⟩
  | cons m members => exact ⟨_, by rw [membersText, htext, List.cons_append]⟩

mutual

/-- A text is read back, whatever follows, unless that goes on with a number. Fuel for each
character suffices. -/
theorem readValue_text : ∀ (j : Json) (level fuel : Nat) (rest : List Char), j.Plain → Stops rest →
    (l.text level j).length < fuel + 1 →
    readValue (fuel + 1) (l.text level j ++ rest) = some (j, rest)
  | .null => fun _ _ _ _ _ _ => rfl
  | .bool true => fun _ _ _ _ _ _ => rfl
  | .bool false => fun _ _ _ _ _ _ => rfl
  | .number (.decimal _ _) => fun _ _ _ hj => hj.elim
  | .number (.integer n) => by
    intro level fuel rest _ hrest _
    obtain ⟨c, cs, htext, hc⟩ := toString_head n
    have hread := readNumber_toString n hrest
    have htext' : l.text level (.number (.integer n)) = c :: cs := htext
    rw [htext, List.cons_append] at hread
    rw [htext', List.cons_append, readValue_number hc, hread]
    rfl
  | .string none => fun _ _ _ hj => absurd hj (by simp [Plain])
  | .string (some s) => by
    intro level fuel rest _ _ _
    obtain ⟨cs, htext, hread⟩ := readText_quote s rest
    have htext' : l.text level (.string (some s)) = '"' :: cs := htext
    rw [htext', List.cons_append, readValue, hread]
    rfl
  | .array [] => fun _ _ _ _ _ _ => rfl
  | .array (j :: items) => by
    intro level fuel rest hj _ hfuel
    -- the two brackets leave fuel for the items, which need one unit more than their text has
    have hplain : ∀ k ∈ j :: items, k.Plain := (allPlain_iff _).1 hj
    have hj := hplain j List.mem_cons_self
    obtain ⟨c, cs, htext, hc, hne⟩ := l.itemsText_head hj items (level + 1)
    have hlength : (l.itemsText (level + 1) (j :: items)).length + 1 < fuel := by
      simp only [text, List.length_cons, List.length_append] at hfuel
      omega
    have hread := readItems_text (j :: items) (level + 1) fuel (l.gap level) rest (by simp) hplain
      (l.isBlank_gap level) hlength
    rw [htext, List.cons_append] at hread
    rw [text, htext]
    simp only [List.cons_append, List.append_assoc, List.nil_append]
    rw [readValue_array (l.isBlank_gap (level + 1)) hc hne, hread]
    rfl
  | .object [] => fun _ _ _ _ _ _ => rfl
  | .object (m :: members) => by
    intro level fuel rest hj _ hfuel
    have hplain : ∀ m' ∈ m :: members, m'.1.isSome ∧ m'.2.Plain := (membersPlain_iff _).1 hj
    obtain ⟨cs, htext⟩ := l.membersText_head m members (level + 1)
    have hlength : (l.membersText (level + 1) (m :: members)).length + 1 < fuel := by
      simp only [text, List.length_cons, List.length_append] at hfuel
      omega
    have hread := readMembers_text (m :: members) (level + 1) fuel (l.gap level) rest (by simp)
      hplain (l.isBlank_gap level) hlength
    rw [htext, List.cons_append] at hread
    rw [text, htext]
    simp only [List.cons_append, List.append_assoc, List.nil_append]
    rw [readValue_object (l.isBlank_gap (level + 1)), hread]
    rfl

theorem readItems_text : ∀ (items : List Json) (level fuel : Nat) (blanks rest : List Char),
    items ≠ [] → (∀ j ∈ items, j.Plain) → (∀ c ∈ blanks, isBlank c = true) →
    (l.itemsText level items).length + 1 < fuel →
    readItems fuel (l.itemsText level items ++ (blanks ++ ']' :: rest)) = some (items, rest)
  | [] => fun _ _ _ _ hne => absurd rfl hne
  | [j] => by
    intro level fuel blanks rest _ hplain hblanks hfuel
    -- one unit for the list and one for its item
    obtain ⟨fuel, rfl⟩ : ∃ n, fuel = n + 2 := ⟨fuel - 2, by omega⟩
    have hstops : Stops (blanks ++ ']' :: rest) := (stops_cons (by decide)).append hblanks
    have hread := readValue_text j level fuel (blanks ++ ']' :: rest)
      (hplain j List.mem_cons_self) hstops (by simp only [itemsText] at hfuel; omega)
    exact readItems_last hblanks hread
  | j :: k :: items => by
    intro level fuel blanks rest _ hplain hblanks hfuel
    obtain ⟨fuel, rfl⟩ : ∃ n, fuel = n + 2 := ⟨fuel - 2, by omega⟩
    obtain ⟨hj, hrest⟩ := List.forall_mem_cons.1 hplain
    obtain ⟨c, cs, htext, hc, -⟩ := l.itemsText_head (hrest k List.mem_cons_self) items level
    simp only [itemsText, List.length_append, List.length_cons] at hfuel
    have hitems := readItems_text (k :: items) level (fuel + 1) blanks rest (by simp) hrest hblanks
      (by omega)
    have hread := readValue_text j level fuel
      (',' :: (l.gap level ++ (l.itemsText level (k :: items) ++ (blanks ++ ']' :: rest)))) hj
      (stops_cons (by decide)) (by omega)
    rw [htext, List.cons_append] at hitems hread
    simp only [itemsText, htext, List.cons_append, List.append_assoc]
    exact readItems_cons (l.isBlank_gap level) hc hread hitems

theorem readMembers_text : ∀ (members : List (Option String × Json)) (level fuel : Nat)
    (blanks rest : List Char), members ≠ [] → (∀ m ∈ members, m.1.isSome ∧ m.2.Plain) →
    (∀ c ∈ blanks, isBlank c = true) → (l.membersText level members).length + 1 < fuel →
    readMembers fuel (l.membersText level members ++ (blanks ++ '\x7d' :: rest)) =
      some (members, rest)
  | [] => fun _ _ _ _ hne => absurd rfl hne
  | [(key, j)] => by
    intro level fuel blanks rest _ hplain hblanks hfuel
    obtain ⟨hkey, hj⟩ := hplain _ List.mem_cons_self
    obtain ⟨k, rfl⟩ := Option.isSome_iff_exists.1 hkey
    obtain ⟨fuel, rfl⟩ : ∃ n, fuel = n + 2 := ⟨fuel - 2, by omega⟩
    have hstops : Stops (blanks ++ '\x7d' :: rest) := (stops_cons (by decide)).append hblanks
    simp only [membersText, List.length_append, List.length_cons] at hfuel
    have hread := readValue_text j level fuel (blanks ++ '\x7d' :: rest) hj hstops (by omega)
    obtain ⟨c, cs, htext, hc, -⟩ := l.text_head hj level
    obtain ⟨ks, hquote, hkey⟩ := readText_quote k
      (':' :: (l.space ++ (l.text level j ++ (blanks ++ '\x7d' :: rest))))
    rw [htext, List.cons_append] at hread hkey
    simp only [membersText, Option.getD_some, hquote, htext, List.cons_append, List.append_assoc]
    exact readMembers_last hkey l.isBlank_space hc hblanks hread
  | (key, j) :: m :: members => by
    intro level fuel blanks rest _ hplain hblanks hfuel
    obtain ⟨⟨hkey, hj⟩, hrest⟩ := List.forall_mem_cons.1 hplain
    obtain ⟨k, rfl⟩ := Option.isSome_iff_exists.1 hkey
    obtain ⟨fuel, rfl⟩ : ∃ n, fuel = n + 2 := ⟨fuel - 2, by omega⟩
    obtain ⟨ms, hnext⟩ := l.membersText_head m members level
    simp only [membersText, List.length_append, List.length_cons] at hfuel
    have hmembers := readMembers_text (m :: members) level (fuel + 1) blanks rest (by simp) hrest
      hblanks (by omega)
    have hread := readValue_text j level fuel
      (',' :: (l.gap level ++ (l.membersText level (m :: members) ++ (blanks ++ '\x7d' :: rest))))
      hj (stops_cons (by decide)) (by omega)
    obtain ⟨c, cs, htext, hc, -⟩ := l.text_head hj level
    obtain ⟨ks, hquote, hkey⟩ := readText_quote k (':' :: (l.space ++ (l.text level j ++
      ',' :: (l.gap level ++ (l.membersText level (m :: members) ++ (blanks ++ '\x7d' :: rest))))))
    rw [hnext, List.cons_append] at hmembers hread hkey
    rw [htext, List.cons_append] at hread hkey
    simp only [membersText, Option.getD_some, hquote, htext, hnext, List.cons_append,
      List.append_assoc]
    exact readMembers_cons hkey l.isBlank_space hc (l.isBlank_gap level) hread hmembers

end

/-- A text is read as the document that it was made from, with any blanks behind it. -/
theorem parse?_text {j : Json} (hj : j.Plain) (level : Nat) {s : String} {blanks : List Char}
    (hs : s.toList = l.text level j ++ blanks) (hblanks : ∀ c ∈ blanks, isBlank c = true) :
    parse? s = some j := by
  have hstops : Stops blanks := by
    have h := stops_nil.append hblanks
    rwa [List.append_nil] at h
  have hread := readValue_text (l := l) j level s.toList.length blanks hj hstops
    (by rw [hs, List.length_append]; omega)
  have hend : skipBlank blanks = [] := by
    rw [← List.append_nil blanks, skipBlank_append hblanks]
    rfl
  obtain ⟨c, cs, htext, hc, -⟩ := l.text_head hj level
  have hstart : skipBlank s.toList = l.text level j ++ blanks := by
    rw [hs, htext, List.cons_append, skipBlank_cons hc]
  simp [parse?, hstart, hread, hend]

end Layout

/-- What is written for a document: a line, an indented text, and one with a line break behind it as
in a dump. -/
def texts (j : Json) : List String := [j.compact, j.pretty 0, j.pretty 0 ++ "\n"]

theorem parse?_of_mem_texts {j : Json} (hj : j.Plain) {text : String} (h : text ∈ j.texts) :
    parse? text = some j := by
  have hempty : ∀ c ∈ [], isBlank c = true := fun _ hc => absurd hc List.not_mem_nil
  simp only [texts, List.mem_cons, List.not_mem_nil, or_false] at h
  rcases h with rfl | rfl | rfl
  · exact Layout.onOneLine.parse?_text hj 0 (by rw [toList_compact j 0, List.append_nil]) hempty
  · exact Layout.indented.parse?_text hj 0 (by rw [toList_pretty j 0, List.append_nil]) hempty
  · have hdump : (j.pretty 0 ++ "\n").toList = Layout.indented.text 0 j ++ ['\n'] := by
      rw [String.toList_append, toList_pretty j 0]
      rfl
    exact Layout.indented.parse?_text hj 0 hdump (by simp [isBlank])

end TraitLang.Json
