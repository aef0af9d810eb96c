/-
# JSON is read back

A document without numbers that have a fraction is read back from its text. Strings are read back
whatever they hold, as the writer never escapes half of a surrogate pair. An integer must not be
followed by what may stand inside a number, and nothing but a comma or a line feed follows a value.
-/

import SpeedupStudy.Json.Reader
import SpeedupStudy.Json.Writer
import SpeedupStudy.Proofs.Decimal.Text
import SpeedupStudy.Proofs.Document.Fields

namespace SpeedupStudy

namespace Json

/-- A character is escaped by a letter or by its number, or it stands for itself. -/
theorem escape_cases (c : Char) :
    (∃ letter ∈ ['"', '\\', 'n', 'r', 't', 'b', 'f'],
      escape c = ['\\', letter] ∧ escaped? letter = some c) ∨
    (∃ a b, escape c = ['\\', 'u', '0', '0', a, b] ∧
      Text.hexNumber? ['0', '0', a, b] = some c.toNat) ∨
    (escape c = [c] ∧ c ≠ '"' ∧ c ≠ '\\' ∧ ¬ c.toNat < 32) := by
  by_cases named : c ∈ ['"', '\\', '\n', '\r', '\t', Char.ofNat 8, Char.ofNat 12]
  · refine .inl ?_
    simp only [List.mem_cons, List.not_mem_nil, or_false] at named
    rcases named with rfl | rfl | rfl | rfl | rfl | rfl | rfl
    · exact ⟨'"', by decide, by decide, by decide⟩
    · exact ⟨'\\', by decide, by decide, by decide⟩
    · exact ⟨'n', by decide, by decide, by decide⟩
    · exact ⟨'r', by decide, by decide, by decide⟩
    · exact ⟨'t', by decide, by decide, by decide⟩
    · exact ⟨'b', by decide, by decide, by decide⟩
    · exact ⟨'f', by decide, by decide, by decide⟩
  · simp only [List.mem_cons, List.not_mem_nil, or_false, not_or] at named
    obtain ⟨quote, backslash, lineFeed, return', tab, backspace, formFeed⟩ := named
    refine .inr ?_
    unfold escape
    rw [if_neg quote, if_neg backslash, if_neg lineFeed, if_neg return', if_neg tab,
      if_neg backspace, if_neg formFeed]
    by_cases control : c.toNat < 32
    · have all : ∀ n < 32, Text.hexNumber? ['0', '0', Text.hexDigit (n / 16), Text.hexDigit n] =
          some n := by
        decide +kernel
      exact .inl ⟨_, _, if_pos control, all c.toNat control⟩
    · exact .inr ⟨if_neg control, quote, backslash, control⟩

/-- A character is one unit of a string. -/
theorem exists_units_escape (c : Char) : ∃ byNumber, ∀ rest,
    units (escape c ++ rest) =
      (units rest).map fun (later, rest) => ((c.toNat, byNumber) :: later, rest) := by
  rcases escape_cases c with ⟨letter, mem, text, value⟩ | ⟨a, b, text, value⟩ |
    ⟨text, quote, backslash, control⟩
  · refine ⟨false, fun rest => ?_⟩
    rw [text]
    simp only [List.mem_cons, List.not_mem_nil, or_false] at mem
    rcases mem with rfl | rfl | rfl | rfl | rfl | rfl | rfl <;>
      cases later : units rest <;> simp [units, value, later]
  · refine ⟨true, fun rest => ?_⟩
    cases later : units rest <;> simp [text, units, value, later]
  · refine ⟨false, fun rest => ?_⟩
    cases later : units rest <;> simp [text, units, backslash, control, later]

/-- The unit of a character is no half of a surrogate pair, so it stands for the character. -/
theorem textOfUnits?_cons (c : Char) (byNumber : Bool) (later : List (Nat × Bool)) :
    textOfUnits? ((c.toNat, byNumber) :: later) = (textOfUnits? later).map (c :: ·) := by
  have whole : c.toNat < 0xD800 ∨ 0xDFFF < c.toNat := by
    rcases c.valid with below | ⟨above, -⟩
    · exact .inl below
    · exact .inr above
  have noHalf : (decide (0xD800 ≤ c.toNat) && decide (c.toNat < 0xE000)) = false := by
    rw [Bool.and_eq_false_iff, decide_eq_false_iff_not, decide_eq_false_iff_not]
    omega
  have noPair : ∀ low, (decide (0xD800 ≤ c.toNat) && decide (c.toNat < 0xDC00) &&
      decide (0xDC00 ≤ low) && decide (low < 0xE000)) = false := by
    intro low
    simp only [Bool.and_eq_false_iff, decide_eq_false_iff_not]
    omega
  rw [textOfUnits?.eq_def]
  split
  · next same => simp at same
  · next high low rest same =>
      simp only [List.cons.injEq, Prod.mk.injEq] at same
      obtain ⟨⟨rfl, -⟩, rfl⟩ := same
      rw [noPair, noHalf, Char.ofNat_toNat]
      rfl
  · next unit flag rest _ same =>
      simp only [List.cons.injEq, Prod.mk.injEq] at same
      obtain ⟨⟨rfl, -⟩, rfl⟩ := same
      rw [noHalf, Char.ofNat_toNat]
      rfl

/-- A string is read back. -/
theorem readString_quoted (s : String) (rest : List Char) :
    readString (s.toList.flatMap escape ++ '"' :: rest) = some (some s, rest) := by
  have read : ∀ cs : List Char, ∃ us, units (cs.flatMap escape ++ '"' :: rest) = some (us, rest) ∧
      textOfUnits? us = some cs := by
    intro cs
    induction cs with
    | nil => exact ⟨[], by simp [units], rfl⟩
    | cons c cs ih =>
        obtain ⟨us, read, text⟩ := ih
        obtain ⟨byNumber, first⟩ := exists_units_escape c
        refine ⟨(c.toNat, byNumber) :: us, ?_, by rw [textOfUnits?_cons, text]; rfl⟩
        rw [List.flatMap_cons, List.append_assoc, first, read]
        rfl
  obtain ⟨us, read, text⟩ := read s.toList
  simp [readString, read, text]

/-- What may follow a value: a comma or the end of its line. -/
def EndsValue (rest : List Char) : Prop :=
  ∀ c ∈ rest.head?, c = ',' ∨ c = '\n'

variable {rest : List Char}

/-- An integer is read back. -/
theorem readNumber_integer (n : Int) (ends : EndsValue rest) :
    readNumber ((toString n).toList ++ rest) = some (.integer n, rest) := by
  rw [Decimal.toList_toString_int, List.append_assoc]
  generalize whole_def : Nat.toDigits 10 n.natAbs = whole
  have digits : Decimal.AllDigits whole := whole_def ▸ Decimal.allDigits_toDigits n.natAbs
  have nonempty : whole ≠ [] := whole_def ▸ Nat.toDigits_ne_nil
  have value : Decimal.ofDigits whole = n.natAbs := whole_def ▸ Decimal.ofDigits_toDigits n.natAbs
  have span : Decimal.spanDigits (whole ++ rest) = (whole, rest) := by
    refine Decimal.spanDigits_eq digits rest fun c first => ?_
    rcases ends c first with rfl | rfl <;> decide
  have fraction : readFraction rest = some ([], rest) := by
    cases rest with
    | nil => rfl
    | cons c rest => rcases ends c rfl with rfl | rfl <;> rfl
  have exponent : readExponent rest = some ([], rest) := by
    cases rest with
    | nil => rfl
    | cons c rest => rcases ends c rfl with rfl | rfl <;> rfl
  have leading : (decide (whole.head? = some '0') && decide (whole.length ≠ 1)) = false := by
    rw [← whole_def]
    rcases Decimal.leading_toDigits n.natAbs with zero | leading
    · simp [zero]
    · simp [leading]
  have read : someDigits (whole ++ rest) = some (whole, rest) := by
    simp [someDigits, span, nonempty]
  by_cases below : n < 0
  · have nonzero : whole ≠ ['0'] := by
      rintro rfl
      have zero : Decimal.ofDigits ['0'] = 0 := rfl
      omega
    have magnitude : -(n.natAbs : Int) = n := by omega
    simp only [readNumber, Decimal.signText, below, decide_true, if_true, List.singleton_append,
      read, fraction, exponent, leading, value, magnitude, decide_eq_false nonzero, Option.bind_eq_bind,
      Option.bind_some, List.isEmpty_nil, Bool.and_self, Bool.and_false, Bool.not_false,
      Bool.false_eq_true, if_false]
  · have magnitude : (n.natAbs : Int) = n := by omega
    obtain ⟨c, more, start⟩ := List.exists_cons_of_ne_nil nonempty
    have sign : c ≠ '-' := (Decimal.digit_facts (digits c (by simp [start]))).1
    rw [start, List.cons_append] at read
    rw [start] at leading value
    simp only [readNumber, Decimal.signText, below, decide_false, Bool.false_eq_true, if_false,
      List.nil_append, start, List.cons_append]
    split
    · next same => exact absurd (List.cons.inj same).1 sign
    · simp only [read, fraction, exponent, leading, value, magnitude, Option.bind_eq_bind,
        Option.bind_some, List.isEmpty_nil, Bool.and_self, Bool.false_and, Bool.not_false, if_true,
        Bool.false_eq_true, if_false]

/-- Values that JSON keeps: no numbers with a fraction, no dates and nothing unreadable. -/
inductive Kept : Value → Prop where
  | null : Kept .null
  | bool (value : Bool) : Kept (.bool value)
  | integer (value : Int) : Kept (.integer value)
  | text (value : String) : Kept (.text value)
  | list {items : List Value} (inside : ∀ item ∈ items, Kept item) : Kept (.list items)
  | table {fields : List (String × Value)} (inside : ∀ field ∈ fields, Kept field.2) :
    Kept (.table fields)

/-- Whether a value may begin with a character. -/
def beginsValue (c : Char) : Bool :=
  c.isDigit || ['-', '"', 'n', 't', 'f', '[', '\x7b'].contains c

theorem ne_of_beginsValue {c c' : Char} (begins : beginsValue c = true)
    (other : beginsValue c' = false) : c ≠ c' := by
  rintro rfl
  exact Bool.false_ne_true (other.symm.trans begins)

theorem exists_toString_cons (n : Int) :
    ∃ c more, (toString n).toList = c :: more ∧ (c = '-' ∨ c.isDigit = true) := by
  rw [Decimal.toList_toString_int]
  by_cases below : n < 0
  · exact ⟨'-', Nat.toDigits 10 n.natAbs, by simp [Decimal.signText, below], .inl rfl⟩
  · obtain ⟨c, more, start⟩ :=
      List.exists_cons_of_ne_nil (Nat.toDigits_ne_nil (b := 10) (n := n.natAbs))
    have digit : c.isDigit = true := Decimal.allDigits_toDigits n.natAbs c (by simp [start])
    exact ⟨c, more, by simp [Decimal.signText, below, start], .inr digit⟩

theorem exists_write_cons {v : Value} (kept : Kept v) (level : Nat) :
    ∃ c more, write level v = c :: more ∧ beginsValue c = true := by
  cases kept with
  | null => exact ⟨'n', "ull".toList, rfl, rfl⟩
  | bool value =>
      cases value
      · exact ⟨'f', "alse".toList, rfl, rfl⟩
      · exact ⟨'t', "rue".toList, rfl, rfl⟩
  | integer n =>
      obtain ⟨c, more, start, dash | digit⟩ := exists_toString_cons n
      · exact ⟨c, more, start, by rw [dash]; rfl⟩
      · exact ⟨c, more, start, by simp [beginsValue, digit]⟩
  | text value => exact ⟨'"', _, rfl, rfl⟩
  | @list items inside => cases items <;> exact ⟨'[', _, rfl, rfl⟩
  | @table fields inside => cases fields <;> exact ⟨'\x7b', _, rfl, rfl⟩

/-- Space before a value is dropped. -/
theorem skipSpace_newline (level : Nat) (s : List Char) :
    skipSpace (newline level ++ s) = skipSpace s := by
  have blanks : ∀ count, skipSpace (List.replicate count ' ' ++ s) = skipSpace s := by
    intro count
    induction count with
    | zero => rfl
    | succ count ih => exact ih
  exact blanks (2 * level)

/-- There is no space before a value, and no closing bracket. -/
theorem skipSpace_write {v : Value} (kept : Kept v) (level : Nat) (rest : List Char) :
    skipSpace (write level v ++ rest) = write level v ++ rest ∧
      (∀ later, write level v ++ rest ≠ ']' :: later) := by
  obtain ⟨c, more, start, begins⟩ := exists_write_cons kept level
  have other : ∀ {c' : Char}, beginsValue c' = false → c ≠ c' := ne_of_beginsValue begins
  have space : isSpace c = false := by
    have blank : c ≠ ' ' ∧ c ≠ '\t' ∧ c ≠ '\n' ∧ c ≠ '\r' :=
      ⟨other rfl, other rfl, other rfl, other rfl⟩
    simp [isSpace, blank]
  rw [start, List.cons_append]
  refine ⟨?_, fun later same => (other rfl : c ≠ ']') (List.cons.inj same).1⟩
  rw [skipSpace, List.dropWhile_cons_of_neg (by simp [space])]

/-- Whether a value is read back at every level, in any number of steps from the length of its text
on. -/
def Reads (v : Value) : Prop :=
  ∀ level rest steps, EndsValue rest → (write level v).length < steps →
    readValue steps (write level v ++ rest) = some (v, rest)

/-- Space before a value is passed over. -/
theorem Reads.after {v : Value} (reads : Reads v) (level steps : Nat) {before : List Char}
    (enough : (write level v).length < steps) (ends : EndsValue rest)
    (blank : ∀ s, skipSpace (before ++ s) = skipSpace s) :
    readValue steps (before ++ (write level v ++ rest)) = some (v, rest) := by
  rw [← reads level rest steps ends enough]
  cases steps with
  | zero => rfl
  | succ steps => rw [readValue, readValue, blank]

/-- What follows an item or a field: more of them, or the line of the closing bracket. -/
theorem endsValue_writeItems {close : List Char} (ends : EndsValue close) (level : Nat)
    (items : List Value) : EndsValue (writeItems level items ++ close) := by
  cases items with
  | nil => exact ends
  | cons => simp [EndsValue, writeItems]

theorem endsValue_writeFields {close : List Char} (ends : EndsValue close) (level : Nat)
    (fields : List (String × Value)) : EndsValue (writeFields level fields ++ close) := by
  cases fields with
  | nil => exact ends
  | cons => simp [EndsValue, writeFields]

section Parts

variable {level steps : Nat} {close : List Char}

/-- The items of a list are read back, one after the other. -/
theorem readItems_write {item : Value} {items : List Value}
    (reads : ∀ v ∈ item :: items, Reads v)
    (enough : (write level item).length + (writeItems level items).length + 2 ≤ steps)
    (ends : EndsValue close) (closed : skipSpace close = ']' :: rest) :
    readItems steps (newline level ++ (write level item ++ (writeItems level items ++ close))) =
      some (item :: items, rest) := by
  induction items generalizing item steps with
  | nil =>
      obtain ⟨steps, rfl⟩ : ∃ fewer, steps = fewer + 1 := ⟨steps - 1, by omega⟩
      have first := (reads item List.mem_cons_self).after level steps (by omega)
        (endsValue_writeItems ends level []) (skipSpace_newline level)
      rw [readItems, first]
      simp [writeItems, closed]
  | cons next items ih =>
      rw [writeItems, List.length_cons, List.length_append, List.length_append] at enough
      obtain ⟨steps, rfl⟩ : ∃ fewer, steps = fewer + 1 := ⟨steps - 1, by omega⟩
      have first := (reads item List.mem_cons_self).after level steps (by omega)
        (endsValue_writeItems ends level (next :: items)) (skipSpace_newline level)
      have later : readItems steps
          (newline level ++ (write level next ++ (writeItems level items ++ close))) =
            some (next :: items, rest) :=
        ih (fun v mem => reads v (List.mem_cons_of_mem _ mem)) (by omega)
      rw [readItems, first]
      simp [writeItems, skipSpace, isSpace, later]

/-- The fields of a table are read back, one after the other. -/
theorem readFields_write {name : String} {value : Value} {fields : List (String × Value)}
    (reads : ∀ field ∈ (name, value) :: fields, Reads field.2)
    (enough : (write level value).length + (writeFields level fields).length + 2 ≤ steps)
    (ends : EndsValue close) (closed : skipSpace close = '\x7d' :: rest) :
    readFields steps (newline level ++ (quoted name ++ ':' :: ' ' :: (write level value ++
      (writeFields level fields ++ close)))) =
        some (((name, value) :: fields).map fun field => (some field.1, field.2), rest) := by
  have front : ∀ (name : String) (s : List Char),
      skipSpace (newline level ++ (quoted name ++ s)) =
        '"' :: (name.toList.flatMap escape ++ '"' :: s) := by
    intro name s
    rw [skipSpace_newline]
    simp [quoted, skipSpace, isSpace]
  have colon : ∀ s, skipSpace (':' :: s) = ':' :: s := fun _ => rfl
  have spaced : ∀ s, skipSpace ([' '] ++ s) = skipSpace s := fun _ => rfl
  have readsValue : Reads value := reads (name, value) List.mem_cons_self
  induction fields generalizing name value steps with
  | nil =>
      obtain ⟨steps, rfl⟩ : ∃ fewer, steps = fewer + 1 := ⟨steps - 1, by omega⟩
      have first : readValue steps (' ' :: (write level value ++ (writeFields level [] ++ close))) =
          some (value, writeFields level [] ++ close) :=
        readsValue.after level steps (by omega) (endsValue_writeFields ends level []) spaced
      rw [readFields, front]
      simp only [readString_quoted, Option.bind_eq_bind, Option.bind_some, colon, first]
      simp [writeFields, closed]
  | cons next fields ih =>
      obtain ⟨name', value'⟩ := next
      simp only [writeFields, List.length_cons, List.length_append] at enough
      obtain ⟨steps, rfl⟩ : ∃ fewer, steps = fewer + 1 := ⟨steps - 1, by omega⟩
      have first : readValue steps
          (' ' :: (write level value ++ (writeFields level ((name', value') :: fields) ++ close))) =
            some (value, writeFields level ((name', value') :: fields) ++ close) :=
        readsValue.after level steps (by omega) (endsValue_writeFields ends level _) spaced
      have later : readFields steps (newline level ++ (quoted name' ++ ':' :: ' ' ::
          (write level value' ++ (writeFields level fields ++ close)))) =
            some (((name', value') :: fields).map fun field => (some field.1, field.2), rest) :=
        ih (fun field mem => reads field (List.mem_cons_of_mem _ mem)) (by omega)
          (reads (name', value') (by simp))
      rw [readFields, front]
      simp only [readString_quoted, Option.bind_eq_bind, Option.bind_some, colon, first]
      simp [writeFields, skipSpace, isSpace, later]

end Parts

/-- A number begins like no other value. -/
theorem readValue_number {c : Char} (begins : c = '-' ∨ c.isDigit = true) (steps : Nat)
    (s : List Char) : readValue (steps + 1) (c :: s) = readNumber (c :: s) := by
  have other : ∀ {c' : Char}, c' ≠ '-' → c'.isDigit = false → c ≠ c' := by
    rintro c' dash digit rfl
    rcases begins with dash' | digit'
    · exact dash dash'
    · exact Bool.false_ne_true (digit.symm.trans digit')
  have space : isSpace c = false := by
    have blank : c ≠ ' ' ∧ c ≠ '\t' ∧ c ≠ '\n' ∧ c ≠ '\r' :=
      ⟨other (by decide) rfl, other (by decide) rfl, other (by decide) rfl, other (by decide) rfl⟩
    simp [isSpace, blank]
  have front : skipSpace (c :: s) = c :: s := by
    rw [skipSpace, List.dropWhile_cons_of_neg (by simp [space])]
  rw [readValue, front]
  split
  case h_7 => rfl
  all_goals
    next same => exact absurd (List.cons.inj same).1 (other (by decide) rfl)

/-- A table whose names are all texts is a table. -/
theorem tableOf_of_text (fields : List (String × Value)) :
    tableOf (fields.map fun field => (some field.1, field.2)) = .table fields := by
  have found : (fields.map fun field => (some field.1, field.2)).mapM
      (fun field : Option String × Value => field.1.map (·, field.2)) = some fields := by
    induction fields with
    | nil => rfl
    | cons field fields ih => simp [ih]
  simp only [tableOf, found]

/-- A value takes at least one step. -/
theorem reads_of_succ {v : Value}
    (step : ∀ level rest steps, EndsValue rest → (write level v).length ≤ steps →
      readValue (steps + 1) (write level v ++ rest) = some (v, rest)) : Reads v := by
  intro level rest steps ends enough
  obtain ⟨fewer, rfl⟩ : ∃ fewer, steps = fewer + 1 := ⟨steps - 1, by omega⟩
  exact step level rest fewer ends (Nat.le_of_lt_succ enough)

theorem reads_integer (n : Int) : Reads (.integer n) := by
  apply reads_of_succ
  intro level rest steps ends _
  obtain ⟨c, more, start, begins⟩ := exists_toString_cons n
  have read := readNumber_integer n ends
  rw [start] at read
  rw [write, start, List.cons_append, readValue_number begins]
  exact read

theorem reads_text (s : String) : Reads (.text s) := by
  apply reads_of_succ
  intro level rest steps _ _
  have front : skipSpace (write level (.text s) ++ rest) =
      '"' :: (s.toList.flatMap escape ++ '"' :: rest) := by
    simp [write, quoted, skipSpace, isSpace]
  simp only [readValue, front, readString_quoted]
  rfl

/-- A list is read back where its items are. -/
theorem reads_list {items : List Value} (kept : ∀ item ∈ items, Kept item)
    (reads : ∀ item ∈ items, Reads item) : Reads (.list items) := by
  apply reads_of_succ
  intro level rest steps _ enough
  cases items with
  | nil => rfl
  | cons item items =>
      have ends : EndsValue (newline level ++ ']' :: rest) := by simp [EndsValue, newline]
      have closed : skipSpace (newline level ++ ']' :: rest) = ']' :: rest := by
        rw [skipSpace_newline]
        rfl
      have text : write level (.list (item :: items)) ++ rest =
          '[' :: (newline (level + 1) ++ (write (level + 1) item ++
            (writeItems (level + 1) items ++ (newline level ++ ']' :: rest)))) := by
        simp [write]
      simp only [write, List.length_cons, List.length_append] at enough
      have read : readItems steps (newline (level + 1) ++ (write (level + 1) item ++
          (writeItems (level + 1) items ++ (newline level ++ ']' :: rest)))) =
            some (item :: items, rest) :=
        readItems_write reads (by omega) ends closed
      -- The first item is not taken for the closing bracket of an empty list.
      obtain ⟨space, nonempty⟩ := skipSpace_write (kept item List.mem_cons_self) (level + 1)
        (writeItems (level + 1) items ++ (newline level ++ ']' :: rest))
      have bracket : ∀ s, skipSpace ('[' :: s) = '[' :: s := fun _ => rfl
      rw [text, readValue, bracket]
      simp only [skipSpace_newline, space, read, Option.map_some]

/-- A table is read back where its values are. -/
theorem reads_table {fields : List (String × Value)} (reads : ∀ field ∈ fields, Reads field.2) :
    Reads (.table fields) := by
  apply reads_of_succ
  intro level rest steps _ enough
  cases fields with
  | nil => rfl
  | cons field fields =>
      obtain ⟨name, value⟩ := field
      have ends : EndsValue (newline level ++ '\x7d' :: rest) := by simp [EndsValue, newline]
      have closed : skipSpace (newline level ++ '\x7d' :: rest) = '\x7d' :: rest := by
        rw [skipSpace_newline]
        rfl
      have text : write level (.table ((name, value) :: fields)) ++ rest =
          '\x7b' :: (newline (level + 1) ++ (quoted name ++ ':' :: ' ' ::
            (write (level + 1) value ++ (writeFields (level + 1) fields ++
              (newline level ++ '\x7d' :: rest))))) := by
        simp [write]
      simp only [write, List.length_cons, List.length_append] at enough
      have read : readFields steps (newline (level + 1) ++ (quoted name ++ ':' :: ' ' ::
          (write (level + 1) value ++ (writeFields (level + 1) fields ++
            (newline level ++ '\x7d' :: rest))))) =
              some (((name, value) :: fields).map fun field => (some field.1, field.2), rest) :=
        readFields_write reads (by omega) ends closed
      have brace : ∀ s, skipSpace ('\x7b' :: s) = '\x7b' :: s := fun _ => rfl
      have quote : ∀ s, skipSpace (quoted name ++ s) = quoted name ++ s := fun _ => rfl
      rw [text, readValue, brace]
      simp only [skipSpace_newline, quote, read, Option.map_some, tableOf_of_text]
      rfl

/-- A value is read back at every level. -/
theorem reads_of_kept {v : Value} (kept : Kept v) : Reads v := by
  induction kept with
  | null => exact reads_of_succ fun _ _ _ _ _ => rfl
  | bool value =>
      apply reads_of_succ
      intro level rest steps _ _
      cases value <;> rfl
  | integer n => exact reads_integer n
  | text s => exact reads_text s
  | list inside ih => exact reads_list inside ih
  | table _ ih => exact reads_table ih

/-- A document is read back. -/
theorem parse?_render {v : Value} (kept : Kept v) : parse? (render v) = some v := by
  have read := reads_of_kept kept 0 [] ((write 0 v).length + 1) (by simp [EndsValue]) (by omega)
  rw [List.append_nil] at read
  simp [parse?, render, read, skipSpace]

end Json

end SpeedupStudy
