/-
# Names and values are read back

A name is written bare or in quotes on its line and read back where a space or a closing bracket
follows it. A list is written on one line or with a line for each item. The reader takes one step
for each item, so the length of the text is enough.
-/

import SpeedupStudy.Proofs.Document.Fields
import SpeedupStudy.Proofs.Toml.Scalar

namespace SpeedupStudy

namespace Toml

/-- What may follow a name: a space or the closing bracket of a header. -/
def EndsName (rest : List Char) : Prop :=
  ∃ c later, rest = c :: later ∧ (c = ' ' ∨ c = ']')

variable {rest : List Char}

/-- A name begins with a quote or stands as it is. -/
theorem nameText_cases (name : String) :
    (∃ quotation : Quotation, nameText name = quote name.toList quotation ∧
      quotation.Suits name.toList ∧ (quotation = .basic ∨ quotation = .literal)) ∨
    (nameText name = name.toList ∧ name.toList ≠ [] ∧ ∀ c ∈ name.toList, isBare c = true) := by
  simp only [nameText]
  split
  · next bare =>
      simp only [Bool.and_eq_true, Bool.not_eq_true', List.isEmpty_eq_false_iff,
        List.all_eq_true] at bare
      exact .inr ⟨rfl, bare⟩
  · exact .inl ⟨_, rfl, suits_nameQuotation name.toList⟩

/-- Whether a name may begin with a character. -/
def beginsName (c : Char) : Bool :=
  isBare c || c = '"' || c = '\''

theorem ne_of_beginsName {c c' : Char} (begins : beginsName c = true)
    (other : beginsName c' = false) : c ≠ c' := by
  rintro rfl
  exact Bool.false_ne_true (other.symm.trans begins)

theorem exists_nameText_cons (name : String) :
    ∃ c more, nameText name = c :: more ∧ beginsName c = true := by
  rcases nameText_cases name with ⟨quotation, text, -⟩ | ⟨text, nonempty, bare⟩
  · obtain ⟨c, more, start, quoted⟩ := exists_quote_cons name.toList quotation
    refine ⟨c, more, text.trans start, ?_⟩
    rcases quoted with rfl | rfl <;> rfl
  · obtain ⟨c, more, start⟩ := List.exists_cons_of_ne_nil nonempty
    have bare' : isBare c = true := bare c (by simp [start])
    exact ⟨c, more, text.trans start, by simp [beginsName, bare']⟩

/-- A name is read back. -/
theorem readName_nameText (name : String) (ends : EndsName rest) :
    readName (nameText name ++ rest) = some (name, rest) := by
  rcases nameText_cases name with ⟨quotation, text, suits, line⟩ | ⟨text, nonempty, bare⟩
  · simp [readName, text, readLineQuote_quote suits line]
  · obtain ⟨c, later, rfl, ending⟩ := ends
    have stop : isBare c = false := by
      rcases ending with rfl | rfl <;> decide
    have noQuote : readLineQuote (nameText name ++ c :: later) = none := by
      obtain ⟨first, more, start⟩ := List.exists_cons_of_ne_nil nonempty
      have bare' : isBare first = true := bare first (by simp [start])
      rw [text, start, List.cons_append, readLineQuote.eq_3]
      all_goals
        intro later same
        obtain ⟨rfl, -⟩ := List.cons.inj same
        simp [isBare] at bare'
    rw [readName, noQuote, text, List.takeWhile_append_of_pos bare,
      List.dropWhile_append_of_pos bare]
    simp [stop, nonempty]

/-- There is no space before a name. -/
theorem skipSpace_nameText (name : String) (rest : List Char) :
    skipSpace (nameText name ++ rest) = nameText name ++ rest := by
  obtain ⟨c, more, start, begins⟩ := exists_nameText_cons name
  have space : c ≠ ' ' := ne_of_beginsName begins (by decide)
  have tab : c ≠ '\t' := ne_of_beginsName begins (by decide)
  simp [start, skipSpace, isSpace, space, tab]

/-- A key of one name is read back with the space after it. -/
theorem readKey_nameText (name : String) (ends : EndsName rest)
    (apart : (skipSpace rest).head? ≠ some '.') :
    readKey (nameText name ++ rest) = some (⟨[], name⟩, skipSpace rest) := by
  have names : readNames maxDepth (nameText name ++ rest) = some ([name], skipSpace rest) := by
    rw [maxDepth, readNames, skipSpace_nameText, readName_nameText name ends]
    simp only [Option.bind_eq_bind, Option.bind_some]
    split
    · next later same => exact absurd (by rw [same]; rfl) apart
    · rfl
  simp [readKey, names]

/-- Neither a date nor a list with one. -/
def Undated : Value → Prop
  | .date _ => False
  | .list items => ∀ item ∈ items, ∀ lexeme, item ≠ .date lexeme
  | _ => True

section Lists

variable {v : Value} {text : List Char}

/-- A plain value is read back as a value. -/
theorem readValue_scalarText? (found : scalarText? v = some text)
    (undated : ∀ lexeme, v ≠ .date lexeme) (ends : EndsValue rest) (steps depth : Nat) :
    readValue (steps + 1) depth (text ++ rest) = some (v, rest) := by
  obtain ⟨c, more, rfl, begins⟩ := exists_scalarText?_cons found undated
  have read := readScalar_scalarText? found undated ends
  rw [List.cons_append] at read ⊢
  rw [readValue.eq_4 _ _ _, read]
  · intro later same
    exact ne_of_beginsScalar begins (by decide) (List.cons.inj same).1
  · intro later same
    exact ne_of_beginsScalar begins (by decide) (List.cons.inj same).1

/-- Nothing is skipped before a plain value. -/
theorem skipFiller_scalarText? (found : scalarText? v = some text)
    (undated : ∀ lexeme, v ≠ .date lexeme) (rest : List Char) :
    skipFiller false (text ++ rest) = text ++ rest ∧ (text ++ rest).head? ≠ some ']' := by
  obtain ⟨c, more, rfl, begins⟩ := exists_scalarText?_cons found undated
  have other : ∀ {c' : Char}, beginsScalar c' = false → c ≠ c' := ne_of_beginsScalar begins
  have space : c ≠ ' ' := other (by decide)
  have tab : c ≠ '\t' := other (by decide)
  have lineFeed : c ≠ '\n' := other (by decide)
  have return' : c ≠ '\r' := other (by decide)
  have comment : c ≠ '#' := other (by decide)
  have closing : c ≠ ']' := other (by decide)
  exact ⟨by simp [skipFiller, isSpace, space, tab, lineFeed, return', comment], by simp [closing]⟩

/-- The items of a list, each on a line of its own. -/
def itemLines (texts : List (List Char)) : List Char :=
  texts.flatMap fun text => "    ".toList ++ text ++ [',', '\n']

theorem itemLines_cons (text : List Char) (texts : List (List Char)) :
    itemLines (text :: texts) =
      ' ' :: ' ' :: ' ' :: ' ' :: (text ++ ',' :: '\n' :: itemLines texts) := by
  simp [itemLines]

theorem listText_cons_cons (first second : List Char) (texts : List (List Char)) :
    listText (first :: second :: texts) =
      '[' :: '\n' :: (itemLines (first :: second :: texts) ++ [']']) := by
  simp [listText, itemLines]

/-- The items of a list are read back, one after the other. -/
theorem readItems_itemLines {items : List Value} {texts : List (List Char)}
    (found : List.Forall₂ (fun item text => scalarText? item = some text) items texts)
    (undated : ∀ item ∈ items, ∀ lexeme, item ≠ .date lexeme) {steps : Nat}
    (enough : items.length < steps) (depth : Nat) :
    readItems steps depth ('\n' :: (itemLines texts ++ ']' :: rest)) = some (items, rest) := by
  induction found generalizing steps with
  | nil =>
      obtain ⟨steps, rfl⟩ := Nat.exists_eq_add_of_lt enough
      simp [itemLines, readItems, skipFiller, isSpace]
  | @cons item text items texts first later ih =>
      rw [List.length_cons] at enough
      obtain ⟨steps, rfl⟩ : ∃ fewer, steps = fewer + 1 + 1 := ⟨steps - 2, by omega⟩
      have undated' := undated item List.mem_cons_self
      have read : readValue (steps + 1) depth
          (text ++ ',' :: '\n' :: (itemLines texts ++ ']' :: rest)) =
            some (item, ',' :: '\n' :: (itemLines texts ++ ']' :: rest)) :=
        readValue_scalarText? first undated' (by simp [EndsValue]) steps depth
      have read' : readItems (steps + 1) depth ('\n' :: (itemLines texts ++ ']' :: rest)) =
          some (items, rest) :=
        ih (fun item' mem => undated item' (List.mem_cons_of_mem _ mem)) (by omega)
      obtain ⟨stays, open'⟩ := skipFiller_scalarText? first undated'
        (',' :: '\n' :: (itemLines texts ++ ']' :: rest))
      have skipped : skipFiller false ('\n' :: (itemLines (text :: texts) ++ ']' :: rest)) =
          text ++ ',' :: '\n' :: (itemLines texts ++ ']' :: rest) := by
        rw [itemLines_cons, ← stays]
        simp [skipFiller, isSpace]
      rw [readItems, skipped]
      split
      · next rest' same => exact absurd (by rw [same]; rfl) open'
      · simp [read, skipFiller, isSpace, read']

theorem length_le_itemLines (texts : List (List Char)) :
    texts.length ≤ (itemLines texts).length := by
  induction texts with
  | nil => simp
  | cons text texts ih =>
      simp only [itemLines_cons, List.length_cons, List.length_append]
      omega

/-- A list is read back. -/
theorem readValue_listText {items : List Value} {texts : List (List Char)}
    (found : List.Forall₂ (fun item text => scalarText? item = some text) items texts)
    (undated : ∀ item ∈ items, ∀ lexeme, item ≠ .date lexeme) {steps : Nat}
    (enough : (listText texts).length ≤ steps) :
    readValue (steps + 1) maxDepth (listText texts ++ rest) = some (.list items, rest) := by
  obtain ⟨steps, rfl⟩ : ∃ fewer, steps = fewer + 1 + 1 := by
    refine ⟨steps - 2, ?_⟩
    match texts with
    | [] | [_] | _ :: _ :: _ =>
        simp only [listText, List.length_cons, List.length_append] at enough
        omega
  have read : ∃ more, listText texts ++ rest = '[' :: more ∧
      readItems (steps + 1 + 1) (maxDepth - 1) more = some (items, rest) := by
    match items, texts, found with
    | [], [], .nil => exact ⟨']' :: rest, rfl, by simp [readItems, skipFiller, isSpace]⟩
    | [item], [text], .cons first .nil =>
        have undated' := undated item List.mem_cons_self
        have read : readValue (steps + 1) (maxDepth - 1) (text ++ ']' :: rest) =
            some (item, ']' :: rest) :=
          readValue_scalarText? first undated' (by simp [EndsValue]) steps (maxDepth - 1)
        obtain ⟨stays, open'⟩ := skipFiller_scalarText? first undated' (']' :: rest)
        refine ⟨text ++ ']' :: rest, by simp [listText], ?_⟩
        rw [readItems, stays]
        split
        · next rest' same => exact absurd (by rw [same]; rfl) open'
        · simp [read, skipFiller, isSpace]
    | first :: second :: items, first' :: second' :: texts, found =>
        rw [listText_cons_cons] at enough ⊢
        simp only [List.length_cons, List.length_append, List.length_nil] at enough
        have count := found.length_eq
        have lines := length_le_itemLines (first' :: second' :: texts)
        refine ⟨'\n' :: (itemLines (first' :: second' :: texts) ++ ']' :: rest), by simp,
          readItems_itemLines found undated (by omega) _⟩
  obtain ⟨more, start, read⟩ := read
  rw [start, readValue, read]
  rfl

/-- A value is read back from its text, unless it has a date. -/
theorem readValue_valueText? (found : valueText? v = some text) (undated : Undated v)
    (ends : EndsValue rest) {steps : Nat} (enough : text.length ≤ steps) :
    readValue (steps + 1) maxDepth (text ++ rest) = some (v, rest) := by
  cases v with
  | list items =>
      obtain ⟨texts, found', rfl⟩ : ∃ texts, items.mapM scalarText? = some texts ∧
          listText texts = text := by
        simpa [valueText?] using found
      exact readValue_listText (mapM_eq_some_iff.mp found') undated enough
  | date lexeme => exact undated.elim
  | null | bool | integer | real | text | table | unreadable =>
      exact readValue_scalarText? (by simpa [valueText?] using found) (by simp) ends steps maxDepth

/-- There is no space before a value. -/
theorem skipSpace_valueText? (found : valueText? v = some text) (undated : Undated v)
    (rest : List Char) : skipSpace (text ++ rest) = text ++ rest := by
  have start : ∃ c more, text = c :: more ∧ isSpace c = false := by
    cases v with
    | list items =>
        obtain ⟨texts, -, rfl⟩ : ∃ texts, items.mapM scalarText? = some texts ∧
            listText texts = text := by
          simpa [valueText?] using found
        match texts with
        | [] | [_] | _ :: _ :: _ => exact ⟨'[', _, rfl, rfl⟩
    | date lexeme => exact undated.elim
    | null | bool | integer | real | text | table | unreadable =>
        obtain ⟨c, more, start, begins⟩ :=
          exists_scalarText?_cons (by simpa [valueText?] using found) (by simp)
        have space : c ≠ ' ' := ne_of_beginsScalar begins (by decide)
        have tab : c ≠ '\t' := ne_of_beginsScalar begins (by decide)
        exact ⟨c, more, start, by simp [isSpace, space, tab]⟩
  obtain ⟨c, more, rfl, space⟩ := start
  simp [skipSpace, space]

end Lists

end Toml

end SpeedupStudy
