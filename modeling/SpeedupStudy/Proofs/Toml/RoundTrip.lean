/-
# Documents are read back

The lines of a document are read back as its outline: a pair for each plain field and a section for
each field that is a table, whatever its names are. The outline is put together again where no table
has two fields of one name. So a document gives back its fields, the tables after the others, unless
it has a date.
-/

import SpeedupStudy.Proofs.NameMap
import SpeedupStudy.Proofs.Text.Pieces
import SpeedupStudy.Proofs.Toml.Value

namespace SpeedupStudy

namespace Toml

/-- The pair of a field. -/
def pairOf (field : String × Value) : Pair :=
  ⟨⟨[], field.1⟩, field.2⟩

section Lines

variable {field : String × Value} {text : List Char}

theorem readPair_line (found : line? field = some text) (undated : Undated field.2)
    (rest : List Char) : readPair (text ++ rest) = some (pairOf field, '\n' :: rest) := by
  obtain ⟨value, written, rfl⟩ : ∃ value, valueText? field.2 = some value ∧
      nameText field.1 ++ " = ".toList ++ value ++ ['\n'] = text := by
    simpa [line?] using found
  have line : nameText field.1 ++ " = ".toList ++ value ++ ['\n'] ++ rest =
      nameText field.1 ++ ' ' :: '=' :: ' ' :: (value ++ '\n' :: rest) := by
    simp
  have key : readKey (nameText field.1 ++ ' ' :: '=' :: ' ' :: (value ++ '\n' :: rest)) =
      some (⟨[], field.1⟩, skipSpace (' ' :: '=' :: ' ' :: (value ++ '\n' :: rest))) :=
    readKey_nameText field.1 ⟨_, _, rfl, .inl rfl⟩ (by simp [skipSpace, isSpace])
  have equals : skipSpace (' ' :: '=' :: ' ' :: (value ++ '\n' :: rest)) =
      '=' :: ' ' :: (value ++ '\n' :: rest) := by
    simp [skipSpace, isSpace]
  have skipped : skipSpace (' ' :: (value ++ '\n' :: rest)) = value ++ '\n' :: rest :=
    skipSpace_valueText? written undated ('\n' :: rest)
  have read : readValue ((' ' :: (value ++ '\n' :: rest)).length + 1) maxDepth
      (value ++ '\n' :: rest) = some (field.2, '\n' :: rest) :=
    readValue_valueText? written undated (by simp [EndsValue]) (by simp; omega)
  rw [line, readPair, key, equals]
  simp only [skip?, if_true, Option.bind_eq_bind, Option.bind_some, skipped, read]
  rfl

/-- A line begins with a name. -/
theorem exists_line?_cons (found : line? field = some text) :
    ∃ c more, text = c :: more ∧ beginsName c = true := by
  obtain ⟨value, -, rfl⟩ : ∃ value, valueText? field.2 = some value ∧
      nameText field.1 ++ " = ".toList ++ value ++ ['\n'] = text := by
    simpa [line?] using found
  obtain ⟨c, more, start, begins⟩ := exists_nameText_cons field.1
  exact ⟨c, _, by rw [start]; rfl, begins⟩

theorem exists_line?_concat (found : line? field = some text) :
    ∃ front, text = front ++ ['\n'] := by
  obtain ⟨value, -, rfl⟩ : ∃ value, valueText? field.2 = some value ∧
      nameText field.1 ++ " = ".toList ++ value ++ ['\n'] = text := by
    simpa [line?] using found
  exact ⟨_, rfl⟩

/-- A line is read back up to its end. -/
theorem readLine_line (found : line? field = some text) (undated : Undated field.2)
    (rest : List Char) : readLine (text ++ rest) = some (.pair (pairOf field), '\n' :: rest) := by
  have read := readPair_line found undated rest
  obtain ⟨c, more, rfl, begins⟩ := exists_line?_cons found
  have other : ∀ {c' : Char}, beginsName c' = false → c ≠ c' := ne_of_beginsName begins
  have space : c ≠ ' ' := other (by decide)
  have tab : c ≠ '\t' := other (by decide)
  have lineFeed : c ≠ '\n' := other (by decide)
  have return' : c ≠ '\r' := other (by decide)
  have comment : c ≠ '#' := other (by decide)
  have bracket : c ≠ '[' := other (by decide)
  have skipped : skipSpace (c :: (more ++ rest)) = c :: (more ++ rest) := by
    simp [skipSpace, isSpace, space, tab]
  rw [List.cons_append] at read ⊢
  rw [readLine, skipped]
  split
  · next same => exact absurd same (List.cons_ne_nil _ _)
  · next same => exact absurd (List.cons.inj same).1 bracket
  · next same => exact absurd (List.cons.inj same).1 bracket
  · next c' rest' _ _ same =>
      obtain ⟨rfl, rfl⟩ := List.cons.inj same
      rw [if_neg (by simp [comment, lineFeed, return']), read]
      rfl

end Lines

/-- The header of a section is read back up to its end. -/
theorem readLine_header (name : String) (rest : List Char) :
    readLine ('[' :: (nameText name ++ ']' :: '\n' :: rest)) =
      some (.header (.table ⟨[], name⟩), '\n' :: rest) := by
  have key : readKey (nameText name ++ ']' :: '\n' :: rest) =
      some (⟨[], name⟩, skipSpace (']' :: '\n' :: rest)) :=
    readKey_nameText name ⟨_, _, rfl, .inr rfl⟩ (by simp [skipSpace, isSpace])
  have closing : skipSpace (']' :: '\n' :: rest) = ']' :: '\n' :: rest := by
    simp [skipSpace, isSpace]
  have opening : skipSpace ('[' :: (nameText name ++ ']' :: '\n' :: rest)) =
      '[' :: (nameText name ++ ']' :: '\n' :: rest) := by
    simp [skipSpace, isSpace]
  obtain ⟨c, more, start, begins⟩ := exists_nameText_cons name
  have bracket : c ≠ '[' := ne_of_beginsName begins (by decide)
  rw [start, List.cons_append] at key opening ⊢
  rw [readLine, opening]
  simp [bracket, key, closing, skip?]

/-- Whether the lines of a text are an outline, in any number of steps from its length on. -/
def Reads (s : List Char) (outline : Outline) : Prop :=
  ∀ steps, s.length ≤ steps → readLines steps s = some outline

theorem reads_nil : Reads [] {} := by
  intro steps _
  simp [readLines]

/-- A line goes in front of the outline of the lines after it. -/
theorem Reads.line {front rest : List Char} {line : Line} {outline : Outline}
    (later : Reads rest outline)
    (read : readLine (front ++ '\n' :: rest) = some (line, '\n' :: rest)) :
    Reads (front ++ '\n' :: rest) (outline.addLine line) := by
  intro steps enough
  have finished : finishLine? ('\n' :: rest) = some rest := by
    simp [finishLine?, skipSpace, isSpace]
  obtain ⟨steps, rfl⟩ : ∃ fewer, steps = fewer + 1 := by
    refine ⟨steps - 1, ?_⟩
    simp only [List.length_append, List.length_cons] at enough
    omega
  have later' := later steps (by
    simp only [List.length_append, List.length_cons] at enough
    omega)
  rw [readLines, read]
  · simp [finished, later']
  · simp

/-- An empty line changes nothing. -/
theorem Reads.blank {rest : List Char} {outline : Outline} (later : Reads rest outline) :
    Reads ('\n' :: rest) outline := by
  have read : readLine ([] ++ '\n' :: rest) = some (.blank, '\n' :: rest) := by
    simp [readLine, skipSpace, isSpace]
  exact later.line read

/-- The lines of some fields put their pairs in front of an outline. -/
theorem Reads.lines {fields : List (String × Value)} {text rest : List Char} {outline : Outline}
    (later : Reads rest outline) (found : lines? fields = some text)
    (undated : ∀ field ∈ fields, Undated field.2) :
    Reads (text ++ rest) { outline with pairs := fields.map pairOf ++ outline.pairs } := by
  obtain ⟨texts, written, rfl⟩ : ∃ texts, fields.mapM line? = some texts ∧
      texts.flatten = text := by
    simpa [lines?] using found
  rw [mapM_eq_some_iff] at written
  clear found
  induction written with
  | nil => exact later
  | @cons field text fields texts first _ ih =>
      have read := readLine_line first (undated field List.mem_cons_self)
        (texts.flatten ++ rest)
      obtain ⟨front, rfl⟩ := exists_line?_concat first
      have later' := ih fun field mem => undated field (List.mem_cons_of_mem _ mem)
      rw [List.append_assoc, List.singleton_append] at read
      simpa [Outline.addLine] using later'.line read

/-- A section is read back in front of the sections after it. -/
theorem Reads.section {name : String} {fields : List (String × Value)} {text rest : List Char}
    {sections : List Section} (later : Reads rest ⟨[], sections⟩)
    (found : sectionText? name fields = some text) (undated : ∀ field ∈ fields, Undated field.2) :
    Reads (text ++ rest) ⟨[], ⟨.table ⟨[], name⟩, fields.map pairOf⟩ :: sections⟩ := by
  obtain ⟨text, written, rfl⟩ : ∃ lines, lines? fields = some lines ∧
      '[' :: (nameText name ++ [']', '\n'] ++ lines) = text := by
    simpa [sectionText?] using found
  have body := later.lines written undated
  have read : readLine ('[' :: (nameText name ++ [']']) ++ '\n' :: (text ++ rest)) =
      some (.header (.table ⟨[], name⟩), '\n' :: (text ++ rest)) := by
    simpa using readLine_header name (text ++ rest)
  simpa [Outline.addLine] using body.line read

/-- The outline of a document: the plain fields, and a section for each field that is a table. -/
def outlineOf (fields : List (String × Value)) : Outline where
  pairs := (plainFields fields).map pairOf
  sections := (innerTables fields).map fun (name, inner) => ⟨.table ⟨[], name⟩, inner.map pairOf⟩

/-- Neither the plain fields nor those of the tables have dates. -/
structure UndatedFields (fields : List (String × Value)) : Prop where
  plain : ∀ field ∈ plainFields fields, Undated field.2
  inner : ∀ part ∈ innerTables fields, ∀ field ∈ part.2, Undated field.2

/-- Sections with empty lines between them are read back. -/
theorem reads_sections {parts : List (String × List (String × Value))} {texts : List (List Char)}
    (found : List.Forall₂ (fun part text => sectionText? part.1 part.2 = some text) parts texts)
    (undated : ∀ part ∈ parts, ∀ field ∈ part.2, Undated field.2) :
    Reads (Text.join '\n' texts) ⟨[], parts.map fun (name, inner) =>
      ⟨.table ⟨[], name⟩, inner.map pairOf⟩⟩ := by
  induction found with
  | nil => exact reads_nil
  | @cons part text parts texts first later ih =>
      have read := ih fun part mem => undated part (List.mem_cons_of_mem _ mem)
      have undated' := undated part List.mem_cons_self
      cases later with
      | nil =>
          have whole := reads_nil.section first undated'
          simpa [Text.join_singleton] using whole
      | cons second later =>
          have whole := read.blank.section first undated'
          simpa [Text.join_cons] using whole

/-- The parts of a document. -/
theorem exists_parts_of_render? {fields : List (String × Value)} {text : String}
    (found : render? fields = some text) :
    ∃ head bodies, lines? (plainFields fields) = some head ∧
      List.Forall₂ (fun part text => sectionText? part.1 part.2 = some text) (innerTables fields)
        bodies ∧
      text.toList = Text.join '\n' (if head.isEmpty then bodies else head :: bodies) := by
  obtain ⟨head, headFound, bodies, bodiesFound, rfl⟩ :
      ∃ head, lines? (plainFields fields) = some head ∧
      ∃ bodies, (innerTables fields).mapM (fun (name, inner) => sectionText? name inner) =
        some bodies ∧
      String.ofList (Text.join '\n' (if head.isEmpty then bodies else head :: bodies)) = text := by
    simpa [render?, Option.bind_eq_some_iff] using found
  exact ⟨head, bodies, headFound, mapM_eq_some_iff.mp bodiesFound, String.toList_ofList⟩

/-- A document is read back as its outline. -/
theorem reads_render {fields : List (String × Value)} {text : String}
    (found : render? fields = some text) (undated : UndatedFields fields) :
    Reads text.toList (outlineOf fields) := by
  obtain ⟨head, bodies, headFound, bodiesFound, whole⟩ := exists_parts_of_render? found
  have sections := reads_sections bodiesFound undated.inner
  rw [whole]
  split
  · next empty =>
      obtain rfl := List.isEmpty_iff.mp empty
      simpa [outlineOf] using sections.lines headFound undated.plain
  · next nonempty =>
      cases bodies with
      | nil =>
          obtain none : innerTables fields = [] := by simpa using bodiesFound
          simpa [outlineOf, none, Text.join_singleton] using
            reads_nil.lines headFound undated.plain
      | cons body bodies =>
          rw [Text.join_cons (by simp)]
          simpa [outlineOf] using sections.blank.lines headFound undated.plain

namespace Entries

variable {entries : Entries}

theorem set_of_not_mem {name : String} (entry : Entry) (absent : name ∉ entries.map (·.1)) :
    set name entry entries = entries ++ [(name, entry)] := by
  induction entries with
  | nil => rfl
  | cons first entries ih =>
      rw [List.map_cons, List.mem_cons, not_or] at absent
      rw [set, if_neg (Ne.symm absent.1), ih absent.2, List.cons_append]

/-- The entries of some fields. -/
def ofFields (fields : List (String × Value)) : Entries :=
  fields.map fun (name, value) => (name, .value value)

/-- Pairs of different names are put into a table as they are. -/
theorem insertAll_pairOf {fields : List (String × Value)}
    (distinct : (entries.map (·.1) ++ fields.map (·.1)).Nodup) :
    insertAll (fields.map pairOf) entries = some (entries ++ ofFields fields) := by
  induction fields generalizing entries with
  | nil => simp [insertAll, ofFields]
  | cons field fields ih =>
      have absent : field.1 ∉ entries.map (·.1) := by
        rw [List.nodup_append'] at distinct
        exact fun mem => distinct.2.2 mem (by simp)
      have inserted : insert entries (pairOf field) =
          some (entries ++ [(field.1, .value field.2)]) := by
        simp [insert, pairOf, insertBelow, NameMap.lookup_eq_none_of_not_mem absent,
          set_of_not_mem _ absent]
      have later : insertAll (fields.map pairOf) (entries ++ [(field.1, .value field.2)]) =
          some (entries ++ [(field.1, .value field.2)] ++ ofFields fields) :=
        ih (by simpa using distinct)
      simp only [insertAll] at later
      simp [insertAll, inserted, later, ofFields]

/-- The entries of some sections. -/
def ofSections (parts : List (String × List (String × Value))) : Entries :=
  parts.map fun (name, inner) => (name, .table .header (ofFields inner))

/-- Sections of different names are added as they are. -/
theorem addSections {parts : List (String × List (String × Value))}
    (distinct : (entries.map (·.1) ++ parts.map (·.1)).Nodup)
    (distinct' : ∀ part ∈ parts, (part.2.map (·.1)).Nodup) :
    (parts.map fun (name, inner) => (⟨.table ⟨[], name⟩, inner.map pairOf⟩ : Section)).foldlM
      addSection entries = some (entries ++ ofSections parts) := by
  induction parts generalizing entries with
  | nil => simp [ofSections]
  | cons part parts ih =>
      have absent : part.1 ∉ entries.map (·.1) := by
        rw [List.nodup_append'] at distinct
        exact fun mem => distinct.2.2 mem (by simp)
      have filled : insertAll (part.2.map pairOf) [] = some ([] ++ ofFields part.2) :=
        insertAll_pairOf (by simpa using distinct' part List.mem_cons_self)
      have grown : ((entries ++ [(part.1, Entry.table .header (ofFields part.2))]).map
          (fun entry => entry.1) ++ parts.map (·.1)).Nodup := by
        simpa using distinct
      have later := ih grown fun part' mem => distinct' part' (List.mem_cons_of_mem _ mem)
      simp [addSection, changeAt, openTable, NameMap.lookup_eq_none_of_not_mem absent, filled,
        set_of_not_mem _ absent, later, ofSections]

end Entries

theorem fieldsOf_eq_map (entries : Entries) :
    fieldsOf entries = entries.map fun (name, entry) => (name, entry.toValue) := by
  induction entries with
  | nil => rfl
  | cons first entries ih => rw [fieldsOf, ih, List.map_cons]

/-- What a document is read as: its tables come after its plain fields. -/
def arranged (fields : List (String × Value)) : List (String × Value) :=
  plainFields fields ++ (innerTables fields).map fun (name, inner) => (name, .table inner)

/-- Whether no table of a document has two fields of one name. -/
structure DistinctNames (fields : List (String × Value)) : Prop where
  outer : ((arranged fields).map (·.1)).Nodup
  inner : ∀ part ∈ innerTables fields, (part.2.map (·.1)).Nodup

/-- An outline of different names is put together again. -/
theorem toValue?_outlineOf {fields : List (String × Value)} (distinct : DistinctNames fields) :
    (outlineOf fields).toValue? = some (.table (arranged fields)) := by
  have outer := distinct.outer
  rw [arranged, List.map_append] at outer
  have filled : Entries.insertAll ((plainFields fields).map pairOf) [] =
      some ([] ++ Entries.ofFields (plainFields fields)) :=
    Entries.insertAll_pairOf (by simpa using outer.of_append_left)
  have outer' : ((Entries.ofFields (plainFields fields)).map (·.1) ++
      (innerTables fields).map (·.1)).Nodup := by
    simpa [Entries.ofFields, Function.comp_def] using outer
  have added := Entries.addSections outer' distinct.inner
  have fields_eq : fieldsOf (Entries.ofFields (plainFields fields) ++
      Entries.ofSections (innerTables fields)) = arranged fields := by
    simp [fieldsOf_eq_map, Entries.ofFields, Entries.ofSections, Entry.toValue, arranged,
      Function.comp_def]
  simp only [List.nil_append] at filled
  simp only [Outline.toValue?, outlineOf, filled, Option.bind_some, added, Option.map_some,
    fields_eq]

/-- A document can be written exactly if each value has a place in the format. -/
theorem isSome_render? {fields : List (String × Value)} :
    (render? fields).isSome ↔ (∀ field ∈ plainFields fields, (valueText? field.2).isSome) ∧
      ∀ part ∈ innerTables fields, ∀ field ∈ part.2, (valueText? field.2).isSome := by
  have written : ∀ fields : List (String × Value),
      (lines? fields).isSome ↔ ∀ field ∈ fields, (valueText? field.2).isSome := by
    simp [lines?, isSome_mapM, line?]
  have parts : (render? fields).isSome ↔ (lines? (plainFields fields)).isSome ∧
      ((innerTables fields).mapM fun (name, inner) => sectionText? name inner).isSome := by
    unfold render?
    cases lines? (plainFields fields) <;>
      cases (innerTables fields).mapM fun (name, inner) => sectionText? name inner <;> simp
  simp only [parts, isSome_mapM, sectionText?, Option.isSome_map, written]

theorem head?_join (first : List Char) (later : List (List Char)) (nonempty : first ≠ []) :
    (Text.join '\n' (first :: later)).head? = first.head? := by
  cases later with
  | nil => rw [Text.join_singleton]
  | cons second later => rw [Text.join_cons (by simp), List.head?_append_of_ne_nil _ nonempty]

/-- No byte order mark stands before a document. -/
theorem head?_render {fields : List (String × Value)} {text : String}
    (found : render? fields = some text) : text.toList.head? ≠ some (Char.ofNat 0xFEFF) := by
  obtain ⟨head, bodies, headFound, bodiesFound, whole⟩ := exists_parts_of_render? found
  rw [whole]
  split
  · generalize innerTables fields = parts at bodiesFound
    cases bodiesFound with
    | nil => simp [Text.join]
    | @cons part body parts bodies first _ =>
        obtain ⟨lines, -, rfl⟩ : ∃ lines, lines? part.2 = some lines ∧
            '[' :: (nameText part.1 ++ [']', '\n'] ++ lines) = body := by
          simpa [sectionText?] using first
        rw [head?_join _ _ (by simp)]
        simp only [List.head?_cons]
        decide
  · next nonempty =>
      obtain ⟨texts, written, rfl⟩ : ∃ texts, (plainFields fields).mapM line? = some texts ∧
          texts.flatten = head := by
        simpa [lines?] using headFound
      rw [head?_join _ _ (by simpa using nonempty)]
      rw [mapM_eq_some_iff] at written
      generalize plainFields fields = lines at written
      cases written with
      | nil => simp
      | cons first _ =>
          obtain ⟨c, more, rfl, begins⟩ := exists_line?_cons first
          have other : c ≠ Char.ofNat 0xFEFF := ne_of_beginsName begins (by decide)
          simpa using other

/-- A document is read back from its text, if it has no dates and its names differ. -/
theorem parse?_render {fields : List (String × Value)} {text : String}
    (found : render? fields = some text) (undated : UndatedFields fields)
    (distinct : DistinctNames fields) : parse? text = some (.table (arranged fields)) := by
  have read := reads_render found undated text.toList.length (Nat.le_refl _)
  have unmarked := head?_render found
  have whole : parse? text =
      (readLines text.toList.length text.toList).bind Outline.toValue? := by
    unfold parse?
    cases start : text.toList with
    | nil => rfl
    | cons c rest =>
        have other : c ≠ Char.ofNat 0xFEFF := by simpa [start] using unmarked
        simp only [if_neg other]
  rw [whole, read, Option.bind_some, toValue?_outlineOf distinct]

end Toml

end SpeedupStudy
