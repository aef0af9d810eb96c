/-
# Quoted text is read back

Every quotation that the writer chooses gives its text back, whatever the text holds. Between double
quotes each character is read back from its form. In a block the state of the writer is the run of
quotes since the last escape: the reader sees three quotes in a row only at the end, where it takes
up to two quotes of the text along with the closing ones.
-/

import Mathlib
import SpeedupStudy.Toml.Quoted

namespace SpeedupStudy

namespace Toml

/-- What the escape of a control character stands for. -/
theorem unicode?_of_isControl {c : Char} (control : isControl c = true) :
    unicode? ['0', '0', hexDigit (c.toNat / 16), hexDigit c.toNat] = some c := by
  have small : c.toNat < 128 := by
    simp only [isControl, Bool.or_eq_true, decide_eq_true_eq, beq_iff_eq] at control
    omega
  have all : ∀ n < 128,
      unicode? ['0', '0', hexDigit (n / 16), hexDigit n] = some (Char.ofNat n) := by
    decide +kernel
  rw [all c.toNat small, Char.ofNat_toNat]

/-- A character is escaped by a letter or by its number, or it stands for itself. -/
theorem escape_cases (c : Char) :
    (∃ letter ∈ ['"', '\\', 'n', 'r', 't', 'b', 'f'],
      escape c = ['\\', letter] ∧ escaped? letter = some c) ∨
    (∃ a b, escape c = ['\\', 'u', '0', '0', a, b] ∧ unicode? ['0', '0', a, b] = some c) ∨
    (escape c = [c] ∧ c ≠ '"' ∧ c ≠ '\\' ∧ isControl c = false) := by
  by_cases named : c ∈ ['"', '\\', '\n', '\r', '\t', Char.ofNat 8, Char.ofNat 12]
  · refine .inl ?_
    simp only [List.mem_cons, List.not_mem_nil, or_false] at named
    rcases named with rfl | rfl | rfl | rfl | rfl | rfl | rfl
    · exact ⟨'"', by decide, by decide, by decide⟩
    · exact ⟨'\\', by decide, by decide, by decide⟩
    · exact ⟨'n', by decide, by decide, by decide⟩
    · exact ⟨'r', by decide, by decide, by decide⟩
    · exact ⟨'t', by decide, by decide, by decide⟩
    · exact ⟨'b', by decide, by decide, by decide⟩
    · exact ⟨'f', by decide, by decide, by decide⟩
  · simp only [List.mem_cons, List.not_mem_nil, or_false, not_or] at named
    obtain ⟨quote, backslash, lineFeed, return', tab, backspace, formFeed⟩ := named
    refine .inr ?_
    unfold escape
    rw [if_neg quote, if_neg backslash, if_neg lineFeed, if_neg return', if_neg tab,
      if_neg backspace, if_neg formFeed]
    by_cases control : isControl c = true
    · exact .inl ⟨_, _, if_pos control, unicode?_of_isControl control⟩
    · exact .inr ⟨if_neg control, quote, backslash, eq_false_of_ne_true control⟩

theorem readBasic_escape (c : Char) (rest : List Char) :
    readBasic (escape c ++ rest) = (readBasic rest).map (prepend c) := by
  rcases escape_cases c with ⟨letter, mem, text, value⟩ | ⟨a, b, text, value⟩ |
    ⟨text, quote, backslash, control⟩
  · rw [text]
    simp only [List.mem_cons, List.not_mem_nil, or_false] at mem
    rcases mem with rfl | rfl | rfl | rfl | rfl | rfl | rfl <;> simp [readBasic, value]
  · simp [text, readBasic, value]
  · rw [text]
    simp [readBasic, backslash, control]

theorem readBasic_quoted (s rest : List Char) :
    readBasic (s.flatMap escape ++ '"' :: rest) = some (s, rest) := by
  induction s with
  | nil => simp [readBasic]
  | cons c s ih =>
      rw [List.flatMap_cons, List.append_assoc, readBasic_escape, ih]
      rfl

theorem readLiteral_quoted {s : List Char} (unquoted : '\'' ∉ s)
    (clean : ∀ c ∈ s, isControl c = true → c = '\t') (rest : List Char) :
    readLiteral (s ++ '\'' :: rest) = some (s, rest) := by
  induction s with
  | nil => simp [readLiteral]
  | cons c s ih =>
      have other : c ≠ '\'' := fun same => unquoted (same ▸ List.mem_cons_self)
      have shown : (isControl c && c != '\t') = false := by
        simpa using clean c List.mem_cons_self
      have later := ih (fun mem => unquoted (List.mem_cons_of_mem _ mem))
        fun c' mem => clean c' (List.mem_cons_of_mem _ mem)
      simp [readLiteral, shown, later, prepend]


/-- Outside a block of quotes nothing closes it. -/
theorem readBlock_escape {c : Char} (quote : c ≠ '"') (lineFeed : c ≠ '\n') (rest : List Char) :
    readBlock false (escape c ++ rest) = (readBlock false rest).map (prepend c) := by
  rcases escape_cases c with ⟨letter, mem, text, value⟩ | ⟨a, b, text, value⟩ |
    ⟨text, -, backslash, control⟩
  · rw [text]
    simp only [List.mem_cons, List.not_mem_nil, or_false] at mem
    rcases mem with rfl | rfl | rfl | rfl | rfl | rfl | rfl <;>
      simp [readBlock, lineEnds, skipSpace, isSpace, value]
  · simp [text, readBlock, value]
  · rw [text]
    by_cases space : c = ' '
    · simp [space, readBlock]
    · have tab : c ≠ '\t' := by
        rintro rfl
        simp [isControl] at control
      have return' : c ≠ '\r' := by
        rintro rfl
        simp [isControl] at control
      rw [List.singleton_append, readBlock.eq_def]
      split <;> simp_all

/-- A quote that is not the first of three stands for itself. -/
theorem readBlock_quote {rest : List Char} (apart : ∀ later, rest ≠ '"' :: '"' :: later) :
    readBlock false ('"' :: rest) = (readBlock false rest).map (prepend '"') := by
  rw [readBlock.eq_10] <;> simp_all [isControl]

theorem closeBlock_of_apart {quote : Char} {rest : List Char}
    (apart : rest.head? ≠ some quote) : closeBlock quote rest = ([], rest) := by
  unfold closeBlock
  split <;> simp_all

theorem closeBlock_one {quote : Char} {rest : List Char} (apart : rest.head? ≠ some quote) :
    closeBlock quote (quote :: rest) = ([quote], rest) := by
  cases rest with
  | nil => simp [closeBlock]
  | cons c rest => simp_all [closeBlock]

theorem closeBlock_two (quote : Char) (rest : List Char) :
    closeBlock quote (quote :: quote :: rest) = ([quote, quote], rest) := by
  simp [closeBlock]

/-- The form of a character between double quotes begins neither with one nor with a control
character. -/
theorem exists_escape_cons (c : Char) :
    ∃ first more, escape c = first :: more ∧ first ≠ '"' ∧ isControl first = false := by
  rcases escape_cases c with ⟨letter, -, text, -⟩ | ⟨a, b, text, -⟩ | ⟨text, quote, -, control⟩
  · exact ⟨'\\', [letter], text, by decide, by decide⟩
  · exact ⟨'\\', ['u', '0', '0', a, b], text, by decide, by decide⟩
  · exact ⟨c, [], text, quote, control⟩

/-- A character that is neither a quote nor a line feed is escaped in a block as elsewhere. -/
theorem escapeBlock_cons {c : Char} (quote : c ≠ '"') (lineFeed : c ≠ '\n') (quotes : Nat)
    (s : List Char) : escapeBlock quotes (c :: s) = escape c ++ escapeBlock 0 s := by
  simp [escapeBlock, quote, lineFeed]

/-- In a block, what follows two quotes that were not escaped does not begin with a quote, and
neither does what is no quote. -/
theorem exists_escapeBlock_cons {quotes : Nat} {c : Char} (other : quotes = 2 ∨ c ≠ '"')
    (s : List Char) : ∃ first more, escapeBlock quotes (c :: s) = first :: more ∧ first ≠ '"' := by
  by_cases quote : c = '"'
  · have two : quotes = 2 := other.resolve_right (not_not_intro quote)
    exact ⟨'\\', '"' :: escapeBlock 0 s, by simp [escapeBlock, quote, two], by decide⟩
  · by_cases lineFeed : c = '\n'
    · exact ⟨'\n', escapeBlock 0 s, by simp [escapeBlock, lineFeed], by decide⟩
    · obtain ⟨first, more, text, apart, -⟩ := exists_escape_cons c
      exact ⟨first, more ++ escapeBlock 0 s, by simp [escapeBlock_cons quote lineFeed, text], apart⟩

/-- Two quotes follow a quote of a block only at the end of its text. -/
theorem eq_of_two_quotes {quotes : Nat} (few : quotes < 2) {s rest later : List Char}
    (two : escapeBlock (quotes + 1) s ++ '"' :: '"' :: '"' :: rest = '"' :: '"' :: later) :
    s = [] ∨ (s = ['"'] ∧ quotes = 0) := by
  have different : ∀ {quotes : Nat} {c : Char} {s rest later : List Char}, quotes = 2 ∨ c ≠ '"' →
      escapeBlock quotes (c :: s) ++ rest ≠ '"' :: later := by
    intro quotes c s rest later other same
    obtain ⟨first, more, text, apart⟩ := exists_escapeBlock_cons other s
    rw [text] at same
    exact apart (List.cons.inj same).1
  rcases s with - | ⟨c, s⟩
  · exact .inl rfl
  · by_cases other : quotes + 1 = 2 ∨ c ≠ '"'
    · exact absurd two (different other)
    · obtain ⟨rfl, rfl⟩ : quotes = 0 ∧ c = '"' := by
        simp only [not_or, not_not] at other
        exact ⟨by omega, other.2⟩
      rcases s with - | ⟨c, s⟩
      · exact .inr ⟨rfl, rfl⟩
      · exact absurd (List.cons.inj two).2 (different (.inl rfl))

/-- A block is read back after any run of quotes that were not escaped. -/
theorem readBlock_escapeBlock {rest : List Char} (apart : rest.head? ≠ some '"') (s : List Char)
    {quotes : Nat} (few : quotes ≤ 2) :
    readBlock false (escapeBlock quotes s ++ '"' :: '"' :: '"' :: rest) = some (s, rest) := by
  induction s generalizing quotes with
  | nil => simp [escapeBlock, readBlock, closeBlock_of_apart apart]
  | cons c s ih =>
      by_cases quote : c = '"'
      · subst quote
        by_cases two : quotes = 2
        · simp [escapeBlock, two, readBlock, lineEnds, skipSpace, isSpace, escaped?, ih, prepend]
        · have text : escapeBlock quotes ('"' :: s) = '"' :: escapeBlock (quotes + 1) s := by
            simp [escapeBlock, two]
          rw [text, List.cons_append]
          by_cases closing : ∃ later,
              escapeBlock (quotes + 1) s ++ '"' :: '"' :: '"' :: rest = '"' :: '"' :: later
          · -- The text ends here, so its last quotes are taken with the closing ones.
            obtain ⟨later, closing⟩ := closing
            rcases eq_of_two_quotes (by omega) closing with rfl | ⟨rfl, rfl⟩
            · simp [escapeBlock, readBlock, closeBlock_one apart]
            · simp [escapeBlock, readBlock, closeBlock_two]
          · rw [readBlock_quote (not_exists.mp closing), ih (by omega)]
            rfl
      · by_cases lineFeed : c = '\n'
        · simp [escapeBlock, lineFeed, readBlock, ih, prepend]
        · rw [escapeBlock_cons quote lineFeed, List.append_assoc, readBlock_escape quote lineFeed,
            ih (by omega)]
          rfl

/-- Where no three quotes follow each other, none do so further on. -/
theorem hasTriple_of_cons {quote c : Char} {s : List Char}
    (none : hasTriple quote (c :: s) = false) :
    hasTriple quote s = false ∧ (c = quote → ∀ later, s ≠ quote :: quote :: later) := by
  unfold hasTriple Text.occursIn at none ⊢
  rw [Text.after?] at none
  split at none
  · simp at none
  · next apart =>
      refine ⟨none, ?_⟩
      rintro rfl later rfl
      exact apart (by simp [List.isPrefixOf])

theorem readLiteralBlock_quote {rest : List Char} (apart : ∀ later, rest ≠ '\'' :: '\'' :: later) :
    readLiteralBlock ('\'' :: rest) = (readLiteralBlock rest).map (prepend '\'') := by
  rw [readLiteralBlock.eq_4] <;> simp_all [needsEscape, isControl]

/-- A literal block is read back. -/
theorem readLiteralBlock_quoted {rest : List Char} (apart : rest.head? ≠ some '\'')
    {s : List Char} (clean : ∀ c ∈ s, needsEscape c = false) (none : hasTriple '\'' s = false) :
    readLiteralBlock (s ++ '\'' :: '\'' :: '\'' :: rest) = some (s, rest) := by
  induction s with
  | nil => simp [readLiteralBlock, closeBlock_of_apart apart]
  | cons c s ih =>
      obtain ⟨later, single⟩ := hasTriple_of_cons none
      have read := ih (fun c' mem => clean c' (List.mem_cons_of_mem _ mem)) later
      by_cases quote : c = '\''
      · subst quote
        by_cases closing : ∃ later, s ++ '\'' :: '\'' :: '\'' :: rest = '\'' :: '\'' :: later
        · obtain ⟨later, closing⟩ := closing
          rcases s with - | ⟨first, - | ⟨second, s⟩⟩
          · simp [readLiteralBlock, closeBlock_one apart]
          · obtain ⟨rfl, -⟩ := List.cons.inj closing
            simp [readLiteralBlock, closeBlock_two]
          · simp only [List.cons_append, List.cons.injEq] at closing
            obtain ⟨rfl, rfl, -⟩ := closing
            exact absurd rfl (single rfl s)
        · rw [List.cons_append, readLiteralBlock_quote (not_exists.mp closing), read]
          rfl
      · have shown := clean c List.mem_cons_self
        have return' : c ≠ '\r' := by
          rintro rfl
          simp [needsEscape, isControl] at shown
        rw [List.cons_append, readLiteralBlock.eq_4 _ _ (by simp [return']) (by simp [quote]), read]
        simp [shown, prepend]

/-- Whether a quotation can hold a text. Where nothing is escaped, the text must not have control
characters and the quotes that close it. -/
def Quotation.Suits (s : List Char) : Quotation → Prop
  | .basic | .block => True
  | .literal => '\'' ∉ s ∧ ∀ c ∈ s, isControl c = true → c = '\t'
  | .literalBlock => (∀ c ∈ s, needsEscape c = false) ∧ hasTriple '\'' s = false

theorem eq_tab_of_isControl {s : List Char} (clean : s.any needsEscape = false)
    (oneLine : s.contains '\n' = false) {c : Char} (mem : c ∈ s) (control : isControl c = true) :
    c = '\t' := by
  have shown : needsEscape c = false := by
    simpa using List.any_eq_false.mp clean c mem
  have lineFeed : c ≠ '\n' := by
    rintro rfl
    simp [mem] at oneLine
  simpa [needsEscape, control, lineFeed] using shown

/-- A value is put in a quotation that can hold it. -/
theorem suits_valueQuotation (s : List Char) : (valueQuotation s).Suits s := by
  simp only [valueQuotation]
  split_ifs with basic literal block literalBlock oneLine
  · trivial
  · simp only [Bool.and_eq_true, Bool.not_eq_true'] at literal
    obtain ⟨⟨clean, oneLine⟩, unquoted⟩ := literal
    exact ⟨by simpa using unquoted, fun c mem => eq_tab_of_isControl clean oneLine mem⟩
  · trivial
  · simp only [Bool.and_eq_true, Bool.not_eq_true'] at literalBlock
    obtain ⟨clean, single⟩ := literalBlock
    exact ⟨fun c mem => by simpa using List.any_eq_false.mp clean c mem, single⟩
  · trivial
  · trivial

/-- A name is put in a quotation that can hold it and has no line ends. -/
theorem suits_nameQuotation (s : List Char) :
    (nameQuotation s).Suits s ∧ (nameQuotation s = .basic ∨ nameQuotation s = .literal) := by
  simp only [nameQuotation]
  split_ifs with literal
  · simp only [Bool.and_eq_true, Bool.not_eq_true'] at literal
    obtain ⟨⟨⟨clean, oneLine⟩, -⟩, unquoted⟩ := literal
    exact ⟨⟨by simpa using unquoted, fun c mem => eq_tab_of_isControl clean oneLine mem⟩, .inr rfl⟩
  · exact ⟨trivial, .inl rfl⟩

/-- A quoted text on one line is read back. -/
theorem readLineQuote_quote {s : List Char} {quotation : Quotation} (suits : quotation.Suits s)
    (line : quotation = .basic ∨ quotation = .literal) (rest : List Char) :
    readLineQuote (quote s quotation ++ rest) = some (s, rest) := by
  rcases line with rfl | rfl
  · simp [quote, readLineQuote, readBasic_quoted]
  · simp [quote, readLineQuote, readLiteral_quoted suits.1 suits.2]

/-- The line feed at the start of a block is dropped, and nothing else is. -/
theorem dropLineEnd_blockStart {s body : List Char}
    (apart : '\n' ∉ s → ∀ c ∈ body.head?, c ≠ '\n' ∧ c ≠ '\r') :
    dropLineEnd (blockStart s ++ body) = body := by
  unfold blockStart
  split
  · rfl
  · next oneLine =>
      cases body with
      | nil => rfl
      | cons c body =>
          obtain ⟨lineFeed, return'⟩ := apart (by simpa using oneLine) c rfl
          rw [List.nil_append, dropLineEnd.eq_3] <;> simp [lineFeed, return']

section Quotations

variable {s rest : List Char}

/-- A basic text on one line is not taken for a block, as three quotes would have to be read. -/
theorem readQuote_basic (apart : rest.head? ≠ some '"') :
    readQuote (quote s .basic ++ rest) = some (s, rest) := by
  have suits : Quotation.basic.Suits s := trivial
  rw [readQuote.eq_3, readLineQuote_quote suits (.inl rfl)]
  · intro later three
    cases s with
    | nil =>
        simp only [quote, List.flatMap_nil, List.nil_append, List.cons_append, List.cons.injEq,
          true_and] at three
        exact apart (by rw [three, List.head?_cons])
    | cons c s =>
        obtain ⟨first, more, text, other⟩ := exists_escape_cons c
        simp only [quote, List.flatMap_cons, text, List.cons_append, List.cons.injEq,
          true_and] at three
        exact other.1 three.1
  · simp [quote]

theorem readQuote_literal (suits : Quotation.literal.Suits s) (apart : rest.head? ≠ some '\'') :
    readQuote (quote s .literal ++ rest) = some (s, rest) := by
  rw [readQuote.eq_3, readLineQuote_quote suits (.inr rfl)]
  · simp [quote]
  · intro later three
    cases s with
    | nil =>
        simp only [quote, List.nil_append, List.cons_append, List.cons.injEq, true_and] at three
        exact apart (by rw [three, List.head?_cons])
    | cons c s =>
        simp only [quote, List.cons_append, List.cons.injEq, true_and] at three
        exact suits.1 (three.1 ▸ List.mem_cons_self)

theorem readQuote_block (apart : rest.head? ≠ some '"') :
    readQuote (quote s .block ++ rest) = some (s, rest) := by
  have text : quote s .block ++ rest = '"' :: '"' :: '"' ::
      (blockStart s ++ (escapeBlock 0 s ++ '"' :: '"' :: '"' :: rest)) := by
    simp [quote]
  rw [text, readQuote, dropLineEnd_blockStart, readBlock_escapeBlock apart s (by decide)]
  intro oneLine c first
  cases s with
  | nil =>
      obtain rfl : '"' = c := by simpa [escapeBlock] using first
      decide
  | cons c' s =>
      by_cases quote : c' = '"'
      · obtain rfl : '"' = c := by simpa [escapeBlock, quote] using first
        decide
      · have lineFeed : c' ≠ '\n' := fun same => oneLine (same ▸ List.mem_cons_self)
        obtain ⟨c', more, escaped, -, control⟩ := exists_escape_cons c'
        obtain rfl : c' = c := by
          simpa [escapeBlock_cons quote lineFeed, escaped] using first
        constructor <;> rintro rfl <;> simp [isControl] at control

theorem readQuote_literalBlock (suits : Quotation.literalBlock.Suits s)
    (apart : rest.head? ≠ some '\'') :
    readQuote (quote s .literalBlock ++ rest) = some (s, rest) := by
  have text : quote s .literalBlock ++ rest = '\'' :: '\'' :: '\'' ::
      (blockStart s ++ (s ++ '\'' :: '\'' :: '\'' :: rest)) := by
    simp [quote]
  rw [text, readQuote, dropLineEnd_blockStart, readLiteralBlock_quoted apart suits.1 suits.2]
  intro oneLine c first
  cases s with
  | nil =>
      obtain rfl : '\'' = c := by simpa using first
      decide
  | cons c' s =>
      obtain rfl : c' = c := by simpa using first
      refine ⟨fun same => oneLine (same ▸ List.mem_cons_self), ?_⟩
      rintro rfl
      simpa [needsEscape, isControl] using suits.1 _ List.mem_cons_self

/-- A quoted text is read back where no quote follows it. -/
theorem readQuote_quote {quotation : Quotation} (suits : quotation.Suits s)
    (apart : ∀ c ∈ rest.head?, c ≠ '"' ∧ c ≠ '\'') :
    readQuote (quote s quotation ++ rest) = some (s, rest) := by
  have noQuote : rest.head? ≠ some '"' := fun first => (apart '"' first).1 rfl
  have noQuote' : rest.head? ≠ some '\'' := fun first => (apart '\'' first).2 rfl
  cases quotation with
  | basic => exact readQuote_basic noQuote
  | literal => exact readQuote_literal suits noQuote'
  | block => exact readQuote_block noQuote
  | literalBlock => exact readQuote_literalBlock suits noQuote'

end Quotations

end Toml

end SpeedupStudy
