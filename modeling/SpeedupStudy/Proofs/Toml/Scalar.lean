/-
# Plain values are read back

Truth values, integers, numbers and texts are read back where the end of a line, a comma or a
closing bracket follows them. A number could also be the beginning of a date, or of an integer in
another base; what follows its digits rules both out.
-/

import SpeedupStudy.Proofs.Decimal.Padding
import SpeedupStudy.Proofs.Toml.Quoted
import SpeedupStudy.Toml.Reader

namespace SpeedupStudy

namespace Toml

open Decimal

/-- What may follow a value: the end of its line, a comma or a closing bracket. -/
def EndsValue (rest : List Char) : Prop :=
  ∀ c ∈ rest.head?, c = '\n' ∨ c = ',' ∨ c = ']'

/-- The digits of a number without a zero in front. -/
structure IsWhole (whole : List Char) : Prop where
  digits : AllDigits whole
  nonempty : whole ≠ []
  leading : whole = ['0'] ∨ whole.head? ≠ some '0'

theorem isWhole_toDigits (n : Nat) : IsWhole (Nat.toDigits 10 n) :=
  ⟨allDigits_toDigits n, Nat.toDigits_ne_nil, leading_toDigits n⟩

variable {whole rest : List Char}

/-- Digits are read up to what is neither a digit nor an underscore. -/
theorem moreDigits_eq {s : List Char} (digits : AllDigits s)
    (stop : ∀ c ∈ rest.head?, c.isDigit = false ∧ c ≠ '_') :
    moreDigits Char.isDigit (s ++ rest) = some (s, rest) := by
  induction s with
  | nil =>
      cases rest with
      | nil => simp [moreDigits]
      | cons c rest =>
          obtain ⟨digit, underscore⟩ := stop c rfl
          simp [moreDigits, digit, underscore]
  | cons c s ih =>
      have digit := digits c List.mem_cons_self
      have underscore : c ≠ '_' := by
        rintro rfl
        simp at digit
      have later := ih fun c' mem => digits c' (List.mem_cons_of_mem _ mem)
      simp [moreDigits, digit, underscore, later, prepend]

theorem someDigits_eq {s : List Char} (digits : AllDigits s) (nonempty : s ≠ [])
    (stop : ∀ c ∈ rest.head?, c.isDigit = false ∧ c ≠ '_') :
    someDigits Char.isDigit (s ++ rest) = some (s, rest) := by
  obtain ⟨c, s, rfl⟩ := List.exists_cons_of_ne_nil nonempty
  have digit := digits c List.mem_cons_self
  have later := moreDigits_eq (fun c' mem => digits c' (List.mem_cons_of_mem _ mem)) stop
  simp [someDigits, digit, later, prepend]

theorem readWhole_eq (isWhole : IsWhole whole)
    (stop : ∀ c ∈ rest.head?, c.isDigit = false ∧ c ≠ '_') :
    readWhole (whole ++ rest) = some (whole, rest) := by
  rcases isWhole.leading with rfl | leading
  · rfl
  · have read := someDigits_eq isWhole.digits isWhole.nonempty stop
    obtain ⟨c, whole, rfl⟩ := List.exists_cons_of_ne_nil isWhole.nonempty
    have notZero : c ≠ '0' := fun same => leading (congrArg some same)
    rw [readWhole.eq_2, read]
    intro later same
    exact notZero (List.cons.inj same).1

/-- After a fixed number of digits come more of them, or what follows them all. -/
theorem skip?_of_readFixed {digits later : List Char} {c : Char} {width low high n : Nat}
    (all : AllDigits digits) (stop : ∀ c ∈ rest.head?, c.isDigit = false)
    (symbol : c.isDigit = false) (apart : rest.head? ≠ some c)
    (found : readFixed width low high (digits ++ rest) = some (n, later)) :
    skip? c later = none := by
  obtain ⟨length, taken, later_eq⟩ : ((digits ++ rest).take width).length = width ∧
      ((digits ++ rest).take width).all Char.isDigit ∧ (digits ++ rest).drop width = later := by
    simp only [readFixed] at found
    split at found
    · next holds =>
        simp only [Bool.and_eq_true, decide_eq_true_eq] at holds
        simp only [Option.some.injEq, Prod.mk.injEq] at found
        exact ⟨holds.1.1.1, holds.1.1.2, found.2⟩
    · simp at found
  have fits : width ≤ digits.length := by
    by_contra short
    cases rest with
    | nil =>
        simp at length
        omega
    | cons c' rest =>
        have mem : c' ∈ (digits ++ c' :: rest).take width := by
          rw [List.take_append, List.mem_append]
          refine .inr ?_
          rw [List.take_cons (by omega)]
          exact List.mem_cons_self
        have digit := List.all_eq_true.mp taken c' mem
        rw [stop c' rfl] at digit
        exact Bool.false_ne_true digit
  rw [← later_eq, List.drop_append_of_le_length fits]
  cases dropped : digits.drop width with
  | nil =>
      cases rest with
      | nil => rfl
      | cons c' rest =>
          have other : c' ≠ c := fun same => apart (congrArg some same)
          simp [skip?, other]
  | cons c' more =>
      have digit : c'.isDigit = true :=
        all c' (List.mem_of_mem_drop (dropped ▸ List.mem_cons_self))
      have other : c' ≠ c := by
        rintro rfl
        simp [symbol] at digit
      simp [skip?, other]

/-- A number is no date: no dash and no colon follows its digits. -/
theorem readDate_digits {digits : List Char} (all : AllDigits digits)
    (stop : ∀ c ∈ rest.head?, c.isDigit = false ∧ c ≠ '-' ∧ c ≠ ':') :
    readDate (digits ++ rest) = none := by
  have stop' : ∀ c ∈ rest.head?, c.isDigit = false := fun c first => (stop c first).1
  have noDash : rest.head? ≠ some '-' := fun first => (stop '-' first).2.1 rfl
  have noColon : rest.head? ≠ some ':' := fun first => (stop ':' first).2.2 rfl
  have noDate : skipDate? (digits ++ rest) = none := by
    rw [skipDate?]
    cases found : readFixed 4 0 9999 (digits ++ rest) with
    | none => rfl
    | some read => simp [skip?_of_readFixed all stop' (by decide) noDash found]
  have noTime : skipTime? (digits ++ rest) = none := by
    rw [skipTime?]
    cases found : readFixed 2 0 23 (digits ++ rest) with
    | none => rfl
    | some read => simp [skip?_of_readFixed all stop' (by decide) noColon found]
  simp [readDate, noDate, noTime]

theorem readDate_negative (s : List Char) : readDate ('-' :: s) = none := by
  have none_left : ∀ width low high, readFixed (width + 1) low high ('-' :: s) = none := by
    intro width low high
    simp [readFixed]
  simp [readDate, skipDate?, skipTime?, none_left]

/-- What follows a number: neither a digit nor what may stand inside a number or a date. -/
theorem EndsValue.stop (ends : EndsValue rest) : ∀ c ∈ rest.head?, c.isDigit = false ∧ c ≠ '_' := by
  intro c first
  rcases ends c first with rfl | rfl | rfl <;> decide

theorem readFraction_of_endsValue (ends : EndsValue rest) :
    readFraction rest = some ([], rest) := by
  cases rest with
  | nil => rfl
  | cons c rest => rcases ends c rfl with rfl | rfl | rfl <;> rfl

theorem readExponent_of_endsValue (ends : EndsValue rest) :
    readExponent rest = some ([], rest) := by
  cases rest with
  | nil => rfl
  | cons c rest => rcases ends c rfl with rfl | rfl | rfl <;> rfl

/-- Digits stand for an integer. -/
theorem readDecimal_integer (isWhole : IsWhole whole) (ends : EndsValue rest) {negative : Bool}
    {n : Int} (value : n = if negative then -(ofDigits whole : Int) else ofDigits whole)
    (fits : fitsInteger n = true) :
    readDecimal negative (whole ++ rest) = some (.integer n, rest) := by
  have value' : (if negative then -(ofDigits whole : Int) else ofDigits whole) = n := value.symm
  have bounds : Int64.minValue.toInt ≤ n ∧ n ≤ Int64.maxValue.toInt := by
    simpa only [fitsInteger, Bool.and_eq_true, decide_eq_true_eq] using fits
  simp only [readDecimal, readWhole_eq isWhole ends.stop, readFraction_of_endsValue ends,
    readExponent_of_endsValue ends, Option.bind_eq_bind, Option.bind_some, List.isEmpty_nil,
    Bool.and_self, if_true, value', bounds.1, bounds.2, decide_true]

/-- Digits around a point stand for a number. -/
theorem readDecimal_real (isWhole : IsWhole whole) {fraction : List Char}
    (digits : AllDigits fraction) (nonempty : fraction ≠ []) (ends : EndsValue rest)
    {negative : Bool} {size : Float} (value : readFloat? (whole ++ '.' :: fraction) = some size)
    (finite : negative = false → size.isInf = false) :
    readDecimal negative (whole ++ '.' :: (fraction ++ rest)) =
      some (.real (if negative then -size else size), rest) := by
  have read : readWhole (whole ++ '.' :: (fraction ++ rest)) =
      some (whole, '.' :: (fraction ++ rest)) := readWhole_eq isWhole (by simp)
  have read' : readFraction ('.' :: (fraction ++ rest)) = some ('.' :: fraction, rest) := by
    simp [readFraction, someDigits_eq digits nonempty ends.stop, prepend]
  cases negative with
  | true => simp [readDecimal, read, read', readExponent_of_endsValue ends, value]
  | false => simp [readDecimal, read, read', readExponent_of_endsValue ends, value, finite]

theorem readSpecial_digit {c : Char} (digit : c.isDigit = true) (negative : Bool)
    (rest : List Char) : readSpecial negative (c :: rest) = none := by
  unfold readSpecial
  split <;> simp_all [Char.isDigit]

/-- A number without a sign is read as a decimal number. -/
theorem readNumber_digits (isWhole : IsWhole whole)
    (apart : ∀ c ∈ rest.head?, c ≠ 'x' ∧ c ≠ 'o' ∧ c ≠ 'b') :
    readNumber (whole ++ rest) = readDecimal false (whole ++ rest) := by
  obtain ⟨c, whole', text⟩ := List.exists_cons_of_ne_nil isWhole.nonempty
  have digit : c.isDigit = true := isWhole.digits c (by simp [text])
  have signed : splitSign (whole ++ rest) = (false, whole ++ rest) := by
    rw [text, List.cons_append, splitSign_digit digit]
  have noWord : readSpecial false (whole ++ rest) = none := by
    rw [text, List.cons_append, readSpecial_digit digit]
  have noBase : ∀ {letter : Char} {later : List Char}, letter = 'x' ∨ letter = 'o' ∨ letter = 'b' →
      whole ++ rest ≠ '0' :: letter :: later := by
    intro letter later based same
    have zero : whole.head? = some '0' := by
      rw [text, List.cons_append] at same
      rw [text, List.head?_cons, (List.cons.inj same).1]
    rw [isWhole.leading.resolve_right (not_not_intro zero)] at same
    have first : rest.head? = some letter := by
      rw [List.singleton_append] at same
      rw [(List.cons.inj same).2, List.head?_cons]
    obtain ⟨notX, notO, notB⟩ := apart letter first
    rcases based with same | same | same
    · exact notX same
    · exact notO same
    · exact notB same
  rw [readNumber.eq_4 _ (fun _ => noBase (by simp)) (fun _ => noBase (by simp))
    (fun _ => noBase (by simp)), signed]
  simp [noWord]

theorem readNumber_negative (isWhole : IsWhole whole) :
    readNumber ('-' :: (whole ++ rest)) = readDecimal true (whole ++ rest) := by
  obtain ⟨c, whole', text⟩ := List.exists_cons_of_ne_nil isWhole.nonempty
  have digit : c.isDigit = true := isWhole.digits c (by simp [text])
  have noWord : readSpecial true (whole ++ rest) = none := by
    rw [text, List.cons_append, readSpecial_digit digit]
  rw [readNumber.eq_4 _ (by simp) (by simp) (by simp)]
  simp [splitSign, noWord]

/-- Zero has one digit. -/
theorem exponent_shortest {x : Float} (number : (shortest x).toFloat = x)
    (zero : (shortest x).digits = 0) : (shortest x).exponent = 0 := by
  have none : magnitudeToFloat 0 (shortest x).exponent = 0.0 := by
    simp [magnitudeToFloat]
  have isZero : (x == 0.0) = true := by
    rw [← number, toFloat, zero, none]
    cases (shortest x).negative <;> rfl
  rw [shortest, if_pos isZero]

/-- What the text of a number with a fraction is made of. -/
structure IsReal (x : Float) (negative : Bool) (whole fraction : List Char) (size : Float) :
    Prop where
  isWhole : IsWhole whole
  digits : AllDigits fraction
  nonempty : fraction ≠ []
  read : readFloat? (whole ++ '.' :: fraction) = some size
  finite : negative = false → size.isInf = false
  value : (if negative then -size else size) = x
  text : realText x = signText negative ++ (whole ++ '.' :: fraction)

section Real

variable {x : Float} {d : Decimal}

/-- A finite number is written as its shortest decimal, with one zero after a point that it lacks. -/
theorem realText_eq (defined : x.isNaN = false) (finite : x.isInf = false)
    (shortest_eq : shortest x = d) :
    realText x = signText d.negative ++ (d.body ++ if '.' ∈ d.body then [] else ['.', '0']) := by
  have plain : floatText x = signText d.negative ++ d.body := by
    rw [floatText, Numeral.ofFloat, if_neg (ne_true_of_eq_false defined),
      if_neg (ne_true_of_eq_false finite), shortest_eq, Numeral.plain, plain_eq_body]
    cases d.negative <;> rfl
  have point : '.' ∈ floatText x ↔ '.' ∈ d.body := by
    rw [plain]
    cases d.negative <;> simp [signText]
  rw [realText, if_neg (ne_true_of_eq_false defined)]
  simp only [finite, Bool.false_or, List.contains_iff_mem, point]
  split <;> simp [plain]

section Whole

variable (body : d.body = Nat.toDigits 10 d.digits ++ List.replicate d.exponent.toNat '0')
include body

/-- A decimal without a fraction has no zero at its start unless it is zero. -/
theorem isWhole_body (zeroExponent : d.digits = 0 → d.exponent = 0) : IsWhole d.body := by
  refine ⟨body ▸ (allDigits_toDigits _).append (allDigits_zeros _),
    by simp [body, Nat.toDigits_ne_nil], ?_⟩
  rcases leading_toDigits d.digits with zero | leading
  · have none : d.digits = 0 := by
      rw [← ofDigits_toDigits d.digits, zero]
      rfl
    exact .inl (by rw [body, zero, zeroExponent none]; rfl)
  · exact .inr (by rwa [body, List.head?_append_of_ne_nil _ Nat.toDigits_ne_nil])

/-- The zero after the point of a decimal without a fraction does not change its size. -/
theorem magnitudeToFloat_body_zero (above : 0 ≤ d.exponent) :
    magnitudeToFloat (ofDigits (d.body ++ ['0'])) (-1) =
      magnitudeToFloat d.digits d.exponent := by
  have written := toFloat_written { d with negative := false }
  have appended := ofDigits_append_zeros d.body 1
  rw [Nat.pow_one] at appended
  rw [show ['0'] = List.replicate 1 '0' from rfl, appended, magnitudeToFloat_tenth, body,
    ofDigits_append_zeros, ofDigits_toDigits]
  simpa [Decimal.written, above, toFloat] using written

end Whole

/-- A finite number is written with digits on both sides of its point. -/
theorem exists_isReal (defined : x.isNaN = false) (finite : x.isInf = false)
    (number : (shortest x).toFloat = x) :
    ∃ negative whole fraction size, IsReal x negative whole fraction size := by
  have zeroExponent := exponent_shortest number
  have text := realText_eq defined finite rfl
  generalize shortest x = d at number zeroExponent text
  have value : (if d.negative then -(magnitudeToFloat d.digits d.exponent)
      else magnitudeToFloat d.digits d.exponent) = x := number
  have bounded : d.negative = false → (magnitudeToFloat d.digits d.exponent).isInf = false := by
    intro positive
    rw [positive] at value
    rw [← finite, ← value]
    rfl
  rcases body_cases d with ⟨above, body⟩ |
    ⟨below, whole, fraction, body, nonempty, digits, digits', length, digits_eq, leading⟩
  · have isWhole := isWhole_body body zeroExponent
    have noPoint : '.' ∉ d.body := fun mem => absurd (isWhole.digits '.' mem) (by decide)
    refine ⟨d.negative, d.body, ['0'], magnitudeToFloat d.digits d.exponent,
      isWhole, allDigits_zeros 1, by simp, ?_, bounded, value, ?_⟩
    · have read := readFloat?_point isWhole.digits (allDigits_zeros 1) isWhole.nonempty
      exact read.trans (congrArg some (magnitudeToFloat_body_zero body above))
    · rw [text, if_neg noPoint]
  · have point : '.' ∈ d.body := by simp [body]
    have nonempty' : fraction ≠ [] := by
      rintro rfl
      rw [List.length_nil] at length
      omega
    refine ⟨d.negative, whole, fraction, magnitudeToFloat d.digits d.exponent,
      ⟨digits, nonempty, leading⟩, digits', nonempty', ?_, bounded, value, ?_⟩
    · rw [readFloat?_point digits digits' nonempty, digits_eq, length, Int.neg_neg]
    · rw [text, if_pos point, List.append_nil, body]

end Real

/-- A number is undefined, infinite or written with a point. -/
theorem realText_cases (x : Float) :
    (realText x = "nan".toList ∧ x = 0.0 / 0.0) ∨
    (∃ negative, realText x = signText negative ++ "inf".toList ∧
      x = if negative then -(1.0 / 0.0) else 1.0 / 0.0) ∨
    ∃ negative whole fraction size, IsReal x negative whole fraction size := by
  rcases Binary64.number_cases x with
    ⟨undefined, number⟩ | ⟨defined, infinite, number⟩ | ⟨defined, finite, number⟩
  · exact .inl ⟨by rw [realText, if_pos undefined], number⟩
  · refine .inr (.inl ⟨signBit x, ?_, number⟩)
    rw [realText, if_neg (ne_true_of_eq_false defined)]
    simp only [infinite, Bool.true_or, if_true]
    rw [floatText, Numeral.ofFloat, if_neg (ne_true_of_eq_false defined), if_pos infinite]
    cases signBit x <;> rfl
  · exact .inr (.inr (exists_isReal defined finite number))

/-- What begins with a digit or a minus is a date or a number. -/
theorem readScalar_number {c : Char} (first : c = '-' ∨ c.isDigit = true) (s : List Char) :
    readScalar (c :: s) = (readDate (c :: s)).or (readNumber (c :: s)) := by
  have other : ∀ {c' : Char}, c' ≠ '-' → c'.isDigit = false → c ≠ c' := by
    rintro c' minus digit rfl
    exact first.elim minus fun same => Bool.false_ne_true (digit.symm.trans same)
  have word : c ≠ 't' ∧ c ≠ 'f' := ⟨other (by decide) (by decide), other (by decide) (by decide)⟩
  have quote : c ≠ '"' ∧ c ≠ '\'' := ⟨other (by decide) (by decide), other (by decide) (by decide)⟩
  have sign : (decide (c = '+') || decide (c = '-') || c.isDigit) = true := by
    rcases first with rfl | digit
    · decide
    · simp [digit]
  rw [readScalar.eq_4]
  · rw [if_neg (by simp [quote]), if_pos sign]
  · exact fun _ same => absurd same word.1
  · exact fun _ same => absurd same word.2

/-- A number is read as a decimal number with its sign. -/
theorem readScalar_signed (negative : Bool) (isWhole : IsWhole whole)
    (ends : ∀ c ∈ rest.head?, c = '.' ∨ c = '\n' ∨ c = ',' ∨ c = ']') :
    readScalar (signText negative ++ (whole ++ rest)) = readDecimal negative (whole ++ rest) := by
  cases negative with
  | true =>
      exact (readScalar_number (.inl rfl) (whole ++ rest)).trans
        (by rw [readDate_negative, readNumber_negative isWhole, Option.none_or])
  | false =>
      obtain ⟨c, whole', start⟩ := List.exists_cons_of_ne_nil isWhole.nonempty
      have digit : c.isDigit = true := isWhole.digits c (by simp [start])
      have noDate : readDate (whole ++ rest) = none := by
        refine readDate_digits isWhole.digits fun c' first => ?_
        rcases ends c' first with rfl | rfl | rfl | rfl <;> decide
      have number : readNumber (whole ++ rest) = readDecimal false (whole ++ rest) := by
        refine readNumber_digits isWhole fun c' first => ?_
        rcases ends c' first with rfl | rfl | rfl | rfl <;> decide
      have read := readScalar_number (.inr digit) (whole' ++ rest)
      rw [← List.cons_append, ← start, noDate, number, Option.none_or] at read
      exact read

/-- A number is read back from its text. -/
theorem readScalar_realText (x : Float) (ends : EndsValue rest) :
    readScalar (realText x ++ rest) = some (.real x, rest) := by
  rcases realText_cases x with
    ⟨text, rfl⟩ | ⟨negative, text, rfl⟩ | ⟨negative, whole, fraction, size, parts⟩
  · rw [text]
    rfl
  · rw [text]
    cases negative with
    | true =>
        have noDate := readDate_negative ("inf".toList ++ rest)
        exact (readScalar_number (.inl rfl) ("inf".toList ++ rest)).trans (by rw [noDate]; rfl)
    | false => rfl
  · rw [parts.text, List.append_assoc, List.append_assoc, List.cons_append,
      readScalar_signed negative parts.isWhole (by simp),
      readDecimal_real parts.isWhole parts.digits parts.nonempty ends parts.read parts.finite,
      parts.value]

/-- An integer is read back from its text. -/
theorem readScalar_integer {n : Int} (fits : fitsInteger n = true) (ends : EndsValue rest) :
    readScalar ((toString n).toList ++ rest) = some (.integer n, rest) := by
  have value : n = if decide (n < 0) then -(ofDigits (Nat.toDigits 10 n.natAbs) : Int)
      else ofDigits (Nat.toDigits 10 n.natAbs) := by
    rw [ofDigits_toDigits]
    by_cases below : n < 0 <;>
      simp only [below, decide_true, decide_false, Bool.false_eq_true, if_true, if_false] <;>
      omega
  rw [toList_toString_int, List.append_assoc, readScalar_signed _ (isWhole_toDigits _)
    fun c first => .inr (ends c first), readDecimal_integer (isWhole_toDigits _) ends value fits]

theorem exists_quote_cons (s : List Char) (quotation : Quotation) :
    ∃ c more, quote s quotation = c :: more ∧ (c = '"' ∨ c = '\'') := by
  cases quotation with
  | basic | block => exact ⟨'"', _, rfl, .inl rfl⟩
  | literal | literalBlock => exact ⟨'\'', _, rfl, .inr rfl⟩

/-- A text is read back. -/
theorem readScalar_textText (s : String) (ends : EndsValue rest) :
    readScalar (textText s ++ rest) = some (.text s, rest) := by
  have apart : ∀ c ∈ rest.head?, c ≠ '"' ∧ c ≠ '\'' := by
    intro c first
    rcases ends c first with rfl | rfl | rfl <;> decide
  have read := readQuote_quote (suits_valueQuotation s.toList) apart
  obtain ⟨c, more, start, quoted⟩ := exists_quote_cons s.toList (valueQuotation s.toList)
  rw [start, List.cons_append] at read
  rw [textText, start, List.cons_append, readScalar.eq_4, if_pos (by simpa using quoted), read]
  · simp
  · rintro later rfl
    simp at quoted
  · rintro later rfl
    simp at quoted

/-- A plain value is read back from its text, unless it is a date. -/
theorem readScalar_scalarText? {v : Value} {text : List Char} (found : scalarText? v = some text)
    (undated : ∀ lexeme, v ≠ .date lexeme) (ends : EndsValue rest) :
    readScalar (text ++ rest) = some (v, rest) := by
  cases v with
  | bool b =>
      obtain rfl := Option.some.inj found
      cases b <;> rfl
  | integer n =>
      rw [scalarText?] at found
      split at found
      · next fits =>
          obtain rfl := Option.some.inj found
          exact readScalar_integer fits ends
      · simp at found
  | real x =>
      obtain rfl := Option.some.inj found
      exact readScalar_realText x ends
  | text s =>
      obtain rfl := Option.some.inj found
      exact readScalar_textText s ends
  | date lexeme => exact absurd rfl (undated lexeme)
  | null | list | table | unreadable => simp [scalarText?] at found

/-- Whether a value that is neither a list nor a table may begin with a character. -/
def beginsScalar (c : Char) : Bool :=
  c.isDigit || ['-', '"', '\'', 't', 'f', 'i', 'n'].contains c

/-- What begins a plain value is neither space nor the beginning of something else. -/
theorem ne_of_beginsScalar {c c' : Char} (begins : beginsScalar c = true)
    (other : beginsScalar c' = false) : c ≠ c' := by
  rintro rfl
  exact Bool.false_ne_true (other.symm.trans begins)

theorem exists_signed_cons (negative : Bool) (isWhole : IsWhole whole) (more : List Char) :
    ∃ c more', signText negative ++ (whole ++ more) = c :: more' ∧ beginsScalar c = true := by
  cases negative with
  | true => exact ⟨'-', whole ++ more, rfl, rfl⟩
  | false =>
      obtain ⟨c, whole', start⟩ := List.exists_cons_of_ne_nil isWhole.nonempty
      have digit : c.isDigit = true := isWhole.digits c (by simp [start])
      exact ⟨c, whole' ++ more, by rw [start]; rfl, by simp [beginsScalar, digit]⟩

theorem exists_scalarText?_cons {v : Value} {text : List Char} (found : scalarText? v = some text)
    (undated : ∀ lexeme, v ≠ .date lexeme) :
    ∃ c more, text = c :: more ∧ beginsScalar c = true := by
  cases v with
  | bool b =>
      obtain rfl := Option.some.inj found
      cases b
      · exact ⟨'f', "alse".toList, rfl, rfl⟩
      · exact ⟨'t', "rue".toList, rfl, rfl⟩
  | integer n =>
      rw [scalarText?] at found
      split at found
      · obtain rfl := Option.some.inj found
        have start := exists_signed_cons (decide (n < 0)) (isWhole_toDigits n.natAbs) []
        rwa [List.append_nil, ← toList_toString_int] at start
      · simp at found
  | real x =>
      obtain rfl := Option.some.inj found
      rcases realText_cases x with
        ⟨text, -⟩ | ⟨negative, text, -⟩ | ⟨negative, whole, fraction, size, parts⟩
      · exact ⟨'n', "an".toList, text, rfl⟩
      · rw [text]
        cases negative
        · exact ⟨'i', "nf".toList, rfl, rfl⟩
        · exact ⟨'-', "inf".toList, rfl, rfl⟩
      · rw [parts.text]
        exact exists_signed_cons negative parts.isWhole _
  | text s =>
      obtain rfl := Option.some.inj found
      obtain ⟨c, more, start, quoted⟩ := exists_quote_cons s.toList (valueQuotation s.toList)
      refine ⟨c, more, start, ?_⟩
      rcases quoted with rfl | rfl <;> rfl
  | date lexeme => exact absurd rfl (undated lexeme)
  | null | list | table | unreadable => simp [scalarText?] at found

end Toml

end SpeedupStudy
