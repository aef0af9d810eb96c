/-
# Logs as the simulator writes them

A simulator writes one line for each core and one line with the totals, and whatever else it
prints stands on lines of its own. Such a log is read back: the counts in their order, the total
and the rate, wherever the other lines stand and whatever bytes they hold. It is not read back
only where the machine has more cores than memory can list.
-/

import Mathlib
import SpeedupStudy.Proofs.Decimal.Characters
import SpeedupStudy.Proofs.Log.Fields
import SpeedupStudy.Proofs.Text.Blank
import SpeedupStudy.Proofs.Text.Lines
import SpeedupStudy.Proofs.Text.Occurrence

namespace SpeedupStudy

/-! ## The end of a line -/

namespace LogLine

/-- A carriage return or a line feed. -/
def IsLineEnd (c : Char) : Prop :=
  c = '\r' ∨ c = '\n'

variable {marker : String} {c : Char}

/-- The characters that end a line are blank, and none of them bounds a field. -/
theorem IsLineEnd.facts (ends : IsLineEnd c) : Text.isBlank c = true ∧ (c == ' ') = false ∧
    (c != ')') = true ∧ c ∉ ipcMarker.toList := by
  rcases ends with rfl | rfl <;> decide

theorem hasMarker_nil (nonempty : marker.toList ≠ []) : hasMarker marker [] = false := by
  rw [hasMarker, Text.occursIn, Text.after?, if_neg (by simpa using nonempty)]
  rfl

section Concat

variable (ends : IsLineEnd c) (line : List Char)

theorem hasMarker_concat (oneLine : c ∉ marker.toList) :
    hasMarker marker (line ++ [c]) = hasMarker marker line :=
  Text.occursIn_concat oneLine

include ends

theorem coreInstructions_concat : coreInstructions (line ++ [c]) = coreInstructions line := by
  rw [coreInstructions, Text.words_concat ends.facts.1, coreInstructions]

theorem totalInstructions_concat : totalInstructions (line ++ [c]) = totalInstructions line := by
  obtain ⟨front, last, pieces, pieces'⟩ :=
    Text.exists_splitWhen_concat_of_neg (p := (· == ' ')) ends.facts.2.1 line
  have same : ∀ place : Nat, (front ++ [last ++ [c]])[place]?.map Text.trim =
      (front ++ [last])[place]?.map Text.trim := by
    intro place
    rw [← List.getElem?_map, ← List.getElem?_map, List.map_append, List.map_append,
      List.map_singleton, List.map_singleton, Text.trim_concat ends.facts.1]
  rw [totalInstructions, totalInstructions, Text.split, Text.split, pieces, pieces', same]

theorem ipc_concat : ipc (line ++ [c]) = ipc line := by
  obtain ⟨blank, -, inside, unmarked⟩ := ends.facts
  have same : ∀ rest : List Char, Text.trim ((rest ++ [c]).takeWhile (· != ')')) =
      Text.trim (rest.takeWhile (· != ')')) := by
    intro rest
    rw [List.takeWhile_append]
    split
    · next whole =>
        rw [List.takeWhile_cons_of_pos (p := (· != ')')) inside, List.takeWhile_nil,
          (List.takeWhile_prefix _).eq_of_length whole]
        exact Text.trim_concat blank rest
    · rfl
  rw [ipc, Text.after?_concat unmarked (by decide), Option.map_map, ipc]
  simp only [Function.comp_def, same]

end Concat

variable (line : List Char)

theorem coreInstructions_lineFeed : coreInstructions (line ++ ['\n']) = coreInstructions line :=
  coreInstructions_concat (.inr rfl) line

theorem totalInstructions_lineFeed :
    totalInstructions (line ++ ['\n']) = totalInstructions line :=
  totalInstructions_concat (.inr rfl) line

theorem ipc_lineFeed : ipc (line ++ ['\n']) = ipc line :=
  ipc_concat (.inr rfl) line

end LogLine

/-! ## What is written -/

/-- What a simulator prints: the instructions of each core, the fetched instructions of all cores,
and the instructions per cycle as a numeral, which may have spaces around it. -/
structure Printout where
  counts : List UInt64
  total : UInt64
  numeral : String
  before : Nat := 0
  after : Nat := 0

namespace Printout

/-- The line of one core. -/
def coreLine (core : Nat) (count : UInt64) : String :=
  "  -- th[" ++ toString core ++ "] : retired " ++ toString count ++ " instrs"

/-- The numeral with the spaces around it. -/
def rateText (m : Printout) : List Char :=
  List.replicate m.before ' ' ++ m.numeral.toList ++ List.replicate m.after ' '

/-- The line with the totals. -/
def totalLine (m : Printout) : String :=
  "  -- total number of fetched instructions : " ++ toString m.total ++ " (IPC = " ++
    String.ofList m.rateText ++ ")"

/-- The lines in the order in which they are written. -/
def lines (m : Printout) : List String :=
  m.counts.mapIdx coreLine ++ [m.totalLine]

theorem toList_toString_nat (n : Nat) : (toString n).toList = Nat.toDigits 10 n := by
  simp [toString, Nat.repr]

theorem toList_toString_count (count : UInt64) :
    (toString count).toList = Nat.toDigits 10 count.toNat :=
  toList_toString_nat count.toNat

/-- The words of the line of one core, between which there is one space; two spaces come first. -/
def corePieces (core : Nat) (count : UInt64) : List (List Char) :=
  [[], [], "--".toList, "th[".toList ++ Nat.toDigits 10 core ++ "]".toList, ":".toList,
    "retired".toList, Nat.toDigits 10 count.toNat, "instrs".toList]

theorem toList_coreLine (core : Nat) (count : UInt64) :
    (coreLine core count).toList = Text.join ' ' (corePieces core count) := by
  simp [coreLine, corePieces, Text.join, toList_toString_count]

theorem toList_coreLine_marked (core : Nat) (count : UInt64) :
    (coreLine core count).toList = [' ', ' '] ++ (LogLine.coreMarker.toList ++ (Nat.toDigits 10 core ++
      ("] : retired ".toList ++ (Nat.toDigits 10 count.toNat ++ " instrs".toList)))) := by
  simp [coreLine, LogLine.coreMarker, toList_toString_count]

theorem unblank_toDigits (n : Nat) : ∀ c ∈ Nat.toDigits 10 n, Text.isBlank c = false :=
  fun c mem => (Decimal.digit_facts (Decimal.allDigits_toDigits n c mem)).2.2.2.2

theorem unblank_corePieces (core : Nat) (count : UInt64) :
    ∀ piece ∈ corePieces core count, ∀ c ∈ piece, Text.isBlank c = false := by
  have literal : ∀ {s : List Char}, (∀ c ∈ s, 0x20 < c.toNat ∧ c.toNat < 0x7F) →
      ∀ c ∈ s, Text.isBlank c = false := fun printed c mem => Text.isBlank_of_printed (printed c mem)
  have bracket : ∀ c ∈ "th[".toList ++ Nat.toDigits 10 core ++ "]".toList,
      Text.isBlank c = false := by
    simp only [List.forall_mem_append]
    exact ⟨⟨literal (by simp), unblank_toDigits core⟩, literal (by simp)⟩
  simp only [corePieces, List.forall_mem_cons]
  exact ⟨nofun, nofun, literal (by simp), bracket, literal (by simp), literal (by simp),
    unblank_toDigits _, literal (by simp), nofun⟩

theorem readCount?_toDigits (count : UInt64) :
    readCount? (Nat.toDigits 10 count.toNat) = some count.toNat := by
  have unsigned : ∀ rest, Nat.toDigits 10 count.toNat ≠ '+' :: rest := by
    intro rest same
    have digit := Decimal.allDigits_toDigits count.toNat '+' (by rw [same]; exact List.mem_cons_self)
    exact absurd digit (by decide)
  have digits : ((Nat.toDigits 10 count.toNat).any fun c => ! c.isDigit) = false := by
    simpa [Decimal.AllDigits] using Decimal.allDigits_toDigits count.toNat
  have small : count.toNat ≤ maxCount := Nat.le_pred_of_lt count.toNat_lt
  unfold readCount?
  split
  · next rest same => exact absurd same (unsigned rest)
  · simp [digits, Nat.toDigits_ne_nil, Decimal.ofDigits_toDigits, small]

theorem coreInstructions_coreLine (core : Nat) (count : UInt64) :
    LogLine.coreInstructions (coreLine core count).toList = count := by
  rw [LogLine.coreInstructions, toList_coreLine,
    Text.words_join (by decide) (unblank_corePieces core count) (by simp [corePieces])]
  have fifth : ((corePieces core count).filter (! ·.isEmpty))[4]? =
      some (Nat.toDigits 10 count.toNat) := by
    simp [corePieces, Nat.toDigits_ne_nil]
  rw [fifth, LogLine.countOrZero, Option.bind_some, readCount?_toDigits, Option.getD_some,
    UInt64.ofNat_toNat]

/-- What stands before the total, cut at single spaces. -/
def totalLabels : List (List Char) :=
  [[], [], "--".toList, "total".toList, "number".toList, "of".toList, "fetched".toList,
    "instructions".toList, ":".toList]

/-- What stands behind the total and a space. -/
def rateField (m : Printout) : List Char :=
  '(' :: (LogLine.ipcMarker.toList ++ (m.rateText ++ [')']))

theorem toList_labelled (total rate : String) :
    ("  -- total number of fetched instructions : " ++ total ++ " (IPC = " ++ rate ++ ")").toList =
      Text.join ' ' totalLabels ++ ' ' :: total.toList ++
        ' ' :: '(' :: (LogLine.ipcMarker.toList ++ (rate.toList ++ [')'])) := by
  have label : "  -- total number of fetched instructions : ".toList =
      Text.join ' ' totalLabels ++ [' '] := rfl
  have opening : " (IPC = ".toList = ' ' :: '(' :: LogLine.ipcMarker.toList := rfl
  have closing : ")".toList = [')'] := rfl
  rw [String.toList_append, String.toList_append, String.toList_append, String.toList_append, label,
    opening, closing]
  simp only [List.append_assoc, List.cons_append, List.nil_append]

theorem toList_totalLine (m : Printout) :
    m.totalLine.toList = Text.join ' ' totalLabels ++ ' ' :: Nat.toDigits 10 m.total.toNat ++
      ' ' :: m.rateField := by
  have text := toList_labelled (toString m.total) (String.ofList m.rateText)
  rw [toList_toString_count m.total, String.toList_ofList] at text
  exact text

theorem space_not_mem_toDigits (n : Nat) : ' ' ∉ Nat.toDigits 10 n :=
  fun mem => absurd (Decimal.allDigits_toDigits n ' ' mem) (by decide)

/-- The total is the tenth piece between single spaces. -/
theorem totalInstructions_totalLine (m : Printout) :
    LogLine.totalInstructions m.totalLine.toList = m.total := by
  have pieces : Text.split ' ' m.totalLine.toList =
      totalLabels ++ [Nat.toDigits 10 m.total.toNat] ++ Text.split ' ' m.rateField := by
    have later : Text.split ' ' m.rateField ≠ [] := Text.splitWhen_ne_nil _ _
    have joined : m.totalLine.toList = Text.join ' '
        (totalLabels ++ [Nat.toDigits 10 m.total.toNat] ++ Text.split ' ' m.rateField) := by
      rw [toList_totalLine, Text.join_append (by simp) later,
        Text.join_append (by simp [totalLabels]) (by simp), Text.join_singleton, Text.join_split]
    rw [joined, Text.split_join _ (by simp)]
    simp only [List.forall_mem_append, List.forall_mem_singleton]
    exact ⟨⟨by simp [totalLabels], space_not_mem_toDigits _⟩,
      fun piece mem => Text.not_mem_of_mem_split mem⟩
  have blanks : Text.trim (Nat.toDigits 10 m.total.toNat) = Nat.toDigits 10 m.total.toNat :=
    Decimal.trim_eq_self (fun c mem => unblank_toDigits _ c (List.mem_of_mem_head? mem))
      (fun c mem => unblank_toDigits _ c (List.mem_of_mem_getLast? mem))
  have tenth : (Text.split ' ' m.totalLine.toList)[9]? = some (Nat.toDigits 10 m.total.toNat) := by
    rw [pieces]
    rfl
  rw [LogLine.totalInstructions, tenth, Option.map_some, blanks, LogLine.countOrZero,
    Option.bind_some, readCount?_toDigits, Option.getD_some, UInt64.ofNat_toNat]

/-- The characters of the line of one core, apart from the digits. -/
theorem coreLine_characters (core : Nat) (count : UInt64) :
    ∀ c ∈ (coreLine core count).toList, c.toNat < 0x80 ∧ c ≠ '\n' ∧ c ≠ 'f' ∧ c ≠ 'I' := by
  have digits : ∀ n : Nat, ∀ c ∈ Nat.toDigits 10 n,
      c.toNat < 0x80 ∧ c ≠ '\n' ∧ c ≠ 'f' ∧ c ≠ 'I' := by
    intro n c mem
    have digit := Decimal.allDigits_toDigits n c mem
    refine ⟨(Decimal.characters_facts (Decimal.mem_characters_of_isDigit digit)).1, ?_, ?_, ?_⟩ <;>
      (rintro rfl; exact absurd digit (by decide))
  rw [toList_coreLine_marked]
  simp only [List.forall_mem_append]
  exact ⟨by simp, by simp [LogLine.coreMarker], digits core, by simp, digits count.toNat, by simp⟩

section Rate

variable {m : Printout} {rate : Float} (value : readFloat? m.numeral.toList = some rate)
  (finite : rate.isFinite = true)

include value finite

theorem rateText_characters : ∀ c ∈ m.rateText, c = ' ' ∨ c ∈ Decimal.characters := by
  have spaces : ∀ count, ∀ c ∈ List.replicate count ' ', c = ' ' ∨ c ∈ Decimal.characters :=
    fun _ _ mem => .inl (List.eq_of_mem_replicate mem)
  simp only [rateText, List.forall_mem_append]
  exact ⟨⟨spaces _, fun c mem => .inr (subset_of_readFloat? value finite mem)⟩, spaces _⟩

/-- The characters of the line with the totals, apart from the digits and the numeral. -/
theorem totalLine_characters :
    ∀ c ∈ m.totalLine.toList, c.toNat < 0x80 ∧ c ≠ '\n' ∧ c ≠ '[' := by
  have decimal : ∀ c ∈ Decimal.characters, c.toNat < 0x80 ∧ c ≠ '\n' ∧ c ≠ '[' := by
    simp [Decimal.characters]
  have digits : ∀ c ∈ Nat.toDigits 10 m.total.toNat, c.toNat < 0x80 ∧ c ≠ '\n' ∧ c ≠ '[' :=
    fun c mem => decimal c ((Decimal.allDigits_toDigits _).subset_characters mem)
  have rateText : ∀ c ∈ m.rateText, c.toNat < 0x80 ∧ c ≠ '\n' ∧ c ≠ '[' := by
    intro c mem
    rcases rateText_characters value finite c mem with rfl | mem
    · simp
    · exact decimal c mem
  rw [toList_totalLine, rateField]
  simp only [List.forall_mem_append, List.forall_mem_cons]
  exact ⟨⟨by simp [totalLabels, Text.join], by simp, digits⟩, by simp, by simp,
    by simp [LogLine.ipcMarker], rateText, by simp⟩

theorem trim_rateText : Text.trim m.rateText = m.numeral.toList := by
  have unblank : ∀ c ∈ m.numeral.toList, Text.isBlank c = false := fun c mem =>
    (Decimal.characters_facts (subset_of_readFloat? value finite mem)).2.1
  rw [rateText, Text.trim_replicate (by decide)]
  exact Decimal.trim_eq_self (fun c mem => unblank c (List.mem_of_mem_head? mem))
    (fun c mem => unblank c (List.mem_of_mem_getLast? mem))

/-- The rate stands between its marker and the next closing parenthesis. -/
theorem ipc_totalLine (unsigned : 0.0 ≤ rate) : LogLine.ipc m.totalLine.toList = rate := by
  have front :
      'I' ∉ Text.join ' ' totalLabels ++ ' ' :: Nat.toDigits 10 m.total.toNat ++ [' ', '('] := by
    have digits : 'I' ∉ Nat.toDigits 10 m.total.toNat := fun mem =>
      absurd (Decimal.allDigits_toDigits _ 'I' mem) (by decide)
    simp [totalLabels, Text.join, digits]
  have text : m.totalLine.toList =
      (Text.join ' ' totalLabels ++ ' ' :: Nat.toDigits 10 m.total.toNat ++ [' ', '(']) ++
        (LogLine.ipcMarker.toList ++ (m.rateText ++ [')'])) := by
    simp [toList_totalLine, rateField]
  have found :
      Text.after? LogLine.ipcMarker.toList m.totalLine.toList = some (m.rateText ++ [')']) := by
    rw [text]
    exact Text.after?_append front
  have inside : ∀ c ∈ m.rateText, (c != ')') = true := by
    intro c mem
    rcases rateText_characters value finite c mem with rfl | mem
    · decide
    · exact bne_iff_ne.mpr (Decimal.characters_facts mem).2.2.2
  have upTo : (m.rateText ++ [')']).takeWhile (· != ')') = m.rateText := by
    rw [List.takeWhile_append_of_pos inside, List.takeWhile_cons_of_neg (by decide), List.append_nil]
  rw [LogLine.ipc, found, Option.map_some, upTo, trim_rateText value finite, Option.bind_some, value,
    Option.filter_some, if_pos, Option.getD_some]
  rw [finite, decide_eq_true unsigned, Bool.and_self]

end Rate

end Printout

/-! ## What is found -/

/-- A line that tells a reader nothing: it holds no line feed, and its text has none of the three
markers. -/
structure Silent (line : Bytes) : Prop where
  oneLine : 0x0A ∉ line
  unmarked : ∀ marker ∈ [LogLine.coreMarker, LogLine.totalMarker, LogLine.ipcMarker],
    ¬ marker.toList <:+: Utf8.decodeLossy line

/-- Texts stand in their order among the lines of a log, all of whose other lines tell nothing. -/
inductive Among : List String → List Bytes → Prop
  | nil : Among [] []
  | text {text : String} {texts : List String} {lines : List Bytes} (later : Among texts lines) :
      Among (text :: texts) (Utf8.encode text :: lines)
  | silent {line : Bytes} {texts : List String} {lines : List Bytes} (silent : Silent line)
      (later : Among texts lines) : Among texts (line :: lines)

namespace LogScan

/-- What the lines with a marker tell, in their order. -/
def told {α : Type} (marker : String) (value : List Char → α) (lines : List (List Char)) : List α :=
  (lines.filter (LogLine.hasMarker marker)).map value

theorem lastOf_eq_told {α : Type} (marker : String) (value : List Char → α) (default : α)
    (lines : List (List Char)) :
    lastOf marker value default lines = (told marker value lines).getLast?.getD default := by
  rw [lastOf, told, List.getLast?_map]

theorem told_append {α : Type} (marker : String) (value : List Char → α)
    (first second : List (List Char)) :
    told marker value (first ++ second) = told marker value first ++ told marker value second := by
  rw [told, List.filter_append, List.map_append]
  rfl

variable {lines : List Bytes} {last : Bytes}

/-- The lines of a log, each but the last one with the line feed that ends it. The last one is no
line where it is empty. -/
theorem lines_eq (oneLine : ∀ line ∈ lines ++ [last], 0x0A ∉ line) :
    LogScan.lines (lines.flatMap (· ++ [0x0A]) ++ last) =
      (lines.map (· ++ [0x0A]) ++ if last.isEmpty then [] else [last]).map Utf8.decodeLossy := by
  have uncut : ∀ line ∈ lines ++ [last], ∀ b ∈ line, (b == 0x0A) = false := by
    intro line mem b within
    exact beq_eq_false_iff_ne.mpr fun same => oneLine line mem (same ▸ within)
  rw [LogScan.lines, Text.cutAfter_flatMap (fun line mem => uncut line (List.mem_append_left _ mem))
      (by decide) last, Text.cutAfter_of_uncut (uncut last (by simp))]

/-- Line feeds make no difference to what the lines with a marker tell. -/
theorem told_lines {α : Type} {marker : String} {value : List Char → α}
    (oneLine : ∀ line ∈ lines ++ [last], 0x0A ∉ line) (nonempty : marker.toList ≠ [])
    (plain : '\n' ∉ marker.toList) (same : ∀ line, value (line ++ ['\n']) = value line) :
    told marker value (LogScan.lines (lines.flatMap (· ++ [0x0A]) ++ last)) =
      told marker value ((lines ++ [last]).map Utf8.decodeLossy) := by
  have ended : told marker value ((lines.map (· ++ [0x0A])).map Utf8.decodeLossy) =
      told marker value (lines.map Utf8.decodeLossy) := by
    have read : Utf8.decodeLossy ∘ (· ++ [0x0A]) = (· ++ ['\n']) ∘ Utf8.decodeLossy :=
      funext fun line => Utf8.decodeLossy_concat line (by decide)
    rw [List.map_map, read, ← List.map_map, told, List.filter_map, List.map_map, told]
    simp only [Function.comp_def, LogLine.hasMarker_concat _ plain, same]
  rw [lines_eq oneLine, List.map_append, told_append, ended, List.map_append, told_append]
  cases last with
  | nil =>
      have nothing : told marker value [Utf8.decodeLossy []] = [] := by
        rw [told, List.filter_cons_of_neg
          (by simp [Utf8.decodeLossy_nil, LogLine.hasMarker_nil nonempty])]
        rfl
      exact congrArg (told marker value (lines.map Utf8.decodeLossy) ++ ·) nothing.symm
  | cons b last => rfl

/-- A fault marker is looked for in the lines with the line feeds that end them. -/
theorem hasFault_iff (marker : String) (oneLine : ∀ line ∈ lines ++ [last], 0x0A ∉ line) :
    hasFault marker (lines.flatMap (· ++ [0x0A]) ++ last) = true ↔
      marker ≠ "" ∧ ∃ line ∈ lines.map (· ++ [0x0A]) ++ [last],
        marker.toList <:+: Utf8.decodeLossy line := by
  rw [hasFault, Bool.and_eq_true, bne_iff_ne]
  refine and_congr_right fun nonempty => ?_
  have some_line : ∀ rest : List Bytes,
      ((lines.map (· ++ [0x0A]) ++ rest).map Utf8.decodeLossy).any (LogLine.hasMarker marker) = true ↔
        ∃ line ∈ lines.map (· ++ [0x0A]) ++ rest, marker.toList <:+: Utf8.decodeLossy line := by
    intro rest
    simp only [List.any_map, List.any_eq_true, Function.comp_apply, LogLine.hasMarker,
      Text.occursIn_iff_isInfix]
  rw [lines_eq oneLine, some_line]
  cases last with
  | nil =>
      have nowhere : ¬ marker.toList <:+: Utf8.decodeLossy [] := by
        simpa [Utf8.decodeLossy_nil] using nonempty
      simp [nowhere]
  | cons b last => rfl

end LogScan

variable {texts : List String} {lines : List Bytes}

/-- The texts that stand in a log are all that the lines with a marker tell. -/
theorem Among.told_eq {α : Type} {marker : String} (value : List Char → α) (among : Among texts lines)
    (mem : marker ∈ [LogLine.coreMarker, LogLine.totalMarker, LogLine.ipcMarker])
    (ascii : ∀ text ∈ texts, ∀ c ∈ text.toList, c.toNat < 0x80) :
    LogScan.told marker value (lines.map Utf8.decodeLossy) =
      LogScan.told marker value (texts.map String.toList) := by
  induction among with
  | nil => rfl
  | @text text texts lines later ih =>
      have read := Utf8.decodeLossy_encode (ascii text List.mem_cons_self)
      have rest := ih fun text' mem => ascii text' (List.mem_cons_of_mem text mem)
      rw [List.map_cons, List.map_cons, read, ← List.singleton_append, LogScan.told_append, rest,
        ← LogScan.told_append, List.singleton_append]
  | @silent line texts lines silent later ih =>
      have unmarked : LogLine.hasMarker marker (Utf8.decodeLossy line) = false := by
        rw [← Bool.not_eq_true, LogLine.hasMarker, Text.occursIn_iff_isInfix]
        exact silent.unmarked marker mem
      rw [List.map_cons, ← ih ascii, LogScan.told, List.filter_cons_of_neg (by simp [unmarked])]
      rfl

theorem Among.oneLine (among : Among texts lines)
    (ascii : ∀ text ∈ texts, ∀ c ∈ text.toList, c.toNat < 0x80)
    (oneLine : ∀ text ∈ texts, '\n' ∉ text.toList) : ∀ line ∈ lines, 0x0A ∉ line := by
  induction among with
  | nil => exact nofun
  | @text text texts lines later ih =>
      rw [List.forall_mem_cons] at ascii oneLine ⊢
      exact ⟨Utf8.lineFeed_not_mem_encode ascii.1 oneLine.1, ih ascii.2 oneLine.2⟩
  | @silent line texts lines silent later ih =>
      exact List.forall_mem_cons.mpr ⟨silent.oneLine, ih ascii oneLine⟩

namespace Printout

variable {m : Printout} {rate : Float}

/-- The line of one core has the marker of such lines and no other one. -/
theorem hasMarker_coreLine (core : Nat) (count : UInt64) :
    LogLine.hasMarker LogLine.coreMarker (coreLine core count).toList = true ∧
      LogLine.hasMarker LogLine.totalMarker (coreLine core count).toList = false ∧
      LogLine.hasMarker LogLine.ipcMarker (coreLine core count).toList = false := by
  have characters := coreLine_characters core count
  refine ⟨?_, ?_, ?_⟩
  · rw [LogLine.hasMarker, Text.occursIn_iff_isInfix, toList_coreLine_marked]
    exact (List.prefix_append _ _).isInfix.trans (List.suffix_append _ _).isInfix
  · exact Text.occursIn_eq_false_of_not_mem (a := 'f') (by decide)
      fun mem => (characters _ mem).2.2.1 rfl
  · exact Text.occursIn_eq_false_of_not_mem (a := 'I') (by decide)
      fun mem => (characters _ mem).2.2.2 rfl

/-- The line with the totals has the other two markers. -/
theorem hasMarker_totalLine (value : readFloat? m.numeral.toList = some rate)
    (finite : rate.isFinite = true) :
    LogLine.hasMarker LogLine.coreMarker m.totalLine.toList = false ∧
      LogLine.hasMarker LogLine.totalMarker m.totalLine.toList = true ∧
      LogLine.hasMarker LogLine.ipcMarker m.totalLine.toList = true := by
  refine ⟨?_, ?_, ?_⟩
  · exact Text.occursIn_eq_false_of_not_mem (a := '[') (by decide)
      fun mem => (totalLine_characters value finite _ mem).2.2 rfl
  · have labelled : LogLine.totalMarker.toList <:+: Text.join ' ' totalLabels := by decide
    rw [LogLine.hasMarker, Text.occursIn_iff_isInfix, toList_totalLine, List.append_assoc]
    exact labelled.trans (List.prefix_append _ _).isInfix
  · have field : LogLine.ipcMarker.toList <:+: m.rateField :=
      ((List.prefix_append _ _).isInfix.trans (List.suffix_cons _ _).isInfix)
    rw [LogLine.hasMarker, Text.occursIn_iff_isInfix, toList_totalLine]
    exact field.trans ((List.suffix_cons _ _).isInfix.trans (List.suffix_append _ _).isInfix)

/-- The lines of the cores tell the counts in their order. -/
theorem told_coreMarker (value : readFloat? m.numeral.toList = some rate)
    (finite : rate.isFinite = true) :
    LogScan.told LogLine.coreMarker LogLine.coreInstructions (m.lines.map String.toList) =
      m.counts := by
  have cores : ((m.counts.mapIdx coreLine).map String.toList).filter
      (LogLine.hasMarker LogLine.coreMarker) = (m.counts.mapIdx coreLine).map String.toList := by
    rw [List.filter_eq_self]
    simp only [List.mem_map, List.mem_mapIdx]
    rintro _ ⟨_, ⟨core, inside, rfl⟩, rfl⟩
    exact (hasMarker_coreLine core m.counts[core]).1
  rw [lines, List.map_append, List.map_singleton, LogScan.told_append, LogScan.told, cores,
    LogScan.told, List.filter_cons_of_neg (by simp [(hasMarker_totalLine value finite).1])]
  refine (List.append_nil _).trans (List.ext_getElem? fun core => ?_)
  rw [List.map_map, List.getElem?_map, List.getElem?_mapIdx, Option.map_map]
  simp [Function.comp_def, coreInstructions_coreLine]

/-- Of the two other markers, only the line with the totals tells anything. -/
theorem told_of_totalLine {α : Type} {marker : String} {field : List Char → α}
    (cores : ∀ core count, LogLine.hasMarker marker (coreLine core count).toList = false)
    (marked : LogLine.hasMarker marker m.totalLine.toList = true) :
    LogScan.told marker field (m.lines.map String.toList) = [field m.totalLine.toList] := by
  have none_left :
      ((m.counts.mapIdx coreLine).map String.toList).filter (LogLine.hasMarker marker) = [] := by
    rw [List.filter_eq_nil_iff]
    simp only [List.mem_map, List.mem_mapIdx]
    rintro _ ⟨_, ⟨core, inside, rfl⟩, rfl⟩
    simp [cores core m.counts[core]]
  rw [lines, List.map_append, List.map_singleton, LogScan.told_append, LogScan.told, none_left,
    LogScan.told, List.filter_cons_of_pos marked]
  rfl

theorem lines_characters (value : readFloat? m.numeral.toList = some rate)
    (finite : rate.isFinite = true) :
    ∀ text ∈ m.lines, ∀ c ∈ text.toList, c.toNat < 0x80 ∧ c ≠ '\n' := by
  rw [lines, List.forall_mem_append, List.forall_mem_singleton]
  refine ⟨?_, fun c mem => ?_⟩
  · intro text mem c within
    obtain ⟨core, inside, rfl⟩ := List.mem_mapIdx.mp mem
    have facts := coreLine_characters core m.counts[core] c within
    exact ⟨facts.1, facts.2.1⟩
  · have facts := totalLine_characters value finite c mem
    exact ⟨facts.1, facts.2.1⟩

end Printout

namespace LogReader

/-- A log as the simulator writes it is read back, whatever other lines stand around the written
ones: the counts, cut or filled up with zeros to the cores of the machine, the total, the rate and
the number of the lines of cores; and there is a fault exactly if the text of some line, with the
line feed that ends it, has the fault marker. The one exception is a machine with more cores than
memory can list. -/
theorem read?_written (reader : LogReader) {m : Printout} {rate : Float} {lines : List Bytes}
    {last : Bytes} (value : readFloat? m.numeral.toList = some rate) (finite : rate.isFinite = true)
    (unsigned : 0.0 ≤ rate) (among : Among m.lines (lines ++ [last])) :
    ∃ fault : Bool,
      (fault = true ↔ reader.faultMarker ≠ "" ∧ ∃ line ∈ lines.map (· ++ [0x0A]) ++ [last],
        reader.faultMarker.toList <:+: Utf8.decodeLossy line) ∧
      reader.read? (lines.flatMap (· ++ [0x0A]) ++ last) =
        if fitsInMemory numberSize reader.coreCount then
          .ok ⟨fitTo reader.coreCount m.counts, m.total, rate, fault, m.counts.length⟩
        else .error .capacityOverflow := by
  have characters := m.lines_characters value finite
  have ascii : ∀ text ∈ m.lines, ∀ c ∈ text.toList, c.toNat < 0x80 :=
    fun text mem c within => (characters text mem c within).1
  have oneLine : ∀ line ∈ lines ++ [last], 0x0A ∉ line :=
    among.oneLine ascii fun text mem within => (characters text mem _ within).2 rfl
  have counts : LogScan.coreCounts (lines.flatMap (· ++ [0x0A]) ++ last) = m.counts := by
    refine (LogScan.told_lines oneLine (by decide) (by decide)
      LogLine.coreInstructions_lineFeed).trans ?_
    rw [among.told_eq _ (by simp) ascii, m.told_coreMarker value finite]
  have total : LogScan.lastTotal (lines.flatMap (· ++ [0x0A]) ++ last) = m.total := by
    rw [LogScan.lastTotal, LogScan.lastOf_eq_told, LogScan.told_lines oneLine (by decide) (by decide)
        LogLine.totalInstructions_lineFeed, among.told_eq _ (by simp) ascii,
      Printout.told_of_totalLine (fun core count => (Printout.hasMarker_coreLine core count).2.1)
        (Printout.hasMarker_totalLine value finite).2.1, List.getLast?_singleton, Option.getD_some]
    exact m.totalInstructions_totalLine
  have ipc : LogScan.lastIpc (lines.flatMap (· ++ [0x0A]) ++ last) = rate := by
    rw [LogScan.lastIpc, LogScan.lastOf_eq_told, LogScan.told_lines oneLine (by decide) (by decide)
        LogLine.ipc_lineFeed, among.told_eq _ (by simp) ascii,
      Printout.told_of_totalLine (fun core count => (Printout.hasMarker_coreLine core count).2.2)
        (Printout.hasMarker_totalLine value finite).2.2, List.getLast?_singleton, Option.getD_some]
    exact Printout.ipc_totalLine value finite unsigned
  refine ⟨_, LogScan.hasFault_iff reader.faultMarker oneLine, ?_⟩
  rw [read?, read_eq, counts, total, ipc]

/-- Three cores, with spaces around the rate. -/
def threeCores : Printout := ⟨[5, 18446744073709551615, 7], 100, "1.5", 1, 2⟩

/-- The log of three cores among lines that are no text and a line with a fault marker. -/
def threeLines : List Bytes :=
  [[0xFF, 0xC0], Utf8.encode (Printout.coreLine 0 5), [0x62, 0x6F, 0x6F, 0x6D],
    Utf8.encode (Printout.coreLine 1 18446744073709551615), Utf8.encode (Printout.coreLine 2 7), [],
    Utf8.encode threeCores.totalLine]

theorem among_threeLines : Among threeCores.lines (threeLines ++ [[0xE2, 0x82]]) := by
  have spaced : ∀ marker ∈ [LogLine.coreMarker, LogLine.totalMarker, LogLine.ipcMarker],
      ' ' ∈ marker.toList := by decide
  have silent : ∀ {line : Bytes}, 0x0A ∉ line → ' ' ∉ Utf8.decodeLossy line → Silent line :=
    fun oneLine unspaced =>
      ⟨oneLine, fun marker mem inside => unspaced (inside.subset (spaced marker mem))⟩
  have noText : Silent [0xFF, 0xC0] := silent (by decide) (by decide)
  have boom : Silent [0x62, 0x6F, 0x6F, 0x6D] := silent (by decide) (by decide)
  have empty : Silent [] := silent (by decide) (by decide)
  have cut : Silent [0xE2, 0x82] := silent (by decide) (by decide)
  exact .silent noText (.text (.silent boom (.text (.text
    (.silent empty (.text (.silent cut .nil)))))))

theorem read?_written_three :
    readFloat? threeCores.numeral.toList = some 1.5 ∧
      LogReader.read? ⟨2, "boom\n"⟩ (threeLines.flatMap (· ++ [0x0A]) ++ [0xE2, 0x82]) =
        .ok ⟨[5, 18446744073709551615], 100, 1.5, true, 3⟩ := by
  have value : readFloat? threeCores.numeral.toList = some 1.5 := by decide +kernel
  obtain ⟨fault, faulty, read⟩ := read?_written ⟨2, "boom\n"⟩ value (by decide +kernel)
    (by decide +kernel) among_threeLines
  have found : fault = true := by
    rw [faulty]
    refine ⟨by decide, [0x62, 0x6F, 0x6F, 0x6D, 0x0A], by simp [threeLines], by decide⟩
  rw [read, found]
  refine ⟨value, rfl⟩

/-- A log with nothing but the lines of one core is not read where a machine is said to have more
cores than memory can list. -/
theorem read?_written_vast :
    (∃ m : Printout, m.counts = [200] ∧ m.total = 200 ∧ readFloat? m.numeral.toList = some 1.5 ∧
      Among m.lines ([Utf8.encode (Printout.coreLine 0 200), Utf8.encode m.totalLine] ++ [[]]) ∧
      ∀ contents : RunLog, LogReader.read? ⟨1152921504606846976, defaultFaultMarker⟩
        ([Utf8.encode (Printout.coreLine 0 200), Utf8.encode m.totalLine].flatMap (· ++ [0x0A]) ++ []) ≠
          .ok contents) := by
  have empty : Silent [] := ⟨by decide, by decide⟩
  refine ⟨⟨[200], 200, "1.5", 0, 0⟩, rfl, rfl, by decide +kernel,
    .text (.text (.silent empty .nil)), ?_⟩
  intro contents
  rw [read?, if_neg (by decide)]
  exact nofun

end LogReader

end SpeedupStudy
