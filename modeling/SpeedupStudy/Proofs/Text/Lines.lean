/-
# Lines of bytes

A file is cut into lines behind its line feeds, and each line is read by itself. A line feed ends
every character that is still open, so it is read as itself whatever bytes come before it, and
bytes below 128 are read one by one.
-/

import Mathlib
import SpeedupStudy.Text.Pieces
import SpeedupStudy.Text.Utf8

namespace SpeedupStudy

namespace Text

universe u

variable {α : Type u} {p : α → Bool} {a : α} {line : List α}

theorem cutAfter_cons (p : α → Bool) (a : α) (s : List α) :
    cutAfter p (a :: s) = if p a then [a] :: cutAfter p s else consFirst a (cutAfter p s) :=
  rfl

/-- The first line goes up to the first element that ends one. -/
theorem cutAfter_append_cons (uncut : ∀ b ∈ line, p b = false) (cut : p a = true) (rest : List α) :
    cutAfter p (line ++ a :: rest) = (line ++ [a]) :: cutAfter p rest := by
  induction line with
  | nil => rw [List.nil_append, cutAfter_cons, if_pos cut]; rfl
  | cons b line ih =>
      have here : ¬ p b = true := by rw [uncut b List.mem_cons_self]; decide
      rw [List.cons_append, cutAfter_cons, if_neg here,
        ih fun c mem => uncut c (List.mem_cons_of_mem b mem)]
      rfl

/-- What is left after the last end of a line is a line, too, unless it is empty. -/
theorem cutAfter_of_uncut (uncut : ∀ b ∈ line, p b = false) :
    cutAfter p line = if line.isEmpty then [] else [line] := by
  induction line with
  | nil => rfl
  | cons b line ih =>
      have here : ¬ p b = true := by rw [uncut b List.mem_cons_self]; decide
      rw [cutAfter_cons, if_neg here, ih fun c mem => uncut c (List.mem_cons_of_mem b mem)]
      cases line <;> rfl

/-- Lines that are written one after another, each with an end, are found again. -/
theorem cutAfter_flatMap {lines : List (List α)} (uncut : ∀ line ∈ lines, ∀ b ∈ line, p b = false)
    (cut : p a = true) (rest : List α) :
    cutAfter p (lines.flatMap (· ++ [a]) ++ rest) = lines.map (· ++ [a]) ++ cutAfter p rest := by
  induction lines with
  | nil => rfl
  | cons line lines ih =>
      rw [List.flatMap_cons, List.append_assoc, List.append_assoc, List.singleton_append,
        cutAfter_append_cons (uncut line List.mem_cons_self) cut,
        ih fun line' mem => uncut line' (List.mem_cons_of_mem line mem)]
      rfl

/-- Every list is cut into lines at one element, with what follows the last end of a line. -/
theorem exists_lines [DecidableEq α] (a : α) (s : List α) :
    ∃ lines last, (∀ line ∈ lines ++ [last], a ∉ line) ∧ s = lines.flatMap (· ++ [a]) ++ last := by
  induction s with
  | nil => exact ⟨[], [], by simp, rfl⟩
  | cons b rest ih =>
      obtain ⟨lines, last, whole, rfl⟩ := ih
      by_cases same : b = a
      · refine ⟨[] :: lines, last, ?_, by simp [same]⟩
        exact List.forall_mem_cons.mpr ⟨List.not_mem_nil, whole⟩
      · cases lines with
        | nil =>
            refine ⟨[], b :: last, ?_, rfl⟩
            simpa [Ne.symm same] using whole
        | cons line lines =>
            refine ⟨(b :: line) :: lines, last, ?_, by simp⟩
            rw [List.cons_append, List.forall_mem_cons] at whole ⊢
            exact ⟨by simpa [Ne.symm same] using whole.1, whole.2⟩

/-- Something that is not empty has a line. -/
theorem cutAfter_ne_nil (nonempty : line ≠ []) : cutAfter p line ≠ [] := by
  intro none
  have whole := flatten_cutAfter p line
  rw [none, List.flatten_nil] at whole
  exact nonempty whole.symm

/-- What follows the end of a line is cut by itself. -/
theorem cutAfter_append {first : List α} (ended : ∀ a ∈ first.getLast?, p a = true)
    (second : List α) : cutAfter p (first ++ second) = cutAfter p first ++ cutAfter p second := by
  induction first with
  | nil => rfl
  | cons a rest ih =>
      cases rest with
      | nil =>
          have cut : p a = true := ended a rfl
          rw [List.singleton_append, cutAfter_cons, cutAfter_cons, if_pos cut, if_pos cut]
          rfl
      | cons b rest =>
          rw [List.getLast?_cons_cons] at ended
          rw [List.cons_append, cutAfter_cons, ih ended, cutAfter_cons p a (b :: rest)]
          split
          · rfl
          · cases pieces : cutAfter p (b :: rest) with
            | nil => exact absurd pieces (cutAfter_ne_nil (List.cons_ne_nil b rest))
            | cons piece others => rfl

end Text

namespace Utf8

/-- Bytes below 128 end an open character. -/
def AwaitsContinuation (pending : Option Pending) : Prop :=
  ∀ p ∈ pending, 0x80 ≤ p.low

theorem awaitsContinuation_none : AwaitsContinuation none :=
  nofun

theorem awaitsContinuation_start (b : UInt8) : AwaitsContinuation (start b).pending := by
  intro p mem
  simp only [start] at mem
  split_ifs at mem <;> simp only [Option.mem_def, Option.some.injEq, reduceCtorEq] at mem <;>
    rw [← mem] <;> dsimp only <;> decide

theorem awaitsContinuation_step {pending : Option Pending} (b : UInt8) :
    AwaitsContinuation (step pending b).pending := by
  cases pending with
  | none => exact awaitsContinuation_start b
  | some p =>
      unfold step
      simp only
      split_ifs
      · exact nofun
      · intro p' mem
        rw [← Option.some.inj mem]
        dsimp only
        decide
      · exact awaitsContinuation_start b

theorem awaitsContinuation_foldl (bytes : Bytes) {r : Reading} (awaits : AwaitsContinuation r.pending) :
    AwaitsContinuation (bytes.foldl Reading.next r).pending := by
  induction bytes generalizing r with
  | nil => exact awaits
  | cons b rest ih => exact ih (awaitsContinuation_step b)

/-- A byte below 128 is read as itself, and it ends the character before it. -/
theorem finish_next_of_lt {r : Reading} (awaits : AwaitsContinuation r.pending) {b : UInt8}
    (ascii : b < 0x80) : (r.next b).finish = r.finish ++ [Char.ofNat b.toNat] := by
  obtain ⟨latestFirst, pending⟩ := r
  have read : start b = ⟨[Char.ofNat b.toNat], none⟩ := by rw [start]; exact if_pos ascii
  cases pending with
  | none => simp [Reading.next, Reading.finish, step, read]
  | some p =>
      have ends : ¬ p.low ≤ b := fun le =>
        absurd (UInt8.lt_of_lt_of_le ascii (awaits p rfl)) (UInt8.not_lt.mpr le)
      simp [Reading.next, Reading.finish, step, read, ends]

theorem decodeLossy_nil : decodeLossy [] = [] :=
  rfl

/-- A byte below 128 is read as itself whatever comes before it. -/
theorem decodeLossy_concat (bytes : Bytes) {b : UInt8} (ascii : b < 0x80) :
    decodeLossy (bytes ++ [b]) = decodeLossy bytes ++ [Char.ofNat b.toNat] := by
  rw [decodeLossy, List.foldl_append, decodeLossy]
  exact finish_next_of_lt (awaitsContinuation_foldl bytes awaitsContinuation_none) ascii

/-- Bytes below 128 are read one by one. -/
theorem decodeLossy_of_ascii {bytes : Bytes} (ascii : ∀ b ∈ bytes, b < 0x80) :
    decodeLossy bytes = bytes.map fun b => Char.ofNat b.toNat := by
  induction bytes using List.reverseRecOn with
  | nil => rfl
  | append_singleton bytes b ih =>
      rw [decodeLossy_concat bytes (ascii b (by simp)),
        ih fun c mem => ascii c (List.mem_append_left [b] mem), List.map_append, List.map_singleton]

/-- A text is written character by character. -/
theorem encode_eq_flatMap (s : String) : encode s = s.toList.flatMap String.utf8EncodeChar := by
  rw [encode, ← String.utf8Encode_toList, List.utf8Encode, List.toList_data_toByteArray]

/-- A character of ASCII takes one byte. -/
theorem utf8EncodeChar_of_ascii {c : Char} (ascii : c.toNat < 0x80) :
    String.utf8EncodeChar c = [UInt8.ofNat c.toNat] := by
  have small : c.val.toNat ≤ 0x7F := Nat.le_of_lt_succ ascii
  rw [String.utf8EncodeChar, if_pos small]
  rfl

/-- The characters of ASCII take one byte each. -/
theorem encode_of_ascii {s : String} (ascii : ∀ c ∈ s.toList, c.toNat < 0x80) :
    encode s = s.toList.map fun c => UInt8.ofNat c.toNat := by
  rw [encode_eq_flatMap]
  generalize s.toList = text at ascii
  induction text with
  | nil => rfl
  | cons c rest ih =>
      rw [List.flatMap_cons, utf8EncodeChar_of_ascii (ascii c List.mem_cons_self),
        ih fun d mem => ascii d (List.mem_cons_of_mem c mem)]
      rfl

/-- A text of ASCII is read leniently as it was written. -/
theorem decodeLossy_encode {s : String} (ascii : ∀ c ∈ s.toList, c.toNat < 0x80) :
    decodeLossy (encode s) = s.toList := by
  have byte : ∀ c ∈ s.toList, (UInt8.ofNat c.toNat).toNat = c.toNat := fun c mem =>
    UInt8.toNat_ofNat_of_lt' (Nat.lt_trans (ascii c mem) (by decide))
  rw [encode_of_ascii ascii, decodeLossy_of_ascii, List.map_map]
  · refine (List.map_congr_left fun c mem => ?_).trans (List.map_id s.toList)
    rw [Function.comp_apply, byte c mem, Char.ofNat_toNat, id]
  · intro b listed
    obtain ⟨c, mem, rfl⟩ := List.mem_map.mp listed
    rw [UInt8.lt_iff_toNat_lt, byte c mem]
    exact ascii c mem

/-- A line feed is no other character of ASCII. -/
theorem lineFeed_not_mem_encode {s : String} (ascii : ∀ c ∈ s.toList, c.toNat < 0x80)
    (oneLine : '\n' ∉ s.toList) : 0x0A ∉ encode s := by
  rw [encode_of_ascii ascii]
  intro listed
  obtain ⟨c, mem, same⟩ := List.mem_map.mp listed
  have code : c.toNat = 0x0A := by
    rw [← UInt8.toNat_ofNat_of_lt' (Nat.lt_trans (ascii c mem) (by decide : 0x80 < UInt8.size)),
      same]
    rfl
  rw [show c = '\n' by rw [← Char.ofNat_toNat c, code]] at mem
  exact oneLine mem

end Utf8

end SpeedupStudy
