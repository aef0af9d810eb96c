/-
# The extension of logs

Files are chosen by the bytes of their names, and the reader of names takes an ending off a text.
Both ask for the same: the last bytes of a text are those of the ending only if its last characters
are the ending, as no byte of ASCII is part of a longer character. Dots before the ending make no
difference to either.
-/

import SpeedupStudy.Collection.Discovery
import SpeedupStudy.Proofs.Run.FileName
import SpeedupStudy.Proofs.Text.Lines

namespace SpeedupStudy

namespace Utf8

/-- A character whose last byte is one of ASCII is this byte. -/
theorem utf8EncodeChar_concat {c d : Char} {front : Bytes} (ascii : d.toNat < 0x80)
    (encoded : String.utf8EncodeChar c = front ++ [UInt8.ofNat d.toNat]) : front = [] ∧ c = d := by
  have code : (UInt8.ofNat d.toNat).toNat = d.toNat :=
    UInt8.toNat_ofNat_of_lt' (Nat.lt_trans ascii (by decide))
  -- The last byte of a longer character is at least 128.
  have apart : ∀ v : Nat, UInt8.ofNat (v % 64 + 128) ≠ UInt8.ofNat d.toNat := by
    intro v same
    have byte : (UInt8.ofNat (v % 64 + 128)).toNat = v % 64 + 128 :=
      UInt8.toNat_ofNat_of_lt' (by simp only [UInt8.size]; omega)
    rw [same, code] at byte
    omega
  have last := congrArg List.getLast? encoded
  rw [List.getLast?_concat] at last
  rw [String.utf8EncodeChar] at encoded last
  split_ifs at encoded last with one two three
  · have single : front = [] ∧ UInt8.ofNat c.val.toNat = UInt8.ofNat d.toNat := by
      cases front with
      | nil => exact ⟨rfl, (List.cons.inj encoded).1⟩
      | cons b rest => simp at encoded
    refine ⟨single.1, Char.toNat_inj.mp ?_⟩
    have byte : (UInt8.ofNat c.val.toNat).toNat = c.toNat :=
      UInt8.toNat_ofNat_of_lt' (by simp only [UInt8.size]; omega)
    rw [← byte, single.2, code]
  all_goals exact absurd (Option.some.inj last) (apart _)

/-- A text whose last bytes are those of a text of ASCII ends in this text. -/
theorem exists_append_of_flatMap {text ending : List Char} {front : Bytes}
    (ascii : ∀ c ∈ ending, c.toNat < 0x80)
    (encoded : text.flatMap String.utf8EncodeChar =
      front ++ ending.flatMap String.utf8EncodeChar) :
    ∃ stem, text = stem ++ ending ∧ stem.flatMap String.utf8EncodeChar = front := by
  induction ending using List.reverseRecOn generalizing text with
  | nil => exact ⟨text, by simp, by simpa using encoded⟩
  | append_singleton ending d ih =>
      have small := ascii d (by simp)
      rw [List.flatMap_append, List.flatMap_singleton, utf8EncodeChar_of_ascii small,
        ← List.append_assoc] at encoded
      rcases List.eq_nil_or_concat text with rfl | ⟨before, c, rfl⟩
      · simp at encoded
      · rw [List.concat_eq_append, List.flatMap_append, List.flatMap_singleton] at encoded
        rcases List.eq_nil_or_concat (String.utf8EncodeChar c) with none | ⟨bytes, b, spelled⟩
        · exact absurd none String.utf8EncodeChar_ne_nil
        · rw [List.concat_eq_append] at spelled
          rw [spelled, ← List.append_assoc] at encoded
          obtain ⟨same, last⟩ := List.append_inj' encoded rfl
          obtain ⟨rfl, rfl⟩ := utf8EncodeChar_concat small (last ▸ spelled)
          rw [List.append_nil] at same
          obtain ⟨stem, rfl, stemBytes⟩ :=
            ih (fun c mem => ascii c (List.mem_append_left _ mem)) same
          exact ⟨stem, by rw [List.concat_eq_append, List.append_assoc], stemBytes⟩

end Utf8

/-- A log is named something, a dot and the extension. -/
theorem isLogName_iff {name : Bytes} : isLogName name = true ↔
    ∃ stem, stem ≠ [] ∧ name = stem ++ Utf8.encode ("." ++ logExtension) := by
  simp only [isLogName, Bool.and_eq_true, List.isSuffixOf_iff_suffix, decide_eq_true_iff]
  constructor
  · rintro ⟨⟨stem, rfl⟩, longer⟩
    refine ⟨stem, ?_, rfl⟩
    rintro rfl
    simp at longer
  · rintro ⟨stem, nonempty, rfl⟩
    have := List.length_pos_iff.mpr nonempty
    refine ⟨⟨stem, rfl⟩, ?_⟩
    rw [List.length_append]
    omega

namespace Run

/-- A text is the name of a log exactly if it has a stem that is not empty. -/
theorem isLogName_encode_iff {name : String} : isLogName (Utf8.encode name) = true ↔
    ∃ stem, stem ≠ [] ∧ stem? name.toList = some stem := by
  have ending : ("." ++ logExtension).toList = '.' :: logExtension.toList := by decide
  simp only [isLogName_iff, stem?_eq_some_iff, Utf8.encode_eq_flatMap, ending]
  constructor
  · rintro ⟨front, nonempty, encoded⟩
    obtain ⟨stem, text, rfl⟩ :=
      Utf8.exists_append_of_flatMap (by simp [logExtension]) encoded
    refine ⟨stem, ?_, text⟩
    rintro rfl
    exact nonempty rfl
  · rintro ⟨stem, nonempty, text⟩
    refine ⟨stem.flatMap String.utf8EncodeChar, ?_, by rw [text, List.flatMap_append]⟩
    obtain ⟨c, rest, rfl⟩ := List.exists_cons_of_ne_nil nonempty
    simp [String.utf8EncodeChar_ne_nil]

theorem ofTokens_ne_notAnOutputFile (tokens : List (List Char)) :
    ofTokens tokens ≠ .error .notAnOutputFile := by
  unfold ofTokens
  split
  · simp
  · split
    · simp
    · split <;> simp
    · simp
    · split <;> simp

/-- Only a name without a stem is rejected for its ending. -/
theorem ofFileName_eq_notAnOutputFile_iff {name : String} :
    ofFileName name = .error .notAnOutputFile ↔ stem? name.toList = none := by
  unfold ofFileName
  cases stem? name.toList with
  | none => simp
  | some stem =>
      simp only [reduceCtorEq, iff_false]
      split
      · simp
      · exact ofTokens_ne_notAnOutputFile _

/-- A file whose name is a text and that of a log is not rejected for its ending. -/
theorem ofPath_ne_notAnOutputFile {path : Path} {name : String}
    (last : path.fileName? = some (Utf8.encode name)) (log : isLogName (Utf8.encode name) = true) :
    ofPath path ≠ .error .notAnOutputFile := by
  obtain ⟨stem, -, found⟩ := isLogName_encode_iff.mp log
  rw [ofPath_eq_ofFileName name last, Ne, ofFileName_eq_notAnOutputFile_iff, found]
  exact nofun

end Run

end SpeedupStudy
