import Telegram.Proofs.Scalar.Text

/-!
# Texts that are cut and padded

A text field with a length is filled exactly. What is too long for it is cut between two characters, so
that the longest prefix with room is kept (`Text.Keeps`); what is then missing is padding. Nothing is lost
of what was kept but the padding at its own ends, which reading takes off together with the field's.

`Text.cut_and_padded` says this of every text and every field of the kinds UTF-8 and ASCII. Only a text
that is not ASCII is refused by a field that is, and nothing is written of it. What pads the field must
itself count as padding for the text to come back.
-/

namespace Telegram.Text

open Codec

variable {format : FieldFormat}

/-- What a field keeps of a text: all of it without a length, else the longest prefix that the field has
room for. -/
def Keeps (format : FieldFormat) (text kept : List Char) : Prop :=
  if format.length = 0 then kept = text else LongestIn format.length text kept

/-- What is stored of a text is what the field keeps of it. -/
theorem exists_keeps (hkind : format.text ≠ .bcd) {text : String}
    (hascii : format.text = .ascii → isAscii text.toList = true) :
    ∃ kept, Keeps format text.toList kept ∧
      stored format.text text (if format.length = 0 then none else some format.length) = .ok (utf8 kept) := by
  unfold Keeps
  split
  · refine ⟨text.toList, rfl, ?_⟩
    cases hformat : format.text with
    | bcd => exact absurd hformat hkind
    | utf8 => rfl
    | ascii => exact if_pos (hascii hformat)
  · cases hformat : format.text with
    | bcd => exact absurd hformat hkind
    | utf8 =>
      obtain ⟨kept, hlongest, hcut⟩ := exists_longestIn format.length text.toList
      exact ⟨kept, hlongest, congrArg Except.ok hcut⟩
    | ascii =>
      obtain ⟨hlongest, hcut⟩ := longestIn_take (toNat_lt_of_isAscii (hascii hformat)) format.length
      exact ⟨_, hlongest, (if_pos (hascii hformat)).trans (congrArg Except.ok hcut)⟩

theorem Keeps.length_le {text kept : List Char} (h : Keeps format text kept) (hsized : format.length ≠ 0) :
    (utf8 kept).length ≤ format.length := by
  rw [Keeps, if_neg hsized] at h
  exact h.length_le

/-- What is kept of an ASCII text is ASCII. -/
theorem Keeps.isAscii {text kept : List Char} (h : Keeps format text kept) (hascii : isAscii text = true) :
    Text.isAscii kept = true := by
  unfold Keeps at h
  split at h
  · rwa [h]
  · exact List.all_eq_true.2 fun c hc => List.all_eq_true.1 hascii c (h.begins.subset hc)

/-- **A text is cut between characters and padded, or refused.** -/
theorem cut_and_padded (hkind : format.text ≠ .bcd) (text : String) :
    if format.text = .ascii ∧ isAscii text.toList = false then
      (write format (some text)).result = .error (.notAscii text) ∧ (write format (some text)).bytes = []
    else
      ∃ kept bytes, Keeps format text.toList kept ∧
        bytes = utf8 kept ++ List.replicate (format.length - (utf8 kept).length) format.fill ∧
        (format.length ≠ 0 → bytes.length = format.length) ∧
        write format (some text) = .done bytes ∧
        (format.fill ≤ 0x20 → ∃ core, Stripped kept core ∧
          ∀ rest, (format.length = 0 → rest = []) →
            read format (bytes ++ rest) = .found (.text (String.ofList core)) rest) := by
  split
  · rename_i hrefused
    have hstored : ∀ room, stored format.text text room = .error (.notAscii text) := by
      intro room
      rw [hrefused.1]
      exact if_neg (Bool.eq_false_iff.1 hrefused.2)
    rw [write, hstored]
    exact ⟨rfl, rfl⟩
  · rename_i haccepted
    have hascii : format.text = .ascii → isAscii text.toList = true := by
      intro hformat
      exact Bool.not_eq_false _ ▸ fun hfalse => haccepted ⟨hformat, hfalse⟩
    obtain ⟨kept, hkeeps, hstored⟩ := exists_keeps hkind hascii
    have hlength : format.length ≠ 0 → ((utf8 kept).pad (format.length - (utf8 kept).length) format.fill).length =
        format.length := by
      intro hsized
      have hle := hkeeps.length_le hsized
      rw [Bytes.length_pad]
      omega
    refine ⟨kept, _, hkeeps, rfl, hlength, ?write, ?read⟩
    case write =>
      simp only [write, hstored]
      rfl
    case read =>
      intro hfill
      have hstripped := stripped_trim kept
      have hshown : shown format.text
          ((utf8 kept).pad (format.length - (utf8 kept).length) format.fill) = String.ofList (trim kept) :=
        hstripped.shown_pad hkind (fun hformat => hkeeps.isAscii (hascii hformat)) fun _ => hfill
      refine ⟨trim kept, hstripped, fun rest hrest => ?_⟩
      rw [← hshown]
      exact read_append hlength hrest

/-- A text of four bytes in a field of three: the last character has no room. -/
theorem cut_and_padded_three :
    let format : FieldFormat := { text := .utf8, length := 3, fill := 0x20 }
    ∃ kept bytes, Keeps format " aé".toList kept ∧ bytes.length = 3 ∧ write format (some " aé") = .done bytes ∧
      ∃ core, Stripped kept core ∧
        ∀ rest, read format (bytes ++ rest) = .found (.text (String.ofList core)) rest := by
  have hthree := @cut_and_padded { text := .utf8, length := 3, fill := 0x20 } (by decide) " aé"
  rw [if_neg (by simp)] at hthree
  obtain ⟨kept, bytes, hkeeps, -, hlength, hwrite, hread⟩ := hthree
  obtain ⟨core, hstripped, hfound⟩ := hread (by decide)
  exact ⟨kept, bytes, hkeeps, hlength (by decide), hwrite, core, hstripped, fun rest => hfound rest nofun⟩

example : write { text := .utf8, length := 3, fill := 0x20 } (some " aé") = .done [0x20, 0x61, 0x20] := by
  rfl

end Telegram.Text
