import Telegram.CommandLine.Run
import Telegram.Proofs.Text.Hex

/-!
# Hexadecimal text on the command line

Bytes are typed in as digits, with blanks at will and perhaps a `0x` in front.

* `parseHex_eq_ok_iff`: which texts are read, and as what. Blanks are left out before anything else, so
  that they may stand inside a pair of digits and inside the marker too; then one marker is taken off, and
  what remains are digits.
* `removeBlanks_printed`: what is printed has the same digits in both of its forms. Blanks that are put
  into it later (`Interspersed`) do not matter either (`removeBlanks_of_interspersed`), and so it is read
  back.

The letter of a marker is no digit, which is why it does not matter that a marker is taken off wherever
there is one.
-/

namespace Telegram.Text

/-- The second text is the first one with blanks put in anywhere. They may stand between the two digits of
a byte, or inside the marker, just as well. -/
inductive Interspersed : List Char → List Char → Prop where
  | nil : Interspersed [] []
  | keep (c : Char) {inner text : List Char} (hrest : Interspersed inner text) :
      Interspersed (c :: inner) (c :: text)
  | blank {c : Char} (hblank : isBlank c = true) {inner text : List Char} (hrest : Interspersed inner text) :
      Interspersed inner (c :: text)

theorem removeBlanks_append (first second : List Char) :
    removeBlanks (first ++ second) = removeBlanks first ++ removeBlanks second :=
  List.filter_append _ _

theorem removeBlanks_of_forall {text : List Char} (h : ∀ c ∈ text, isBlank c = false) : removeBlanks text = text := by
  refine List.filter_eq_self.2 fun c hc => ?_
  rw [h c hc]
  rfl

/-- **Blanks that were put in are taken out.** -/
theorem removeBlanks_of_interspersed {inner text : List Char} (h : Interspersed inner text) :
    removeBlanks text = removeBlanks inner := by
  induction h with
  | nil => rfl
  | keep c _ ih =>
    rw [← List.singleton_append, removeBlanks_append, ih, ← removeBlanks_append]
    rfl
  | blank hblank _ ih =>
    rw [removeBlanks, List.filter_cons_of_neg (by rw [hblank]; decide)]
    exact ih

end Telegram.Text

namespace Telegram.Hex

open Text

/-! ## The marker

A marker is taken off once, whatever follows it. What is left may begin with a marker again, and is then
refused. -/

/-- What may stand in front of the digits. -/
def markers : List (List Char) :=
  [[], ['0', 'x'], ['0', 'X']]

theorem mem_markers_iff {marker : List Char} :
    marker ∈ markers ↔ marker = [] ∨ marker = ['0', 'x'] ∨ marker = ['0', 'X'] := by
  simp only [markers, List.mem_cons, List.not_mem_nil, or_false]

theorem removeBlanks_marker {marker : List Char} (h : marker ∈ markers) : removeBlanks marker = marker := by
  obtain rfl | rfl | rfl := mem_markers_iff.1 h
  · rfl
  · rfl
  · rfl

theorem exists_marker (text : List Char) : ∃ marker ∈ markers, text = marker ++ dropPrefix text := by
  fun_cases dropPrefix text with
  | case1 rest => exact ⟨['0', 'x'], mem_markers_iff.2 (.inr (.inl rfl)), rfl⟩
  | case2 rest => exact ⟨['0', 'X'], mem_markers_iff.2 (.inr (.inr rfl)), rfl⟩
  | case3 => exact ⟨[], mem_markers_iff.2 (.inl rfl), rfl⟩

theorem dropPrefix_of_isPaired {text : List Char} (h : IsPaired text) : dropPrefix text = text := by
  fun_cases dropPrefix text with
  | case1 rest => exact absurd (h.2 'x' (List.mem_cons_of_mem _ List.mem_cons_self)) (by decide)
  | case2 rest => exact absurd (h.2 'X' (List.mem_cons_of_mem _ List.mem_cons_self)) (by decide)
  | case3 => rfl

/-- **The marker is taken off**, and no digit with it. -/
theorem dropPrefix_append {marker body : List Char} (hmarker : marker ∈ markers) (hbody : IsPaired body) :
    dropPrefix (marker ++ body) = body := by
  obtain rfl | rfl | rfl := mem_markers_iff.1 hmarker
  · exact dropPrefix_of_isPaired hbody
  · rfl
  · rfl

/-! ## What is printed

The two forms differ in the blanks between bytes, and blanks are the first thing that reading leaves out.
So there is one lemma for both. -/

theorem isBlank_of_isLowerDigit {c : Char} (h : isLowerDigit c = true) : isBlank c = false :=
  of_ascii (fun c => isLowerDigit c = true → isBlank c = false) (by decide +kernel)
    (toNat_lt_of_isDigit (isDigit_of_isLowerDigit h)) h

theorem removeBlanks_digits (bytes : Bytes) : removeBlanks (bytes.flatMap digits) = bytes.flatMap digits :=
  removeBlanks_of_forall fun c hc => isBlank_of_isLowerDigit (isLowerDigit_of_mem_digits c hc)

theorem removeBlanks_spaced (bytes : Bytes) :
    removeBlanks ([' '].intercalate (bytes.map digits)) = bytes.flatMap digits := by
  have hpair (byte : UInt8) : removeBlanks (digits byte) = digits byte := by
    have hone := removeBlanks_digits [byte]
    rwa [List.flatMap_singleton] at hone
  induction bytes with
  | nil => rfl
  | cons byte rest ih =>
    cases rest with
    | nil => exact removeBlanks_digits [byte]
    | cons next rest =>
      rw [List.map_cons, List.map_cons, List.intercalate_cons_cons, removeBlanks_append, removeBlanks_append,
        ← List.map_cons, ih, hpair, List.flatMap_cons (x := byte)]
      rfl

/-- **Both forms are the same but for blanks.** -/
theorem removeBlanks_printed {bytes : Bytes} {printed : String} (h : printed ∈ [encode bytes, spaced bytes]) :
    removeBlanks printed.toList = bytes.flatMap digits := by
  simp only [List.mem_cons, List.not_mem_nil, or_false] at h
  rcases h with rfl | rfl
  · rw [encode, String.toList_ofList, removeBlanks_digits]
  · rw [spaced, String.toList_ofList, removeBlanks_spaced]

/-- The digits of bytes spell them. -/
theorem spells_digits (bytes : Bytes) : Spells (bytes.flatMap digits) bytes :=
  decode_eq_ok_iff.1 (decode_digits bytes)

/-- **An even number of digits spells bytes**, and nothing else does. -/
theorem exists_spells_iff {text : List Char} : (∃ bytes, Spells text bytes) ↔ IsPaired text := by
  constructor
  · rintro ⟨bytes, hspells⟩
    exact isPaired_of_spells hspells
  · intro hpaired
    obtain ⟨bytes, hdecode, -⟩ := decode_of_isPaired hpaired
    exact ⟨bytes, decode_eq_ok_iff.1 hdecode⟩

end Telegram.Hex

namespace Telegram.CommandLine

open Text

/-! ## Reading

Both directions go through what is left of the text without its blanks: it is a marker and digits, or it
is not read. -/

theorem parseHex_eq_ok_iff_dropPrefix {text : String} {bytes : Bytes} :
    parseHex text = .ok bytes ↔ Hex.Spells (Hex.dropPrefix (removeBlanks text.toList)) bytes := by
  rw [← Hex.decode_eq_ok_iff, parseHex, Hex.decodeLoose]
  cases Hex.decode (Hex.dropPrefix (removeBlanks text.toList)) with
  | error fault => exact iff_of_false nofun nofun
  | ok found =>
    exact ⟨fun h => congrArg Except.ok (Except.ok.inj h), fun h => congrArg Except.ok (Except.ok.inj h)⟩

/-- **What is read**: the blanks left out and one marker taken off, the text spells the bytes. -/
theorem parseHex_eq_ok_iff {text : String} {bytes : Bytes} :
    parseHex text = .ok bytes ↔
      ∃ marker ∈ Hex.markers, ∃ body, removeBlanks text.toList = marker ++ body ∧ Hex.Spells body bytes := by
  rw [parseHex_eq_ok_iff_dropPrefix]
  constructor
  · intro hspells
    obtain ⟨marker, hmarker, htext⟩ := Hex.exists_marker (removeBlanks text.toList)
    exact ⟨marker, hmarker, _, htext, hspells⟩
  · rintro ⟨marker, hmarker, body, htext, hspells⟩
    rwa [htext, Hex.dropPrefix_append hmarker (Hex.isPaired_of_spells hspells)]

/-- **Hexadecimal text is read, and nothing else.** Without its blanks, and without one marker in front of
them, a text that is read is an even number of digits, and it is read as the bytes that these spell. What
is printed of some bytes, in either form, with blanks put in anywhere and with or without a marker, is
read as these bytes. -/
theorem parseHex_reads_hex (text : String) :
    (∀ bytes, parseHex text = .ok bytes ↔
      ∃ marker ∈ Hex.markers, ∃ body, removeBlanks text.toList = marker ++ body ∧ Hex.Spells body bytes) ∧
    ((∃ bytes, parseHex text = .ok bytes) ↔
      ∃ marker ∈ Hex.markers, ∃ body, removeBlanks text.toList = marker ++ body ∧ Hex.IsPaired body) ∧
    ∀ bytes, ∀ printed ∈ [Hex.encode bytes, Hex.spaced bytes], ∀ marker ∈ Hex.markers,
      Interspersed (marker ++ printed.toList) text.toList → parseHex text = .ok bytes := by
  refine ⟨fun bytes => parseHex_eq_ok_iff, ⟨?read, ?paired⟩,
    fun bytes printed hprinted marker hmarker htext => ?back⟩
  case read =>
    rintro ⟨bytes, hread⟩
    obtain ⟨marker, hmarker, body, htext, hspells⟩ := parseHex_eq_ok_iff.1 hread
    exact ⟨marker, hmarker, body, htext, Hex.isPaired_of_spells hspells⟩
  case paired =>
    rintro ⟨marker, hmarker, body, htext, hpaired⟩
    obtain ⟨bytes, hspells⟩ := Hex.exists_spells_iff.2 hpaired
    exact ⟨bytes, parseHex_eq_ok_iff.2 ⟨marker, hmarker, body, htext, hspells⟩⟩
  case back =>
    refine parseHex_eq_ok_iff.2 ⟨marker, hmarker, bytes.flatMap Hex.digits, ?_, Hex.spells_digits bytes⟩
    rw [removeBlanks_of_interspersed htext, removeBlanks_append, Hex.removeBlanks_marker hmarker,
      Hex.removeBlanks_printed hprinted]

/-- A blank inside the marker and one inside a pair of digits. -/
theorem parseHex_reads_hex_across_blanks : parseHex "0 x6\n8 0a" = .ok [0x68, 0x0A] := by
  have hprinted : Hex.spaced [0x68, 0x0A] ∈ [Hex.encode [0x68, 0x0A], Hex.spaced [0x68, 0x0A]] :=
    List.mem_cons_of_mem _ List.mem_cons_self
  have hmarker : ['0', 'x'] ∈ Hex.markers := Hex.mem_markers_iff.2 (.inr (.inl rfl))
  refine (parseHex_reads_hex "0 x6\n8 0a").2.2 [0x68, 0x0A] _ hprinted _ hmarker ?_
  exact .keep '0' (.blank (by decide) (.keep 'x' (.keep '6' (.blank (by decide) (.keep '8' (.keep ' ' (.keep '0'
    (.keep 'a' .nil))))))))

end Telegram.CommandLine
