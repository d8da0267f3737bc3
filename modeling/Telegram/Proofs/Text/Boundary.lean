import Telegram.Proofs.Text.Utf8

/-!
# Cutting a text between two characters

`boundary` looks at bytes only: from the end of the room there is, it goes back past the bytes that go on
with a character. What lies before the place that it finds is the encoding of a prefix of whole
characters, and there is room for no longer one.

* `begins_utf8_iff`: in the encoding of a text, the places where no character is cut in half are the ends
  of its prefixes.
* `begins_boundary`, `boundary_le` and `le_boundary`: of all such places up to a given one, `boundary` is
  the last.
* `exists_longestIn`: the bytes that `cutBetween` keeps are those of the longest prefix that there is room
  for.
-/

namespace Telegram.Text

/-! ## Where characters begin

In the encoding of a character, the first byte can be told from the others by itself. Hence the places
where a character begins can be found without reading from the start. -/

/-- No character is cut in half at this place: the byte there begins a character, or the bytes end. -/
def Begins (bytes : Bytes) (place : Nat) : Prop :=
  bytes[place]?.any continues = false

theorem continues_ofNat {n : Nat} (h : n < 256) :
    continues (UInt8.ofNat n) = true ↔ 0x80 ≤ n ∧ n < 0xC0 := by
  have hall : ∀ n : Fin 256, continues (UInt8.ofNat n) = true ↔ 0x80 ≤ n.val ∧ n.val < 0xC0 := by
    decide +kernel
  exact hall ⟨n, h⟩

/-- A character is one byte that begins it, and bytes that go on with it. -/
theorem exists_utf8EncodeChar_eq (c : Char) :
    ∃ lead more, String.utf8EncodeChar c = lead :: more ∧ continues lead = false ∧
      ∀ byte ∈ more, continues byte = true := by
  have hlead : ∀ {n : Nat}, n < 256 → n < 0x80 ∨ 0xC0 ≤ n → continues (UInt8.ofNat n) = false := by
    intro n h hn
    rw [← Bool.not_eq_true, continues_ofNat h]
    omega
  have hmore : ∀ parts : List Nat, ∀ byte ∈ parts.map (fun n => UInt8.ofNat (n % 64 + 128)),
      continues byte = true := by
    intro parts byte hbyte
    obtain ⟨n, -, rfl⟩ := List.mem_map.1 hbyte
    rw [continues_ofNat (by omega)]
    omega
  simp only [String.utf8EncodeChar]
  split
  · exact ⟨_, _, rfl, hlead (by omega) (by omega), hmore []⟩
  split
  · exact ⟨_, _, rfl, hlead (by omega) (by omega), hmore [c.val.toNat]⟩
  split
  · exact ⟨_, _, rfl, hlead (by omega) (by omega), hmore [c.val.toNat / 64, c.val.toNat]⟩
  · exact ⟨_, _, rfl, hlead (by omega) (by omega),
      hmore [c.val.toNat / 4096, c.val.toNat / 64, c.val.toNat]⟩

/-- A prefix of a text that begins with a given character is empty, or begins with it too. -/
theorem exists_prefix_cons_iff {c : Char} {rest : List Char} {place : Nat} :
    (∃ front, front <+: c :: rest ∧ (utf8 front).length = place) ↔
      place = 0 ∨ ∃ front, front <+: rest ∧ (String.utf8EncodeChar c).length + (utf8 front).length = place := by
  constructor
  · rintro ⟨front, hfront, rfl⟩
    rcases List.prefix_cons_iff.1 hfront with rfl | ⟨tail, rfl, htail⟩
    · exact .inl rfl
    · exact .inr ⟨tail, htail, List.length_append.symm⟩
  · rintro (rfl | ⟨front, hfront, rfl⟩)
    · exact ⟨[], List.nil_prefix, rfl⟩
    · exact ⟨c :: front, List.cons_prefix_cons.2 ⟨rfl, hfront⟩, List.length_append⟩

/-- **The places between characters are the ends of prefixes.** -/
theorem begins_utf8_iff {text : List Char} {place : Nat} (hplace : place ≤ (utf8 text).length) :
    Begins (utf8 text) place ↔ ∃ front, front <+: text ∧ (utf8 front).length = place := by
  induction text generalizing place with
  | nil =>
    obtain rfl : place = 0 := Nat.le_zero.1 hplace
    exact ⟨fun _ => ⟨[], List.nil_prefix, rfl⟩, fun _ => rfl⟩
  | cons c rest ih =>
    obtain ⟨lead, more, hencode, hlead, hmore⟩ := exists_utf8EncodeChar_eq c
    have hcons : utf8 (c :: rest) = (lead :: more) ++ utf8 rest := by rw [← hencode]; rfl
    rw [hcons, List.length_append] at hplace
    rw [exists_prefix_cons_iff, Begins, hcons, hencode]
    rcases Nat.lt_or_ge place (lead :: more).length with hinside | hbeyond
    · rw [List.getElem?_append_left hinside]
      cases place with
      | zero => exact ⟨fun _ => .inl rfl, fun _ => hlead⟩
      | succ place =>
        -- this byte goes on with the character, and a prefix that is not empty holds all of it
        have hbyte : place < more.length := Nat.lt_of_succ_lt_succ hinside
        rw [List.getElem?_cons_succ, List.getElem?_eq_getElem hbyte, Option.any_some,
          hmore _ (List.getElem_mem hbyte)]
        constructor
        · intro hfalse
          cases hfalse
        · rintro (hzero | ⟨front, -, hlength⟩) <;> omega
    · rw [List.getElem?_append_right hbeyond]
      have hplaces := @ih (place - (lead :: more).length) (by omega)
      refine hplaces.trans ⟨?_, ?_⟩
      · rintro ⟨front, hfront, hlength⟩
        exact .inr ⟨front, hfront, by omega⟩
      · rintro (rfl | ⟨front, hfront, hlength⟩)
        · cases hbeyond
        · exact ⟨front, hfront, by omega⟩

/-! ## The last place with room

The search goes back one byte at a time from the end of the room, and stops at the first place that is
between characters. It passes over at most three bytes, but nothing here depends on that. -/

theorem boundary_le (bytes : Bytes) (stop : Nat) : boundary bytes stop ≤ stop := by
  induction stop with
  | zero => exact Nat.le_refl 0
  | succ stop ih =>
    rw [boundary]
    split
    · exact Nat.le_succ_of_le ih
    · exact Nat.le_refl _

/-- The search ends between characters, provided that the first byte begins one. -/
theorem begins_boundary {bytes : Bytes} (hfirst : Begins bytes 0) (stop : Nat) :
    Begins bytes (boundary bytes stop) := by
  induction stop with
  | zero => exact hfirst
  | succ stop ih =>
    rw [boundary]
    split
    · exact ih
    · rename_i hbegins
      exact Bool.eq_false_iff.2 hbegins

/-- The search passes over no place between characters. -/
theorem le_boundary {bytes : Bytes} {place stop : Nat} (hplace : Begins bytes place) (hle : place ≤ stop) :
    place ≤ boundary bytes stop := by
  induction stop with
  | zero => exact hle
  | succ stop ih =>
    rw [boundary]
    split
    · rename_i hcontinues
      have hne : place ≠ stop + 1 := by
        rintro rfl
        rw [Begins, hcontinues] at hplace
        cases hplace
      exact ih (by omega)
    · exact hle

theorem length_cutBetween_le (bytes : Bytes) (room : Nat) : (cutBetween bytes room).length ≤ room := by
  rw [cutBetween, List.length_take]
  have hle := boundary_le bytes (min room bytes.length)
  omega

/-- What has room is kept whole. -/
theorem cutBetween_of_length_le {bytes : Bytes} {room : Nat} (h : bytes.length ≤ room) :
    cutBetween bytes room = bytes := by
  have hend : Begins bytes bytes.length := by
    rw [Begins, List.getElem?_eq_none (Nat.le_refl _)]
    rfl
  rw [cutBetween, Nat.min_eq_right h, List.take_of_length_le (le_boundary hend (Nat.le_refl _))]

/-! ## The longest prefix with room

Prefixes of a text are ordered by their lengths in bytes, and so the last place with room belongs to the
longest of them. -/

/-- The longest prefix of a text that takes at most `room` bytes. It is a prefix in characters: where the
next one does not fit as a whole, some bytes are left over. -/
structure LongestIn (room : Nat) (text kept : List Char) : Prop where
  begins : kept <+: text
  length_le : (utf8 kept).length ≤ room
  longest : ∀ other, other <+: text → (utf8 other).length ≤ room → other <+: kept

theorem utf8_ne_nil {text : List Char} (h : text ≠ []) : utf8 text ≠ [] := by
  cases text with
  | nil => exact absurd rfl h
  | cons c rest =>
    obtain ⟨lead, more, hencode, -⟩ := exists_utf8EncodeChar_eq c
    rw [utf8, List.flatMap_cons, hencode]
    exact List.cons_ne_nil _ _

/-- Of two prefixes of a text, the one that takes no more bytes is a prefix of the other. -/
theorem prefix_of_length_utf8_le {text first second : List Char} (hfirst : first <+: text)
    (hsecond : second <+: text) (hle : (utf8 first).length ≤ (utf8 second).length) : first <+: second := by
  rcases List.prefix_or_prefix_of_prefix hfirst hsecond with hbegins | ⟨more, rfl⟩
  · exact hbegins
  · rw [utf8_append, List.length_append] at hle
    have hmore : more = [] := by
      by_contra hne
      exact utf8_ne_nil hne (List.length_eq_zero_iff.1 (by omega))
    simp only [hmore, List.append_nil, List.prefix_rfl]

/-- **Cutting between characters keeps the longest prefix with room.** -/
theorem exists_longestIn (room : Nat) (text : List Char) :
    ∃ kept, LongestIn room text kept ∧ cutBetween (utf8 text) room = utf8 kept := by
  have hfirst : Begins (utf8 text) 0 := (begins_utf8_iff (Nat.zero_le _)).2 ⟨[], List.nil_prefix, rfl⟩
  have hstop := boundary_le (utf8 text) (min room (utf8 text).length)
  obtain ⟨kept, hkept, hlength⟩ := (begins_utf8_iff (by omega)).1
    (begins_boundary hfirst (min room (utf8 text).length))
  refine ⟨kept, ⟨hkept, by omega, ?longest⟩, ?bytes⟩
  case longest =>
    intro other hother hroom
    have hall : (utf8 other).length ≤ (utf8 text).length := by
      obtain ⟨more, rfl⟩ := hother
      rw [utf8_append, List.length_append]
      exact Nat.le_add_right _ _
    have hplace : Begins (utf8 text) (utf8 other).length := (begins_utf8_iff hall).2 ⟨other, hother, rfl⟩
    refine prefix_of_length_utf8_le hother hkept ?_
    rw [hlength]
    exact le_boundary hplace (by omega)
  case bytes =>
    obtain ⟨more, rfl⟩ := hkept
    rw [cutBetween, ← hlength, utf8_append, List.take_left]

/-- Seven-bit characters are one byte each, so that any place will do. -/
theorem longestIn_take {text : List Char} (hascii : ∀ c ∈ text, c.toNat < 0x80) (room : Nat) :
    LongestIn room text (text.take room) ∧ (utf8 text).take room = utf8 (text.take room) := by
  have hlength : ∀ {front : List Char}, front <+: text → utf8 front = front.map fun c => UInt8.ofNat c.toNat :=
    fun hfront => utf8_of_lt fun c hc => hascii c (hfront.subset hc)
  refine ⟨⟨List.take_prefix _ _, ?_, fun other hother hroom => ?_⟩, ?_⟩
  · rw [hlength (List.take_prefix _ _), List.length_map]
    exact List.length_take_le _ _
  · rw [hlength hother, List.length_map] at hroom
    exact List.prefix_take_iff.2 ⟨hother, hroom⟩
  · rw [hlength List.prefix_rfl, hlength (List.take_prefix _ _), List.map_take]

end Telegram.Text
