import Telegram.Hex
import Telegram.Proofs.Text.Utf8

/-!
# Hexadecimal text and back

* `Hex.decode_digits`: reading the digits of some bytes gives the bytes back.
* `Hex.exists_eq_digits`: every text of an even number of lower-case digits is the text of some bytes, so
  nothing is lost when such a text is stored as bytes.
* `Hex.decode_of_isPaired` and `Hex.isPaired_of_decode`: what is read at all is an even number of digits
  of either case, and the bytes have the same digits in lower case.
* `Hex.decode_eq_ok_iff`: what comes out are the bytes that the text spells, each digit by its place in
  `alphabet`.
-/

namespace Telegram.Hex

open Text

/-- A digit as it is written, in lower case. -/
def isLowerDigit (c : Char) : Bool :=
  '0' ≤ c && c ≤ '9' || 'a' ≤ c && c ≤ 'f'

/-- A digit of either case. -/
def isDigit (c : Char) : Bool :=
  isLowerDigit c || 'A' ≤ c && c ≤ 'F'

/-- An even number of digits and nothing else. -/
def IsPaired (text : List Char) : Prop :=
  text.length % 2 = 0 ∧ ∀ c ∈ text, isDigit c = true

/-! ## Single digits

A digit is one of twenty-two characters, so what is to be known of single digits is checked one by one. -/

/-- The digit that is written for a value has that value. -/
theorem value?_digit : ∀ value : Fin 16,
    value? (UInt8.ofNat (digit (UInt8.ofNat value)).toNat) = some (UInt8.ofNat value) := by
  decide

theorem isDigit_of_isLowerDigit {c : Char} (h : isLowerDigit c = true) : isDigit c = true :=
  Bool.or_eq_true_iff.2 (.inl h)

/-- Digits are characters of seven bits, so each of them is one byte. -/
theorem toNat_lt_of_isDigit {c : Char} (h : isDigit c = true) : c.toNat < 128 := by
  have hrange : (48 ≤ c.toNat ∧ c.toNat ≤ 57 ∨ 97 ≤ c.toNat ∧ c.toNat ≤ 102) ∨ 65 ≤ c.toNat ∧ c.toNat ≤ 70 := by
    simpa [isDigit, isLowerDigit, Char.le_def, UInt32.le_iff_toNat_le] using h
  omega

/-- What holds of the characters of seven bits, checked one by one. -/
theorem of_ascii (P : Char → Prop) (h : ∀ n : Fin 128, P (Char.ofNat n)) {c : Char} (hascii : c.toNat < 128) :
    P c := by
  have hc := h ⟨c.toNat, hascii⟩
  rwa [Char.ofNat_toNat] at hc

theorem toLower_of_isLowerDigit {c : Char} (h : isLowerDigit c = true) : c.toLower = c :=
  of_ascii (fun c => isLowerDigit c = true → c.toLower = c) (by decide +kernel)
    (toNat_lt_of_isDigit (isDigit_of_isLowerDigit h)) h

/-- **A digit of either case has a value**, and its lower-case form is the digit of that value. -/
theorem exists_value?_eq {c : Char} (h : isDigit c = true) : ∃ value : Fin 16,
    value? (UInt8.ofNat c.toNat) = some (UInt8.ofNat value) ∧ c.toLower = digit (UInt8.ofNat value) :=
  of_ascii (fun c => isDigit c = true → ∃ value : Fin 16,
      value? (UInt8.ofNat c.toNat) = some (UInt8.ofNat value) ∧ c.toLower = digit (UInt8.ofNat value))
    (by decide +kernel) (toNat_lt_of_isDigit h) h

/-- No byte of seven bits has a value but the digits. -/
theorem isDigit_of_value? {c : Char} (hascii : c.toNat < 0x80) (h : value? (UInt8.ofNat c.toNat) ≠ none) :
    isDigit c = true :=
  of_ascii (fun c => value? (UInt8.ofNat c.toNat) ≠ none → isDigit c = true) (by decide +kernel) hascii h

/-- A digit in lower case was a digit before. -/
theorem isDigit_of_toLower {c : Char} (h : isLowerDigit c.toLower = true) : isDigit c = true := by
  by_cases hascii : c.toNat < 128
  · exact of_ascii (fun c => isLowerDigit c.toLower = true → isDigit c = true) (by decide +kernel) hascii h
  · have hsame : c.toLower = c := dif_neg fun hupper => hascii (Nat.lt_of_le_of_lt hupper.2 (by decide))
    rw [hsame] at h
    exact isDigit_of_isLowerDigit h

/-- A character beyond seven bits has a byte without a value. -/
theorem exists_mem_value?_eq_none {c : Char} (h : 0x80 ≤ c.toNat) :
    ∃ byte ∈ String.utf8EncodeChar c, value? byte = none := by
  have hhigh : ∀ n, 128 ≤ n → n < 256 → value? (UInt8.ofNat n) = none := by
    have hall : ∀ n : Fin 256, 128 ≤ n.val → value? (UInt8.ofNat n) = none := by
      decide +kernel
    exact fun n hn hlt => hall ⟨n, hlt⟩ hn
  have hval : c.val.toNat = c.toNat := rfl
  simp only [String.utf8EncodeChar, hval]
  split
  · omega
  split
  · exact ⟨_, List.mem_cons_self, hhigh _ (by omega) (by omega)⟩
  split
  · exact ⟨_, List.mem_cons_self, hhigh _ (by omega) (by omega)⟩
  · exact ⟨_, List.mem_cons_self, hhigh _ (by omega) (by omega)⟩

/-! ## Bytes

A byte has a high and a low half, each below 16. Putting them together and taking them apart are inverse,
and this too is a matter of finitely many cases. -/

/-- A byte is put together from two values below 16, and its digits are theirs. -/
theorem exists_halves (byte : UInt8) : ∃ high low : Fin 16,
    digits byte = [digit (UInt8.ofNat high), digit (UInt8.ofNat low)] ∧
      ((UInt8.ofNat high <<< 4) ||| UInt8.ofNat low) = byte := by
  have hall : ∀ n : Fin 256,
      digits (UInt8.ofNat n) = [digit (UInt8.ofNat (n / 16)), digit (UInt8.ofNat (n % 16))] ∧
        ((UInt8.ofNat (n / 16) <<< 4) ||| UInt8.ofNat (n % 16)) = UInt8.ofNat n := by
    decide +kernel
  have hlt : byte.toNat < 256 := byte.toNat_lt
  have hbyte := hall ⟨byte.toNat, hlt⟩
  rw [UInt8.ofNat_toNat] at hbyte
  exact ⟨⟨byte.toNat / 16, by omega⟩, ⟨byte.toNat % 16, by omega⟩, hbyte⟩

/-- Two values below 16 make a byte with their digits. -/
theorem digits_of_halves : ∀ high low : Fin 16,
    digits ((UInt8.ofNat high <<< 4) ||| UInt8.ofNat low) =
      [digit (UInt8.ofNat high), digit (UInt8.ofNat low)] := by
  decide +kernel

/-- What is written are digits in lower case. -/
theorem isLowerDigit_of_mem_digits {bytes : Bytes} : ∀ c ∈ bytes.flatMap digits, isLowerDigit c = true := by
  intro c hc
  obtain ⟨byte, -, hmem⟩ := List.mem_flatMap.1 hc
  obtain ⟨high, low, hdigits, -⟩ := exists_halves byte
  have hlower : ∀ value : Fin 16, isLowerDigit (digit (UInt8.ofNat value)) = true := by decide
  simp only [hdigits, List.mem_cons, List.not_mem_nil, or_false] at hmem
  rcases hmem with rfl | rfl
  · exact hlower high
  · exact hlower low

theorem toNat_lt_of_mem_digits {bytes : Bytes} : ∀ c ∈ bytes.flatMap digits, c.toNat < 0x80 :=
  fun c hc => toNat_lt_of_isDigit (isDigit_of_isLowerDigit (isLowerDigit_of_mem_digits c hc))

theorem length_digits (bytes : Bytes) : (bytes.flatMap digits).length = 2 * bytes.length := by
  induction bytes with
  | nil => rfl
  | cons byte rest ih =>
    rw [List.flatMap_cons, List.length_append, ih, List.length_cons]
    change 2 + 2 * rest.length = _
    omega

/-- Bytes are read back from their digits, wherever in a text these stand. -/
theorem decodePairs_digits (position : Nat) (bytes : Bytes) :
    decodePairs position ((bytes.flatMap digits).map fun c => UInt8.ofNat c.toNat) = .ok bytes := by
  induction bytes generalizing position with
  | nil => rfl
  | cons byte rest ih =>
    obtain ⟨high, low, hdigits, hbyte⟩ := exists_halves byte
    rw [List.flatMap_cons, hdigits]
    simp only [List.cons_append, List.nil_append, List.map_cons, decodePairs, valueAt, value?_digit,
      Option.elim_some, ih]
    exact congrArg (fun byte => Except.ok (byte :: rest)) hbyte

/-- **Digits are read back as the bytes they came from.** -/
theorem decode_digits (bytes : Bytes) : decode (bytes.flatMap digits) = .ok bytes := by
  have hutf8 := utf8_of_lt (@toNat_lt_of_mem_digits bytes)
  have heven : (utf8 (bytes.flatMap digits)).length % 2 = 0 := by
    rw [hutf8, List.length_map, length_digits, Nat.mul_mod_right]
  simp only [decode]
  rw [if_neg (by omega), hutf8, decodePairs_digits]

/-- Cutting a run of bytes cuts their digits in pairs. -/
theorem flatMap_digits_take (count : Nat) (bytes : Bytes) :
    (bytes.take count).flatMap digits = (bytes.flatMap digits).take (2 * count) := by
  induction bytes generalizing count with
  | nil => rw [List.take_nil, List.flatMap_nil, List.take_nil]
  | cons byte rest ih =>
    cases count with
    | zero => rfl
    | succ count =>
      rw [List.take_succ_cons, List.flatMap_cons, ih, List.flatMap_cons, Nat.mul_succ]
      rfl

/-! ## Digits of either case

Reading takes both cases and writing gives lower case. So texts are compared by their lower-case forms,
and it is these that are determined by the bytes. -/

/-- Reading pairs of digits gives bytes with the same digits. -/
theorem exists_decodePairs_eq (count : Nat) : ∀ (position : Nat) (text : List Char), text.length = 2 * count →
    (∀ c ∈ text, isDigit c = true) →
      ∃ bytes, decodePairs position (text.map fun c => UInt8.ofNat c.toNat) = .ok bytes ∧
        bytes.flatMap digits = text.map Char.toLower := by
  induction count with
  | zero =>
    intro position text hlength _
    obtain rfl := List.length_eq_zero_iff.1 hlength
    exact ⟨[], rfl, rfl⟩
  | succ count ih =>
    intro position text hlength hdigits
    match text, hlength with
    | c :: c' :: rest, hlength =>
      simp only [List.length_cons] at hlength
      rw [List.forall_mem_cons, List.forall_mem_cons] at hdigits
      obtain ⟨hc, hc', hrest⟩ := hdigits
      obtain ⟨high, hhigh, hhighdigit⟩ := exists_value?_eq hc
      obtain ⟨low, hlow, hlowdigit⟩ := exists_value?_eq hc'
      obtain ⟨bytes, hbytes, hlower⟩ := ih (position + 2) rest (by omega) hrest
      refine ⟨((UInt8.ofNat high <<< 4) ||| UInt8.ofNat low) :: bytes, ?_, ?_⟩
      · simp only [List.map_cons, decodePairs, valueAt, hhigh, hlow, Option.elim_some, hbytes]
        rfl
      · rw [List.flatMap_cons, digits_of_halves, hlower, ← hhighdigit, ← hlowdigit]
        rfl

/-- **A text of lower-case digits in pairs is the text of some bytes.** -/
theorem exists_eq_digits (count : Nat) : ∀ text : List Char, text.length = 2 * count →
    (∀ c ∈ text, isLowerDigit c = true) →
      ∃ bytes : Bytes, bytes.length = count ∧ text = bytes.flatMap digits := by
  intro text hlength hlower
  have hdigits : ∀ c ∈ text, isDigit c = true := fun c hc => isDigit_of_isLowerDigit (hlower c hc)
  obtain ⟨bytes, -, hbytes⟩ := exists_decodePairs_eq count 0 text hlength hdigits
  have hsame : text.map Char.toLower = text :=
    calc text.map Char.toLower = text.map id :=
          List.map_congr_left fun c hc => toLower_of_isLowerDigit (hlower c hc)
      _ = text := List.map_id text
  rw [hsame] at hbytes
  have hpairs := length_digits bytes
  rw [hbytes] at hpairs
  exact ⟨bytes, by omega, hbytes.symm⟩

/-- **An even number of digits is read**, as bytes with the same digits in lower case. -/
theorem decode_of_isPaired {text : List Char} (h : IsPaired text) :
    ∃ bytes, decode text = .ok bytes ∧ bytes.flatMap digits = text.map Char.toLower := by
  obtain ⟨heven, hdigits⟩ := h
  have hutf8 := utf8_of_lt fun c hc => toNat_lt_of_isDigit (hdigits c hc)
  have hlength : (utf8 text).length % 2 ≠ 1 := by
    rw [hutf8, List.length_map]
    omega
  rw [decode, if_neg hlength, hutf8]
  exact exists_decodePairs_eq (text.length / 2) 0 text (by omega) hdigits

/-- Every byte that is read is a digit. -/
theorem value?_ne_none_of_decodePairs {source bytes : Bytes} {position : Nat}
    (h : decodePairs position source = .ok bytes) : ∀ byte ∈ source, value? byte ≠ none := by
  fun_induction decodePairs position source generalizing bytes with
  -- a pair is read if both of its digits have values and the rest is read
  | case1 position high low rest ih =>
    cases hhigh : value? high with
    | none =>
      rw [valueAt, hhigh] at h
      cases h
    | some first =>
      cases hlow : value? low with
      | none =>
        rw [valueAt, valueAt, hhigh, hlow] at h
        cases h
      | some second =>
        cases hrest : decodePairs (position + 2) rest with
        | error fault =>
          rw [valueAt, valueAt, hhigh, hlow, hrest] at h
          cases h
        | ok bytes =>
          rw [List.forall_mem_cons, List.forall_mem_cons, hhigh, hlow]
          exact ⟨Option.some_ne_none _, Option.some_ne_none _, ih hrest⟩
  | case2 => cases h
  | case3 => exact List.forall_mem_nil _

/-- **Nothing else is read.** -/
theorem isPaired_of_decode {text : List Char} {bytes : Bytes} (h : decode text = .ok bytes) : IsPaired text := by
  rw [decode] at h
  split at h
  · cases h
  rename_i heven
  have hvalues := value?_ne_none_of_decodePairs h
  have hmem : ∀ c ∈ text, ∀ byte ∈ String.utf8EncodeChar c, byte ∈ utf8 text :=
    fun c hc byte hbyte => List.mem_flatMap.2 ⟨c, hc, hbyte⟩
  -- a wider character would have brought in a byte that is no digit
  have hascii : ∀ c ∈ text, c.toNat < 0x80 := by
    intro c hc
    by_contra hwide
    obtain ⟨byte, hbyte, hnone⟩ := exists_mem_value?_eq_none (Nat.le_of_not_lt hwide)
    exact hvalues byte (hmem c hc byte hbyte) hnone
  have hdigits : ∀ c ∈ text, isDigit c = true := by
    intro c hc
    have hbyte : UInt8.ofNat c.toNat ∈ String.utf8EncodeChar c := by
      rw [utf8EncodeChar_of_lt (hascii c hc)]
      exact List.mem_singleton_self _
    exact isDigit_of_value? (hascii c hc) (hvalues _ (hmem c hc _ hbyte))
  refine ⟨?_, hdigits⟩
  rw [utf8_of_lt hascii, List.length_map] at heven
  omega

/-! ## Spelling

That digits and bytes correspond is so far a statement about the two functions. `Spells` says it without
them, by places in the alphabet and powers of 16. -/

/-- The digits in the order of their values. -/
def alphabet : List Char :=
  ['0', '1', '2', '3', '4', '5', '6', '7', '8', '9', 'a', 'b', 'c', 'd', 'e', 'f']

/-- The text spells the bytes, two digits of either case for each. There is no text that spells two
different sequences, but one sequence has many spellings. -/
inductive Spells : List Char → Bytes → Prop where
  | nil : Spells [] []
  | pair {high low : Char} {first second : Nat} {text : List Char} {bytes : Bytes}
      (hfirst : alphabet[first]? = some high.toLower) (hsecond : alphabet[second]? = some low.toLower)
      (hrest : Spells text bytes) : Spells (high :: low :: text) (UInt8.ofNat (16 * first + second) :: bytes)

theorem alphabet_get : ∀ value : Fin 16, alphabet[value.val]? = some (digit (UInt8.ofNat value)) := by
  decide

/-- The alphabet has the digits that are written, and no other ones. -/
theorem exists_of_alphabet {value : Nat} {c : Char} (h : alphabet[value]? = some c) :
    ∃ place : Fin 16, place.val = value ∧ c = digit (UInt8.ofNat place) := by
  obtain ⟨hlt, -⟩ := List.getElem?_eq_some_iff.1 h
  refine ⟨⟨value, hlt⟩, rfl, ?_⟩
  exact Option.some.inj (h.symm.trans (alphabet_get ⟨value, hlt⟩))

theorem ofNat_halves : ∀ high low : Fin 16,
    UInt8.ofNat (16 * high + low) = ((UInt8.ofNat high <<< 4) ||| UInt8.ofNat low) := by
  decide +kernel

/-- **A text spells bytes** if it is their digits in either case. -/
theorem spells_iff {text : List Char} {bytes : Bytes} :
    Spells text bytes ↔ bytes.flatMap digits = text.map Char.toLower := by
  constructor
  · intro h
    induction h with
    | nil => rfl
    | pair hfirst hsecond _ ih =>
      obtain ⟨high, rfl, hhigh⟩ := exists_of_alphabet hfirst
      obtain ⟨low, rfl, hlow⟩ := exists_of_alphabet hsecond
      rw [List.flatMap_cons, ofNat_halves, digits_of_halves, ih, List.map_cons, List.map_cons, hhigh, hlow]
      rfl
  · intro h
    induction bytes generalizing text with
    | nil =>
      rw [List.map_eq_nil_iff.1 h.symm]
      exact .nil
    | cons byte rest ih =>
      obtain ⟨high, low, hdigits, rfl⟩ := exists_halves byte
      rw [List.flatMap_cons, hdigits] at h
      obtain ⟨c, tail, rfl, hc, htail⟩ := List.map_eq_cons_iff.1 h.symm
      obtain ⟨c', tail, rfl, hc', htail⟩ := List.map_eq_cons_iff.1 htail
      rw [← ofNat_halves]
      exact .pair ((alphabet_get high).trans (congrArg some hc.symm))
        ((alphabet_get low).trans (congrArg some hc'.symm)) (ih htail.symm)

/-- What is spelled has two digits for each byte. -/
theorem isPaired_of_spells {text : List Char} {bytes : Bytes} (h : Spells text bytes) : IsPaired text := by
  have hdigits := spells_iff.1 h
  constructor
  · have hlength := length_digits bytes
    rw [hdigits, List.length_map] at hlength
    omega
  · intro c hc
    refine isDigit_of_toLower (@isLowerDigit_of_mem_digits bytes c.toLower ?_)
    rw [hdigits]
    exact List.mem_map_of_mem hc

/-- Different bytes have different digits. -/
theorem digits_inj {first second : Bytes} (h : first.flatMap digits = second.flatMap digits) : first = second := by
  have hfirst := decode_digits first
  rw [h, decode_digits] at hfirst
  exact (Except.ok.inj hfirst).symm

/-- **What is read are the bytes that the text spells.** -/
theorem decode_eq_ok_iff {text : List Char} {bytes : Bytes} : decode text = .ok bytes ↔ Spells text bytes := by
  constructor
  · intro h
    obtain ⟨spelled, hspelled, hdigits⟩ := decode_of_isPaired (isPaired_of_decode h)
    obtain rfl : spelled = bytes := Except.ok.inj (hspelled.symm.trans h)
    exact spells_iff.2 hdigits
  · intro h
    obtain ⟨spelled, hspelled, hdigits⟩ := decode_of_isPaired (isPaired_of_spells h)
    rw [hspelled, digits_inj (hdigits.trans (spells_iff.1 h).symm)]

end Telegram.Hex
