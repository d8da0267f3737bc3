import Mathlib.Data.Nat.Basic
import Telegram.Text.Utf8

/-!
# Reading back what was written as UTF-8

`Text.units_utf8_append`: after the encoding of a text, the reader of UTF-8 has given back its characters,
none of them missing, and stands between characters again.

The reader takes one byte at a time, so this is one lemma about the first byte of a character for each
number of bytes (`Utf8State.start_two` and the like), one about the bytes that follow
(`Utf8State.step_inside`), and the arithmetic of putting the bits of a character together again
(`unitsFrom_two` and the like).

The reader is made for bytes that may be anything, and replaces what is no character. On the encoding of a
text it never has to: no byte is out of place, none is missing, and no character is said in more bytes
than it needs.
-/

namespace Telegram.Text

namespace Utf8State

theorem toNat_ofNat_of_lt {n : Nat} (h : n < 256) : (UInt8.ofNat n).toNat = n := by
  rw [UInt8.toNat_ofNat', Nat.mod_eq_of_lt h]

/-- A byte below 0x80 is a character by itself. -/
theorem start_one {n : Nat} (h : n < 0x80) :
    start (UInt8.ofNat n) = ([some (Char.ofNat n)], .between) := by
  have hn : (UInt8.ofNat n).toNat = n := toNat_ofNat_of_lt (by omega)
  simp only [start, UInt8.lt_iff_toNat_lt, hn, UInt8.reduceToNat]
  rw [if_pos h]

/-- The first of two bytes, with the high bits of a character above 0x7F. -/
theorem start_two {n : Nat} (hlow : 2 ≤ n) (hhigh : n < 0x20) :
    start (UInt8.ofNat (n + 0xC0)) = ([], .inside n 0 0x80 0xBF) := by
  have hn : (UInt8.ofNat (n + 0xC0)).toNat = n + 0xC0 := toNat_ofNat_of_lt (by omega)
  simp only [start, UInt8.lt_iff_toNat_lt, hn, UInt8.reduceToNat]
  rw [if_neg (by omega), if_neg (by omega), if_pos (by omega)]
  have hbits : (n + 0xC0) % 32 = n := by omega
  rw [hbits]

/-- Where the second of three or four bytes begins: the first byte rules out what could be said in fewer
bytes, and what is no character. -/
theorem start_three {n : Nat} (h : n < 0x10) :
    start (UInt8.ofNat (n + 0xE0)) =
      ([], .inside n 1 (if n = 0 then 0xA0 else 0x80) (if n = 0xD then 0x9F else 0xBF)) := by
  have hn : (UInt8.ofNat (n + 0xE0)).toNat = n + 0xE0 := toNat_ofNat_of_lt (by omega)
  have hbits : (n + 0xE0) % 16 = n := by omega
  simp only [start, UInt8.lt_iff_toNat_lt, ← UInt8.toNat_inj, hn, UInt8.reduceToNat, hbits]
  rw [if_neg (by omega), if_neg (by omega), if_neg (by omega)]
  by_cases hzero : n = 0
  · subst hzero
    rfl
  · rw [if_neg (by omega), if_neg hzero]
    by_cases hd : n = 0xD
    · subst hd
      rfl
    · rw [if_neg (by omega), if_pos (by omega), if_neg hd]

/-- The same for four bytes: the first rules out what three could say, and numbers beyond the last
character. -/
theorem start_four {n : Nat} (h : n ≤ 4) :
    start (UInt8.ofNat (n + 0xF0)) =
      ([], .inside n 2 (if n = 0 then 0x90 else 0x80) (if n = 4 then 0x8F else 0xBF)) := by
  have hn : (UInt8.ofNat (n + 0xF0)).toNat = n + 0xF0 := toNat_ofNat_of_lt (by omega)
  have hbits : (n + 0xF0) % 8 = n := by omega
  simp only [start, UInt8.lt_iff_toNat_lt, ← UInt8.toNat_inj, hn, UInt8.reduceToNat, hbits]
  rw [if_neg (by omega), if_neg (by omega), if_neg (by omega), if_neg (by omega), if_neg (by omega),
    if_neg (by omega)]
  by_cases hzero : n = 0
  · subst hzero
    rfl
  · rw [if_neg (by omega), if_neg hzero]
    by_cases hfour : n = 4
    · subst hfour
      rfl
    · rw [if_pos (by omega), if_neg hfour]

/-- A byte that continues a character adds six bits to it. -/
theorem step_inside {bits more n : Nat} {low high : UInt8} (hn : n < 0x40)
    (hlow : low.toNat ≤ n + 0x80) (hhigh : n + 0x80 ≤ high.toNat) :
    step (UInt8.ofNat (n + 0x80)) (.inside bits more low high) =
      match more with
      | 0 => ([some (Char.ofNat (bits * 64 + n))], .between)
      | more + 1 => ([], .inside (bits * 64 + n) more 0x80 0xBF) := by
  have hbyte : (UInt8.ofNat (n + 0x80)).toNat = n + 0x80 := toNat_ofNat_of_lt (by omega)
  have hbits : (n + 0x80) % 64 = n := by omega
  simp only [step, UInt8.le_iff_toNat_le, hbyte, hbits]
  refine (if_pos ⟨hlow, hhigh⟩).trans ?_
  cases more <;> rfl

end Utf8State

/-! ## Characters and texts

A character has two, three or four bytes by the size of its number. The reader keeps bounds for the second
byte, which is where numbers that are too small, too large or those of surrogates show. -/

theorem unitsFrom_cons (state : Utf8State) (byte : UInt8) (rest : Bytes) :
    unitsFrom state (byte :: rest) = (state.step byte).1 ++ unitsFrom (state.step byte).2 rest := by
  cases state <;> rfl

/-- The numbers of characters leave out the surrogates. -/
theorem toNat_char_valid (c : Char) : c.toNat < 0xD800 ∨ 0xDFFF < c.toNat ∧ c.toNat < 0x110000 :=
  c.valid

/-- Two bytes with five and six bits. -/
theorem unitsFrom_two {n : Nat} (hlow : 0x80 ≤ n) (hhigh : n < 0x800) (rest : Bytes) :
    unitsFrom .between (UInt8.ofNat (n / 64 % 0x20 + 0xC0) :: UInt8.ofNat (n % 0x40 + 0x80) :: rest) =
      some (Char.ofNat n) :: unitsFrom .between rest := by
  have hbits : n / 64 % 0x20 * 64 + n % 0x40 = n := by omega
  rw [unitsFrom_cons, Utf8State.step, Utf8State.start_two (by omega) (by omega), unitsFrom_cons,
    Utf8State.step_inside (by omega) (by simp) (by simp; omega), hbits]
  rfl

/-- Three bytes with four, six and six bits. -/
theorem unitsFrom_three {n : Nat} (hlow : 0x800 ≤ n) (hhigh : n < 0x10000)
    (hvalid : n < 0xD800 ∨ 0xDFFF < n) (rest : Bytes) :
    unitsFrom .between (UInt8.ofNat (n / 4096 % 0x10 + 0xE0) :: UInt8.ofNat (n / 64 % 0x40 + 0x80) ::
      UInt8.ofNat (n % 0x40 + 0x80) :: rest) = some (Char.ofNat n) :: unitsFrom .between rest := by
  -- the second byte is not too low, as the character needs three, nor too high, as it is no surrogate
  have hsecond : (if n / 4096 % 0x10 = 0 then (0xA0 : UInt8) else 0x80).toNat ≤
      n / 64 % 0x40 + 0x80 := by
    split
    · simp
      omega
    · simp
  have hsecond' : n / 64 % 0x40 + 0x80 ≤
      (if n / 4096 % 0x10 = 0xD then (0x9F : UInt8) else 0xBF).toNat := by
    split <;> (simp; omega)
  have hbits : (n / 4096 % 0x10 * 64 + n / 64 % 0x40) * 64 + n % 0x40 = n := by omega
  rw [unitsFrom_cons, Utf8State.step, Utf8State.start_three (by omega), unitsFrom_cons,
    Utf8State.step_inside (by omega) hsecond hsecond', unitsFrom_cons,
    Utf8State.step_inside (by omega) (by simp) (by simp; omega), hbits]
  rfl

/-- Four bytes with three, six, six and six bits. -/
theorem unitsFrom_four {n : Nat} (hlow : 0x10000 ≤ n) (hhigh : n < 0x110000) (rest : Bytes) :
    unitsFrom .between (UInt8.ofNat (n / 262144 % 0x08 + 0xF0) ::
      UInt8.ofNat (n / 4096 % 0x40 + 0x80) :: UInt8.ofNat (n / 64 % 0x40 + 0x80) ::
      UInt8.ofNat (n % 0x40 + 0x80) :: rest) = some (Char.ofNat n) :: unitsFrom .between rest := by
  -- not too low, as the character needs four bytes, nor too high, as it is one
  have hsecond : (if n / 262144 % 0x08 = 0 then (0x90 : UInt8) else 0x80).toNat ≤
      n / 4096 % 0x40 + 0x80 := by
    split
    · simp
      omega
    · simp
  have hsecond' : n / 4096 % 0x40 + 0x80 ≤
      (if n / 262144 % 0x08 = 4 then (0x8F : UInt8) else 0xBF).toNat := by
    split <;> (simp; omega)
  have hbits : ((n / 262144 % 0x08 * 64 + n / 4096 % 0x40) * 64 + n / 64 % 0x40) * 64 + n % 0x40 = n := by
    omega
  rw [unitsFrom_cons, Utf8State.step, Utf8State.start_four (by omega), unitsFrom_cons,
    Utf8State.step_inside (by omega) hsecond hsecond', unitsFrom_cons,
    Utf8State.step_inside (by omega) (by simp) (by simp; omega), unitsFrom_cons,
    Utf8State.step_inside (by omega) (by simp) (by simp; omega), hbits]
  rfl

/-- **One character is read back**, and the reader stands between characters after it. -/
theorem unitsFrom_utf8EncodeChar (c : Char) (rest : Bytes) :
    unitsFrom .between (String.utf8EncodeChar c ++ rest) = some c :: unitsFrom .between rest := by
  have hvalid := toNat_char_valid c
  -- the number of a character gives the character back
  have hback : Char.ofNat c.toNat = c := Char.ofNat_toNat c
  have hval : c.val.toNat = c.toNat := rfl
  simp only [String.utf8EncodeChar, hval]
  split
  · rw [List.singleton_append, unitsFrom_cons, Utf8State.step, Utf8State.start_one (by omega), hback]
    rfl
  split
  · have hread := unitsFrom_two (n := c.toNat) (by omega) (by omega) rest
    rwa [hback] at hread
  split
  · have hread := unitsFrom_three (n := c.toNat) (by omega) (by omega) (by omega) rest
    rwa [hback] at hread
  · have hread := unitsFrom_four (n := c.toNat) (by omega) (by omega) rest
    rwa [hback] at hread

/-- **A text is read back**, whatever follows it. -/
theorem units_utf8_append (text : List Char) (rest : Bytes) :
    units (utf8 text ++ rest) = text.map some ++ units rest := by
  induction text with
  | nil => rfl
  | cons c text ih =>
    rw [utf8, List.flatMap_cons, List.append_assoc, units, unitsFrom_utf8EncodeChar, List.map_cons,
      List.cons_append, ← ih]
    rfl

/-- Nothing is lost of a text, as every unit of it is a character. -/
theorem fromUtf8Lossy_utf8_append (text : List Char) (rest : Bytes) :
    fromUtf8Lossy (utf8 text ++ rest) = text ++ fromUtf8Lossy rest := by
  rw [fromUtf8Lossy, units_utf8_append, List.map_append, List.map_map]
  congr 1
  exact List.map_id'' (fun _ => rfl) text

/-- A character below 0x80 is one byte. -/
theorem utf8EncodeChar_of_lt {c : Char} (h : c.toNat < 0x80) :
    String.utf8EncodeChar c = [UInt8.ofNat c.toNat] := by
  have hle : c.val.toNat ≤ 0x7F := Nat.le_of_lt_succ h
  simp only [String.utf8EncodeChar, if_pos hle]
  rfl

/-- A text of such characters has a byte for each of them. -/
theorem utf8_of_lt {text : List Char} (h : ∀ c ∈ text, c.toNat < 0x80) :
    utf8 text = text.map fun c => UInt8.ofNat c.toNat := by
  induction text with
  | nil => rfl
  | cons c text ih =>
    rw [List.forall_mem_cons] at h
    rw [utf8, List.flatMap_cons, utf8EncodeChar_of_lt h.1, List.map_cons, ← ih h.2]
    rfl

theorem utf8_append (text more : List Char) : utf8 (text ++ more) = utf8 text ++ utf8 more :=
  List.flatMap_append

theorem toNat_ofNat_toNat (byte : UInt8) : (Char.ofNat byte.toNat).toNat = byte.toNat := by
  have hlt : byte.toNat < 256 := byte.toNat_lt
  have hvalid : byte.toNat.isValidChar := .inl (by omega)
  rw [Char.ofNat, dif_pos hvalid]
  rfl

/-- Bytes below 0x80 are the encoding of characters of the same numbers. -/
theorem utf8_replicate {byte : UInt8} (h : byte < 0x80) (count : Nat) :
    utf8 (List.replicate count (Char.ofNat byte.toNat)) = List.replicate count byte := by
  have hlt : (Char.ofNat byte.toNat).toNat < 0x80 := by
    rw [toNat_ofNat_toNat]
    exact UInt8.lt_iff_toNat_lt.1 h
  rw [utf8_of_lt fun c hc => (List.eq_of_mem_replicate hc) ▸ hlt, List.map_replicate, toNat_ofNat_toNat,
    UInt8.ofNat_toNat]

end Telegram.Text
