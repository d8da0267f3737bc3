import Mathlib.Data.List.Basic
import Mathlib.Data.Nat.Bitwise
import Telegram.Checksum.Sums
import Telegram.Proofs.ByteOrder

/-!
# Words in either order

The checksum of whole words is a fold over a buffer of which the last bytes may be left over.

* `foldWords_eq_foldl`: it is the exclusive or of all words that lie in the buffer as a whole, word `i`
  starting at byte `4 * i`. `takeWords` is the loop that takes them off the buffer, and what it leaves
  there is `unread` (`takeWords_eq`), the last bytes (`unread_eq_drop`).
* `words_append`: the words of two buffers count together if the first one ends with a whole word. The
  start value is counted twice then, and is taken out again.
* `words_big`: in the other byte order every word has its bytes swapped, and so has the checksum, as
  swapping is linear (`swapBytes_xor`). This is seen on the four bytes of a word, which are combined one
  by one.

A buffer either holds no whole word or starts with one, and all inductions here follow that
(`words_induction`).
-/

namespace Telegram.Checksum

/-! ## Words and their bytes

A word is looked at as its four bytes. Both byte orders read the same bytes, and an exclusive or acts on
each of them by itself, so what is linear for words is seen on bytes. -/

/-- The word that four bytes spell. -/
def ofBytes (order : ByteOrder) (bytes : Bytes) : UInt32 :=
  UInt32.ofNat (order.decode bytes)

/-- The word with its four bytes in the opposite order. -/
def swapBytes (word : UInt32) : UInt32 :=
  ofBytes .big (ByteOrder.little.encode 4 word.toNat)

theorem toNat_ofBytes (order : ByteOrder) {bytes : Bytes} (h : bytes.length = 4) :
    (ofBytes order bytes).toNat = order.decode bytes := by
  have hlt := order.decode_lt bytes
  rw [h] at hlt
  exact UInt32.toNat_ofNat_of_lt' hlt

theorem exists_ofBytes (order : ByteOrder) (word : UInt32) :
    ∃ bytes : Bytes, bytes.length = 4 ∧ ofBytes order bytes = word := by
  refine ⟨order.encode 4 word.toNat, order.length_encode 4 _, ?_⟩
  have hlt : word.toNat < 256 ^ 4 := word.toNat_lt
  rw [ofBytes, order.decode_encode, Nat.mod_eq_of_lt hlt, UInt32.ofNat_toNat]

theorem ofBytes_zipWith_xor (order : ByteOrder) {first second : Bytes} (hfirst : first.length = 4)
    (hsecond : second.length = 4) :
    ofBytes order (List.zipWith (· ^^^ ·) first second) = ofBytes order first ^^^ ofBytes order second := by
  have hlength : (List.zipWith (· ^^^ ·) first second).length = 4 := by
    rw [List.length_zipWith, hfirst, hsecond, Nat.min_self]
  rw [← UInt32.toNat_inj, UInt32.toNat_xor, toNat_ofBytes order hlength, toNat_ofBytes order hfirst,
    toNat_ofBytes order hsecond, order.decode_zipWith_xor (hfirst.trans hsecond.symm)]

/-- **Swapping turns one reading of four bytes into the other.** -/
theorem swapBytes_ofBytes {bytes : Bytes} (h : bytes.length = 4) :
    swapBytes (ofBytes .little bytes) = ofBytes .big bytes := by
  rw [swapBytes, toNat_ofBytes .little h, ← h, ByteOrder.encode_decode]

example : swapBytes 0x01020304 = 0x04030201 := by
  decide

/-- **Swapping is linear.** -/
theorem swapBytes_xor (first second : UInt32) :
    swapBytes (first ^^^ second) = swapBytes first ^^^ swapBytes second := by
  obtain ⟨front, hfront, rfl⟩ := exists_ofBytes .little first
  obtain ⟨back, hback, rfl⟩ := exists_ofBytes .little second
  have hlength : (List.zipWith (· ^^^ ·) front back).length = 4 := by
    rw [List.length_zipWith, hfront, hback, Nat.min_self]
  rw [← ofBytes_zipWith_xor .little hfront hback, swapBytes_ofBytes hlength, ofBytes_zipWith_xor .big hfront hback,
    swapBytes_ofBytes hfront, swapBytes_ofBytes hback]

/-! ## The fold

The fold and the loop look at the same words in the same order. What is in the register when it starts
makes no difference but that it is in the result once. -/

variable (order : ByteOrder)

theorem foldWords_cons (accumulator : UInt32) (a b c d : UInt8) (rest : Bytes) :
    foldWords order accumulator (a :: b :: c :: d :: rest) =
      foldWords order (accumulator ^^^ ofBytes order [a, b, c, d]) rest := by
  rw [foldWords, ofBytes]

theorem foldWords_of_short {bytes : Bytes} (h : bytes.length < 4) (accumulator : UInt32) :
    foldWords order accumulator bytes = accumulator := by
  match bytes, h with
  | [], _ | [_], _ | [_, _], _ | [_, _, _], _ => rfl

/-- A fold over words goes through the buffer four bytes at a time. -/
theorem words_induction {motive : Bytes → Prop} (short : ∀ bytes : Bytes, bytes.length < 4 → motive bytes)
    (word : ∀ a b c d rest, motive rest → motive (a :: b :: c :: d :: rest)) (bytes : Bytes) : motive bytes := by
  induction bytes using unread.induct with
  | case1 a b c d rest ih => exact word a b c d rest ih
  | case2 bytes hshort =>
    refine short bytes (Nat.lt_of_not_le fun hle => ?_)
    match bytes, hle with
    | a :: b :: c :: d :: rest, _ => exact hshort a b c d rest rfl

theorem foldWords_append {bytes : Bytes} (h : 4 ∣ bytes.length) (accumulator : UInt32) (rest : Bytes) :
    foldWords order accumulator (bytes ++ rest) = foldWords order (foldWords order accumulator bytes) rest := by
  induction bytes using words_induction generalizing accumulator with
  | short bytes hshort =>
    have hnil : bytes = [] := List.length_eq_zero_iff.1 (Nat.eq_zero_of_dvd_of_lt h hshort)
    rw [hnil]
    rfl
  | word a b c d bytes ih =>
    have hrest : 4 ∣ bytes.length := (Nat.dvd_add_iff_left (Nat.dvd_refl 4)).2 h
    simp only [List.cons_append, foldWords_cons]
    exact ih hrest _

/-- The start value is counted once. -/
theorem foldWords_eq_xor (accumulator : UInt32) (bytes : Bytes) :
    foldWords order accumulator bytes = accumulator ^^^ foldWords order 0 bytes := by
  induction bytes using words_induction generalizing accumulator with
  | short bytes hshort => rw [foldWords_of_short order hshort, foldWords_of_short order hshort, UInt32.xor_zero]
  | word a b c d rest ih =>
    rw [foldWords_cons, foldWords_cons, ih, ih (0 ^^^ _), UInt32.zero_xor, UInt32.xor_assoc]

theorem foldWords_big (accumulator : UInt32) (bytes : Bytes) :
    foldWords .big (swapBytes accumulator) bytes = swapBytes (foldWords .little accumulator bytes) := by
  induction bytes using words_induction generalizing accumulator with
  | short bytes hshort => rw [foldWords_of_short .big hshort, foldWords_of_short .little hshort]
  | word a b c d rest ih => rw [foldWords_cons, foldWords_cons, ← ih, swapBytes_xor, swapBytes_ofBytes rfl]

/-- A word in front is one word more. -/
theorem length_cons_div (a b c d : UInt8) (rest : Bytes) :
    (a :: b :: c :: d :: rest).length / 4 = rest.length / 4 + 1 :=
  Nat.add_div_right rest.length (Nat.zero_lt_succ 3)

theorem foldWords_eq_foldl (accumulator : UInt32) (bytes : Bytes) :
    foldWords order accumulator bytes = (List.range (bytes.length / 4)).foldl
      (fun total i => total ^^^ ofBytes order ((bytes.drop (4 * i)).take 4)) accumulator := by
  induction bytes using words_induction generalizing accumulator with
  | short bytes hshort =>
    rw [foldWords_of_short order hshort, Nat.div_eq_of_lt hshort]
    rfl
  | word a b c d rest ih =>
    rw [foldWords_cons, ih, length_cons_div, List.range_succ_eq_map, List.foldl_cons, List.foldl_map]
    rfl

/-! ## What is left over

At most three bytes are left over, and no checksum depends on them. -/

theorem unread_eq_drop (bytes : Bytes) : unread bytes = bytes.drop (4 * (bytes.length / 4)) := by
  induction bytes using words_induction with
  | short bytes hshort =>
    rw [Nat.div_eq_of_lt hshort]
    match bytes, hshort with
    | [], _ | [_], _ | [_, _], _ | [_, _, _], _ => rfl
  | word a b c d rest ih =>
    rw [unread, ih, length_cons_div]
    rfl

theorem length_unread (bytes : Bytes) : (unread bytes).length = bytes.length % 4 := by
  rw [unread_eq_drop, List.length_drop]
  omega

/-- Takes whole words off the front of a buffer, as long as there are any, and returns what is left of
it. -/
def takeWords (accumulator : UInt32) (buffer : Bytes) : UInt32 × Bytes :=
  if 4 ≤ buffer.length then takeWords (accumulator ^^^ ofBytes order (buffer.take 4)) (buffer.drop 4)
  else (accumulator, buffer)
termination_by buffer.length

/-- **What the loop leaves in the buffer** is what the fold does not look at. -/
theorem takeWords_eq (accumulator : UInt32) (buffer : Bytes) :
    takeWords order accumulator buffer = (foldWords order accumulator buffer, unread buffer) := by
  induction buffer using words_induction generalizing accumulator with
  | short bytes hshort =>
    rw [takeWords, if_neg (Nat.not_le.2 hshort), foldWords_of_short order hshort, unread_eq_drop,
      Nat.div_eq_of_lt hshort]
    rfl
  | word a b c d rest ih =>
    rw [takeWords, if_pos (by simp), foldWords_cons, unread]
    exact ih _

/-! ## Both orders

Nothing but linearity and the start value is needed here. The start value has four equal bytes, so it is
the same in both orders. -/

theorem words_append {bytes : Bytes} (h : 4 ∣ bytes.length) (rest : Bytes) :
    words order (bytes ++ rest) = words order bytes ^^^ words order rest ^^^ 0xFFFFFFFF := by
  have hrest : foldWords order 0 rest = words order rest ^^^ 0xFFFFFFFF := by
    rw [words, foldWords_eq_xor order 0xFFFFFFFF, UInt32.xor_comm 0xFFFFFFFF, UInt32.xor_assoc, UInt32.xor_self,
      UInt32.xor_zero]
  calc words order (bytes ++ rest)
    _ = foldWords order (words order bytes) rest := foldWords_append order h 0xFFFFFFFF rest
    _ = words order bytes ^^^ foldWords order 0 rest := foldWords_eq_xor order _ rest
    _ = words order bytes ^^^ words order rest ^^^ 0xFFFFFFFF := by rw [hrest, UInt32.xor_assoc]

theorem words_take (bytes : Bytes) : words order (bytes.take (4 * (bytes.length / 4))) = words order bytes := by
  have hwhole : 4 ∣ (bytes.take (4 * (bytes.length / 4))).length := by
    rw [List.length_take_of_le (Nat.mul_div_le _ _)]
    exact Nat.dvd_mul_right _ _
  have hshort : (unread bytes).length < 4 := length_unread bytes ▸ Nat.mod_lt _ (by decide)
  have hparts := foldWords_append order hwhole 0xFFFFFFFF (unread bytes)
  rw [foldWords_of_short order hshort, unread_eq_drop, List.take_append_drop] at hparts
  exact hparts.symm

theorem words_big (bytes : Bytes) : words .big bytes = swapBytes (words .little bytes) := by
  have hones : swapBytes 0xFFFFFFFF = 0xFFFFFFFF := by decide
  rw [words, words, ← foldWords_big, hones]

/-- **Checksums of words, in both byte orders.** They are the same up to the order of their bytes. All
whole words count, and only these: the loop leaves the last bytes in the buffer, and the checksum does not
depend on them. Behind whole words the checksum goes on as from the start. -/
theorem words_in_both_orders (bytes : Bytes) :
    words .big bytes = swapBytes (words .little bytes) ∧ ∀ order : ByteOrder,
      takeWords order 0xFFFFFFFF bytes = (words order bytes, unread bytes) ∧
      unread bytes = bytes.drop (4 * (bytes.length / 4)) ∧ (unread bytes).length = bytes.length % 4 ∧
      words order bytes = (List.range (bytes.length / 4)).foldl
        (fun total i => total ^^^ ofBytes order ((bytes.drop (4 * i)).take 4)) 0xFFFFFFFF ∧
      words order bytes = words order (bytes.take (4 * (bytes.length / 4))) ∧
      ∀ rest, 4 ∣ bytes.length →
        words order (bytes ++ rest) = words order bytes ^^^ words order rest ^^^ 0xFFFFFFFF := by
  exact ⟨words_big bytes, fun order => ⟨takeWords_eq order 0xFFFFFFFF bytes, unread_eq_drop bytes,
    length_unread bytes, foldWords_eq_foldl order 0xFFFFFFFF bytes, (words_take order bytes).symm,
    fun rest h => words_append order h rest⟩⟩

/-- Two words, and three bytes that are left over. -/
theorem words_in_both_orders_of_eleven_bytes :
    words .big [1, 0, 0, 0, 2, 3, 4, 5, 6, 7, 8] = swapBytes (words .little [1, 0, 0, 0, 2, 3, 4, 5, 6, 7, 8]) ∧
      (takeWords .little 0xFFFFFFFF [1, 0, 0, 0, 2, 3, 4, 5, 6, 7, 8]).2 = [6, 7, 8] ∧
      words .big ([1, 0, 0, 0] ++ [2, 3, 4, 5, 6, 7, 8]) =
        words .big [1, 0, 0, 0] ^^^ words .big [2, 3, 4, 5, 6, 7, 8] ^^^ 0xFFFFFFFF := by
  obtain ⟨hswap, hread⟩ := words_in_both_orders [1, 0, 0, 0, 2, 3, 4, 5, 6, 7, 8]
  obtain ⟨-, hword⟩ := words_in_both_orders [1, 0, 0, 0]
  refine ⟨hswap, ?_, (hword .big).2.2.2.2.2 [2, 3, 4, 5, 6, 7, 8] (by decide)⟩
  rw [(hread .little).1]
  rfl

end Telegram.Checksum
