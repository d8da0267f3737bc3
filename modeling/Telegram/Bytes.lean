/-!
# Bytes on the wire

A buffer is a list of bytes. Three small operations are shared by everything that reads or writes
one:

* `isShorter` asks whether fewer than `n` bytes are buffered and looks at no more than `n` of them
  (`isShorter_iff`);
* `split?` takes exactly `n` bytes off the front, or nothing at all (`split?_eq_some_iff`);
* `pad` appends copies of a fill byte.
-/

namespace Telegram

/-- A run of bytes, the first one first. -/
abbrev Bytes := List UInt8

namespace Bytes

/-- Fewer than `n` bytes are left. Only the first `n` bytes are looked at, so the test is cheap on a
long buffer. -/
def isShorter : Bytes → Nat → Bool
  | _, 0 => false
  | [], _ + 1 => true
  | _ :: rest, n + 1 => isShorter rest n

theorem isShorter_iff (bytes : Bytes) (n : Nat) :
    bytes.isShorter n = true ↔ bytes.length < n := by
  induction bytes generalizing n with
  | nil => cases n <;> simp [isShorter]
  | cons b rest ih => cases n <;> simp [isShorter, ih]

/-- The first `n` bytes and what follows them, if there are that many. -/
def split? (bytes : Bytes) (n : Nat) : Option (Bytes × Bytes) :=
  if bytes.isShorter n then none else some (bytes.take n, bytes.drop n)

theorem split?_eq_some_iff (bytes : Bytes) (n : Nat) (front rest : Bytes) :
    bytes.split? n = some (front, rest) ↔ bytes = front ++ rest ∧ front.length = n := by
  have hs := isShorter_iff bytes n
  rw [split?]
  split
  · rename_i h
    have hlt := hs.1 h
    simp only [reduceCtorEq, false_iff, not_and]
    rintro rfl rfl
    rw [List.length_append] at hlt
    omega
  · rename_i h
    have hle : n ≤ bytes.length := Nat.le_of_not_lt fun hlt => h (hs.2 hlt)
    simp only [Option.some.injEq, Prod.mk.injEq]
    constructor
    · rintro ⟨rfl, rfl⟩
      exact ⟨(List.take_append_drop n bytes).symm, by simp [hle]⟩
    · rintro ⟨rfl, rfl⟩
      simp

/-- The bytes followed by `count` copies of `fill`. -/
def pad (bytes : Bytes) (count : Nat) (fill : UInt8) : Bytes :=
  bytes ++ List.replicate count fill

@[simp] theorem length_pad (bytes : Bytes) (count : Nat) (fill : UInt8) :
    (bytes.pad count fill).length = bytes.length + count := by
  simp [pad]

end Bytes

end Telegram
