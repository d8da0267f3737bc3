/-!
# Bit fields of a status word

Status and fault words are 32 bits wide, and their documentation counts from the most significant
end. Three views of the same word:

* `bit word p` is bit `p`, numbered from 1 at the top;
* `group word p width` is the `p`-th group of `width` bits, numbered from 1 at the top;
* `span word first last` is the bits from `first` up to but not including `last`, numbered from 0 at
  the top.

What does not lie inside the word reads as unset or 0. `setFlags` counts from the other end: name `i`
belongs to bit `i` from the bottom.
-/

namespace Telegram.BitField

/-- Bit `position` of the word, 1 being the most significant and 32 the least. -/
def bit (word position : UInt32) : Bool :=
  if 1 ≤ position ∧ position ≤ 32 then word &&& (1 <<< (32 - position)) ≠ 0 else false

/-- The low `width` bits set. -/
def mask (width : UInt32) : UInt32 :=
  if width = 32 then 0xFFFFFFFF else (1 <<< width) - 1

/-- Group `position` of `width` bits, groups numbered from 1 at the most significant end. -/
def group (word position width : UInt32) : UInt32 :=
  if width = 0 ∨ 32 < width ∨ position = 0 ∨ 32 < position.toNat * width.toNat then 0
  else (word >>> (32 - position * width)) &&& mask width

/-- The bits from `first` up to `last`, counted from 0 at the most significant end and moved to the
low end. -/
def span (word first last : UInt32) : UInt32 :=
  if last ≤ first ∨ 32 < last then 0 else (word <<< first) >>> (32 - (last - first))

/-- The names of the set bits among the low `count` bits, the highest bit first. `names[i]` describes
bit `i`. -/
def setFlags (names : List String) (word : UInt32) (count : Nat) : List String :=
  let named := (names.take (min count 32)).zipIdx
  (named.filter fun (_, i) => word &&& (1 <<< UInt32.ofNat i) ≠ 0).reverse.map Prod.fst

end Telegram.BitField
