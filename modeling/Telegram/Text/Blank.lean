/-!
# Blank characters

The characters with the Unicode property White_Space. `removeBlanks` deletes every one of them, so
that digits may be grouped by spaces and lines at will.
-/

namespace Telegram.Text

/-- The character is white space. -/
def isBlank (c : Char) : Bool :=
  let code := c.toNat
  (0x9 ≤ code && code ≤ 0xD) || code == 0x20 || code == 0x85 || code == 0xA0 || code == 0x1680 ||
    (0x2000 ≤ code && code ≤ 0x200A) || code == 0x2028 || code == 0x2029 || code == 0x202F ||
    code == 0x205F || code == 0x3000

/-- The characters that are not blank. -/
def removeBlanks (text : List Char) : List Char :=
  text.filter fun c => !isBlank c

end Telegram.Text
