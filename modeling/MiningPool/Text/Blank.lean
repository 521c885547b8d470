/-
Module: MiningPool.Text.Blank
Purpose: white space in the sense of the Unicode standard.
Main exports: isBlank
-/

/-!
White space is more than what is typed with a space bar: the separators of lines and paragraphs and the
spaces of other widths belong to it.
-/

namespace MiningPool.Text

/-- The Unicode property White_Space. -/
def isBlank (c : Char) : Bool :=
  let code := c.toNat
  (0x09 ≤ code && code ≤ 0x0D) || code == 0x20 || code == 0x85 || code == 0xA0 || code == 0x1680 ||
    (0x2000 ≤ code && code ≤ 0x200A) || code == 0x2028 || code == 0x2029 || code == 0x202F ||
    code == 0x205F || code == 0x3000

end MiningPool.Text
