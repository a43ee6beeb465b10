/-
**The characters that have two cases.**

A name is made of the characters whose upper and lower case forms differ.  The forms are the full
ones of the Unicode Character Database, version 17, without regard to language or context, so a
letter in title case has two cases, a circled letter and a Roman numeral have, and a letter of a
script without case has not.

Main definitions:

* `Scriptlet.CodeRanges` — a set of characters, as increasing ranges of code points;
* `Scriptlet.casedRanges` — the characters with two cases;
* `Scriptlet.isCased` — **whether a character has two cases**.

Main results:

* `Scriptlet.isCased_of_isAlpha` — every ASCII letter has two cases;
* `Scriptlet.isCased_eq_isAlpha` — no other ASCII character has.
-/

set_option relaxedAutoImplicit false
set_option autoImplicit false

namespace Scriptlet

/-! ### Ranges of code points -/

/-- A set of characters: increasing, disjoint ranges of code points, both ends included. -/
abbrev CodeRanges := List (Nat × Nat)

/-- Whether a code point lies in one of the ranges; the search ends at the first range that starts
behind it. -/
def CodeRanges.contains : CodeRanges → Nat → Bool
  | [], _ => false
  | (first, last) :: ranges, n =>
      if n < first then false else n ≤ last || CodeRanges.contains ranges n

/-! ### Case -/

/-- The characters whose upper and lower case forms differ. -/
def casedRanges : CodeRanges :=
  [(0x0041, 0x005a), (0x0061, 0x007a), (0x00b5, 0x00b5), (0x00c0, 0x00d6), (0x00d8, 0x00f6),
    (0x00f8, 0x0137), (0x0139, 0x018c), (0x018e, 0x01a9), (0x01ac, 0x01b9), (0x01bc, 0x01bd),
    (0x01bf, 0x01bf), (0x01c4, 0x0220), (0x0222, 0x0233), (0x023a, 0x0254), (0x0256, 0x0257),
    (0x0259, 0x0259), (0x025b, 0x025c), (0x0260, 0x0261), (0x0263, 0x0266), (0x0268, 0x026c),
    (0x026f, 0x026f), (0x0271, 0x0272), (0x0275, 0x0275), (0x027d, 0x027d), (0x0280, 0x0280),
    (0x0282, 0x0283), (0x0287, 0x028c), (0x0292, 0x0292), (0x029d, 0x029e), (0x0345, 0x0345),
    (0x0370, 0x0373), (0x0376, 0x0377), (0x037b, 0x037d), (0x037f, 0x037f), (0x0386, 0x0386),
    (0x0388, 0x038a), (0x038c, 0x038c), (0x038e, 0x03a1), (0x03a3, 0x03d1), (0x03d5, 0x03f5),
    (0x03f7, 0x03fb), (0x03fd, 0x0481), (0x048a, 0x052f), (0x0531, 0x0556), (0x0561, 0x0587),
    (0x10a0, 0x10c5), (0x10c7, 0x10c7), (0x10cd, 0x10cd), (0x10d0, 0x10fa), (0x10fd, 0x10ff),
    (0x13a0, 0x13f5), (0x13f8, 0x13fd), (0x1c80, 0x1c8a), (0x1c90, 0x1cba), (0x1cbd, 0x1cbf),
    (0x1d79, 0x1d79), (0x1d7d, 0x1d7d), (0x1d8e, 0x1d8e), (0x1e00, 0x1e9b), (0x1e9e, 0x1e9e),
    (0x1ea0, 0x1f15), (0x1f18, 0x1f1d), (0x1f20, 0x1f45), (0x1f48, 0x1f4d), (0x1f50, 0x1f57),
    (0x1f59, 0x1f59), (0x1f5b, 0x1f5b), (0x1f5d, 0x1f5d), (0x1f5f, 0x1f7d), (0x1f80, 0x1fb4),
    (0x1fb6, 0x1fbc), (0x1fbe, 0x1fbe), (0x1fc2, 0x1fc4), (0x1fc6, 0x1fcc), (0x1fd0, 0x1fd3),
    (0x1fd6, 0x1fdb), (0x1fe0, 0x1fec), (0x1ff2, 0x1ff4), (0x1ff6, 0x1ffc), (0x2126, 0x2126),
    (0x212a, 0x212b), (0x2132, 0x2132), (0x214e, 0x214e), (0x2160, 0x217f), (0x2183, 0x2184),
    (0x24b6, 0x24e9), (0x2c00, 0x2c70), (0x2c72, 0x2c73), (0x2c75, 0x2c76), (0x2c7e, 0x2ce3),
    (0x2ceb, 0x2cee), (0x2cf2, 0x2cf3), (0x2d00, 0x2d25), (0x2d27, 0x2d27), (0x2d2d, 0x2d2d),
    (0xa640, 0xa66d), (0xa680, 0xa69b), (0xa722, 0xa72f), (0xa732, 0xa76f), (0xa779, 0xa787),
    (0xa78b, 0xa78d), (0xa790, 0xa794), (0xa796, 0xa7ae), (0xa7b0, 0xa7dc), (0xa7f5, 0xa7f6),
    (0xab53, 0xab53), (0xab70, 0xabbf), (0xfb00, 0xfb06), (0xfb13, 0xfb17), (0xff21, 0xff3a),
    (0xff41, 0xff5a), (0x10400, 0x1044f), (0x104b0, 0x104d3), (0x104d8, 0x104fb),
    (0x10570, 0x1057a), (0x1057c, 0x1058a), (0x1058c, 0x10592), (0x10594, 0x10595),
    (0x10597, 0x105a1), (0x105a3, 0x105b1), (0x105b3, 0x105b9), (0x105bb, 0x105bc),
    (0x10c80, 0x10cb2), (0x10cc0, 0x10cf2), (0x10d50, 0x10d65), (0x10d70, 0x10d85),
    (0x118a0, 0x118df), (0x16e40, 0x16e7f), (0x16ea0, 0x16eb8), (0x16ebb, 0x16ed3),
    (0x1e900, 0x1e943)]

/-- **Whether a character has two cases**, that is, whether names may be made of it. -/
def isCased (c : Char) : Bool := casedRanges.contains c.toNat

/-- Of the ASCII characters exactly the letters have two cases. -/
theorem isCased_eq_isAlpha (c : Char) (h : c.toNat < 128) : isCased c = c.isAlpha := by
  have table : ∀ n : Fin 128, isCased (Char.ofNat n) = (Char.ofNat n).isAlpha := by decide
  have := table ⟨c.toNat, h⟩
  rwa [Char.ofNat_toNat] at this

/-- Every ASCII letter has two cases. -/
theorem isCased_of_isAlpha {c : Char} (h : c.isAlpha = true) : isCased c = true := by
  rw [isCased_eq_isAlpha c, h]
  have hletter : (c.val ≥ 65 ∧ c.val ≤ 90) ∨ (c.val ≥ 97 ∧ c.val ≤ 122) := by
    have hor : (decide (c.val ≥ 65 ∧ c.val ≤ 90)
        || (decide (c.val ≥ 97) && decide (c.val ≤ 122))) = true := h
    simpa only [Bool.or_eq_true, Bool.and_eq_true, decide_eq_true_eq] using hor
  have hval : c.toNat = c.val.toNat := rfl
  rcases hletter with ⟨-, hle⟩ | ⟨-, hle⟩
  · have : c.val.toNat ≤ 90 := UInt32.le_iff_toNat_le.1 hle
    omega
  · have : c.val.toNat ≤ 122 := UInt32.le_iff_toNat_le.1 hle
    omega

end Scriptlet
