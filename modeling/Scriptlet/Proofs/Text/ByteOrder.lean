/-
**Texts in the order of their bytes.**

Names are compared character by character, by the numbers of the characters.  A text is stored as
bytes, one to four for each character, and the encoding is made so that this does not matter: of two
characters the smaller one has the smaller bytes, and the bytes of no character begin those of
another one.  So names are in the order of their bytes, and what lists them in that order need not
know of characters.

Main definitions:

* `Scriptlet.bytesOf` — the bytes of a text.

Main results:

* `Scriptlet.encode_append_lt` — the bytes of a smaller character come first, whatever is behind
  them;
* `Scriptlet.lt_iff_bytesOf_lt` — **texts are in the order of their bytes**.
-/

import Mathlib

set_option relaxedAutoImplicit false
set_option autoImplicit false

namespace Scriptlet

/-! ### Bytes -/

/-- The bytes of a text. -/
def bytesOf (text : String) : List UInt8 := text.toByteArray.data.toList

/-- The bytes of a text are those of its characters. -/
theorem bytesOf_eq (text : String) : bytesOf text = text.toList.flatMap String.utf8EncodeChar := by
  rw [bytesOf, ← String.utf8Encode_toList]
  exact List.toList_data_toByteArray

/-- Bytes are in the order of the numbers that they are made of. -/
theorem ofNat_lt_ofNat_iff {m n : Nat} (hm : m < 256) (hn : n < 256) :
    UInt8.ofNat m < UInt8.ofNat n ↔ m < n := by
  rw [UInt8.lt_iff_toNat_lt, UInt8.toNat_ofNat_of_lt' hm, UInt8.toNat_ofNat_of_lt' hn]

theorem ofNat_eq_ofNat_iff {m n : Nat} (hm : m < 256) (hn : n < 256) :
    UInt8.ofNat m = UInt8.ofNat n ↔ m = n := by
  rw [← UInt8.toNat_inj, UInt8.toNat_ofNat_of_lt' hm, UInt8.toNat_ofNat_of_lt' hn]

/-! ### Characters -/

/-- Of two numbers without their last digits the smaller one comes first, unless they are the same;
then the last digits decide. -/
theorem div_lt_or_mod_lt {m n : Nat} (h : m < n) (base : Nat) :
    m / base < n / base ∨ m / base = n / base ∧ m % base < n % base := by
  have hle : m / base ≤ n / base := Nat.div_le_div_right (Nat.le_of_lt h)
  rcases Nat.lt_or_eq_of_le hle with hdiv | hdiv
  · exact Or.inl hdiv
  · have hm := Nat.div_add_mod m base
    have hn := Nat.div_add_mod n base
    rw [hdiv] at hm
    exact Or.inr ⟨hdiv, by omega⟩

/-- Numbers of four digits, compared digit by digit. -/
theorem digits_lt {m n : Nat} (h : m < n) (hn : n < 1114112) :
    m / 262144 % 8 < n / 262144 % 8 ∨ m / 262144 % 8 = n / 262144 % 8 ∧
      (m / 4096 % 64 < n / 4096 % 64 ∨ m / 4096 % 64 = n / 4096 % 64 ∧
        (m / 64 % 64 < n / 64 % 64 ∨ m / 64 % 64 = n / 64 % 64 ∧ m % 64 < n % 64)) := by
  have htwo : ∀ x, x / 64 / 64 = x / 4096 := fun x => by rw [Nat.div_div_eq_div_mul]
  have hthree : ∀ x, x / 4096 / 64 = x / 262144 := fun x => by rw [Nat.div_div_eq_div_mul]
  have hm : m / 262144 % 8 = m / 262144 := Nat.mod_eq_of_lt (by omega)
  have hn : n / 262144 % 8 = n / 262144 := Nat.mod_eq_of_lt (by omega)
  rw [hm, hn]
  rcases div_lt_or_mod_lt h 64 with h₁ | ⟨h₁, hlast⟩
  · have h₂ := div_lt_or_mod_lt h₁ 64
    rw [htwo, htwo] at h₂
    rcases h₂ with h₂ | ⟨h₂, hlast⟩
    · have h₃ := div_lt_or_mod_lt h₂ 64
      rw [hthree, hthree] at h₃
      omega
    · omega
  · omega

/-- **The bytes of a smaller character come first**, whatever is behind them. -/
theorem encode_append_lt {c d : Char} (h : c < d) (rest rest' : List UInt8) :
    String.utf8EncodeChar c ++ rest < String.utf8EncodeChar d ++ rest' := by
  have hlt : c.val.toNat < d.val.toNat := UInt32.lt_iff_toNat_lt.1 h
  have hd : d.val.toNat < 55296 ∨ 57343 < d.val.toNat ∧ d.val.toNat < 1114112 := d.valid
  unfold String.utf8EncodeChar
  dsimp only
  generalize c.val.toNat = m at hlt
  generalize d.val.toNat = n at hlt hd
  have hdigits := digits_lt hlt (by omega)
  -- The numbers of bytes; a larger character has no fewer.
  split_ifs <;>
    simp (disch := omega) only [List.cons_append, List.nil_append, List.cons_lt_cons_iff,
      ofNat_lt_ofNat_iff, ofNat_eq_ofNat_iff] <;> omega

/-- A character has bytes. -/
theorem encode_ne_nil (c : Char) : String.utf8EncodeChar c ≠ [] := by
  intro h
  have hlength := String.length_utf8EncodeChar c
  rw [h] at hlength
  exact absurd hlength (Nat.ne_of_lt c.utf8Size_pos)

/-! ### Texts -/

/-- The bytes of characters in front of others come in front of the bytes of those. -/
theorem flatMap_encode_lt {as bs : List Char} (h : List.Lex (· < ·) as bs) :
    as.flatMap String.utf8EncodeChar < bs.flatMap String.utf8EncodeChar := by
  induction h with
  | @nil b bs =>
      rw [List.flatMap_nil, List.flatMap_cons]
      obtain ⟨byte, bytes, hb⟩ := List.exists_cons_of_ne_nil (encode_ne_nil b)
      rw [hb]
      exact List.nil_lt_cons _ _
  | rel h =>
      rw [List.flatMap_cons, List.flatMap_cons]
      exact encode_append_lt h _ _
  | cons _ ih =>
      rw [List.flatMap_cons, List.flatMap_cons]
      exact List.append_left_lt ih

theorem bytesOf_lt_of_lt {a b : String} (h : a < b) : bytesOf a < bytesOf b := by
  rw [bytesOf_eq, bytesOf_eq]
  exact flatMap_encode_lt ((List.lt_iff_lex_lt _ _).1 (String.lt_iff.1 h))

/-- **Texts are in the order of their bytes.** -/
theorem lt_iff_bytesOf_lt {a b : String} : a < b ↔ bytesOf a < bytesOf b := by
  refine ⟨bytesOf_lt_of_lt, fun h => ?_⟩
  rcases lt_trichotomy a b with hab | rfl | hba
  · exact hab
  · exact absurd h (List.lt_irrefl _)
  · exact absurd h (List.lt_asymm (bytesOf_lt_of_lt hba))

end Scriptlet
