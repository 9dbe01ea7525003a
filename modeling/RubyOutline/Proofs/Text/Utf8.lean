/-
RubyOutline/Proofs/Text/Utf8.lean

Decoding undoes encoding.  The bytes of a character take the decoder from between two characters
to between the next two: the first byte opens a character of the right length with the high bits,
every further one is a continuation that adds six more bits, and the last one closes it
(`Decoder.foldl_push_encodeChar`).  The narrowed intervals for the second byte are no obstacle,
since they only keep out what no character is encoded as.  So the bytes of a text decode to the text
(`decode_flatMap_encodeChar`), and so does every stretch of them that is cut between characters.
-/
import RubyOutline.Proofs.Source.Columns

namespace RubyOutline.Utf8

/-! ### Lead bytes -/

/-- An ASCII byte is the only byte of its character. -/
theorem encodeChar_ascii {b : UInt8} (hb : b < 0x80) :
    String.utf8EncodeChar (Char.ofNat b.toNat) = [b] := by
  have hlt : b.toNat < 128 := UInt8.lt_iff_toNat_lt.1 hb
  have hcode : (Char.ofNat b.toNat).val.toNat = b.toNat := toNat_ofNat (by omega)
  rw [String.utf8EncodeChar]
  simp only [hcode]
  rw [if_pos (by omega), UInt8.ofNat_toNat]

theorem lead_two {n : Nat} (h : 2 ≤ n) (h' : n < 32) :
    lead (UInt8.ofNat (n + 0xC0)) = .opens ⟨0, 0x80, 0xBF, n⟩ := by
  have hall : ∀ n : Fin 32, 2 ≤ n.val →
      lead (UInt8.ofNat (n.val + 0xC0)) = .opens ⟨0, 0x80, 0xBF, n.val⟩ := by decide
  exact hall ⟨n, h'⟩ h

theorem lead_three {n : Nat} (h : n < 16) :
    lead (UInt8.ofNat (n + 0xE0)) =
      .opens ⟨1, if n = 0 then 0xA0 else 0x80, if n = 13 then 0x9F else 0xBF, n⟩ := by
  have hall : ∀ n : Fin 16, lead (UInt8.ofNat (n.val + 0xE0)) =
      .opens ⟨1, if n.val = 0 then 0xA0 else 0x80, if n.val = 13 then 0x9F else 0xBF, n.val⟩ := by
    decide
  exact hall ⟨n, h⟩

theorem lead_four {n : Nat} (h : n < 5) :
    lead (UInt8.ofNat (n + 0xF0)) =
      .opens ⟨2, if n = 0 then 0x90 else 0x80, if n = 4 then 0x8F else 0xBF, n⟩ := by
  have hall : ∀ n : Fin 5, lead (UInt8.ofNat (n.val + 0xF0)) =
      .opens ⟨2, if n.val = 0 then 0x90 else 0x80, if n.val = 4 then 0x8F else 0xBF, n.val⟩ := by
    decide
  exact hall ⟨n, h⟩

/-! ### Continuation bytes -/

namespace Decoder

variable {done : List Char} {low high : UInt8} {bits more t : Nat}

theorem toNat_tail (h : t < 64) : (UInt8.ofNat (t + 0x80)).toNat = t + 0x80 :=
  UInt8.toNat_ofNat_of_lt' (by rw [UInt8.size]; omega)

theorem extend_tail (h : t < 64) :
    (Partial.mk more low high bits).extend (UInt8.ofNat (t + 0x80)) = bits * 64 + t := by
  show bits * 64 + ((UInt8.ofNat (t + 0x80)).toNat - 0x80) = _
  rw [toNat_tail h, Nat.add_sub_cancel]

/-- A byte in the interval that the open character asks for is taken in. -/
theorem push_tail (h : t < 64) (hlow : low.toNat ≤ t + 0x80) (hhigh : t + 0x80 ≤ high.toNat) :
    push ⟨done, some ⟨more, low, high, bits⟩⟩ (UInt8.ofNat (t + 0x80)) =
      match more with
      | 0 => ⟨Char.ofNat (bits * 64 + t) :: done, none⟩
      | more + 1 => ⟨done, some ⟨more, 0x80, 0xBF, bits * 64 + t⟩⟩ := by
  have hin : low ≤ UInt8.ofNat (t + 0x80) ∧ UInt8.ofNat (t + 0x80) ≤ high := by
    rw [UInt8.le_iff_toNat_le, UInt8.le_iff_toNat_le, toNat_tail h]
    exact ⟨hlow, hhigh⟩
  cases more with
  | zero =>
    rw [push]
    dsimp only
    rw [if_pos hin, extend_tail h]
  | succ more =>
    rw [push]
    dsimp only
    rw [if_pos hin, extend_tail h]

theorem push_lead {b : UInt8} {p : Partial} (h : lead b = .opens p) :
    push ⟨done, none⟩ b = ⟨done, some p⟩ := by
  show begin done b = _
  rw [begin, h]

/-! ### Characters -/

/-- The code of a character is no surrogate. -/
theorem toNat_valid (c : Char) : c.toNat < 0xD800 ∨ 0xDFFF < c.toNat ∧ c.toNat < 0x110000 := c.valid

/-- The bytes of a character are read as the character. -/
theorem foldl_push_encodeChar (done : List Char) (c : Char) :
    (String.utf8EncodeChar c).foldl push ⟨done, none⟩ = ⟨c :: done, none⟩ := by
  have hvalid := toNat_valid c
  have hc : Char.ofNat c.toNat = c := Char.ofNat_toNat c
  have htail : ∀ n, n % 64 < 64 := fun n => Nat.mod_lt n (by decide)
  rw [String.utf8EncodeChar]
  generalize hcode : c.toNat = code at *
  have hval : c.val.toNat = code := hcode
  simp only [hval]
  split
  · -- one byte
    rename_i h
    have hbyte : (UInt8.ofNat code).toNat = code :=
      UInt8.toNat_ofNat_of_lt' (by rw [UInt8.size]; omega)
    have hlt : UInt8.ofNat code < 0x80 := by
      rw [UInt8.lt_iff_toNat_lt, hbyte]
      show code < 128
      omega
    rw [List.foldl_cons, push_ascii hlt, hbyte, hc]
    rfl
  split
  · -- two bytes
    have hbits : code / 64 % 32 * 64 + code % 64 = code := by omega
    rw [List.foldl_cons, push_lead (lead_two (by omega) (by omega)), List.foldl_cons,
      push_tail (htail _) (by simp) (by simp; omega), hbits, hc]
    rfl
  split
  · -- three bytes, the second of them large enough for a long form and too small for a surrogate
    have hbits : (code / 4096 % 16 * 64 + code / 64 % 64) * 64 + code % 64 = code := by omega
    rw [List.foldl_cons, push_lead (lead_three (by omega)), List.foldl_cons,
      push_tail (htail _) (by split <;> simp; omega) (by split <;> simp <;> omega),
      List.foldl_cons, push_tail (htail _) (by simp) (by simp; omega), hbits, hc]
    rfl
  · -- four bytes, the second of them within the bounds of the code space
    have hbits : ((code / 262144 % 8 * 64 + code / 4096 % 64) * 64 + code / 64 % 64) * 64 +
        code % 64 = code := by omega
    rw [List.foldl_cons, push_lead (lead_four (by omega)), List.foldl_cons,
      push_tail (htail _) (by split <;> simp; omega) (by split <;> simp <;> omega),
      List.foldl_cons, push_tail (htail _) (by simp) (by simp; omega), List.foldl_cons,
      push_tail (htail _) (by simp) (by simp; omega), hbits, hc]
    rfl

theorem foldl_push_flatMap_encodeChar (done cs : List Char) :
    (cs.flatMap String.utf8EncodeChar).foldl push ⟨done, none⟩ = ⟨cs.reverse ++ done, none⟩ := by
  induction cs generalizing done with
  | nil => rfl
  | cons c cs ih =>
    rw [List.flatMap_cons, List.foldl_append, foldl_push_encodeChar, ih, List.reverse_cons,
      List.append_assoc, List.singleton_append]

end Decoder

/-- **Decoding undoes encoding.** -/
theorem decode_flatMap_encodeChar (cs : List Char) :
    decode (cs.flatMap String.utf8EncodeChar) = cs := by
  rw [decode, Decoder.start, Decoder.foldl_push_flatMap_encodeChar]
  simp [Decoder.finish]

end RubyOutline.Utf8
