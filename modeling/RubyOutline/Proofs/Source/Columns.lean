/-
RubyOutline/Proofs/Source/Columns.lean

Columns grow with byte columns.  What a decoder has read is measured in the client's units, an
unfinished character counting as the replacement it would become (`Decoder.units`).  One more byte
never takes a unit away: it leaves the unfinished character as it is, completes it to a character
of at least one unit, or ends it for good and is read afresh.  So the units of a prefix grow with
the prefix, wherever the cut falls in a character and however damaged the bytes are.

A prefix of ASCII bytes has a unit for every byte, which is what makes counting it by its bytes
agree with decoding it.
-/
import RubyOutline.Source

namespace RubyOutline

/-! ### Units -/

namespace PositionEncoding

theorem foldl_width (e : PositionEncoding) (cs : List Char) (units : Nat) :
    cs.foldl (fun units c => units + e.width c) units = units + e.length cs := by
  induction cs generalizing units with
  | nil => rfl
  | cons c cs ih =>
    rw [length, List.foldl_cons, List.foldl_cons, ih, ih]
    omega

theorem length_cons (e : PositionEncoding) (c : Char) (cs : List Char) :
    e.length (c :: cs) = e.width c + e.length cs := by
  rw [length, List.foldl_cons, foldl_width, Nat.zero_add]

theorem length_append (e : PositionEncoding) (cs ds : List Char) :
    e.length (cs ++ ds) = e.length cs + e.length ds := by
  rw [length, List.foldl_append, foldl_width, ← length]

theorem length_reverse (e : PositionEncoding) (cs : List Char) :
    e.length cs.reverse = e.length cs := by
  induction cs with
  | nil => rfl
  | cons c cs ih =>
    rw [List.reverse_cons, length_append, ih, length_cons, length_cons]
    exact Nat.add_comm _ _

/-- Code points are the units of UTF-32. -/
theorem length_utf32 (cs : List Char) : utf32.length cs = cs.length := by
  induction cs with
  | nil => rfl
  | cons c cs ih =>
    rw [length_cons, ih, List.length_cons]
    exact Nat.add_comm _ _

theorem width_pos (e : PositionEncoding) (c : Char) : 1 ≤ e.width c := by
  cases e with
  | utf16 =>
    rw [width]
    split <;> omega
  | utf8 => exact c.utf8Size_pos
  | utf32 => exact Nat.le_refl 1

theorem width_replacement {e : PositionEncoding} (he : e ≠ .utf8) :
    e.width Utf8.replacement = 1 := by
  cases e with
  | utf16 => rfl
  | utf8 => exact absurd rfl he
  | utf32 => rfl

end PositionEncoding

namespace Utf8

namespace Decoder

/-- The units of what has been read, an unfinished character counting as a replacement. -/
def units (e : PositionEncoding) (d : Decoder) : Nat := e.length d.finish

theorem units_closed (e : PositionEncoding) (done : List Char) :
    units e ⟨done, none⟩ = e.length done := rfl

theorem units_open {e : PositionEncoding} (he : e ≠ .utf8) (done : List Char) (p : Partial) :
    units e ⟨done, some p⟩ = e.length done + 1 := by
  show e.length (replacement :: done) = _
  rw [e.length_cons, PositionEncoding.width_replacement he, Nat.add_comm]

/-- A byte read while no character is open adds at least one unit. -/
theorem units_begin {e : PositionEncoding} (he : e ≠ .utf8) (done : List Char) (b : UInt8) :
    e.length done + 1 ≤ (begin done b).units e := by
  rw [begin]
  cases lead b with
  | ascii c =>
    have := e.width_pos c
    rw [units_closed, e.length_cons]
    omega
  | opens p => exact Nat.le_of_eq (units_open he done p).symm
  | stray =>
    have := e.width_pos replacement
    rw [units_closed, e.length_cons]
    omega

/-- One more byte takes no unit away. -/
theorem units_le_push {e : PositionEncoding} (he : e ≠ .utf8) (d : Decoder) (b : UInt8) :
    d.units e ≤ (d.push b).units e := by
  obtain ⟨done, open?⟩ := d
  cases open? with
  | none =>
    have := units_begin he done b
    rw [units_closed]
    show e.length done ≤ (begin done b).units e
    omega
  | some p =>
    rw [units_open he, push]
    simp only
    split
    · split
      · -- the character is complete
        rename_i bits _
        have := e.width_pos (Char.ofNat (p.extend b))
        rw [units_closed, e.length_cons]
        omega
      · -- it is one byte longer, and still unfinished
        exact Nat.le_of_eq (units_open he done _).symm
    · -- the byte does not belong to it
      have := units_begin he (replacement :: done) b
      rw [e.length_cons, PositionEncoding.width_replacement he] at this
      omega

theorem units_le_foldl_push {e : PositionEncoding} (he : e ≠ .utf8) (bytes : List UInt8)
    (d : Decoder) : d.units e ≤ (bytes.foldl push d).units e := by
  induction bytes generalizing d with
  | nil => exact Nat.le_refl _
  | cons b bytes ih => exact Nat.le_trans (units_le_push he d b) (ih (d.push b))

/-- An ASCII byte read while no character is open is one character of one unit. -/
theorem push_ascii {b : UInt8} (hb : b < 0x80) (done : List Char) :
    push ⟨done, none⟩ b = ⟨Char.ofNat b.toNat :: done, none⟩ := by
  show begin done b = _
  rw [begin, lead, if_pos hb]

end Decoder

theorem length_decode (e : PositionEncoding) (bytes : List UInt8) :
    e.length (decode bytes) = (bytes.foldl Decoder.push .start).units e := by
  rw [decode, e.length_reverse, Decoder.units]

/-- The units of a prefix grow with the prefix. -/
theorem length_decode_le {e : PositionEncoding} (he : e ≠ .utf8) {xs ys : List UInt8}
    (h : xs <+: ys) : e.length (decode xs) ≤ e.length (decode ys) := by
  obtain ⟨rest, rfl⟩ := h
  rw [length_decode, length_decode, List.foldl_append]
  exact Decoder.units_le_foldl_push he rest _

/-- The code of a character that is no surrogate and within the code space. -/
theorem toNat_ofNat {n : Nat} (h : n < 0xD800 ∨ 0xDFFF < n ∧ n < 0x110000) :
    (Char.ofNat n).toNat = n := by
  rw [Char.ofNat, dif_pos h]
  rfl

theorem width_ascii (e : PositionEncoding) {b : UInt8} (hb : b < 0x80) :
    e.width (Char.ofNat b.toNat) = 1 := by
  have hlt : b.toNat < 128 := UInt8.lt_iff_toNat_lt.1 hb
  have hnat : (Char.ofNat b.toNat).toNat = b.toNat := toNat_ofNat (by omega)
  cases e with
  | utf16 => rw [PositionEncoding.width, hnat, if_pos (by omega)]
  | utf8 =>
    refine Char.utf8Size_eq_one_iff.2 (UInt32.le_iff_toNat_le.2 ?_)
    show (Char.ofNat b.toNat).toNat ≤ 127
    omega
  | utf32 => rfl

theorem units_foldl_push_ascii (e : PositionEncoding) {bytes : List UInt8}
    (h : LineMap.isAscii bytes) (done : List Char) :
    (bytes.foldl Decoder.push ⟨done, none⟩).units e = e.length done + bytes.length := by
  induction bytes generalizing done with
  | nil => rfl
  | cons b bytes ih =>
    have hb : b < 0x80 ∧ LineMap.isAscii bytes := by simpa [LineMap.isAscii] using h
    rw [List.foldl_cons, Decoder.push_ascii hb.1, ih hb.2, e.length_cons, width_ascii e hb.1,
      List.length_cons]
    omega

/-- ASCII bytes have a unit each. -/
theorem length_decode_ascii (e : PositionEncoding) {bytes : List UInt8}
    (h : LineMap.isAscii bytes) : e.length (decode bytes) = bytes.length := by
  rw [length_decode, Decoder.start, units_foldl_push_ascii e h]
  simp [PositionEncoding.length]

end Utf8

/-! ### Columns -/

namespace LineMap

theorem column_of_utf8 {m : LineMap} (h : m.encoding = .utf8) (row i : Nat) :
    m.column row i = i := by
  rw [column, h]

theorem column_of_no_row {m : LineMap} {row : Nat} (h : m.rows[row]? = none) (i : Nat) :
    m.column row i = i := by
  rw [column, h]
  cases m.encoding <;> rfl

theorem column_of_row {m : LineMap} {row : Nat} {bytes : List UInt8} (he : m.encoding ≠ .utf8)
    (h : m.rows[row]? = some bytes) (i : Nat) :
    m.column row i =
      if isAscii (bytes.take i) then i else m.encoding.length (Utf8.decode (bytes.take i)) := by
  rw [column, h]
  cases hencoding : m.encoding with
  | utf8 => exact absurd hencoding he
  | utf16 => rfl
  | utf32 => rfl

/-- A prefix of a row that is ASCII while a longer one is not ends within the row. -/
theorem lt_length_of_isAscii_take {bytes : List UInt8} {i j : Nat}
    (hi : isAscii (bytes.take i)) (hj : ¬ isAscii (bytes.take j)) (hij : i ≤ j) :
    i < bytes.length := by
  refine Nat.lt_of_not_le fun hlen => hj ?_
  rw [List.take_of_length_le (Nat.le_trans hlen hij), ← List.take_of_length_le hlen]
  exact hi

/-- **Columns are monotone**: in every row, and in every encoding, the client's column grows with
the byte column. -/
theorem column_mono (m : LineMap) (row : Nat) {i j : Nat} (hij : i ≤ j) :
    m.column row i ≤ m.column row j := by
  by_cases he : m.encoding = .utf8
  · rw [column_of_utf8 he, column_of_utf8 he]
    exact hij
  · cases hrow : m.rows[row]? with
    | none =>
      rw [column_of_no_row hrow, column_of_no_row hrow]
      exact hij
    | some bytes =>
      have hpre : bytes.take i <+: bytes.take j := List.take_prefix_take_left hij
      have hdecoded := Utf8.length_decode_le he hpre
      rw [column_of_row he hrow, column_of_row he hrow]
      split
      · rename_i hi
        split
        · exact hij
        · -- the shorter prefix is counted by its bytes, and each of them has its unit
          rename_i hj
          have hlt : i < bytes.length := lt_length_of_isAscii_take hi hj hij
          rw [Utf8.length_decode_ascii _ hi, List.length_take] at hdecoded
          omega
      · rename_i hi
        split
        · -- a prefix of an ASCII prefix is ASCII
          rename_i hj
          refine absurd ?_ hi
          rw [isAscii, List.all_eq_true] at hj ⊢
          exact fun b hb => hj b (hpre.mem hb)
        · exact hdecoded

end LineMap

end RubyOutline
