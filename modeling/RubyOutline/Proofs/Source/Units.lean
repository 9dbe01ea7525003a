/-
RubyOutline/Proofs/Source/Units.lean

What the columns of a row count, and how those of different encodings compare.  A character takes
one unit of UTF-32 and one or two of UTF-16, so the same text has at least as many units of UTF-16
and at most twice as many (`PositionEncoding.length_le_mul`).  That it has no more of them than
there are bytes is no matter of whole characters, for a cut may leave a replacement that counts for
one unit and later becomes a character of two.  But a byte adds one unit at most, whatever the
decoder is in the middle of (`Decoder.units_push_le`).

Within a row a column is the length of the reading of the bytes before it.  The shortcut for ASCII
makes no difference there: such bytes are read as one character of one unit each.
-/
import RubyOutline.Proofs.Text.IllFormed
import RubyOutline.Proofs.Text.Line

namespace RubyOutline

namespace PositionEncoding

/-- A bound for each character is a bound for the text. -/
theorem length_le_mul {e e' : PositionEncoding} {k : Nat}
    (h : ∀ c, e.width c ≤ k * e'.width c) (cs : List Char) :
    e.length cs ≤ k * e'.length cs := by
  induction cs with
  | nil => exact Nat.zero_le _
  | cons c cs ih =>
    rw [length_cons, length_cons, Nat.mul_add]
    exact Nat.add_le_add (h c) ih

theorem width_utf16_le_two (c : Char) : utf16.width c ≤ 2 := by
  rw [width]
  split <;> decide

theorem length_utf32_le_utf16 (cs : List Char) : utf32.length cs ≤ utf16.length cs := by
  have hwidth : ∀ c, utf32.width c ≤ 1 * utf16.width c := by
    intro c
    rw [Nat.one_mul]
    exact utf16.width_pos c
  have hlength := length_le_mul hwidth cs
  rwa [Nat.one_mul] at hlength

theorem length_utf16_le_utf32 (cs : List Char) : utf16.length cs ≤ 2 * utf32.length cs :=
  length_le_mul width_utf16_le_two cs

end PositionEncoding

namespace Utf8

open PositionEncoding (utf16)

namespace Decoder

/-- A byte read while no character is open adds one unit at most. -/
theorem units_begin_le (done : List Char) (b : UInt8) :
    (begin done b).units utf16 ≤ utf16.length done + 1 := by
  rw [begin]
  cases hlead : lead b with
  | ascii c =>
    obtain ⟨hb, rfl⟩ := of_lead_eq_ascii hlead
    rw [units_closed, PositionEncoding.length_cons, width_ascii utf16 hb, Nat.add_comm]
  | opens p => exact Nat.le_of_eq (units_open (by decide) done p)
  | stray =>
    rw [units_closed, PositionEncoding.length_cons,
      PositionEncoding.width_replacement (by decide), Nat.add_comm]

/-- One more byte adds one unit at most. -/
theorem units_push_le (d : Decoder) (b : UInt8) : (d.push b).units utf16 ≤ d.units utf16 + 1 := by
  obtain ⟨done, open?⟩ := d
  cases open? with
  | none => exact units_begin_le done b
  | some p =>
    rw [units_open (by decide)]
    by_cases hb : p.low ≤ b ∧ b ≤ p.high
    · rw [push]
      dsimp only
      rw [if_pos hb]
      cases p.more with
      | zero =>
        -- the character is complete, and has counted as one unit before
        have hwidth := PositionEncoding.width_utf16_le_two (Char.ofNat (p.extend b))
        dsimp only
        rw [units_closed, PositionEncoding.length_cons]
        omega
      | succ more =>
        dsimp only
        rw [units_open (by decide)]
        exact Nat.le_succ _
    · rw [push_of_not_mem hb]
      have hbegin := units_begin_le (replacement :: done) b
      rw [PositionEncoding.length_cons, PositionEncoding.width_replacement (by decide),
        Nat.add_comm 1] at hbegin
      exact hbegin

theorem units_foldl_push_le (bytes : List UInt8) (d : Decoder) :
    (bytes.foldl push d).units utf16 ≤ d.units utf16 + bytes.length := by
  induction bytes generalizing d with
  | nil => exact Nat.le_refl _
  | cons b bytes ih =>
    have hfirst := units_push_le d b
    have hothers := ih (d.push b)
    rw [List.foldl_cons, List.length_cons]
    omega

end Decoder

/-- Bytes are read as no more units of UTF-16 than there are bytes. -/
theorem length_decode_le_length (bytes : List UInt8) :
    utf16.length (decode bytes) ≤ bytes.length := by
  have h := Decoder.units_foldl_push_le bytes .start
  rw [← length_decode] at h
  exact h.trans_eq (Nat.zero_add _)

end Utf8

namespace LineMap

open PositionEncoding (utf8 utf16 utf32)

variable {s : Source} {row : Nat} {bytes : List UInt8}

theorem rows_ofSource (s : Source) (e : PositionEncoding) (row : Nat) :
    (ofSource s e).rows[row]? = (Text.rows s.bytes.toList)[row]? := by
  simp [ofSource]

/-- The decoded prefix counts for the column, also where the shortcut is taken. -/
theorem column_eq_length {e : PositionEncoding} (he : e ≠ .utf8)
    (hrow : (Text.rows s.bytes.toList)[row]? = some bytes) {i : Nat} (hi : i ≤ bytes.length) :
    (ofSource s e).column row i = e.length (Utf8.decode (bytes.take i)) := by
  rw [column_of_row he ((rows_ofSource s e row).trans hrow)]
  split
  · rename_i hascii
    rw [Utf8.length_decode_ascii e hascii, List.length_take_of_le hi]
  · rfl

/-- In a source of ASCII bytes every column is the byte column, also beyond the end of a row. -/
theorem column_of_ascii (hs : ∀ b ∈ s.bytes, b < 0x80) (e : PositionEncoding) (row i : Nat) :
    (ofSource s e).column row i = i := by
  by_cases he : e = .utf8
  · exact column_of_utf8 he row i
  · cases hrow : (Text.rows s.bytes.toList)[row]? with
    | none => exact column_of_no_row ((rows_ofSource s e row).trans hrow) i
    | some bytes =>
      have hascii : isAscii (bytes.take i) := by
        refine List.all_eq_true.2 fun b hb => decide_eq_true (hs b ?_)
        exact Array.mem_def.2 (Text.mem_of_mem_rows (List.mem_of_getElem? hrow)
          (List.mem_of_mem_take hb))
      rw [column_of_row he ((rows_ofSource s e row).trans hrow), if_pos hascii]

/-- The columns of a place in the three encodings, in order. -/
theorem column_le (s : Source) (row i : Nat) :
    (ofSource s utf32).column row i ≤ (ofSource s utf16).column row i ∧
    (ofSource s utf16).column row i ≤ (ofSource s utf8).column row i ∧
    (ofSource s utf16).column row i ≤ 2 * (ofSource s utf32).column row i := by
  rw [column_of_utf8 (m := ofSource s utf8) rfl]
  cases hrow : (Text.rows s.bytes.toList)[row]? with
  | none =>
    rw [column_of_no_row ((rows_ofSource s utf16 row).trans hrow),
      column_of_no_row ((rows_ofSource s utf32 row).trans hrow)]
    omega
  | some bytes =>
    rw [column_of_row (by decide : utf16 ≠ utf8) ((rows_ofSource s utf16 row).trans hrow),
      column_of_row (by decide : utf32 ≠ utf8) ((rows_ofSource s utf32 row).trans hrow)]
    -- both encodings take the shortcut for the same prefixes
    by_cases hascii : isAscii (bytes.take i)
    · rw [if_pos hascii, if_pos hascii]
      omega
    · rw [if_neg hascii, if_neg hascii]
      refine ⟨PositionEncoding.length_utf32_le_utf16 _, ?_,
        PositionEncoding.length_utf16_le_utf32 _⟩
      exact (Utf8.length_decode_le_length _).trans (List.length_take_le i bytes)

/-- **Columns measure what stands before them**: in every row of every source they grow with the
byte column; a place has no more of them in UTF-32 than in UTF-16, no more there than in UTF-8, and
at most twice as many in UTF-16 as in UTF-32; and up to the end of a row, the bytes before a place
have one reading, of which the columns are the characters and the units of UTF-16. -/
theorem column_measures (s : Source) (row : Nat) :
    (∀ (e : PositionEncoding) (i j : Nat), i ≤ j →
      (ofSource s e).column row i ≤ (ofSource s e).column row j) ∧
    (∀ i, (ofSource s utf32).column row i ≤ (ofSource s utf16).column row i ∧
      (ofSource s utf16).column row i ≤ (ofSource s utf8).column row i ∧
      (ofSource s utf16).column row i ≤ 2 * (ofSource s utf32).column row i) ∧
    (∀ (bytes : List UInt8) (i : Nat), (Text.rows s.bytes.toList)[row]? = some bytes →
      i ≤ bytes.length →
      ∃ text, (∀ text', Utf8.ReadsAs (bytes.take i) text' ↔ text' = text) ∧
        (ofSource s utf32).column row i = text.length ∧
        (ofSource s utf16).column row i = utf16.length text) := by
  refine ⟨fun e i j hij => column_mono _ row hij, column_le s row, ?_⟩
  intro bytes i hrow hi
  refine ⟨Utf8.decode (bytes.take i), fun text' => Utf8.readsAs_iff, ?_, ?_⟩
  · rw [column_eq_length (by decide) hrow hi, PositionEncoding.length_utf32]
  · exact column_eq_length (by decide) hrow hi

/-- An emoji, of which the third byte is a cut through it, and after it one byte too few for another
character. -/
theorem column_measures_emoji :
    let s : Source := ⟨#[0x61, 0xF0, 0x9F, 0x98, 0x80, 0xE2, 0x82, 0x0A]⟩
    (ofSource s utf16).column 0 3 ≤ (ofSource s utf16).column 0 5 ∧
    (ofSource s utf32).column 0 7 ≤ (ofSource s utf16).column 0 7 ∧
    ∃ text, (∀ text', Utf8.ReadsAs [0x61, 0xF0, 0x9F, 0x98, 0x80, 0xE2, 0x82] text' ↔
        text' = text) ∧
      text.length = 3 ∧ utf16.length text = 4 := by
  intro s
  obtain ⟨hmono, horder, hreading⟩ := column_measures s 0
  obtain ⟨text, hunique, hutf32, hutf16⟩ :=
    hreading [0x61, 0xF0, 0x9F, 0x98, 0x80, 0xE2, 0x82] 7 (by decide) (by decide)
  refine ⟨hmono utf16 3 5 (by decide), (horder 7).1, text, hunique, ?_, ?_⟩
  · rw [← hutf32]
    decide
  · rw [← hutf16]
    decide

end LineMap

end RubyOutline
