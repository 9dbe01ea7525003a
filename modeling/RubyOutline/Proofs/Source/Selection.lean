/-
RubyOutline/Proofs/Source/Selection.lean

What a client selects by a range.  A client has the text and no bytes: to find a position it goes to
the line, and there it counts the units of the characters until it has as many as the position says
(`PositionEncoding.offset?`).  A position that falls into a character or beyond the end of its line
is none.

Every place between two characters has its position, `positionAfter` what stands before it, and the
client finds the place again by it (`PositionEncoding.offset?_positionAfter`).  A parser knows
the place by its byte offset, and gives it as a row and a byte column (`Source.pointAt`); the column
map turns this into the same position (`Converter.position_pointAt`).  So what a client selects by
the positions of two byte offsets is the stretch of bytes between them
(`Converter.select?_positions`).
-/
import RubyOutline.Conversion.Layer
import RubyOutline.Proofs.Source.Columns
import RubyOutline.Proofs.Text.Line
import RubyOutline.Proofs.Text.Utf8

namespace RubyOutline

open Text

/-! ### Positions in a text -/

namespace PositionEncoding

variable (e : PositionEncoding)

/-- The number of characters of a text before a position. -/
def offset? : List Char → (line character : Nat) → Option Nat
  | _, 0, 0 => some 0
  | [], _, _ => none
  | c :: cs, 0, units + 1 =>
    if c ≠ '\n' ∧ e.width c ≤ units + 1 then (offset? cs 0 (units + 1 - e.width c)).map (· + 1)
    else none
  | c :: cs, line + 1, units => (offset? cs (if c = '\n' then line else line + 1) units).map (· + 1)

/-- What a client selects in a text by a range. -/
def select? (text : String) (r : SourceRange) : Option String := do
  let start ← e.offset? text.toList r.start.line r.start.character
  let stop ← e.offset? text.toList r.stop.line r.stop.character
  return String.ofList ((text.toList.take stop).drop start)

/-- The position after some characters. -/
def positionAfter (before : List Char) : Position :=
  ⟨before.count '\n', e.length (lastLine '\n' before)⟩

theorem offset?_zero (cs : List Char) : e.offset? cs 0 0 = some 0 := by
  cases cs <;> rfl

/-- A client finds the place by its position. -/
theorem offset?_positionAfter (before after : List Char) :
    e.offset? (before ++ after) (e.positionAfter before).line (e.positionAfter before).character =
      some before.length := by
  induction before with
  | nil => exact e.offset?_zero after
  | cons c before ih =>
    by_cases hmem : '\n' ∈ c :: before
    · -- the line is a later one, and begins behind the character
      have hcount : ∃ line, (c :: before).count '\n' = line + 1 ∧
          before.count '\n' = if c = '\n' then line else line + 1 := by
        by_cases hc : c = '\n'
        · exact ⟨before.count '\n', by simp [hc], by simp [hc]⟩
        · obtain ⟨line, hline⟩ := Nat.exists_eq_succ_of_ne_zero
            (Nat.ne_of_gt (List.count_pos_iff.2 (List.mem_of_ne_of_mem (Ne.symm hc) hmem)))
          exact ⟨line, by rw [List.count_cons_of_ne hc, hline], by rw [if_neg hc, hline]⟩
      obtain ⟨line, hline, hbefore⟩ := hcount
      simp only [positionAfter, lastLine_cons_of_mem hmem, hline, List.cons_append, offset?]
      simp only [positionAfter, hbefore] at ih
      rw [ih, Option.map_some, List.length_cons]
    · -- everything stands on the first line
      have hbefore : '\n' ∉ before := fun h => hmem (List.mem_cons_of_mem _ h)
      have hc : c ≠ '\n' := fun h => hmem (h ▸ List.mem_cons_self)
      have hwidth : 1 ≤ e.width c := e.width_pos c
      simp only [positionAfter, lastLine_of_not_mem hbefore,
        List.count_eq_zero_of_not_mem hbefore] at ih
      simp only [positionAfter, lastLine_of_not_mem hmem, List.count_eq_zero_of_not_mem hmem,
        e.length_cons]
      obtain ⟨units, hunits⟩ : ∃ units, e.width c + e.length before = units + 1 :=
        ⟨e.width c + e.length before - 1, by omega⟩
      have hrest : units + 1 - e.width c = e.length before := by omega
      rw [hunits, List.cons_append, offset?, if_pos ⟨hc, by omega⟩, hrest, ih, Option.map_some,
        List.length_cons]

/-- A character beyond the basic plane has two units, and no place between them. -/
example : [PositionEncoding.utf16.offset? ['a', '\n', '𝄞', 'b'] 1 2,
    PositionEncoding.utf16.offset? ['a', '\n', '𝄞', 'b'] 1 1] = [some 3, none] := by decide

end PositionEncoding

/-! ### Encoded texts -/

namespace Utf8

/-- The bytes of some characters. -/
def encodeChars (cs : List Char) : List UInt8 := cs.flatMap String.utf8EncodeChar

theorem encodeChars_append (cs ds : List Char) :
    encodeChars (cs ++ ds) = encodeChars cs ++ encodeChars ds := List.flatMap_append

theorem decode_encodeChars (cs : List Char) : decode (encodeChars cs) = cs :=
  decode_flatMap_encodeChar cs

/-- In bytes a text is as long as its bytes. -/
theorem length_encodeChars (cs : List Char) :
    (encodeChars cs).length = PositionEncoding.utf8.length cs := by
  induction cs with
  | nil => rfl
  | cons c cs ih =>
    rw [PositionEncoding.length_cons, ← ih, encodeChars, List.flatMap_cons, List.length_append,
      String.length_utf8EncodeChar]
    rfl

/-- Only the line feed has its byte. -/
theorem not_mem_utf8EncodeChar (c : Char) (h : c ≠ '\n') : 0x0A ∉ String.utf8EncodeChar c := by
  have hcode : c.val.toNat ≠ 0x0A := fun hcode =>
    h (Char.ext (UInt32.toNat_inj.1 hcode))
  have hbyte : ∀ n, n < 256 → n ≠ 0x0A → (0x0A : UInt8) ≠ UInt8.ofNat n := by
    intro n hn hne heq
    have := congrArg UInt8.toNat heq
    rw [UInt8.toNat_ofNat_of_lt' (by rwa [UInt8.size])] at this
    exact hne this.symm
  rw [String.utf8EncodeChar]
  split
  · rename_i hle
    simpa using hbyte _ (by omega) hcode
  split
  · simp only [List.mem_cons, List.not_mem_nil, or_false, not_or]
    exact ⟨hbyte _ (by omega) (by omega), hbyte _ (by omega) (by omega)⟩
  split
  · simp only [List.mem_cons, List.not_mem_nil, or_false, not_or]
    exact ⟨hbyte _ (by omega) (by omega), hbyte _ (by omega) (by omega),
      hbyte _ (by omega) (by omega)⟩
  · simp only [List.mem_cons, List.not_mem_nil, or_false, not_or]
    exact ⟨hbyte _ (by omega) (by omega), hbyte _ (by omega) (by omega),
      hbyte _ (by omega) (by omega), hbyte _ (by omega) (by omega)⟩

theorem count_encodeChars (cs : List Char) : (encodeChars cs).count 0x0A = cs.count '\n' :=
  count_encoded (f := String.utf8EncodeChar) (by decide) not_mem_utf8EncodeChar cs

theorem lastLine_encodeChars (cs : List Char) :
    lastLine 0x0A (encodeChars cs) = encodeChars (lastLine '\n' cs) :=
  lastLine_encoded (f := String.utf8EncodeChar) (by decide) not_mem_utf8EncodeChar cs

end Utf8

/-! ### Byte offsets -/

namespace Source

open Utf8

/-- The row and the byte column of a byte offset. -/
def pointAt (s : Source) (offset : Nat) : Point :=
  ⟨(s.bytes.toList.take offset).count 0x0A, (lastLine 0x0A (s.bytes.toList.take offset)).length⟩

theorem bytes_ofString (text : String) :
    (ofString text).bytes.toList = encodeChars text.toList := by
  have hutf8 : text.toUTF8 = text.toList.utf8Encode := String.utf8Encode_toList.symm
  rw [ofString, hutf8, List.utf8Encode, List.data_toByteArray, encodeChars]

theorem text_ofString (text : String) : (ofString text).text = text := by
  rw [Source.text, bytes_ofString, decodeString, decode_encodeChars, String.ofList_toList]

variable {text : String} {before after : List Char}

theorem take_bytes_ofString (htext : text.toList = before ++ after) :
    (ofString text).bytes.toList.take (encodeChars before).length = encodeChars before := by
  rw [bytes_ofString, htext, encodeChars_append, List.take_left]

theorem pointAt_ofString (htext : text.toList = before ++ after) :
    (ofString text).pointAt (encodeChars before).length =
      ⟨before.count '\n', (encodeChars (lastLine '\n' before)).length⟩ := by
  rw [pointAt, take_bytes_ofString htext, count_encodeChars, lastLine_encodeChars]

/-- The bytes between two places in a text are those of the characters between them. -/
theorem slice_ofString {upTo after' : List Char} (hbefore : text.toList = before ++ after)
    (hupTo : text.toList = upTo ++ after') :
    (ofString text).slice (encodeChars before).length (encodeChars upTo).length =
      String.ofList ((text.toList.take upTo.length).drop before.length) := by
  have htake : text.toList.take upTo.length = upTo := by rw [hupTo, List.take_left]
  have hbytes : ((ofString text).bytes.extract (encodeChars before).length
      (encodeChars upTo).length).toList =
      (encodeChars upTo).drop (encodeChars before).length := by
    rw [Array.toList_extract, List.extract_eq_take_drop, ← List.drop_take,
      take_bytes_ofString hupTo]
  rw [slice, decodeString, hbytes, htake]
  have hprefix : before <+: text.toList := ⟨after, hbefore.symm⟩
  rcases List.prefix_or_prefix_of_prefix hprefix ⟨after', hupTo.symm⟩ with
    ⟨between, rfl⟩ | ⟨between, rfl⟩
  · rw [encodeChars_append, List.drop_left, List.drop_left, decode_encodeChars]
  · -- the second place comes first, and nothing stands between them
    rw [encodeChars_append, List.drop_of_length_le (by simp), List.drop_of_length_le (by simp)]
    rfl

end Source

namespace Converter

open Utf8 PositionEncoding

variable {text : String} {before after : List Char}

/-- The column map gives a place the position that a client finds it by. -/
theorem position_pointAt (e : PositionEncoding) (htext : text.toList = before ++ after) :
    (ofSource (.ofString text) e).position
      ((Source.ofString text).pointAt (encodeChars before).length) = e.positionAfter before := by
  obtain ⟨rest, hrow⟩ := rows_append (encodeChars before) (encodeChars after)
  rw [← encodeChars_append, ← htext, ← Source.bytes_ofString, count_encodeChars,
    lastLine_encodeChars] at hrow
  rw [Source.pointAt_ofString htext, position, positionAfter]
  congr 1
  by_cases he : e = .utf8
  · rw [LineMap.column_of_utf8 he, length_encodeChars, he]
  · rw [LineMap.column_of_row he (by simpa [ofSource, LineMap.ofSource] using hrow),
      List.take_left]
    split
    · rename_i hascii
      rw [← length_decode_ascii e hascii, decode_encodeChars]
    · rw [decode_encodeChars]
      rfl

/-- What a client selects by the positions of two places is the bytes between them. -/
theorem select?_positions (e : PositionEncoding) {upTo after' : List Char}
    (hbefore : text.toList = before ++ after) (hupTo : text.toList = upTo ++ after') :
    e.select? text
      ⟨(ofSource (.ofString text) e).position
        ((Source.ofString text).pointAt (encodeChars before).length),
       (ofSource (.ofString text) e).position
        ((Source.ofString text).pointAt (encodeChars upTo).length)⟩ =
      some ((Source.ofString text).slice (encodeChars before).length
        (encodeChars upTo).length) := by
  have hstart := e.offset?_positionAfter before after
  have hstop := e.offset?_positionAfter upTo after'
  rw [← hbefore] at hstart
  rw [← hupTo] at hstop
  rw [position_pointAt e hbefore, position_pointAt e hupTo, select?,
    Source.slice_ofString hbefore hupTo]
  simp only [hstart, hstop]
  rfl

end Converter

end RubyOutline
