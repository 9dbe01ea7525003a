/-
RubyOutline/Proofs/Text/IllFormed.lean

How damaged bytes are read.  A reading of a byte sequence takes whole characters for what they are,
and one replacement for every maximal ill-formed subpart (`ReadsAs`).  Such a part stands where no
character does: it is the longest piece there with which a character could begin, or a single byte
if not even that could begin one (`IsIllFormedSubpart`).  Neither says anything of a decoder.

The decoder reads from left to right and never goes back.  What it has read of an open character
begins some character, also with one more byte that it takes (`Opens.beginsCharacter_append`), and
whatever begins a character and is not a whole one leaves the decoder with an open character
(`opens_of_append_eq`).  So the byte at which it gives up is the first one with which the bytes so
far begin no character, and what it gives up is a maximal ill-formed subpart (`decode_illFormed`).
Hence what it decodes is the reading, and there is no other (`readsAs_iff`).
-/
import Mathlib.Data.Nat.Find
import Mathlib.Order.Lattice.Nat
import RubyOutline.Proofs.Text.Utf8

namespace RubyOutline.Utf8

open String (utf8EncodeChar)

/-! ### Readings -/

/-- Some bytes are the first ones of a character, or all of them. -/
def BeginsCharacter (bytes : List UInt8) : Prop := ∃ c : Char, bytes <+: utf8EncodeChar c

/-- A maximal ill-formed subpart, in front of the rest of the bytes. -/
structure IsIllFormedSubpart (part rest : List UInt8) : Prop where
  ne_nil : part ≠ []
  no_character : ∀ c, ¬ utf8EncodeChar c <+: part ++ rest
  begins : BeginsCharacter part ∨ part.length = 1
  longest : ∀ piece, piece <+: part ++ rest → BeginsCharacter piece → piece.length ≤ part.length

/-- The text that bytes are read as. -/
inductive ReadsAs : List UInt8 → List Char → Prop
  | nil : ReadsAs [] []
  | character {rest : List UInt8} {cs : List Char} (c : Char) (h : ReadsAs rest cs) :
      ReadsAs (utf8EncodeChar c ++ rest) (c :: cs)
  | illFormed {part rest : List UInt8} {cs : List Char} (hpart : IsIllFormedSubpart part rest)
      (h : ReadsAs rest cs) : ReadsAs (part ++ rest) (replacement :: cs)

/-! ### The bytes of characters by their bits -/

theorem encodeChar_two {a t : Nat} (ha : 2 ≤ a) (ha' : a < 32) (ht : t < 64) :
    utf8EncodeChar (Char.ofNat (a * 64 + t)) =
      [UInt8.ofNat (a + 0xC0), UInt8.ofNat (t + 0x80)] := by
  have hcode : (Char.ofNat (a * 64 + t)).val.toNat = a * 64 + t := toNat_ofNat (by omega)
  have hlead : (a * 64 + t) / 64 % 32 = a := by omega
  have htail : (a * 64 + t) % 64 = t := by omega
  rw [utf8EncodeChar]
  simp only [hcode]
  rw [if_neg (by omega), if_pos (by omega), hlead, htail]

theorem encodeChar_three {a t u : Nat} (ha : a < 16) (ht : t < 64) (hu : u < 64)
    (hlong : a = 0 → 32 ≤ t) (hsurrogate : a = 13 → t < 32) :
    utf8EncodeChar (Char.ofNat ((a * 64 + t) * 64 + u)) =
      [UInt8.ofNat (a + 0xE0), UInt8.ofNat (t + 0x80), UInt8.ofNat (u + 0x80)] := by
  have hcode : (Char.ofNat ((a * 64 + t) * 64 + u)).val.toNat = (a * 64 + t) * 64 + u :=
    toNat_ofNat (by omega)
  have hlead : ((a * 64 + t) * 64 + u) / 4096 % 16 = a := by omega
  have hsecond : ((a * 64 + t) * 64 + u) / 64 % 64 = t := by omega
  have hlast : ((a * 64 + t) * 64 + u) % 64 = u := by omega
  rw [utf8EncodeChar]
  simp only [hcode]
  rw [if_neg (by omega), if_neg (by omega), if_pos (by omega), hlead, hsecond, hlast]

theorem encodeChar_four {a t u v : Nat} (ha : a < 5) (ht : t < 64) (hu : u < 64) (hv : v < 64)
    (hlong : a = 0 → 16 ≤ t) (hspace : a = 4 → t < 16) :
    utf8EncodeChar (Char.ofNat (((a * 64 + t) * 64 + u) * 64 + v)) =
      [UInt8.ofNat (a + 0xF0), UInt8.ofNat (t + 0x80), UInt8.ofNat (u + 0x80),
        UInt8.ofNat (v + 0x80)] := by
  have hcode : (Char.ofNat (((a * 64 + t) * 64 + u) * 64 + v)).val.toNat =
      ((a * 64 + t) * 64 + u) * 64 + v := toNat_ofNat (by omega)
  have hlead : (((a * 64 + t) * 64 + u) * 64 + v) / 262144 % 8 = a := by omega
  have hsecond : (((a * 64 + t) * 64 + u) * 64 + v) / 4096 % 64 = t := by omega
  have hthird : (((a * 64 + t) * 64 + u) * 64 + v) / 64 % 64 = u := by omega
  have hlast : (((a * 64 + t) * 64 + u) * 64 + v) % 64 = v := by omega
  rw [utf8EncodeChar]
  simp only [hcode]
  rw [if_neg (by omega), if_neg (by omega), if_neg (by omega), hlead, hsecond, hthird, hlast]

/-! ### Open characters -/

/-- The bytes read of a character that is still open. -/
inductive Opens : List UInt8 → Partial → Prop
  | lead {b : UInt8} {p : Partial} (h : lead b = .opens p) : Opens [b] p
  | tail {bytes : List UInt8} {more bits t : Nat} {low high : UInt8}
      (h : Opens bytes ⟨more + 1, low, high, bits⟩) (ht : t < 64) (hlow : low.toNat ≤ t + 0x80)
      (hhigh : t + 0x80 ≤ high.toNat) :
      Opens (bytes ++ [UInt8.ofNat (t + 0x80)]) ⟨more, 0x80, 0xBF, bits * 64 + t⟩

theorem of_lead_eq_ascii {b : UInt8} {c : Char} (h : lead b = .ascii c) :
    b < 0x80 ∧ c = Char.ofNat b.toNat := by
  rw [lead] at h
  split_ifs at h with hb
  exact ⟨hb, by cases h; rfl⟩

/-- Bytes that open no character: ASCII, and those that never come first in one. -/
theorem lead_of_not_opens {b : UInt8} (h : b.toNat < 0xC2 ∨ 0xF5 ≤ b.toNat) :
    b < 0x80 ∧ lead b = .ascii (Char.ofNat b.toNat) ∨ lead b = .stray := by
  rcases h with h | h
  · by_cases hb : b < 0x80
    · exact .inl ⟨hb, by rw [lead, if_pos hb]⟩
    · exact .inr (by rw [lead, if_neg hb, if_pos (UInt8.lt_iff_toNat_lt.2 h)])
  · have hall : ∀ n : Fin 11, lead (UInt8.ofNat (n.val + 0xF5)) = .stray := by decide
    have hsize : b.toNat < 256 := b.toNat_lt
    have hb := hall ⟨b.toNat - 0xF5, by omega⟩
    rw [Nat.sub_add_cancel h, UInt8.ofNat_toNat] at hb
    exact .inr hb

/-- The lead bytes by the number of bytes that they ask for. -/
theorem lead_eq_opens {b : UInt8} {p : Partial} (h : lead b = .opens p) :
    (∃ a, 2 ≤ a ∧ a < 32 ∧ b = UInt8.ofNat (a + 0xC0) ∧ p = ⟨0, 0x80, 0xBF, a⟩) ∨
    (∃ a < 16, b = UInt8.ofNat (a + 0xE0) ∧
      p = ⟨1, if a = 0 then 0xA0 else 0x80, if a = 13 then 0x9F else 0xBF, a⟩) ∨
    (∃ a < 5, b = UInt8.ofNat (a + 0xF0) ∧
      p = ⟨2, if a = 0 then 0x90 else 0x80, if a = 4 then 0x8F else 0xBF, a⟩) := by
  have hb : b = UInt8.ofNat b.toNat := UInt8.ofNat_toNat.symm
  have hsize : b.toNat < 256 := b.toNat_lt
  by_cases hother : b.toNat < 0xC2 ∨ 0xF5 ≤ b.toNat
  · rcases lead_of_not_opens hother with ⟨-, hlead⟩ | hlead <;> cases hlead.symm.trans h
  by_cases htwo : b.toNat < 0xE0
  · obtain ⟨a, ha⟩ : ∃ a, b.toNat = a + 0xC0 := ⟨b.toNat - 0xC0, by omega⟩
    rw [ha] at hb
    rw [hb, lead_two (by omega) (by omega)] at h
    cases h
    exact .inl ⟨a, by omega, by omega, hb, rfl⟩
  by_cases hthree : b.toNat < 0xF0
  · obtain ⟨a, ha⟩ : ∃ a, b.toNat = a + 0xE0 := ⟨b.toNat - 0xE0, by omega⟩
    rw [ha] at hb
    rw [hb, lead_three (by omega)] at h
    cases h
    exact .inr (.inl ⟨a, by omega, hb, rfl⟩)
  · obtain ⟨a, ha⟩ : ∃ a, b.toNat = a + 0xF0 := ⟨b.toNat - 0xF0, by omega⟩
    rw [ha] at hb
    rw [hb, lead_four (by omega)] at h
    cases h
    exact .inr (.inr ⟨a, by omega, hb, rfl⟩)

namespace Opens

variable {bytes : List UInt8} {p : Partial} {more bits t : Nat} {low high : UInt8}

theorem more_le_two (h : Opens bytes p) : p.more ≤ 2 := by
  induction h with
  | lead hlead =>
    rcases lead_eq_opens hlead with ⟨a, -, -, -, rfl⟩ | ⟨a, -, -, rfl⟩ | ⟨a, -, -, rfl⟩ <;> simp
  | tail _ _ _ _ ih => exact Nat.le_of_succ_le ih

/-- Only the bytes from `80` to `BF` continue a character. -/
theorem interval (h : Opens bytes p) : 0x80 ≤ p.low.toNat ∧ p.high.toNat ≤ 0xBF := by
  cases h with
  | lead hlead =>
    rcases lead_eq_opens hlead with ⟨a, -, -, -, rfl⟩ | ⟨a, -, -, rfl⟩ | ⟨a, -, -, rfl⟩
    · simp
    · constructor <;> dsimp only <;> split <;> decide
    · constructor <;> dsimp only <;> split <;> decide
  | tail => simp

/-- There is always a byte that continues an open character. -/
theorem exists_tail (h : Opens bytes p) :
    ∃ t < 64, p.low.toNat ≤ t + 0x80 ∧ t + 0x80 ≤ p.high.toNat := by
  cases h with
  | lead hlead =>
    rcases lead_eq_opens hlead with ⟨a, -, -, -, rfl⟩ | ⟨a, -, -, rfl⟩ | ⟨a, -, -, rfl⟩
    · exact ⟨0, by decide, by simp, by simp⟩
    · by_cases ha : a = 0
      · exact ⟨32, by decide, by simp [ha], by simp [ha]⟩
      · exact ⟨0, by decide, by simp [ha], by dsimp only; split <;> decide⟩
    · by_cases ha : a = 0
      · exact ⟨16, by decide, by simp [ha], by simp [ha]⟩
      · exact ⟨0, by decide, by simp [ha], by dsimp only; split <;> decide⟩
  | tail => exact ⟨0, by decide, by simp, by simp⟩

/-- The last byte of an open character makes it whole. -/
theorem append_eq_encodeChar (h : Opens bytes ⟨0, low, high, bits⟩) (ht : t < 64)
    (hlow : low.toNat ≤ t + 0x80) (hhigh : t + 0x80 ≤ high.toNat) :
    bytes ++ [UInt8.ofNat (t + 0x80)] = utf8EncodeChar (Char.ofNat (bits * 64 + t)) := by
  -- from the last byte back to the lead byte, which is at most three bytes away
  cases h with
  | lead hlead =>
    rcases lead_eq_opens hlead with ⟨a, ha, ha', rfl, hp⟩ | ⟨a, -, -, hp⟩ | ⟨a, -, -, hp⟩ <;>
      cases hp
    exact (encodeChar_two ha ha' ht).symm
  | tail h₁ ht₁ hlow₁ hhigh₁ =>
    cases h₁ with
    | lead hlead =>
      rcases lead_eq_opens hlead with ⟨a, -, -, -, hp⟩ | ⟨a, ha, rfl, hp⟩ | ⟨a, -, -, hp⟩ <;>
        cases hp
      refine (encodeChar_three ha ht₁ ht (fun h0 => ?_) fun h13 => ?_).symm
      · simp [h0] at hlow₁
        omega
      · simp [h13] at hhigh₁
        omega
    | tail h₂ ht₂ hlow₂ hhigh₂ =>
      cases h₂ with
      | lead hlead =>
        rcases lead_eq_opens hlead with ⟨a, -, -, -, hp⟩ | ⟨a, -, -, hp⟩ | ⟨a, ha, rfl, hp⟩ <;>
          cases hp
        refine (encodeChar_four ha ht₂ ht₁ ht (fun h0 => ?_) fun h4 => ?_).symm
        · simp [h0] at hlow₂
          omega
        · simp [h4] at hhigh₂
          omega
      | tail h₃ => exact absurd h₃.more_le_two (by simp)

/-- What has been read of an open character, with a byte that continues it, begins a character. -/
theorem beginsCharacter_append (h : Opens bytes p) (ht : t < 64) (hlow : p.low.toNat ≤ t + 0x80)
    (hhigh : t + 0x80 ≤ p.high.toNat) : BeginsCharacter (bytes ++ [UInt8.ofNat (t + 0x80)]) := by
  obtain ⟨more, low, high, bits⟩ := p
  induction more generalizing bytes low high bits t with
  | zero =>
    refine ⟨Char.ofNat (bits * 64 + t), ?_⟩
    rw [h.append_eq_encodeChar ht hlow hhigh]
  | succ more ih =>
    -- it can be continued once more
    have hopen := h.tail ht hlow hhigh
    obtain ⟨u, hu, hlow', hhigh'⟩ := hopen.exists_tail
    obtain ⟨c, hc⟩ := ih hu _ _ _ hopen hlow' hhigh'
    exact ⟨c, (List.prefix_append _ _).trans hc⟩

/-- What the decoder is in the middle of. -/
theorem foldl_push (h : Opens bytes p) (done : List Char) :
    bytes.foldl Decoder.push ⟨done, none⟩ = ⟨done, some p⟩ := by
  induction h with
  | lead hlead => exact Decoder.push_lead hlead
  | tail h ht hlow hhigh ih =>
    rw [List.foldl_append, ih, List.foldl_cons, Decoder.push_tail ht hlow hhigh]
    dsimp only [List.foldl_nil]

/-- The bytes that continue an open character, by their bits. -/
theorem exists_bits (h : Opens bytes p) {b : UInt8} (hb : p.low ≤ b ∧ b ≤ p.high) :
    ∃ t < 64, b = UInt8.ofNat (t + 0x80) ∧ p.low.toNat ≤ t + 0x80 ∧ t + 0x80 ≤ p.high.toNat := by
  obtain ⟨hlow, hhigh⟩ := h.interval
  have hlow' := UInt8.le_iff_toNat_le.1 hb.1
  have hhigh' := UInt8.le_iff_toNat_le.1 hb.2
  obtain ⟨t, ht⟩ : ∃ t, b.toNat = t + 0x80 := ⟨b.toNat - 0x80, by omega⟩
  refine ⟨t, by omega, ?_, by omega, by omega⟩
  rw [← ht, UInt8.ofNat_toNat]

end Opens

/-! ### One character after the other -/

namespace Decoder

/-- A byte that does not continue the open character is read as if that had been given up before. -/
theorem push_of_not_mem {p : Partial} {b : UInt8} (hb : ¬ (p.low ≤ b ∧ b ≤ p.high))
    (done : List Char) : push ⟨done, some p⟩ b = push ⟨replacement :: done, none⟩ b := by
  show (if p.low ≤ b ∧ b ≤ p.high then _ else _) = _
  rw [if_neg hb]
  rfl

/-- What has been read before makes no difference for what is read next. -/
theorem begin_append (ds done : List Char) (b : UInt8) :
    begin (ds ++ done) b = ⟨(begin ds b).done ++ done, (begin ds b).open?⟩ := by
  rw [begin, begin]
  cases lead b <;> rfl

theorem push_append (ds done : List Char) (open? : Option Partial) (b : UInt8) :
    push ⟨ds ++ done, open?⟩ b =
      ⟨(push ⟨ds, open?⟩ b).done ++ done, (push ⟨ds, open?⟩ b).open?⟩ := by
  cases open? with
  | none => exact begin_append ds done b
  | some p =>
    by_cases hb : p.low ≤ b ∧ b ≤ p.high
    · simp only [push]
      rw [if_pos hb, if_pos hb]
      cases p.more <;> rfl
    · rw [push_of_not_mem hb, push_of_not_mem hb]
      exact begin_append (replacement :: ds) done b

theorem finish_foldl_push_append (bytes : List UInt8) (ds done : List Char)
    (open? : Option Partial) :
    (bytes.foldl push ⟨ds ++ done, open?⟩).finish =
      (bytes.foldl push ⟨ds, open?⟩).finish ++ done := by
  induction bytes generalizing ds open? with
  | nil => cases open? <;> rfl
  | cons b bytes ih =>
    rw [List.foldl_cons, List.foldl_cons, push_append, ih]

/-- Once the open character is complete or given up, the rest is read by itself. -/
theorem reverse_finish_foldl_push (bytes : List UInt8) (c : Char) :
    (bytes.foldl push ⟨[c], none⟩).finish.reverse = c :: decode bytes := by
  rw [show [c] = [] ++ [c] from rfl, finish_foldl_push_append, List.reverse_append]
  rfl

/-- Bytes that follow a character make for one more at least. -/
theorem two_le_length_finish {bytes : List UInt8} (hbytes : bytes ≠ []) (c : Char) :
    2 ≤ (bytes.foldl push ⟨[c], none⟩).finish.length := by
  obtain ⟨b, bytes, rfl⟩ := List.exists_cons_of_ne_nil hbytes
  have hutf32 : PositionEncoding.utf32 ≠ .utf8 := by decide
  have hfirst := units_begin hutf32 [c] b
  have hothers := units_le_foldl_push hutf32 bytes (begin [c] b)
  simp only [units, PositionEncoding.length_utf32, List.length_singleton] at hfirst hothers
  exact Nat.le_trans hfirst hothers

end Decoder

/-- A character in front is decoded as itself. -/
theorem decode_encodeChar_append (c : Char) (rest : List UInt8) :
    decode (utf8EncodeChar c ++ rest) = c :: decode rest := by
  rw [decode, List.foldl_append, Decoder.start, Decoder.foldl_push_encodeChar,
    Decoder.reverse_finish_foldl_push]

/-! ### Maximal ill-formed subparts -/

/-- A piece of a character, from its front on, leaves the decoder with an open character. -/
theorem opens_of_append_eq {c : Char} {bytes rest : List UInt8}
    (h : bytes ++ rest = utf8EncodeChar c) (hbytes : bytes ≠ []) (hrest : rest ≠ []) :
    ∃ p, Opens bytes p := by
  induction bytes using List.reverseRecOn generalizing rest with
  | nil => exact absurd rfl hbytes
  | append_singleton bytes b ih =>
    -- all the bytes are read as one character, so none is complete or given up before the end
    have hone : ((b :: rest).foldl Decoder.push (bytes.foldl Decoder.push ⟨[], none⟩)).finish.length
        = 1 := by
      rw [← List.foldl_append, List.append_cons, h, Decoder.foldl_push_encodeChar]
      rfl
    by_cases hfirst : bytes = []
    · subst hfirst
      cases hlead : lead b with
      | opens p => exact ⟨p, .lead hlead⟩
      | ascii a =>
        have htwo := Decoder.two_le_length_finish hrest a
        simp only [List.foldl_nil, List.foldl_cons, Decoder.push, Decoder.begin, hlead] at hone
        omega
      | stray =>
        have htwo := Decoder.two_le_length_finish hrest replacement
        simp only [List.foldl_nil, List.foldl_cons, Decoder.push, Decoder.begin, hlead] at hone
        omega
    · have hcut : bytes ++ b :: rest = utf8EncodeChar c := (List.append_cons ..).trans h
      obtain ⟨⟨more, low, high, bits⟩, hopen⟩ := ih hcut hfirst (List.cons_ne_nil b rest)
      rw [hopen.foldl_push] at hone
      by_cases hb : low ≤ b ∧ b ≤ high
      · obtain ⟨t, ht, rfl, hlow, hhigh⟩ := hopen.exists_bits hb
        cases more with
        | zero =>
          have htwo := Decoder.two_le_length_finish hrest (Char.ofNat (bits * 64 + t))
          rw [List.foldl_cons, Decoder.push_tail ht hlow hhigh] at hone
          simp only at hone
          omega
        | succ more => exact ⟨_, hopen.tail ht hlow hhigh⟩
      · have htwo := Decoder.two_le_length_finish (List.cons_ne_nil b rest) replacement
        rw [List.foldl_cons, Decoder.push_of_not_mem hb] at hone
        exact absurd hone (by rw [List.foldl_cons] at htwo; omega)

/-- An ill-formed subpart is an open character, or a byte that opens none. -/
theorem IsIllFormedSubpart.opens_or_stray {part rest : List UInt8}
    (h : IsIllFormedSubpart part rest) :
    (∃ p, Opens part p) ∨ ∃ b, part = [b] ∧ lead b = .stray := by
  rcases h.begins with ⟨c, tail, hc⟩ | hlength
  · by_cases htail : tail = []
    · -- it would be a whole character
      rw [htail, List.append_nil] at hc
      exact absurd (hc ▸ List.prefix_append _ _) (h.no_character c)
    · exact .inl (opens_of_append_eq hc h.ne_nil htail)
  · obtain ⟨b, rfl⟩ := List.length_eq_one_iff.1 hlength
    cases hlead : lead b with
    | opens p => exact .inl ⟨p, .lead hlead⟩
    | stray => exact .inr ⟨b, rfl, hlead⟩
    | ascii c =>
      obtain ⟨hb, -⟩ := of_lead_eq_ascii hlead
      refine absurd ?_ (h.no_character (Char.ofNat b.toNat))
      rw [encodeChar_ascii hb]
      exact List.prefix_append _ _

/-- A maximal ill-formed subpart in front is decoded as one replacement. -/
theorem decode_illFormed {part rest : List UInt8} (h : IsIllFormedSubpart part rest) :
    decode (part ++ rest) = replacement :: decode rest := by
  rw [decode, List.foldl_append, Decoder.start, ← Decoder.reverse_finish_foldl_push]
  rcases h.opens_or_stray with ⟨p, hopen⟩ | ⟨b, rfl, hlead⟩
  · rw [hopen.foldl_push]
    cases rest with
    | nil => rfl
    | cons b rest =>
      -- the next byte does not continue the character, as the part would be longer then
      have hb : ¬ (p.low ≤ b ∧ b ≤ p.high) := by
        intro hb
        obtain ⟨t, ht, rfl, hlow, hhigh⟩ := hopen.exists_bits hb
        have hlonger := h.longest _ (by simp) (hopen.beginsCharacter_append ht hlow hhigh)
        rw [List.length_append, List.length_singleton] at hlonger
        omega
      rw [List.foldl_cons, Decoder.push_of_not_mem hb, List.foldl_cons]
  · simp only [List.foldl_cons, List.foldl_nil, Decoder.push, Decoder.begin, hlead]

/-- Where no character stands there is a maximal ill-formed subpart. -/
theorem exists_illFormedSubpart {bytes : List UInt8} (hbytes : bytes ≠ [])
    (h : ∀ c, ¬ utf8EncodeChar c <+: bytes) :
    ∃ part rest, part ++ rest = bytes ∧ IsIllFormedSubpart part rest := by
  classical
  -- the longest piece with which a character could begin, and a byte at least
  let n := Nat.findGreatest (fun n => BeginsCharacter (bytes.take n)) bytes.length
  have hn : n ≤ bytes.length := Nat.findGreatest_le _
  have hpos : 1 ≤ bytes.length := List.length_pos_iff.2 hbytes
  have hlength : (bytes.take (max n 1)).length = max n 1 :=
    List.length_take_of_le (Nat.max_le.2 ⟨hn, hpos⟩)
  refine ⟨bytes.take (max n 1), bytes.drop (max n 1), List.take_append_drop _ _, ?_, ?_, ?_, ?_⟩
  · intro hnil
    rw [hnil, List.length_nil] at hlength
    omega
  · rwa [List.take_append_drop]
  · by_cases hzero : n = 0
    · exact .inr (by rw [hlength, hzero]; rfl)
    · left
      rw [Nat.max_eq_left (Nat.one_le_iff_ne_zero.2 hzero)]
      exact Nat.findGreatest_of_ne_zero (P := fun n => BeginsCharacter (bytes.take n)) rfl hzero
  · intro piece hpiece hbegins
    rw [List.take_append_drop] at hpiece
    rw [List.prefix_iff_eq_take.1 hpiece] at hbegins
    have hle : piece.length ≤ n := Nat.le_findGreatest hpiece.length_le hbegins
    omega

/-! ### The reading of a byte sequence -/

/-- Every byte sequence is read as what the decoder makes of it. -/
theorem readsAs_decode (bytes : List UInt8) : ReadsAs bytes (decode bytes) := by
  by_cases hbytes : bytes = []
  · rw [hbytes]
    exact .nil
  · by_cases hchar : ∃ c, utf8EncodeChar c <+: bytes
    · obtain ⟨c, rest, hrest⟩ := hchar
      rw [← hrest, decode_encodeChar_append]
      exact .character c (readsAs_decode rest)
    · obtain ⟨part, rest, hrest, hpart⟩ := exists_illFormedSubpart hbytes (not_exists.1 hchar)
      rw [← hrest, decode_illFormed hpart]
      exact .illFormed hpart (readsAs_decode rest)
termination_by bytes.length
decreasing_by
  · have hpos := c.utf8Size_pos
    rw [← hrest, List.length_append, String.length_utf8EncodeChar]
    omega
  · have hpos := List.length_pos_iff.2 hpart.ne_nil
    rw [← hrest, List.length_append]
    omega

/-- **The decoder's text is the reading**: every byte sequence has one, and no other. -/
theorem readsAs_iff {bytes : List UInt8} {text : List Char} :
    ReadsAs bytes text ↔ text = decode bytes := by
  constructor
  · intro h
    induction h with
    | nil => rfl
    | character c _ ih => rw [decode_encodeChar_append, ih]
    | illFormed hpart _ ih => rw [decode_illFormed hpart, ih]
  · rintro rfl
    exact readsAs_decode bytes

end RubyOutline.Utf8
