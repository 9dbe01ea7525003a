/-
RubyOutline/Proofs/Path.lean

URIs tell files apart.  Names hold no slash and are not empty (`Path.IsName`), so the parts of a
path can be read off its text; and from the escaped text the bytes can be read off one after the
other, since an escape begins with a character that stands for nothing else
(`Path.unescape_escapeByte`).  Hence two resolved paths with one URI are one path
(`Path.uri_resolve_inj`), if the folder that they are seen from has proper names.  What is read as a
path, or as a home, always has.
-/
import Mathlib.Data.List.Basic
import RubyOutline.FileSystem
import RubyOutline.Proofs.Text.Utf8

namespace RubyOutline.Path

/-! ### Names -/

/-- A text that a file or folder can have as its name. -/
def IsName (s : String) : Prop := s ≠ "" ∧ '/' ∉ s.toList

instance : DecidablePred IsName := fun s => inferInstanceAs (Decidable (s ≠ "" ∧ _))

theorem not_mem_of_mem_splitOn {α : Type} [BEq α] [LawfulBEq α] {a : α} {xs piece : List α}
    (h : piece ∈ xs.splitOn a) : a ∉ piece := by
  induction xs generalizing piece with
  | nil =>
    rw [List.splitOn_nil, List.mem_singleton] at h
    rw [h]
    exact List.not_mem_nil
  | cons x xs ih =>
    obtain ⟨first, others, hsplit⟩ : ∃ first others, xs.splitOn a = first :: others :=
      List.exists_cons_of_ne_nil (List.splitOnP_ne_nil _ _)
    have hstep : (x :: xs).splitOn a =
        if x == a then [] :: xs.splitOn a else (xs.splitOn a).modifyHead (x :: ·) :=
      List.splitOnP_cons_eq_if_modifyHead x xs
    rw [hstep] at h
    split at h
    · rcases List.mem_cons.1 h with rfl | h
      · exact List.not_mem_nil
      · exact ih h
    · rename_i hx
      rw [hsplit, List.modifyHead_cons] at h
      rcases List.mem_cons.1 h with rfl | h
      · have hfirst : a ∉ first := ih (hsplit ▸ List.mem_cons_self)
        intro ha
        rcases List.mem_cons.1 ha with rfl | ha
        · simp at hx
        · exact hfirst ha
      · exact ih (hsplit ▸ List.mem_cons_of_mem _ h)

theorem isName_of_mem_ofString {text name : String} (h : name ∈ (ofString text).parts) :
    IsName name := by
  simp only [ofString, List.mem_filter, List.mem_map] at h
  obtain ⟨⟨piece, hpiece, rfl⟩, hname⟩ := h
  refine ⟨fun hempty => by simp [hempty] at hname, ?_⟩
  rw [String.toList_ofList]
  exact not_mem_of_mem_splitOn hpiece

/-- Only parts that stood there before are left. -/
theorem mem_of_mem_normalParts {parts : List String} {name : String}
    (h : name ∈ normalParts parts) : name ∈ parts := by
  have hfold : ∀ (above : List String),
      name ∈ parts.foldl (fun above s => if s = ".." then above.drop 1 else s :: above) above →
      name ∈ above ∨ name ∈ parts := by
    clear h
    induction parts with
    | nil => exact fun above h => .inl h
    | cons part parts ih =>
      intro above h
      rcases ih _ h with h | h
      · dsimp only at h
        split at h
        · exact .inl (List.mem_of_mem_drop h)
        · rcases List.mem_cons.1 h with rfl | h
          · exact .inr List.mem_cons_self
          · exact .inl h
      · exact .inr (List.mem_cons_of_mem _ h)
  rcases hfold [] (List.mem_reverse.1 h) with h | h
  · cases h
  · exact h

theorem isName_of_mem_resolve {folder : List String} {p : Path} (hfolder : ∀ s ∈ folder, IsName s)
    (hp : ∀ s ∈ p.parts, IsName s) : ∀ s ∈ (p.resolve folder).parts, IsName s := by
  intro s hs
  have hmem := mem_of_mem_normalParts hs
  split at hmem
  · exact hp s hmem
  · exact (List.mem_append.1 hmem).elim (hfolder s) (hp s)

/-! ### Homes -/

/-- A tilde at the front of a path that is seen from a folder asks for a home. -/
def AsksForHome (p : Path) : Prop :=
  p.root = 0 ∧ ∃ first ∈ p.parts.head?, first.toList.head? = some '~'

instance : DecidablePred AsksForHome := fun p =>
  inferInstanceAs (Decidable (p.root = 0 ∧ ∃ first ∈ p.parts.head?, first.toList.head? = some '~'))

theorem expandHome_eq_self (fs : FileSystem) {p : Path} (h : ¬ p.AsksForHome) :
    fs.expandHome p = .ok p := by
  rw [FileSystem.expandHome]
  split
  · rename_i first rest hroot hparts
    split
    · -- a tilde at the front
      rename_i user hfirst
      refine absurd ⟨hroot, first, ?_, ?_⟩ h
      · rw [hparts]
        rfl
      · rw [hfirst]
        rfl
    · rfl
  · rfl

/-- A home is a path, and what follows the tilde is part of one. -/
theorem isName_of_mem_expandHome {fs : FileSystem} {p expanded : Path}
    (hp : ∀ s ∈ p.parts, IsName s) (h : fs.expandHome p = .ok expanded) :
    ∀ s ∈ expanded.parts, IsName s := by
  have hsame : expanded = p → ∀ s ∈ expanded.parts, IsName s := fun heq => heq ▸ hp
  rw [FileSystem.expandHome] at h
  split at h
  · rename_i first rest _ hparts
    split at h
    · dsimp only at h
      split at h
      · exact hsame (Except.ok.inj h).symm
      split at h
      · cases h
      split at h
      · cases h
      · obtain rfl := Except.ok.inj h
        intro s hs
        rcases List.mem_append.1 hs with hs | hs
        · exact isName_of_mem_ofString hs
        · exact hp s (hparts ▸ List.mem_cons_of_mem _ hs)
    · exact hsame (Except.ok.inj h).symm
  · exact hsame (Except.ok.inj h).symm

/-! ### The text of a path -/

/-- Names joined by slashes are got back by splitting there. -/
theorem splitOn_intercalate_of_isName {parts : List String} (h : ∀ s ∈ parts, IsName s) :
    (['/'].intercalate (parts.map String.toList)).splitOn '/' =
      if parts = [] then [[]] else parts.map String.toList := by
  split
  · rename_i hnil
    rw [hnil]
    rfl
  · rename_i hnil
    refine List.splitOn_intercalate '/' ?_ (by simpa using hnil)
    intro piece hpiece
    obtain ⟨s, hs, rfl⟩ := List.mem_map.1 hpiece
    exact (h s hs).2

/-- Names are not empty, so that no names at all are told from a single one. -/
theorem map_toList_ne_of_isName {parts : List String} (h : ∀ s ∈ parts, IsName s) :
    parts.map String.toList ≠ [[]] := by
  rcases parts with _ | ⟨s, _ | ⟨t, rest⟩⟩
  · simp
  · simpa using (h s List.mem_cons_self).1
  · simp

/-- The parts of an absolute path can be read off its text. -/
theorem parts_eq_of_toString_eq {parts parts' : List String} (h : ∀ s ∈ parts, IsName s)
    (h' : ∀ s ∈ parts', IsName s) (heq : (Path.mk 1 parts).toString = (Path.mk 1 parts').toString) :
    parts = parts' := by
  have htext : ['/'].intercalate (parts.map String.toList) =
      ['/'].intercalate (parts'.map String.toList) := by
    have := congrArg String.toList heq
    simpa [toString, String.toList_append, String.toList_intercalate] using this
  have hsplit := congrArg (List.splitOn '/') htext
  rw [splitOn_intercalate_of_isName h, splitOn_intercalate_of_isName h'] at hsplit
  split at hsplit <;> split at hsplit
  · rename_i hnil hnil'
    rw [hnil, hnil']
  · exact absurd hsplit.symm (map_toList_ne_of_isName h')
  · exact absurd hsplit (map_toList_ne_of_isName h)
  · exact List.map_injective_iff.2 (fun _ _ => String.toList_injective) hsplit

/-! ### Escapes -/

/-- The bytes that a text with escapes stands for.  What is no escape stands for itself. -/
def unescape : List Char → List UInt8
  | [] => []
  | '%' :: high :: low :: rest =>
    match Value.ofHex? [high, low] with
    | some n => UInt8.ofNat n :: unescape rest
    | none => 0x25 :: unescape (high :: low :: rest)
  | c :: rest => String.utf8EncodeChar c ++ unescape rest

/-- The escape character is itself escaped. -/
theorem ne_percent_of_isUnescaped {b : UInt8} (h : isUnescaped b) : Char.ofNat b.toNat ≠ '%' := by
  intro hb
  have hcode : (Char.ofNat b.toNat).toNat = b.toNat :=
    Utf8.toNat_ofNat (.inl (Nat.lt_trans b.toNat_lt (by decide)))
  rw [hb] at hcode
  have : b = 0x25 := UInt8.toNat_inj.1 hcode.symm
  rw [this] at h
  exact absurd h (by decide)

theorem unescape_cons_of_ne {c : Char} (h : c ≠ '%') (rest : List Char) :
    unescape (c :: rest) = String.utf8EncodeChar c ++ unescape rest := by
  rw [unescape]
  rintro high low rest' rfl
  exact absurd rfl h

theorem hexValue?_upperHexDigit {n : Nat} (h : n < 16) :
    Value.hexValue? (upperHexDigit n) = some n := by
  have hall : ∀ n : Fin 16, Value.hexValue? (upperHexDigit n) = some n.val := by decide
  exact hall ⟨n, h⟩

theorem ofHex?_upperHexDigit {m n : Nat} (hm : m < 16) (hn : n < 16) :
    Value.ofHex? [upperHexDigit m, upperHexDigit n] = some (16 * m + n) := by
  rw [Value.ofHex?, List.foldlM_cons, hexValue?_upperHexDigit hm, Option.map_some,
    Option.bind_eq_bind, Option.bind_some, List.foldlM_cons, hexValue?_upperHexDigit hn]
  simp

/-- A byte that stands for itself is an ASCII character. -/
theorem lt_of_isUnescaped {b : UInt8} (h : isUnescaped b) : b < 0x80 := by
  rw [UInt8.lt_iff_toNat_lt]
  simp only [isUnescaped, Bool.or_eq_true, Bool.and_eq_true, decide_eq_true_eq,
    UInt8.le_iff_toNat_le, ← UInt8.toNat_inj, UInt8.toNat_ofNat] at h ⊢
  omega

/-- The first byte of an escaped text is got back. -/
theorem unescape_escapeByte (b : UInt8) (rest : List Char) :
    unescape (escapeByte b ++ rest) = b :: unescape rest := by
  have hb : b.toNat < 256 := b.toNat_lt
  rw [escapeByte]
  split
  · rename_i hunescaped
    rw [List.singleton_append, unescape_cons_of_ne (ne_percent_of_isUnescaped hunescaped),
      Utf8.encodeChar_ascii (lt_of_isUnescaped hunescaped), List.singleton_append]
  · rw [List.cons_append, List.cons_append, List.cons_append, List.nil_append, unescape,
      ofHex?_upperHexDigit (by omega) (by omega), Nat.div_add_mod]
    show UInt8.ofNat b.toNat :: unescape rest = b :: unescape rest
    rw [UInt8.ofNat_toNat]

theorem unescape_flatMap_escapeByte (bytes : List UInt8) :
    unescape (bytes.flatMap escapeByte) = bytes := by
  induction bytes with
  | nil => rfl
  | cons b bytes ih => rw [List.flatMap_cons, unescape_escapeByte, ih]

theorem percentEncode_inj {s t : String} (h : percentEncode s = percentEncode t) : s = t := by
  have hescaped := String.ofList_injective h
  have hbytes : Utf8.encode s = Utf8.encode t := by
    rw [← unescape_flatMap_escapeByte (Utf8.encode s), hescaped, unescape_flatMap_escapeByte]
  exact String.toByteArray_inj.1 (ByteArray.ext (Array.toList_inj.1 hbytes))

/-- **URIs tell resolved paths apart.** -/
theorem uri_resolve_inj {folder : List String} {p q : Path} (hfolder : ∀ s ∈ folder, IsName s)
    (hp : ∀ s ∈ p.parts, IsName s) (hq : ∀ s ∈ q.parts, IsName s)
    (h : (p.resolve folder).uri = (q.resolve folder).uri) :
    p.resolve folder = q.resolve folder := by
  have htext : (p.resolve folder).toString = (q.resolve folder).toString :=
    percentEncode_inj (String.append_right_inj "file://" |>.1 h)
  have hparts := parts_eq_of_toString_eq (isName_of_mem_resolve hfolder hp)
    (isName_of_mem_resolve hfolder hq) htext
  exact congrArg (Path.mk 1) hparts

end RubyOutline.Path
