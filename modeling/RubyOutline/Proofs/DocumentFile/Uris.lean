/-
RubyOutline/Proofs/DocumentFile/Uris.lean

One entry in the store for each file.  A file that can be read is loaded under the URI of its
resolved path (`DocumentFile.load_eq_of_readable`), and since URIs tell resolved paths apart, two
paths share an entry exactly if they resolve alike.  Nothing is lost in a URI: with its escapes
decoded it shows the text of the path again (`Path.percentDecode_uri`).

That holds of paths that do not ask for a home (`Path.AsksForHome`).  The parts that say nothing are
dropped before a path is looked at, and this can bring a tilde to the front that its text does not
begin with.
-/
import RubyOutline.DocumentStore
import RubyOutline.Proofs.DocumentFile
import RubyOutline.Proofs.Source.Selection

namespace RubyOutline

/-! ### Decoding -/

namespace Path

/-- A text with its escapes decoded. -/
def percentDecode (s : String) : String := Utf8.decodeString (unescape s.toList)

/-- Text without the escape character stands for itself. -/
theorem unescape_append {plain : List Char} (h : '%' ∉ plain) (rest : List Char) :
    unescape (plain ++ rest) = Utf8.encodeChars plain ++ unescape rest := by
  induction plain with
  | nil => rfl
  | cons c plain ih =>
    have hc : c ≠ '%' := fun hc => h (hc ▸ List.mem_cons_self)
    have hplain : '%' ∉ plain := fun hmem => h (List.mem_cons_of_mem _ hmem)
    rw [List.cons_append, unescape_cons_of_ne hc, ih hplain, Utf8.encodeChars, Utf8.encodeChars,
      List.flatMap_cons, List.append_assoc]

/-- **A URI shows the text of its path**, once the escapes are decoded. -/
theorem percentDecode_uri (p : Path) : percentDecode p.uri = "file://" ++ p.toString := by
  have hscheme : '%' ∉ "file://".toList := by decide
  have hescaped : (percentEncode p.toString).toList =
      (Utf8.encode p.toString).flatMap escapeByte := String.toList_ofList
  have hbytes : Utf8.encode p.toString = Utf8.encodeChars p.toString.toList :=
    Source.bytes_ofString p.toString
  rw [percentDecode, uri, String.toList_append, hescaped, unescape_append hscheme,
    unescape_flatMap_escapeByte, hbytes, ← Utf8.encodeChars_append, Utf8.decodeString,
    Utf8.decode_encodeChars, String.ofList_append, String.ofList_toList, String.ofList_toList]

end Path

/-! ### Entries -/

namespace DocumentFile

variable {fs : FileSystem} {limit : Option SizeLimit} {path : Path} {file : File}

/-- A path leads to a file that is not too large to be read. -/
structure Readable (fs : FileSystem) (limit : Option SizeLimit) (path : Path) (file : File) :
    Prop where
  no_null : path.hasNull = false
  stat : fs.stat (path.resolve fs.here) = .ok (.file file)
  size : ∀ l ∈ limit, l.isExceededBy file.bytes.length = false

/-- The document of a file, under the URI of its resolved path. -/
def documentOf (fs : FileSystem) (path : Path) (file : File) : Document :=
  ⟨(path.resolve fs.here).uri, .ofString (FileSystem.textOf file.bytes), file.modified⟩

/-- A file that can be read is loaded. -/
theorem load_eq_of_readable (h : Readable fs limit path file) (hhome : ¬ path.AsksForHome) :
    load fs fs path limit = .ok (.ok (documentOf fs path file)) := by
  have hstatus : status fs (path.resolve fs.here) = .ok ⟨file.bytes.length, file.modified⟩ := by
    rw [status, h.stat]
  have hsize : checkSize (path.resolve fs.here) file.bytes.length limit = .ok () := by
    cases hlimit : limit with
    | none => rfl
    | some l =>
      rw [checkSize, h.size l hlimit]
      rfl
  have hread : fs.read (path.resolve fs.here) = .ok file.bytes := by
    rw [FileSystem.read, h.stat]
    rfl
  rw [load, Path.expandHome_eq_self fs hhome]
  show Except.ok (loadAt fs fs path limit) = _
  unfold loadAt
  rw [if_neg (by simp [h.no_null])]
  simp only [bind, Except.bind, pure, Except.pure, hstatus, hsize, hread, documentOf]

/-- Documents of files stand under one URI exactly if the paths resolve alike. -/
theorem uri_documentOf_eq_iff {p q : Path} (f g : File) (hhere : ∀ name ∈ fs.here, Path.IsName name)
    (hp : ∀ name ∈ p.parts, Path.IsName name) (hq : ∀ name ∈ q.parts, Path.IsName name) :
    (documentOf fs p f).uri = (documentOf fs q g).uri ↔ p.resolve fs.here = q.resolve fs.here :=
  ⟨Path.uri_resolve_inj hhere hp hq, congrArg Path.uri⟩

/-- Paths that resolve alike lead to one file. -/
theorem Readable.documentOf_eq {p q : Path} {f g : File} (hp : Readable fs limit p f)
    (hq : Readable fs limit q g) (h : p.resolve fs.here = q.resolve fs.here) :
    documentOf fs p f = documentOf fs q g := by
  have hstat := hp.stat
  rw [h, hq.stat] at hstat
  cases hstat
  rw [documentOf, documentOf, h]

/-- **One entry for each file.**  Two files that can be read are loaded whatever else is stored.
They are stored under one URI exactly if their paths resolve alike, and then as one document; all
other entries stay as they are.  The URI shows the resolved path, once the escapes are decoded. -/
theorem load_uri_eq_iff {a b : String} {f g : File} (s : DocumentStore)
    (hhere : ∀ name ∈ fs.here, Path.IsName name)
    (ha : Readable fs limit (.ofString a) f) (hb : Readable fs limit (.ofString b) g)
    (hahome : ¬ (Path.ofString a).AsksForHome) (hbhome : ¬ (Path.ofString b).AsksForHome) :
    let d := documentOf fs (.ofString a) f
    let e := documentOf fs (.ofString b) g
    load fs fs (.ofString a) limit = .ok (.ok d) ∧ load fs fs (.ofString b) limit = .ok (.ok e) ∧
    (d.uri = e.uri ↔ (Path.ofString a).resolve fs.here = (Path.ofString b).resolve fs.here) ∧
    (∀ uri, ((s.set d).set e).get? uri =
      if uri = d.uri then some d else if uri = e.uri then some e else s.get? uri) ∧
    Path.percentDecode d.uri = "file://" ++ ((Path.ofString a).resolve fs.here).toString := by
  intro d e
  have huri : d.uri = e.uri ↔
      (Path.ofString a).resolve fs.here = (Path.ofString b).resolve fs.here :=
    uri_documentOf_eq_iff f g hhere (fun _ => Path.isName_of_mem_ofString)
      fun _ => Path.isName_of_mem_ofString
  refine ⟨load_eq_of_readable ha hahome, load_eq_of_readable hb hbhome, huri, ?_,
    Path.percentDecode_uri _⟩
  intro uri
  rw [DocumentStore.get?_set, DocumentStore.get?_set]
  by_cases hd : uri = d.uri
  · rw [if_pos hd, if_pos hd]
    split
    · -- under one URI stands the document of one file
      rename_i he
      exact congrArg some (ha.documentOf_eq hb (huri.1 (hd.symm.trans he))).symm
    · rfl
  · rw [if_neg hd, if_neg hd]

/-- A file with a space, an escape and letters beyond ASCII in its path. -/
def awkwardNames : FileSystem where
  here := ["work", "lib"]
  files := [(["work", "été ~", "a%20b.rb"], ⟨[0x61], 7⟩)]

theorem load_uri_eq_iff_awkwardNames :
    let a := "nowhere/../../été ~/./a%20b.rb"
    let b := "/work//~/../été ~/a%20b.rb"
    let d := documentOf awkwardNames (.ofString a) ⟨[0x61], 7⟩
    let e := documentOf awkwardNames (.ofString b) ⟨[0x61], 7⟩
    Readable awkwardNames none (.ofString a) ⟨[0x61], 7⟩ ∧
    Readable awkwardNames none (.ofString b) ⟨[0x61], 7⟩ ∧
    ¬ (Path.ofString a).AsksForHome ∧ ¬ (Path.ofString b).AsksForHome ∧
    load awkwardNames awkwardNames (.ofString a) none = .ok (.ok d) ∧
    load awkwardNames awkwardNames (.ofString b) none = .ok (.ok e) ∧
    d.uri = e.uri ∧ ((DocumentStore.empty.set d).set e).get? d.uri = some d ∧
    Path.percentDecode d.uri = "file:///work/été ~/a%20b.rb" := by
  intro a b d e
  have hhere : ∀ name ∈ awkwardNames.here, Path.IsName name := by decide
  have ha : Readable awkwardNames none (.ofString a) ⟨[0x61], 7⟩ :=
    ⟨by decide, by decide, fun _ h => nomatch h⟩
  have hb : Readable awkwardNames none (.ofString b) ⟨[0x61], 7⟩ :=
    ⟨by decide, by decide, fun _ h => nomatch h⟩
  have hahome : ¬ (Path.ofString a).AsksForHome := by decide
  have hbhome : ¬ (Path.ofString b).AsksForHome := by decide
  have hresolveda : (Path.ofString a).resolve awkwardNames.here =
      ⟨1, ["work", "été ~", "a%20b.rb"]⟩ := by decide
  have hresolvedb : (Path.ofString b).resolve awkwardNames.here =
      ⟨1, ["work", "été ~", "a%20b.rb"]⟩ := by decide
  obtain ⟨hloada, hloadb, huri, hget, hdecode⟩ :=
    load_uri_eq_iff .empty hhere ha hb hahome hbhome
  refine ⟨ha, hb, hahome, hbhome, hloada, hloadb, ?_, ?_, ?_⟩
  · exact huri.2 (hresolveda.trans hresolvedb.symm)
  · rw [hget, if_pos rfl]
  · rw [hdecode, hresolveda]
    decide

/-- The URI of that file. -/
example : (Path.mk 1 ["work", "été ~", "a%20b.rb"]).uri =
    "file:///work/%C3%A9t%C3%A9%20~/a%2520b.rb" := by decide

/-- A tilde that comes to the front only when the dot before it is dropped: there is the file, and
it can be read, but the home of nobody is looked for. -/
theorem load_tildeAfterDot :
    let fs : FileSystem :=
      { here := ["work"], files := [(["work", "~nosuchuser_zz", "a.rb"], ⟨[0x61], 0⟩)] }
    let path := "./~nosuchuser_zz/a.rb"
    path.toList.head? ≠ some '~' ∧ Readable fs none (.ofString path) ⟨[0x61], 0⟩ ∧
    load fs fs (.ofString path) none = .error ⟨"nosuchuser_zz"⟩ := by
  intro fs path
  have hhome : fs.expandHome (.ofString path) = .error ⟨"nosuchuser_zz"⟩ := by decide
  refine ⟨by decide, ⟨by decide, by decide, fun _ h => nomatch h⟩, ?_⟩
  rw [load, hhome]
  rfl

end DocumentFile

end RubyOutline
