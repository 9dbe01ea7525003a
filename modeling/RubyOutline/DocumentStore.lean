/-
RubyOutline/DocumentStore.lean

The documents that are open, each under its URI.  A document is a snapshot: replacing it puts a
new one in its place, and whoever holds the old one keeps it.  The store is a list in which no URI
stands twice; `get?` is its view, and the lemmas below say what each operation does to it.
-/
import RubyOutline.Source

namespace RubyOutline

/-- A text with the version its client gave it. -/
structure Document where
  uri : String
  source : Source
  version : Int
deriving DecidableEq, Repr, Inhabited

structure DocumentStore where
  documents : List Document
  distinct : documents.Pairwise fun a b => a.uri ≠ b.uri

namespace DocumentStore

def empty : DocumentStore := ⟨[], .nil⟩

instance : Inhabited DocumentStore := ⟨empty⟩

def size (s : DocumentStore) : Nat := s.documents.length

def get? (s : DocumentStore) (uri : String) : Option Document :=
  s.documents.find? (·.uri == uri)

def contains (s : DocumentStore) (uri : String) : Bool := (s.get? uri).isSome

/-- The version stored under a URI. -/
def version? (s : DocumentStore) (uri : String) : Option Int := (s.get? uri).map (·.version)

/-- Takes out a document, if it is there. -/
def delete (s : DocumentStore) (uri : String) : DocumentStore :=
  ⟨s.documents.filter (·.uri != uri), s.distinct.filter _⟩

/-- Puts in a document, in place of an older one. -/
def set (s : DocumentStore) (d : Document) : DocumentStore where
  documents := d :: (s.delete d.uri).documents
  distinct := by
    refine .cons (fun e he => ?_) (s.delete d.uri).distinct
    simp only [delete, List.mem_filter, bne_iff_ne, ne_eq] at he
    exact fun h => he.2 h.symm

/-- One operation of a client on the store. -/
inductive Edit
  | set (document : Document)
  | delete (uri : String)
  | clear
deriving DecidableEq, Repr

def apply (s : DocumentStore) : Edit → DocumentStore
  | .set d => s.set d
  | .delete uri => s.delete uri
  | .clear => empty

def applyAll (s : DocumentStore) (edits : List Edit) : DocumentStore :=
  edits.foldl apply s

/-! ### What the operations do to the view -/

theorem get?_empty (uri : String) : empty.get? uri = none := rfl

theorem uri_of_get? {s : DocumentStore} {uri : String} {d : Document} (h : s.get? uri = some d) :
    d.uri = uri := by
  simpa using List.find?_some h

theorem find?_filter_uri (ds : List Document) (u uri : String) :
    (ds.filter (·.uri != u)).find? (·.uri == uri) =
      if uri = u then none else ds.find? (·.uri == uri) := by
  induction ds with
  | nil => simp
  | cons d ds ih =>
    rw [List.filter_cons]
    by_cases hd : d.uri = u <;> by_cases hu : d.uri = uri <;> grind

theorem get?_delete (s : DocumentStore) (u uri : String) :
    (s.delete u).get? uri = if uri = u then none else s.get? uri :=
  find?_filter_uri s.documents u uri

theorem get?_set (s : DocumentStore) (d : Document) (uri : String) :
    (s.set d).get? uri = if uri = d.uri then some d else s.get? uri := by
  have h : (s.set d).get? uri = if d.uri = uri then some d else (s.delete d.uri).get? uri := by
    by_cases hu : d.uri = uri <;> simp [get?, set, hu]
  rw [h, get?_delete]
  grind

end DocumentStore

end RubyOutline
