/-
RubyOutline/Proofs/Outline/Names.lean

Which entries of an outline can be without a name.  Attributes are named only if there is
something to name them by, and callbacks carry their macro and its parentheses whatever the
argument is.  What is left are classes, modules and methods, which are listed under the name they
have, and tests, which are listed under the name of their first argument
(`SyntaxNode.NameGiven`).  Where these have names, so has every symbol
(`name_ne_empty_of_nameGiven`).

The name of an argument is empty in one case only: a constant with an empty name, by itself or with
a method called on it.  Literals without text have no name at all, and a path has its `::`.
-/
import RubyOutline.Proofs.Everywhere

namespace RubyOutline

variable {table : MacroTable}

/-! ### Names of contributions -/

/-- A node that is listed under a name it was given has one: a class, a module and a method its
own, and a test that of its first argument. -/
def SyntaxNode.NameGiven (table : MacroTable) (n : SyntaxNode) : Prop :=
  match n.form with
  | .classDecl name _ _ _ => name ≠ ""
  | .moduleDecl name _ _ => name ≠ ""
  | .methodDecl name _ _ => name ≠ ""
  | .call c => table.isTestAlias c.method → ∀ first ∈ c.arguments.head?, first.displayName ≠ some ""
  | _ => True

theorem name_ne_empty_of_declaredField {n : SyntaxNode} {info : SymbolInfo}
    (h : n.declaredField = some info) : info.name ≠ "" := by
  unfold SyntaxNode.declaredField at h
  split at h
  · split at h
    · cases h
    · rename_i hvalue
      cases h
      exact hvalue
  · split at h
    · cases h
    · rename_i hvalue
      cases h
      exact hvalue
  · cases h

/-- A leaf of a call has a name, unless it is a test whose first argument has an empty one. -/
theorem name_ne_empty_of_declaredLeaves {superclass : Option String} {range : SourceRange}
    {c : Call SyntaxNode} {leaves : List SymbolInfo}
    (htest : table.isTestAlias c.method → ∀ first ∈ c.arguments.head?, first.displayName ≠ some "")
    (h : c.declaredLeaves table superclass range = some leaves) {info : SymbolInfo}
    (hinfo : info ∈ leaves) : info.name ≠ "" := by
  cases Call.declares_of_declaredLeaves table h with
  | test onSelf hname hbase =>
    obtain ⟨name, hdisplay, rfl⟩ := List.mem_map.1 hinfo
    obtain ⟨first, hfirst, hdisplay⟩ := Option.bind_eq_some_iff.1 (Option.mem_toList.1 hdisplay)
    rintro rfl
    exact htest hname first hfirst hdisplay
  | callback =>
    obtain ⟨name, _, rfl⟩ := List.mem_map.1 hinfo
    simp [callbackLabel]
  | attributes =>
    obtain ⟨argument, _, hfield⟩ := List.mem_filterMap.1 hinfo
    exact name_ne_empty_of_declaredField hfield

theorem SyntaxNode.NameGiven.contributes {n : SyntaxNode} (h : n.NameGiven table) :
    n.Contributes table (·.name ≠ "") := by
  intro superclass info hinfo
  obtain ⟨range, form⟩ := n
  cases form with
  | classDecl name nameRange superclass body | moduleDecl name nameRange body
  | methodDecl name nameRange body =>
    rw [List.mem_singleton.1 hinfo]
    exact h
  | call c =>
    simp only [contribution] at hinfo
    split at hinfo
    · rename_i leaves hleaves
      exact name_ne_empty_of_declaredLeaves h hleaves hinfo
    · cases hinfo
  | _ => cases hinfo

/-- If names are given throughout a tree, every symbol of its outline has a name. -/
theorem name_ne_empty_of_nameGiven {root : SyntaxNode}
    (h : root.Everywhere (·.NameGiven table)) :
    ∀ s ∈ (outline table root).flatMap Symbol.walk, s.info.name ≠ "" :=
  forall_mem_outline (h.mono fun _ hn => hn.contributes)

/-! ### Names of arguments -/

theorem constantPathName_ne_empty {segments : List String} {rooted : Bool}
    (h : rooted = true ∨ 2 ≤ segments.length) : constantPathName segments rooted ≠ "" := by
  unfold constantPathName
  rcases h with rfl | h
  · simp
  · match segments, h with
    | first :: second :: rest, _ =>
      cases rooted <;> simp [String.intercalate_cons_cons]

/-- Literals are named by their text if there is any. -/
theorem nonempty?_ne (s : String) : nonempty? s ≠ some "" := by
  intro h
  unfold nonempty? at h
  split at h
  · cases h
  · rename_i hs
    exact hs (Option.some.inj h)

/-- An argument with an empty name is a constant with an empty name, or the call of a method on
one. -/
theorem SyntaxNode.constantName_of_displayName {n : SyntaxNode} (h : n.displayName = some "") :
    n.constantName = some "" ∨
      ∃ c receiver, n.form = .call c ∧ c.receiver = some receiver ∧
        receiver.constantName = some "" := by
  obtain ⟨range, form⟩ := n
  cases form with
  | stringLiteral fragments interpolated =>
    simp only [displayName] at h
    split at h
    · cases h
    · exact absurd h (nonempty?_ne _)
  | symbolLiteral value => exact absurd h (nonempty?_ne value)
  | constantRef | constantPath => exact .inl h
  | call c =>
    obtain ⟨receiver, hreceiver, hname⟩ := Option.bind_eq_some_iff.1 h
    exact .inr ⟨c, receiver, rfl, hreceiver, hname⟩
  | lambda body =>
    have hanonymous : anonymous = "" := Option.some.inj h
    exact absurd hanonymous (by decide)
  | _ => cases h

end RubyOutline
