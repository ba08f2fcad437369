import Bindery.Proofs.Binding.Methods
import Bindery.Proofs.Code.WrapperFunctions

/-!
# What registrations refer to

The registration of a function or of a variable refers to functions by their names: to functions
of the user, to adapters in front of the body of the module, and to members of wrapper classes.
Names of the user begin with the two colons of the global scope; names of wrapper classes are made
of identifiers.

## Main definitions

* `NodeKind.references` — the functions that a registration refers to.
* `NodeKind.Quiet` — a node with nothing below it refers to nothing.
* `BindingSetup.exposerName`, `BindingSetup.wrapperName` — the identifier of a class, and the name
  of its wrapper class.
* `Binder.Grounded` — what a registration refers to is there.

## Main results

* `reference_of_mem_addresses` — what the registration of a method refers to.
* `wrapperName_append_ne` — a member of a wrapper class is not taken for a function of the user.
-/

namespace Bindery

open CodeTree

/-- The functions to which a registration refers: the function itself and its default
implementation, or what reads and writes a variable. -/
def NodeKind.references : NodeKind → List String
  | .maker m => m.addresses.map (·.1)
  | .property p => p.getter :: p.setter.toList
  | _ => []

/-- A node with nothing below it that refers to nothing. -/
structure NodeKind.Quiet (kind : NodeKind) : Prop where
  leaf : ¬ kind.isCompound
  silent : kind.references = []

/-- A registration at the node `p`, about the declaration `id`, refers to something that is there:
to a name of the global scope; from the body, to an adapter in front of it; or, from the
registration of a class, to a function that a member of its wrapper class defines for the
declaration. -/
inductive Binder.Grounded (b : Binder) (body p : NodeId) (id : DeclId) : String → Prop
  | declared (name : String) : Grounded b body p id ("::" ++ name)
  | adapter {q : NodeId} {a : TransformedNode} : p = body → q ∈ b.tree.children root →
      b.tree.decl? q = some id → b.tree.kind? q = some (.transformed a) →
      Grounded b body p id a.name
  | member {cls : DeclId} {w : WrapperClass} {q : NodeId} {kind : NodeKind} {name : String} :
      (cls, p) ∈ b.classNodes → b.wrapper? cls = some w → q ∈ b.tree.children w.node →
      b.tree.decl? q = some id → b.tree.kind? q = some kind → kind.Defines name →
      Grounded b body p id (w.name ++ "::" ++ name)

namespace DeclGraph

theorem exists_fullName_eq (g : DeclGraph) (id : DeclId) :
    ∃ name, g.fullName id = "::" ++ name := by
  unfold fullName
  split
  · exact ⟨"", rfl⟩
  · exact ⟨_, rfl⟩

end DeclGraph

/-! ### Names of wrapper classes -/

namespace Text

theorem exists_spellChar_eq (c : Char) : ∃ d ds, spellChar c = d :: ds ∧ d ≠ ':' := by
  unfold spellChar
  split
  · next word hword =>
    unfold spelledOut? at hword
    split at hword <;> cases hword <;> exact ⟨_, _, rfl, by decide⟩
  · split
    · next hname =>
      refine ⟨c, [], rfl, ?_⟩
      rintro rfl
      exact absurd hname (by decide)
    · exact ⟨_, _, rfl, by decide⟩

/-- A name that is spelled out does not begin with a colon. -/
theorem spellName_head? (name : List Char) : (spellName name).head? ≠ some ':' := by
  unfold spellName
  split
  · exact fun h => nomatch h
  · next c rest _ =>
    obtain ⟨d, ds, hc, hd⟩ := exists_spellChar_eq c
    rw [hc]
    exact fun h => hd (Option.some.inj h)
  · exact fun h => nomatch h

/-- An identifier does not begin with a colon. -/
theorem identifierChars_head? (name : List Char) : (identifierChars name).head? ≠ some ':' := by
  unfold identifierChars
  split
  · next hname =>
    cases name with
    | nil => exact fun h => nomatch h
    | cons c rest =>
      intro h
      obtain rfl : c = ':' := Option.some.inj h
      have hstart : (isNameStart ':' && rest.all isNameChar) = true := hname
      exact absurd (Bool.and_eq_true_iff.mp hstart).1 (by decide)
  · have hspelled := spellName_head? name
    split
    · next c rest hc =>
      rw [hc] at hspelled
      split
      · exact fun h => nomatch h
      · exact hspelled
    · exact fun h => nomatch h

end Text

namespace BindingSetup

variable {s : BindingSetup} {cls : DeclId} {m : Method}

/-- The identifier that the variables of the registration of a class are called after. -/
def exposerName (s : BindingSetup) (cls : DeclId) : String :=
  Text.identifierOf (DeclGraph.withoutRoot (s.graph.fullName cls))

/-- The name that the wrapper class of a class has, if there is one. -/
def wrapperName (s : BindingSetup) (cls : DeclId) : String :=
  Text.identifierOf (DeclGraph.withoutRoot (s.graph.fullName cls)) ++ "_wrapper"

/-- A member of a wrapper class is no function of the global scope. -/
theorem wrapperName_append_ne (s : BindingSetup) (cls : DeclId) (x name : String) :
    s.wrapperName cls ++ "::" ++ x ≠ "::" ++ name := by
  intro h
  have hchars := congrArg (fun t : String => t.toList.head?) h
  have hfirst := Text.identifierChars_head?
    (DeclGraph.withoutRoot (s.graph.fullName cls)).toList
  simp only [wrapperName, Text.identifierOf, String.toList_append, String.toList_ofList] at hchars
  cases hid : Text.identifierChars (DeclGraph.withoutRoot (s.graph.fullName cls)).toList with
  | nil =>
    rw [hid] at hchars
    exact absurd hchars (by simp)
  | cons c rest =>
    rw [hid] at hchars hfirst
    exact hfirst (by simpa using hchars)

/-- The registration of a method refers to the method itself, or to functions that its stand-in in
the wrapper class defines. -/
theorem reference_of_mem_addresses {kind : ShimKind} {w : String} {policy : CallPolicy}
    {r : String × Option String} (hr : r ∈ (m.maker s.graph w (.shim kind) policy).addresses) :
    r.1 = m.fullName ∨
      ∃ name, (NodeKind.shim (m.shim s.graph kind)).Defines name ∧ r.1 = w ++ "::" ++ name := by
  have hname : (NodeKind.shim (m.shim s.graph kind)).Defines m.decl.name :=
    NodeKind.defines_shim (m.shim s.graph kind)
  have hdefault : kind.dispatches → (NodeKind.shim (m.shim s.graph kind)).Defines
      ("default_" ++ m.pythonName) := NodeKind.defines_default (s := m.shim s.graph kind)
  have hjoin : w ++ "::default_" ++ m.pythonName = w ++ "::" ++ ("default_" ++ m.pythonName) := by
    have hcolons : "::default_" = "::" ++ "default_" := by decide
    rw [hcolons, String.append_assoc, String.append_assoc, String.append_assoc]
  cases kind with
  | overridable =>
    rcases List.mem_cons.mp hr with rfl | hr
    · exact .inl rfl
    · rw [List.mem_singleton.mp hr]
      exact .inr ⟨_, hdefault rfl, hjoin⟩
  | pureVirtual | privPureVirtual => exact .inl (congrArg Prod.fst (List.mem_singleton.mp hr))
  | prot | protStatic | protPureVirtual =>
    exact .inr ⟨_, hname, congrArg Prod.fst (List.mem_singleton.mp hr)⟩
  | protOverridable =>
    rw [List.mem_singleton.mp hr]
    exact .inr ⟨_, hdefault rfl, hjoin⟩

end BindingSetup

end Bindery
