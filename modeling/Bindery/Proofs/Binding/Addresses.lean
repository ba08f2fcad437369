import Bindery.Binding.Module
import Bindery.Decl.Validation
import Bindery.Proofs.Binding.Runs

/-!
# Addresses of overloaded members

A registration takes the address of a member of a wrapper class.  If the wrapper class has several
generated members of that name, the address is ambiguous until it is cast to the type of one of
them.  Whether the address is cast depends on the function alone: on the transformers asked for it,
on the user, and on the functions of its name in the scope that declares it.  The functions that
meet in a wrapper class come from several scopes, though.

## Main definitions

* `NodeKind.generatedNames`, `CodeTree.generatedNames` — the functions that a node, or a wrapper
  class, consists of.
* `CodeTree.Ambiguous` — several generated members of a wrapper class have the name.

## Main results

* `isSome_signature_iff` — which registrations cast the addresses that they refer to.
* `ambiguous_cast_iff` — **all ambiguous addresses are cast if and only if each is that of a
  function that is not transformed, and which the user wants to be cast or which is overloaded in
  its own scope.**
-/

namespace Bindery

/-- The names of the functions that the node writes into its wrapper class: a stand-in with its
default implementation, if it has one, and a function that transformers generate. -/
def NodeKind.generatedNames : NodeKind → List String
  | .shim n => n.name :: if n.kind.dispatches then [n.defaultName] else []
  | .transformed n => [n.name]
  | _ => []

namespace CodeTree

/-- The names of the generated functions of a wrapper class, as often as there are functions. -/
def generatedNames (t : CodeTree) (q : NodeId) : List String :=
  (t.children q).flatMap fun n => (t.kind? n).elim [] NodeKind.generatedNames

/-- The function is a member of a wrapper class that has several generated members of its name. -/
def Ambiguous (t : CodeTree) (function : String) : Prop :=
  ∃ q w name, t.kind? q = some (.wrapper w) ∧ function = s!"{w.fullName}::{name}" ∧
    2 ≤ (t.generatedNames q).count name

end CodeTree

theorem DeclGraph.castsAddress_iff {g : DeclGraph} {f : DeclId} : g.castsAddress f ↔
    (g.config f).transformers.isEmpty ∧
      ((g.config f).createWithSignature ∨ g.overloads f ≠ []) := by
  unfold castsAddress needsSignature
  rw [Bool.and_eq_true, Bool.or_eq_true, Bool.not_eq_true', List.isEmpty_eq_false_iff]

namespace BindingSetup

variable {s : BindingSetup} {b : Binder} {ids : List DeclId} {n : NodeId} {m : MakerNode}

/-- **A registration casts the addresses that it refers to if and only if its function is not
transformed, and the user wants it to be cast or it is overloaded in its own scope.** -/
theorem isSome_signature_iff (h : s.bind ids = .ok b) (hm : b.tree.kind? n = some (.maker m)) :
    ∃ f, b.tree.decl? n = some f ∧ ∀ r ∈ m.addresses, r.2.isSome ↔
      (s.graph.config f).transformers.isEmpty ∧
        ((s.graph.config f).createWithSignature ∨ s.graph.overloads f ≠ []) := by
  obtain ⟨f, hf, hcasts⟩ := (bind_informed h).known n _ hm
  refine ⟨f, hf, fun r hr => ?_⟩
  rw [hcasts r hr, DeclGraph.castsAddress_iff]

/-- **All ambiguous addresses are cast if and only if each is that of a function that is not
transformed, and which the user wants to be cast or which is overloaded in its own scope.** -/
theorem ambiguous_cast_iff (h : s.bind ids = .ok b) :
    (∀ n m, b.tree.kind? n = some (.maker m) → ∀ r ∈ m.addresses, b.tree.Ambiguous r.1 →
      r.2.isSome) ↔
    ∀ n m f, b.tree.kind? n = some (.maker m) → b.tree.decl? n = some f →
      (∃ r ∈ m.addresses, b.tree.Ambiguous r.1) →
        (s.graph.config f).transformers.isEmpty ∧
          ((s.graph.config f).createWithSignature ∨ s.graph.overloads f ≠ []) := by
  constructor
  · rintro hcast n m f hm hf ⟨r, hr, hambiguous⟩
    obtain ⟨f', hf', hiff⟩ := isSome_signature_iff h hm
    obtain rfl : f = f' := Option.some.inj (hf.symm.trans hf')
    exact (hiff r hr).mp (hcast n m hm r hr hambiguous)
  · intro hall n m hm r hr hambiguous
    obtain ⟨f, hf, hiff⟩ := isSome_signature_iff h hm
    exact (hiff r hr).mpr (hall n m f hm hf ⟨r, hr, hambiguous⟩)

/-! ### Functions of one name that meet in a wrapper class -/

/-- A protected function of a class, and one of the same name in an heir; `cast` is set if the user
wants their addresses to be cast. -/
def protectedPair (cast : Bool) : DeclGraph :=
  ⟨#[{ name := "::", kind := .ns [1, 3] },
    { name := "Base", kind := .cls { members := [2] }, parent := some DeclGraph.root },
    { name := "f", parent := some 1, access := .prot, config := { createWithSignature := cast },
      kind := .callable {
        kind := .memberFunction, returnType := some (.fundamental .int),
        args := [{ name := "i", type := .fundamental .int }] } },
    { name := "Derived", kind := .cls { bases := [{ base := 1 }], members := [4] },
      parent := some DeclGraph.root },
    { name := "f", parent := some 3, access := .prot, config := { createWithSignature := cast },
      kind := .callable {
        kind := .memberFunction, returnType := some (.fundamental .int) } }]⟩

/-- Their addresses are ambiguous in the wrapper class of the heir, and cast if the user wants
it. -/
theorem ambiguous_cast_protectedPair :
    ∃ (s : BindingSetup) (b : Binder) (n : NodeId) (m : MakerNode),
      s.bind [1, 3] = .ok b ∧ b.tree.kind? n = some (.maker m) ∧ b.tree.Ambiguous m.function ∧
      ∀ n m, b.tree.kind? n = some (.maker m) → ∀ r ∈ m.addresses, b.tree.Ambiguous r.1 →
        r.2.isSome := by
  let s : BindingSetup := { graph := protectedPair true, options := {} }
  let maker : MakerNode := {
    style := .member, pythonName := "f", fullName := "::Derived::f"
    function := "Derived_wrapper::f", signature := some "int ( Derived_wrapper::* )(  )" }
  let w : WrapperNode := ⟨"Derived_wrapper", "Derived_wrapper", "::Derived"⟩
  obtain ⟨b, hb, htree⟩ := Except.exists_eq_ok_of_any (x := s.bind [1, 3])
    (p := fun b => b.tree.kind? 11 = some (.wrapper w) ∧
      2 ≤ (b.tree.generatedNames 11).count "f" ∧ b.tree.kind? 13 = some (.maker maker) ∧
      ∀ n ∈ List.range b.tree.size, (b.tree.kind? n).map NodeKind.describe = some "maker" →
        (b.tree.decl? n).all s.graph.castsAddress) (by decide +kernel)
  obtain ⟨hwrapper, hcount, hmaker, hall⟩ := of_decide_eq_true htree
  refine ⟨s, b, 13, maker, hb, hmaker, ⟨11, w, "f", hwrapper, rfl, hcount⟩,
    (ambiguous_cast_iff hb).mpr fun n m f hm hf _ => ?_⟩
  have hcasts := hall n (List.mem_range.mpr (CodeTree.lt_size_of_kind? hm)) (by rw [hm]; rfl)
  rw [hf] at hcasts
  exact DeclGraph.castsAddress_iff.mp hcasts

/-- Otherwise they are ambiguous and not cast: neither is overloaded in its own scope. -/
theorem ambiguous_not_cast : ∃ (s : BindingSetup) (b : Binder),
    s.graph.validate = .ok () ∧ s.bind [1, 3] = .ok b ∧
      ¬ ∀ n m, b.tree.kind? n = some (.maker m) → ∀ r ∈ m.addresses, b.tree.Ambiguous r.1 →
        r.2.isSome := by
  let s : BindingSetup := { graph := protectedPair false, options := {} }
  let maker : MakerNode := {
    style := .member, pythonName := "f", fullName := "::Derived::f"
    function := "Derived_wrapper::f" }
  let w : WrapperNode := ⟨"Derived_wrapper", "Derived_wrapper", "::Derived"⟩
  obtain ⟨b, hb, htree⟩ := Except.exists_eq_ok_of_any (x := s.bind [1, 3])
    (p := fun b => b.tree.kind? 11 = some (.wrapper w) ∧
      2 ≤ (b.tree.generatedNames 11).count "f" ∧ b.tree.kind? 13 = some (.maker maker))
    (by decide +kernel)
  obtain ⟨hwrapper, hcount, hmaker⟩ := of_decide_eq_true htree
  refine ⟨s, b, by decide +kernel, hb, fun hcast => ?_⟩
  have hsome := hcast 13 maker hmaker (maker.function, maker.signature) List.mem_cons_self
    ⟨11, w, "f", hwrapper, rfl, hcount⟩
  cases hsome

end BindingSetup

end Bindery
