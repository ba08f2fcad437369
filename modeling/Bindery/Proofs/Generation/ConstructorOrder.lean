import Bindery.Proofs.Binding.Completion
import Bindery.Proofs.Generation.Failures
import Bindery.Proofs.Generation.Wrapping

/-!
# The order of constructors

The registration of a class begins with the constructors of the class, in the order in which the
class lists its members.  The order of declarations would put them in the order of their lines, but
constructors are not bound in that order.

## Main definitions

* `CodeTree.constructors` — the constructors that are registered with a class.
* `CodeTree.ConstructorsByLine` — they stand in the order of their lines.
* `DeclGraph.listedConstructors` — the constructors that can be registered, as a class lists
  them.

## Main results

* `Finds.complete` — the registrations of a finished module are complete.
* `Generation.finish_constructorsByLine_iff` — **constructors come first, and stand in the order of
  their lines exactly if the class lists them so.**
* `Generation.finish_not_constructorsByLine` — it need not list them so.
-/

namespace Bindery

open Binding Binder CodeTree

/-! ### Constructors in the tree -/

namespace CodeTree

variable {t : CodeTree} {q : NodeId} {entries : List (NodeKind × Option DeclId)}

/-- The constructors that are registered with a class. -/
def constructors (t : CodeTree) (q : NodeId) : List NodeId :=
  (t.children q).filter fun n => (t.kind? n).any (· matches .constructor _)

/-- The constructors that are registered with a class stand in the order of their lines. -/
def ConstructorsByLine (t : CodeTree) (g : DeclGraph) (q : NodeId) : Prop :=
  ((t.constructors q).filterMap t.decl?).Pairwise fun x y => g.line x ≤ g.line y

instance (t : CodeTree) (g : DeclGraph) (q : NodeId) : Decidable (t.ConstructorsByLine g q) :=
  inferInstanceAs (Decidable (List.Pairwise _ _))

theorem constructorsByLine_of_nil {g : DeclGraph} (h : t.constructors q = []) :
    t.ConstructorsByLine g q := by
  unfold ConstructorsByLine
  rw [h]
  exact List.Pairwise.nil

/-- Constructors stand in the order of their lines if the declarations that they are about do. -/
theorem constructorsByLine_iff {g : DeclGraph} {ids : List DeclId}
    (h : (t.constructors q).map t.decl? = ids.map some) :
    t.ConstructorsByLine g q ↔ ids.Pairwise fun x y => g.line x ≤ g.line y := by
  have hids : (t.constructors q).filterMap t.decl? = ids := by
    calc (t.constructors q).filterMap t.decl?
        = ((t.constructors q).map t.decl?).filterMap id := by
          rw [List.filterMap_map, Function.id_comp]
      _ = (ids.map some).filterMap id := by rw [h]
      _ = ids.filterMap some := by rw [List.filterMap_map, Function.id_comp]
      _ = ids := List.filterMap_some
  unfold ConstructorsByLine
  rw [hids]

/-- Where a node begins with constructors of a class, these are all that it has. -/
theorem BeginsWith.constructors (h : t.BeginsWith q entries)
    (hentries : ∀ e ∈ entries, ∃ k, e.1 = .constructor k) :
    t.constructors q <+: t.children q ∧ (t.constructors q).map t.decl? = entries.map (·.2) := by
  obtain ⟨front, back, hsplit, hkinds, hdecls, hback⟩ := h.split
  have hfront : front.filter (fun n => (t.kind? n).any (· matches .constructor _)) = front := by
    refine List.filter_eq_self.mpr fun n hn => ?_
    have hmem : t.kind? n ∈ entries.map (some ·.1) := hkinds ▸ List.mem_map_of_mem hn
    obtain ⟨e, he, heq⟩ := List.mem_map.mp hmem
    obtain ⟨k, hk⟩ := hentries e he
    rw [← heq, hk]
    rfl
  have hnone : back.filter (fun n => (t.kind? n).any (· matches .constructor _)) = [] := by
    refine List.filter_eq_nil_iff.mpr fun n hn => ?_
    obtain ⟨kind, hkind, hnot⟩ := hback n hn
    rw [hkind]
    cases kind <;> first | exact Bool.false_ne_true | cases hnot
  have heq : t.constructors q = front := by
    unfold CodeTree.constructors
    rw [hsplit, List.filter_append, hfront, hnone, List.append_nil]
  rw [heq, hsplit]
  exact ⟨List.prefix_append front back, hdecls⟩

end CodeTree

/-- The constructors of a class that can be registered, as the class lists them: public ones with
parameters that neither copy nor come from the compiler, take part in the module, and have a call
policy. -/
def DeclGraph.listedConstructors (g : DeclGraph) (options : ModuleOptions)
    (rules : List PolicyRule) (cls : DeclId) : List DeclId :=
  ((g.callables cls).filter fun (id, c) =>
    c.isConstructor && !c.isCopyConstructor && !c.args.isEmpty &&
    (g.get? id).any (fun d => d.access == .pub && !d.isArtificial) &&
    decide (g.TakesPart options id) && (g.policy? rules id).isSome).map (·.1)

/-! ### One registration of each class -/

/-- The same registrations are noted. -/
def Binder.SameNodes (b b' : Binder) : Prop := b'.classNodes = b.classNodes

instance : IsPreorder Binder SameNodes where
  refl _ := rfl
  trans _ _ _ h h' := Eq.trans h' h

namespace BindingSetup

variable {s : BindingSetup} {candidates : List DeclId} {body n q : NodeId} {b b' : Binder}
  {c cls : DeclId} {α : Type} {m : Binding α}

theorem sameNodes_of_aside (h : Moves Aside m) : Moves SameNodes m :=
  fun b a b' hrun => (h b a b' hrun).classNodes

/-- Containers are not noted. -/
theorem sameNodes_registerContainers : Moves SameNodes (s.registerContainers body) := by
  unfold registerContainers
  refine Moves.get.bind fun b => Moves.forM _ fun q _ => ?_
  obtain ⟨⟨fullName, id, kind⟩, position⟩ := q
  show Moves _ (s.registerContainer body position fullName id kind)
  unfold registerContainer
  refine (sameNodes_of_aside (s.aside_pythonName id)).bind fun pythonName => ?_
  refine (sameNodes_of_aside (s.aside_exposer id)).bind fun exposer => ?_
  refine Moves.bind (fun b n b' h => ?_) fun node => Moves.bind (fun b n b' h => ?_) fun _ =>
    Moves.bind (fun b u b' h => ?_) fun _ b u b' h => ?_
  · obtain ⟨-, t, -, rfl⟩ := placeAt_ok h
    rfl
  · obtain ⟨-, t, -, rfl⟩ := place_ok h
    rfl
  · obtain ⟨t, rfl, -⟩ := addHeaders_ok h
    rfl
  · obtain rfl := run_modify_eq_ok.mp h
    rfl

theorem sameNodes_includeHeaders : Moves SameNodes s.includeHeaders := by
  unfold includeHeaders
  refine Moves.get.bind fun b => (Moves.lift_tree _).bind fun headers => ?_
  refine Moves.forM headers fun header _ b u b' h => ?_
  obtain ⟨t, -, rfl⟩ := editTree_ok h
  rfl

/-- **A class has one registration**, also if it is of the standard library and used as a container
besides. -/
theorem bind_sole {o : EmissionOrder} (hs : s.graph.Scoped)
    (hreached : ∀ c ∈ candidates, ∃ l, s.graph.Reached c l ∧ ∀ x ∈ l, ¬ s.graph.isClass x)
    (ho : s.graph.order candidates = .ok o) (h : s.bind o.declarations = .ok b)
    (hn : (c, n) ∈ b.classNodes) : b.Sole c n := by
  obtain ⟨t, body, u, hmodule, hbody, hrun⟩ := bind_ok h
  obtain ⟨b₁, b₂, v, w, hregister, hcontainers, hinclude⟩ := bindAll_ok hrun
  -- all registrations are noted before the first container comes
  have hnodes : b.classNodes = b₁.classNodes :=
    (sameNodes_includeHeaders _ _ _ hinclude).trans (sameNodes_registerContainers _ _ _ hcontainers)
  obtain ⟨rest, hlaid⟩ := registers_laid hmodule hbody hregister
  have hbound : s.Bound candidates b₁.tree body [] rest := ⟨hs, hreached, o, ho, hlaid⟩
  have hledger : s.LedgerRun o.declarations body { tree := t } b₁ :=
    Moves.forM _ (fun id hid => s.moves_register_noted hid) _ _ _ hregister
  have hrecorded := (recorded_ofModule hmodule).run hledger
  have haccounted := (accounted_ofModule hmodule hbody).run hledger
  have hshown : ∀ n, (c, n) ∈ b₁.classNodes →
      n ∈ b₁.tree.descendants root ∧ b₁.tree.part? n = some (.cls c) := by
    intro n hn
    obtain ⟨-, hdecl, r, hr⟩ := hrecorded.node c n hn
    refine ⟨haccounted.mem_descendants_root (by rw [hr]; rfl), ?_⟩
    unfold CodeTree.part?
    rw [hr, hdecl]
    rfl
  intro m hm
  rw [hnodes] at hn hm
  obtain ⟨hmem, hpart⟩ := hshown n hn
  obtain ⟨hmem', hpart'⟩ := hshown m hm
  exact hbound.unique hmem' hmem hpart' hpart List.not_mem_nil List.not_mem_nil

/-! ### Constructors of a class -/

/-- What a constructor has to be that Python may call. -/
theorem callableConstructor_iff {id : DeclId} {c : Callable} : ((do
      if !c.isConstructor || c.isCopyConstructor then return false
      let d ← s.graph.decl id
      if d.access ≠ .pub || d.isArtificial then return false
      s.isExportable id : Except MissingDecl Bool) = .ok true) ↔
    c.isConstructor ∧ c.isCopyConstructor = false ∧
      (s.graph.get? id).any (fun d => d.access == .pub && !d.isArtificial) ∧
      s.isExportable id = .ok true := by
  unfold DeclGraph.decl
  cases c.isConstructor with
  | false => simp [Except.pure_eq_ok]
  | true =>
    cases c.isCopyConstructor with
    | true => simp [Except.pure_eq_ok]
    | false =>
      cases s.graph.get? id with
      | none => simp [Except.bind_eq_ok]
      | some d => by_cases hpublic : d.access = .pub <;> by_cases hmade : d.isArtificial <;>
          simp [Except.bind_eq_ok, Except.pure_eq_ok, hpublic, hmade]

/-- Where those take part that do, the constructors that are registered are those that a class
lists. -/
theorem map_listedConstructors {ctors : List (DeclId × Callable)}
    (hexportable : ∀ id, s.isExportable id = .ok true ↔ s.graph.TakesPart s.options id)
    (h : s.callableConstructors cls = .ok ctors) :
    ((ctors.filter fun ctor => !ctor.2.args.isEmpty).filter s.hasPolicy).map (some ·.1) =
      (s.graph.listedConstructors s.options s.rules cls).map some := by
  unfold DeclGraph.listedConstructors
  rw [Except.filterM_eq_filter h, List.filter_filter, List.filter_filter, List.map_map]
  congr 1
  refine List.filter_congr fun ctor hctor => ?_
  rw [Bool.eq_iff_iff]
  simp only [Bool.and_eq_true, Except.toOption_eq_true_iff, callableConstructor_iff,
    Bool.not_eq_true', decide_eq_true_eq, hexportable, hasPolicy]
  tauto

end BindingSetup

namespace Generation

variable {g : DeclGraph} {options : ModuleOptions} {rules : List PolicyRule} {s : Generation}
  {t : CodeTree} {b : Binder} {q : NodeId} {c : DeclId}

/-- A class has one registration. -/
theorem Finds.sole {found : Candidates} {o : EmissionOrder}
    (h : s.Finds g options rules found o b) (hg : g.Scoped) (hq : (c, q) ∈ b.classNodes) :
    b.Sole c q :=
  BindingSetup.bind_sole (s := s.setup g options rules) hg
    (fun _ hid => DeclGraph.reached_of_mem_candidates hg h.offered hid) h.ordered h.bound hq

/-- The registrations of a finished module are complete. -/
theorem Finds.complete {found : Candidates} {o : EmissionOrder}
    (h : s.Finds g options rules found o b) (hg : g.Scoped) (hq : (c, q) ∈ b.classNodes) :
    (s.setup g options rules).Complete b c q := by
  obtain ⟨body, hunderway⟩ := BindingSetup.bind_underway h.bound
  exact hunderway.complete (c, q) hq List.not_mem_nil (h.sole hg hq)

/-- The constructors that are registered with a class come first below its registration.  There are
none, or they are those that the class lists, in its order; there are none with a container of the
standard library, and with an abstract class that has no wrapper class. -/
theorem finish_lists_constructors {r : ClassNode} (hg : g.Scoped)
    (hfinish : finish g options rules = .ok s) (htree : s.tree? = some t)
    (hr : t.kind? q = some (.cls r)) (hq : t.decl? q = some c) :
    t.constructors q <+: t.children q ∧
    (t.constructors q = [] ∨
      (t.constructors q).map t.decl? = (g.listedConstructors options rules c).map some) ∧
    (¬ g.isStd c → ¬ (g.isAbstract c ∧ r.wrapper = none) →
      (t.constructors q).map t.decl? = (g.listedConstructors options rules c).map some) := by
  obtain ⟨found, o, b, hfinds⟩ := finish_ok hfinish
  obtain rfl := Option.some.inj (htree.symm.trans hfinds.tree)
  obtain ⟨body, hunderway⟩ := BindingSetup.bind_underway hfinds.bound
  obtain ⟨c', hc', hshown⟩ := (BindingSetup.bind_recorded hfinds.bound).shown q r hr
  obtain rfl : c = c' := Option.some.inj (hq.symm.trans hc')
  by_cases hnoted : ∃ c, (c, q) ∈ b.classNodes
  · obtain ⟨c', hnoted⟩ := hnoted
    obtain rfl : c = c' := Option.some.inj (hq.symm.trans (hunderway.node c' q hnoted).1)
    obtain ⟨entries, hexposes, hbegins⟩ := (hfinds.complete hg hnoted).exposes
    obtain ⟨hfirst, hdecls⟩ := hbegins.constructors hexposes.constructors
    obtain ⟨ctors, hctors, hentries⟩ := hexposes.decls
    rw [BindingSetup.map_listedConstructors (fun _ => hfinds.isExportable_iff) hctors,
      ← hdecls] at hentries
    refine ⟨hfirst, ?_, fun hstd hopen => ?_⟩
    · split at hentries
      · exact .inl (List.map_eq_nil_iff.mp hentries)
      · exact .inr hentries
    · have hdescribed := hshown.resolve_left fun h => hstd h.1
      rw [hentries, if_neg fun hhidden => hopen ?_]
      obtain ⟨habstract, hnone⟩ := Bool.and_eq_true_iff.mp hhidden
      refine ⟨habstract, ?_⟩
      rw [hdescribed.wrapper (hfinds.sole hg hnoted), Option.isNone_iff_eq_none.mp hnone]
      rfl
  · -- a registration that is not noted is one of a container
    obtain ⟨-, hbegins⟩ := hunderway.others q r hr fun c hc => hnoted ⟨c, hc⟩
    obtain ⟨hfirst, hdecls⟩ := hbegins.constructors fun _ he => (nomatch he)
    refine ⟨hfirst, .inl (List.map_eq_nil_iff.mp hdecls), fun hstd _ => ?_⟩
    exact absurd ⟨c, (hshown.resolve_left fun h => hstd h.1).noted⟩ hnoted

/-- **Constructors come first, in the order in which the class lists them.**  Below the registration
of a class its constructors come first.  They stand in the order of their lines exactly if there are
none, or the class lists those that can be registered in this order. -/
theorem finish_constructorsByLine_iff {r : ClassNode} (hg : g.Scoped)
    (hfinish : finish g options rules = .ok s) (htree : s.tree? = some t)
    (hr : t.kind? q = some (.cls r)) (hq : t.decl? q = some c) :
    t.constructors q <+: t.children q ∧
    (t.ConstructorsByLine g q ↔ t.constructors q = [] ∨
      (g.listedConstructors options rules c).Pairwise fun x y => g.line x ≤ g.line y) ∧
    (¬ g.isStd c → ¬ (g.isAbstract c ∧ r.wrapper = none) →
      (t.constructors q).map t.decl? = (g.listedConstructors options rules c).map some) := by
  obtain ⟨hfirst, hnone | hlisted, hopen⟩ := finish_lists_constructors hg hfinish htree hr hq
  · exact ⟨hfirst, ⟨fun _ => .inl hnone, fun _ => constructorsByLine_of_nil hnone⟩, hopen⟩
  · have hiff := constructorsByLine_iff (g := g) hlisted
    refine ⟨hfirst, ⟨fun h => .inr (hiff.mp h), fun h => h.elim (fun hnone => ?_) hiff.mpr⟩, hopen⟩
    exact constructorsByLine_of_nil hnone

/-- Where no function has transformers, a class that is registered has a registration. -/
theorem exists_finish_shows (hg : g.Scoped) (hclosed : g.Closed)
    (hplain : ∀ id ∈ g.ids, (g.config id).transformers = []) (hc : g.Registered options c)
    (hstd : ¬ g.isStd c) : ∃ (s : Generation) (t : CodeTree) (q : NodeId) (r : ClassNode),
      finish g options rules = .ok s ∧ s.tree? = some t ∧ t.kind? q = some (.cls r) ∧
        t.decl? q = some c := by
  obtain ⟨s, hs⟩ := exists_finish hclosed hplain
  obtain ⟨found, o, b, hfinds⟩ := finish_ok hs
  obtain ⟨q, hq⟩ := (hfinds.exists_shows_iff hg hstd).mpr hc
  obtain ⟨-, ⟨r, hr⟩, hdecl⟩ := CodeTree.shows_iff.mp hq
  exact ⟨s, b.tree, q, r, hs, hfinds.tree, hr, hdecl⟩

/-- A class with two constructors on the given lines, in the order in which the class lists
them. -/
def twoConstructors (first second : Nat) : DeclGraph := Samples.build do
  let point ← Samples.declare DeclGraph.root "Point" (.cls {})
  Samples.locate point "point.hpp" 1
  let ofInt ← Samples.declare point "Point" (.callable
    { kind := .constructor false false, args := [{ name := "x", type := .fundamental .int }] })
  Samples.locate ofInt "point.hpp" first
  let ofDouble ← Samples.declare point "Point" (.callable
    { kind := .constructor false false, args := [{ name := "x", type := Samples.double }] })
  Samples.locate ofDouble "point.hpp" second

/-- Listed in the order of their lines, constructors are registered in it. -/
theorem finish_constructorsByLine_point : ∃ (s : Generation) (t : CodeTree) (q : NodeId)
    (r : ClassNode), (twoConstructors 3 4).Scoped ∧ finish (twoConstructors 3 4) {} = .ok s ∧
      s.tree? = some t ∧ t.kind? q = some (.cls r) ∧ t.decl? q = some 1 ∧
      (t.constructors q).map t.decl? = [some 2, some 3] ∧
      t.ConstructorsByLine (twoConstructors 3 4) q := by
  have hscoped : (twoConstructors 3 4).Scoped := DeclGraph.scoped_of_validate (by decide +kernel)
  have hstd : ¬ (twoConstructors 3 4).isStd 1 := by decide +kernel
  have hregistered : (twoConstructors 3 4).Registered {} 1 :=
    .outside .root (by decide +kernel) hstd (by decide +kernel) (by decide +kernel)
  have hlisted : (twoConstructors 3 4).listedConstructors {} PolicyRule.chain 1 = [2, 3] := by
    decide +kernel
  obtain ⟨s, t, q, r, hs, ht, hr, hdecl⟩ := exists_finish_shows hscoped (by decide +kernel)
    (by decide +kernel) hregistered hstd
  obtain ⟨-, hiff, hdecls⟩ := finish_constructorsByLine_iff hscoped hs ht hr hdecl
  rw [hlisted] at hiff hdecls
  exact ⟨s, t, q, r, hscoped, hs, ht, hr, hdecl,
    hdecls hstd fun h => absurd h.1 (by decide +kernel), hiff.mpr (.inr (by decide +kernel))⟩

/-- Listed in another order, they are registered in that order, and not in the order of their
lines. -/
theorem finish_not_constructorsByLine : ∃ (g : DeclGraph) (s : Generation) (t : CodeTree)
    (q : NodeId) (r : ClassNode), g.Scoped ∧ finish g {} = .ok s ∧ s.tree? = some t ∧
      t.kind? q = some (.cls r) ∧ (t.constructors q).map t.decl? = [some 2, some 3] ∧
      ¬ t.ConstructorsByLine g q := by
  have hscoped : (twoConstructors 4 3).Scoped := DeclGraph.scoped_of_validate (by decide +kernel)
  have hstd : ¬ (twoConstructors 4 3).isStd 1 := by decide +kernel
  have hregistered : (twoConstructors 4 3).Registered {} 1 :=
    .outside .root (by decide +kernel) hstd (by decide +kernel) (by decide +kernel)
  have hlisted : (twoConstructors 4 3).listedConstructors {} PolicyRule.chain 1 = [2, 3] := by
    decide +kernel
  obtain ⟨s, t, q, r, hs, ht, hr, hdecl⟩ := exists_finish_shows hscoped (by decide +kernel)
    (by decide +kernel) hregistered hstd
  obtain ⟨-, -, hdecls⟩ := finish_lists_constructors hscoped hs ht hr hdecl
  rw [hlisted] at hdecls
  have hdecls := hdecls hstd fun h => absurd h.1 (by decide +kernel)
  refine ⟨_, s, t, q, r, hscoped, hs, ht, hr, hdecls, ?_⟩
  rw [constructorsByLine_iff hdecls]
  decide +kernel

end Generation

end Bindery
