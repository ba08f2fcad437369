import Bindery.Proofs.Binding.Answered
import Bindery.Proofs.Binding.Exported
import Bindery.Proofs.Binding.Recorded
import Bindery.Proofs.Decl.Trees
import Bindery.Proofs.Generation.TextOrder

/-!
# Registered classes and their bases

A class is registered if it takes part in the module and lies in a namespace that the module looks
into, or in a class that is registered.  Whether a base is named with a class depends on the base
alone, so that a base may be named that is not registered.

## Main definitions

* `DeclGraph.Registered`, `DeclGraph.IsOpen` — the classes that are registered, and the scopes whose
  classes are.
* `DeclGraph.NamesBase` — the bases that are named with a class.
* `Generation.hiddenBase` — a class whose base lies in a namespace that is ignored.

## Main results

* `Finds.noted_iff` — **a module registers exactly these classes.**
* `Generation.finish_names_bases` — **a base that is named is registered if its scope is open.**
* `Generation.finish_names_hidden` — it need not be open.
-/

namespace Bindery

open Binder CodeTree

/-! ### Declarations that take part -/

namespace DeclGraph

variable {g : DeclGraph} {options : ModuleOptions} {c : DeclId}

/-- A class that is registered: it takes part in the module, and lies in a namespace that the module
looks into, or is offered by a class that is registered. -/
inductive Registered (g : DeclGraph) (options : ModuleOptions) : DeclId → Prop
  | outside {p cls : DeclId} : g.Searched p → cls ∈ g.members p → ¬ g.isStd cls → g.isClass cls →
      g.TakesPart options cls → Registered g options cls
  | nested {c cls : DeclId} : Registered g options c → g.OffersMember options c cls →
      g.isClass cls → g.TakesPart options cls → Registered g options cls

/-- A scope whose classes are registered if they take part. -/
def IsOpen (g : DeclGraph) (options : ModuleOptions) (p : DeclId) : Prop :=
  g.Searched p ∨ g.Registered options p

/-- The base is named with the class: the class is derived from it publicly, and it takes part in
the module and is not of the standard library. -/
def NamesBase (g : DeclGraph) (options : ModuleOptions) (c base : DeclId) : Prop :=
  (∃ d, g.kind? c = some (.cls d) ∧ ∃ spec ∈ d.bases, spec.base = base ∧ spec.access = .pub) ∧
    ¬ g.isStd base ∧ g.TakesPart options base

theorem Registered.isClass (h : g.Registered options c) : g.isClass c := by
  cases h <;> assumption

theorem Registered.takesPart (h : g.Registered options c) : g.TakesPart options c := by
  cases h <;> assumption

/-- What comes into question with a registered class comes into question with one that the module
finds. -/
theorem Registered.exists_found (hs : g.Scoped) (h : g.Registered options c) :
    ∃ id ∈ g.namespaceMembers, Relation.ReflTransGen (g.OffersMember options) id c := by
  induction h with
  | outside hp hmem hstd hclass _ =>
    obtain ⟨d, hd⟩ := isClass_iff.mp hclass
    refine ⟨_, (mem_namespaceMembers_iff hs).mpr ⟨⟨_, hp, hmem⟩, hstd, fun ms hms => ?_⟩, .refl⟩
    cases hd.symm.trans hms
  | nested _ hoffers _ _ ih =>
    obtain ⟨id, hid, hoffered⟩ := ih
    exact ⟨id, hid, hoffered.tail hoffers⟩

/-- Among the classes that take part and lie in some scope, those whose scope is open are
registered. -/
theorem registered_iff (hg : g.Accepted) (hstd : ¬ g.isStd c) (htakes : g.TakesPart options c) :
    g.Registered options c ↔ g.isClass c ∧ ∃ p, g.parent? c = some p ∧ g.IsOpen options p := by
  constructor
  · intro h
    refine ⟨h.isClass, ?_⟩
    cases h with
    | outside hp hmem => exact ⟨_, hg.agree _ _ hmem, .inl hp⟩
    | nested hp hoffers => exact ⟨_, hg.agree _ _ hoffers.member, .inr hp⟩
  · rintro ⟨hclass, p, hparent, hp | hp⟩
    · exact .outside hp (hg.listed c p hparent) hstd hclass htakes
    · exact .nested hp ⟨hp.isClass, hp.takesPart, hg.listed c p hparent,
        isCandidate_of_takesPart hclass htakes⟩ hclass htakes

end DeclGraph

namespace BindingSetup

variable {s : BindingSetup} {id : DeclId}

/-- Where the verdicts are true, a declaration takes part if it is bound. -/
theorem isExportable_iff
    (hverdicts : ∀ x ∈ s.verdicts, s.graph.HasVerdict s.options x.1 x.2) :
    s.isExportable id = .ok true ↔ s.graph.TakesPart s.options id := by
  have hlookup : ∀ v, s.verdicts.lookup id = some v → s.graph.HasVerdict s.options id v := by
    intro v hv
    obtain ⟨front, back, heq, -⟩ := List.lookup_eq_some_iff.mp hv
    exact hverdicts (id, v) (heq ▸ List.mem_append_right _ List.mem_cons_self)
  unfold isExportable
  rw [Except.bind_eq_ok]
  constructor
  · rintro ⟨excluded, hexcluded, h⟩
    cases excluded with
    | true => cases h
    | false =>
      rw [if_neg Bool.false_ne_true] at h
      split at h
      · next v hv => exact (hlookup v hv).isExportable_iff.mp (Except.ok.inj h)
      · obtain ⟨v, hv, h⟩ := Except.bind_eq_ok.mp h
        have hverdict : s.graph.HasVerdict s.options id v := ⟨hexcluded, hv⟩
        exact hverdict.isExportable_iff.mp (Except.ok.inj h)
  · intro htakes
    refine ⟨false, htakes.included, ?_⟩
    rw [if_neg Bool.false_ne_true]
    split
    · next v hv => exact congrArg Except.ok ((hlookup v hv).isExportable_iff.mpr htakes)
    · exact Except.bind_eq_ok.mpr ⟨.yes, htakes.verdict, rfl⟩

/-- The names of bases are those of the bases that are derived from publicly, take part in the
module, and are not of the standard library. -/
theorem mem_boundBases {d : ClassDecl} {names : List String} {name : String}
    (h : s.boundBases d = .ok names) : name ∈ names ↔ ∃ spec ∈ d.bases, spec.access = .pub ∧
      ¬ s.graph.isStd spec.base ∧ s.isExportable spec.base = .ok true ∧
      s.graph.fullName spec.base = name := by
  obtain ⟨bound, hbound, h⟩ := Except.bind_eq_ok.mp h
  cases h
  rw [List.mem_map]
  refine exists_congr fun spec => ?_
  rw [Except.mem_filterM hbound, and_assoc]
  refine and_congr_right fun _ => ?_
  split
  · next hnot =>
    refine iff_of_false (fun h => nomatch h.1) fun ⟨hpub, hstd, _⟩ => ?_
    rcases (Bool.or_eq_true _ _).mp hnot with hnot | hnot
    · exact of_decide_eq_true hnot hpub
    · exact hstd hnot
  · next hboth =>
    rw [Bool.or_eq_true, decide_eq_true_iff, not_or, not_not] at hboth
    rw [and_iff_right hboth.1, and_iff_right hboth.2]

end BindingSetup

namespace Generation

variable {g : DeclGraph} {options : ModuleOptions} {rules : List PolicyRule} {s : Generation}
  {found : Candidates} {o : EmissionOrder} {b : Binder} {t : CodeTree} {n q : NodeId}
  {c id : DeclId}

/-! ### What a module registers -/

theorem Finds.isExportable_iff (h : s.Finds g options rules found o b) :
    (s.setup g options rules).isExportable id = .ok true ↔ g.TakesPart options id := by
  refine BindingSetup.isExportable_iff (s := s.setup g options rules) fun x hx => ?_
  have hx : x ∈ found.judged.reverse := h.verdicts ▸ hx
  exact DeclGraph.hasVerdict_of_mem_judged h.offered x (List.mem_reverse.mp hx)

/-- What has been noted as a registration stands in the text. -/
theorem Finds.shows (h : s.Finds g options rules found o b) (hn : (c, n) ∈ b.classNodes) :
    b.tree.Shows n c := by
  obtain ⟨-, hdecl, r, hr⟩ := (BindingSetup.bind_recorded h.bound).node c n hn
  obtain ⟨body, -, haccounted, -⟩ := BindingSetup.bind_accounted h.bound
  exact CodeTree.shows_iff.mpr
    ⟨haccounted.mem_descendants_root (by rw [hr]; rfl), ⟨r, hr⟩, hdecl⟩

/-- What a module binds is found from the global namespace. -/
theorem Finds.reached (h : s.Finds g options rules found o b) (hg : g.Scoped) :
    ∀ id ∈ o.declarations, ∃ l, g.Reached id l := by
  intro id hid
  obtain ⟨l, hl, -⟩ := DeclGraph.reached_of_mem_candidates hg h.offered
    ((DeclGraph.mem_order h.ordered).mp hid)
  exact ⟨l, hl⟩

theorem Finds.admitted_iff (h : s.Finds g options rules found o b) (hg : g.Scoped) :
    (s.setup g options rules).Admitted o.declarations c ∧ g.isClass c ↔
      g.Registered options c := by
  constructor
  · rintro ⟨hadmitted, hclass⟩
    induction hadmitted with
    | module hid hexportable =>
      obtain ⟨hid, htakes⟩ :=
        (DeclGraph.mem_candidates_iff h.offered).mp ((DeclGraph.mem_order h.ordered).mp hid)
      obtain ⟨⟨p, hp, hmem⟩, hstd, -⟩ := (DeclGraph.mem_namespaceMembers_iff hg).mp hid
      exact .outside hp hmem hstd hclass htakes
    | member _ hcls hmember ih =>
      have hc := ih hcls
      exact .nested hc ⟨hcls, hc.takesPart, hmember.member, hmember.candidate⟩ hclass
        (h.isExportable_iff.mp hmember.exportable)
  · intro hregistered
    refine ⟨?_, hregistered.isClass⟩
    induction hregistered with
    | outside hp hmem hstd hclass htakes =>
      obtain ⟨d, hd⟩ := DeclGraph.isClass_iff.mp hclass
      have hfound := (DeclGraph.mem_namespaceMembers_iff hg).mpr
        ⟨⟨_, hp, hmem⟩, hstd, fun ms hms => nomatch hd.symm.trans hms⟩
      refine .module ?_ (h.isExportable_iff.mpr htakes)
      exact (DeclGraph.mem_order h.ordered).mpr
        ((DeclGraph.mem_candidates_iff h.offered).mpr ⟨hfound, htakes⟩)
    | nested _ hoffers _ htakes ih =>
      exact .member ih hoffers.isClass
        ⟨hoffers.member, hoffers.candidate, h.isExportable_iff.mpr htakes⟩

/-- A class that has been noted is settled. -/
theorem Finds.settled (h : s.Finds g options rules found o b) (hg : g.Scoped)
    (hn : (c, n) ∈ b.classNodes) : (s.setup g options rules).Settled b c := by
  obtain ⟨⟨hadmitted, hclass⟩, -⟩ := (BindingSetup.bind_recorded h.bound).node c n hn
  exact BindingSetup.bind_settled hg (h.reached hg) h.bound hadmitted hclass

/-- **The classes that take part in a scope that is open are registered, and no others.** -/
theorem Finds.noted_iff (h : s.Finds g options rules found o b) (hg : g.Scoped) :
    (∃ n, (c, n) ∈ b.classNodes) ↔ g.Registered options c := by
  rw [← h.admitted_iff hg]
  constructor
  · rintro ⟨n, hn⟩
    exact ((BindingSetup.bind_recorded h.bound).node c n hn).1
  · rintro ⟨hadmitted, hclass⟩
    exact (BindingSetup.bind_settled hg (h.reached hg) h.bound hadmitted hclass).node

theorem Finds.exists_shows_iff (h : s.Finds g options rules found o b) (hg : g.Scoped)
    (hstd : ¬ g.isStd c) : (∃ n, b.tree.Shows n c) ↔ g.Registered options c := by
  rw [← h.noted_iff hg]
  constructor
  · rintro ⟨n, hn⟩
    obtain ⟨-, ⟨r, hr⟩, hdecl⟩ := CodeTree.shows_iff.mp hn
    obtain ⟨c', hc', hdescribed⟩ := (BindingSetup.bind_recorded h.bound).shown n r hr
    obtain rfl : c = c' := Option.some.inj (hdecl.symm.trans hc')
    exact ⟨n, (hdescribed.resolve_left fun h => hstd h.1).noted⟩
  · rintro ⟨n, hn⟩
    exact ⟨n, h.shows hn⟩

/-! ### Bases -/

theorem Finds.mem_bases_iff {r : ClassNode} {name : String}
    (h : s.Finds g options rules found o b)
    (hdescribed : (s.setup g options rules).Described b q r c) :
    name ∈ r.bases ↔ ∃ base, g.NamesBase options c base ∧ g.fullName base = name := by
  obtain ⟨d, hd, hbases⟩ := hdescribed.bases
  rw [BindingSetup.mem_boundBases hbases]
  constructor
  · rintro ⟨spec, hspec, hpub, hstd, hexportable, rfl⟩
    exact ⟨spec.base, ⟨⟨d, hd, spec, hspec, rfl, hpub⟩, hstd, h.isExportable_iff.mp hexportable⟩,
      rfl⟩
  · rintro ⟨base, ⟨⟨d', hd', spec, hspec, rfl, hpub⟩, hstd, htakes⟩, rfl⟩
    cases hd.symm.trans hd'
    exact ⟨spec, hspec, hpub, hstd, h.isExportable_iff.mpr htakes, rfl⟩

/-- **The bases that are named with a class.**  The registration of a class names the public bases
that take part in the module, those of the standard library left aside.  Such a base is registered
exactly if it is a class and its scope is open: a namespace that the module looks into, or a class
that is registered. -/
theorem finish_names_bases {r : ClassNode} (hvalid : g.validate = .ok ())
    (hfinish : finish g options rules = .ok s) (htree : s.tree? = some t)
    (hr : t.kind? q = some (.cls r)) (hq : t.decl? q = some c) :
    (∀ name ∈ r.bases, ∃ base, g.NamesBase options c base ∧ g.fullName base = name) ∧
    (¬ g.isStd c → ∀ base, g.NamesBase options c base → g.fullName base ∈ r.bases) ∧
    ∀ base, g.NamesBase options c base → ((∃ n, t.Shows n base) ↔
      g.isClass base ∧ ∃ p, g.parent? base = some p ∧ g.IsOpen options p) := by
  obtain ⟨found, o, b, hfinds⟩ := finish_ok hfinish
  obtain rfl := Option.some.inj (htree.symm.trans hfinds.tree)
  obtain ⟨c', hc', hshown⟩ := (BindingSetup.bind_recorded hfinds.bound).shown q r hr
  obtain rfl : c = c' := Option.some.inj (hq.symm.trans hc')
  have haccepted := DeclGraph.validate_eq_ok_iff.mp hvalid
  refine ⟨fun name hname => ?_, fun hc base hbase => ?_, fun base hbase => ?_⟩
  · rcases hshown with ⟨-, hnone⟩ | hdescribed
    · rw [hnone] at hname
      cases hname
    · exact (hfinds.mem_bases_iff hdescribed).mp hname
  · have hdescribed := hshown.resolve_left fun h => hc h.1
    exact (hfinds.mem_bases_iff hdescribed).mpr ⟨base, hbase, rfl⟩
  · obtain ⟨-, hstd, htakes⟩ := hbase
    rw [hfinds.exists_shows_iff haccepted.scoped hstd]
    exact DeclGraph.registered_iff haccepted hstd htakes

/-- A class with a class in it that is derived from it. -/
def nestedHeir : DeclGraph :=
  ⟨#[{ name := "::", kind := .ns [1] },
    { name := "A", kind := .cls { members := [2] }, parent := some DeclGraph.root },
    { name := "B", kind := .cls { bases := [{ base := 1 }] }, parent := some 1 }]⟩

/-- The base is registered, since it lies in the global namespace. -/
theorem finish_names_nestedHeir : ∃ (s : Generation) (t : CodeTree) (q : NodeId) (r : ClassNode),
    nestedHeir.validate = .ok () ∧ finish nestedHeir {} = .ok s ∧ s.tree? = some t ∧
      t.kind? q = some (.cls r) ∧ t.decl? q = some 2 ∧ "::A" ∈ r.bases ∧ ∃ n, t.Shows n 1 := by
  have hvalid : nestedHeir.validate = .ok () := by decide +kernel
  obtain ⟨s, hs, hfound⟩ := Except.exists_eq_ok_of_any (x := finish nestedHeir {})
    (p := fun s => s.tree?.any fun t => t.Shows 5 2) (by decide +kernel)
  obtain ⟨t, ht, hfound⟩ := (Option.any_eq_true _ _).mp hfound
  obtain ⟨-, ⟨r, hr⟩, hdecl⟩ := CodeTree.shows_iff.mp (of_decide_eq_true hfound)
  obtain ⟨-, hnamed, hshown⟩ := finish_names_bases hvalid hs ht hr hdecl
  have hbase : nestedHeir.NamesBase {} 2 1 :=
    ⟨⟨{ bases := [{ base := 1 }] }, by decide +kernel, { base := 1 }, by decide, rfl, rfl⟩,
      by decide +kernel, by decide +kernel, by decide +kernel⟩
  exact ⟨s, t, 5, r, hvalid, hs, ht, hr, hdecl, hnamed (by decide +kernel) 1 hbase,
    (hshown 1 hbase).mpr ⟨by decide +kernel, DeclGraph.root, by decide +kernel, .inl .root⟩⟩

/-! ### A base in an ignored namespace -/

/-- A class that is derived from one in a namespace that the user ignores. -/
def hiddenBase : DeclGraph :=
  ⟨#[{ name := "::", kind := .ns [1, 3] },
    { name := "hidden", kind := .ns [2], parent := some DeclGraph.root,
      config := { ignore := true } },
    { name := "Base", kind := .cls {}, parent := some 1 },
    { name := "Derived", kind := .cls { bases := [{ base := 2 }] },
      parent := some DeclGraph.root }]⟩

/-- The base is named with the class, but no node of the module is about it. -/
theorem finish_names_hidden : ∃ (g : DeclGraph) (s : Generation) (t : CodeTree) (q : NodeId)
    (r : ClassNode) (base : DeclId), g.validate = .ok () ∧ finish g {} = .ok s ∧
      s.tree? = some t ∧ t.kind? q = some (.cls r) ∧ g.isClass base ∧
      r.bases = [g.fullName base] ∧ ∀ n, t.decl? n ≠ some base := by
  obtain ⟨s, hs, hfound⟩ := Except.exists_eq_ok_of_any (x := finish hiddenBase {})
    (p := fun s => s.tree?.any fun t =>
      t.kind? 4 = some (.cls {
        fullName := "::Derived"
        pythonName := "Derived"
        exposer := "Derived"
        bases := ["::hidden::Base"] }) ∧
      ∀ n < t.size, t.decl? n ≠ some 2) (by decide +kernel)
  obtain ⟨t, ht, hfound⟩ := (Option.any_eq_true _ _).mp hfound
  obtain ⟨hnamed, hnone⟩ := of_decide_eq_true hfound
  refine ⟨hiddenBase, s, t, 4, _, 2, by decide +kernel, hs, ht, hnamed, by decide +kernel,
    by decide +kernel, fun n hn => ?_⟩
  exact hnone n (CodeTree.lt_size_of_decl? hn) hn

end Generation

end Bindery
