import Bindery.Proofs.Analysis.Siblings
import Bindery.Proofs.Binding.ModuleTree
import Bindery.Proofs.Code.PreOrder

/-!
# The order of registrations

Where two classes are registered, neither within the other, the registrations that they are in or
below stand side by side somewhere, and there they have the order of the siblings.  Containers of
the standard library stand in front of everything else.

## Main definitions

* `BindingSetup.Level` — the classes that are put in order together.
* `BindingSetup.Bound` — candidates have been put in order and bound.

## Main results

* `Bound.precedes_iff` — **the order of the siblings decides the order of the registrations.**
* `Bound.unique` — a class has one registration.
* `Bound.container_precedes` — containers come first.
-/

namespace Bindery

open CodeTree

/-! ### Registrations in a row -/

namespace CodeTree.Registers

variable {t : CodeTree} {nodes : List NodeId} {ids : List DeclId} {x y : NodeId} {e f : DeclId}

/-- Registrations stand in the order of the classes. -/
theorem before (h : t.Registers nodes ids) (he : t.part? x = some (.cls e))
    (hf : t.part? y = some (.cls f)) (hyx : Before nodes y x) : Before ids f e := by
  obtain ⟨ds, hsub, hmap⟩ := h
  have hparts := List.Sublist.map t.part? hyx
  rw [hmap, List.map_cons, List.map_singleton, he, hf] at hparts
  obtain ⟨l, hl, heq⟩ := List.sublist_map_iff.mp hparts
  have hpair : l = [f, e] := by
    match l, heq with
    | [a, b], heq => simpa using heq.symm
  exact (hpair ▸ hl).trans hsub

theorem before_iff (h : t.Registers nodes ids) (hids : ids.Nodup) (hx : x ∈ nodes) (hy : y ∈ nodes)
    (hne : y ≠ x) (he : t.part? x = some (.cls e)) (hf : t.part? y = some (.cls f)) :
    Before nodes y x ↔ Before ids f e := by
  refine ⟨h.before he hf, fun hfe => (Before.total hy hx hne).resolve_right fun hxy => ?_⟩
  exact hfe.asymm hids (h.before hf he hxy)

/-- Different registrations are of different classes. -/
theorem ne (h : t.Registers nodes ids) (hids : ids.Nodup) (hx : x ∈ nodes) (hy : y ∈ nodes)
    (hne : y ≠ x) (he : t.part? x = some (.cls e)) (hf : t.part? y = some (.cls f)) : e ≠ f := by
  rcases Before.total hy hx hne with hyx | hxy
  · exact ((h.before he hf hyx).ne hids).symm
  · exact (h.before hf he hxy).ne hids

end CodeTree.Registers

/-! ### Levels -/

namespace BindingSetup

/-- The classes that are put in order together: those of the candidates, or those that are bound
with a class. -/
inductive Level (s : BindingSetup) (candidates : List DeclId) : List DeclId → Prop
  | module : Level s candidates (candidates.filter s.graph.isClass)
  | members {cls : DeclId} {offered members : List DeclId} :
    s.graph.isClass cls → s.graph.candidateMembers cls = .ok offered →
    offered.filterM s.isExportable = .ok members →
    Level s candidates (members.filter s.graph.isClass)

/-- Candidates that are found through namespaces have been put in order and bound. -/
structure Bound (s : BindingSetup) (candidates : List DeclId) (t : CodeTree) (body : NodeId)
    (front rest : List NodeId) : Prop where
  scopes : s.graph.Scoped
  reached : ∀ c ∈ candidates, ∃ l, s.graph.Reached c l ∧ ∀ x ∈ l, ¬ s.graph.isClass x
  laid : ∃ o, s.graph.order candidates = .ok o ∧ s.Laid o.declarations t body front rest

variable {s : BindingSetup} {candidates members : List DeclId} {cls : DeclId} {t : CodeTree}
  {body p q x y a b : NodeId} {front rest : List NodeId} {c d : DeclId}

/-- The classes among the members of a class that are bound with it. -/
theorem level_of_boundMembers (candidates : List DeclId) (hclass : s.graph.isClass cls)
    (h : s.boundMembers cls = .ok members) : ∃ classes, s.Level candidates classes ∧
      members.filter s.graph.isClass = (s.graph.sortClasses classes).declarations := by
  obtain ⟨offered, hoffered, h⟩ := Except.bind_eq_ok.mp h
  obtain ⟨exportable, hexportable, h⟩ := Except.bind_eq_ok.mp h
  obtain ⟨o, ho, h⟩ := Except.bind_eq_ok.mp h
  cases h
  exact ⟨_, .members hclass hoffered hexportable, DeclGraph.order_classes ho⟩

namespace Bound

theorem wellFormed (h : s.Bound candidates t body front rest) : t.WellFormed := by
  obtain ⟨o, -, hlaid⟩ := h.laid
  exact hlaid.wellFormed

/-- The classes around a class in the text are around it in the graph. -/
theorem reached_of_climbs (h : s.Bound candidates t body front rest) : ∀ {l : List NodeId}
    {q : NodeId} {d : DeclId}, Climbs t.parent? q l → root ∈ l → t.part? q = some (.cls d) →
    q ∉ front → ∃ k, s.graph.Reached d k ∧
      ∀ x ∈ l, x = root ∨ x = body ∨ x ∉ front ∧ ∃ e ∈ k, t.part? x = some (.cls e)
  | p :: l, q, d, hl, hroot, hq, hfront => by
    obtain ⟨o, ho, hlaid⟩ := h.laid
    have hw := hlaid.wellFormed
    have hmem : q ∈ t.parts p :=
      CodeTree.mem_parts.mpr ⟨(hw.child p q).mpr hl.1, by rw [hq]; rfl⟩
    rcases hlaid.mem_parts hmem with ⟨-, hbody⟩ | ⟨hbody, hmem⟩ | ⟨hp, e, members, he, -, hmembers,
      hregisters⟩
    · rw [hbody, hlaid.partBody] at hq
      cases hq
    · subst hbody
      obtain ⟨d', hd', hq'⟩ :=
        hlaid.registered.part_of_mem ((List.mem_append.mp hmem).resolve_left hfront)
      rw [hq'] at hq
      cases hq
      obtain ⟨k, hk, -⟩ := h.reached d ((DeclGraph.mem_order ho).mp (List.mem_of_mem_filter hd'))
      refine ⟨k, hk, List.forall_mem_cons.mpr ⟨.inr (.inl rfl), fun x hx => .inl ?_⟩⟩
      rw [← hw.ancestors_eq hl.2, hlaid.ancestors_body] at hx
      exact List.mem_singleton.mp hx
    · obtain ⟨d', hd', hq'⟩ := hregisters.part_of_mem hmem
      rw [hq'] at hq
      cases hq
      have hne : root ≠ p := by
        rintro rfl
        rw [hlaid.partRoot] at he
        cases he
      obtain ⟨k, hk, habove⟩ := h.reached_of_climbs hl.2
        ((List.mem_cons.mp hroot).resolve_left hne) he hp
      refine ⟨e :: k, hk.member ((mem_boundMembers hmembers).mp
        (List.mem_of_mem_filter hd')).1, List.forall_mem_cons.mpr ⟨?_, fun x hx => ?_⟩⟩
      · exact .inr (.inr ⟨hp, e, List.mem_cons_self, he⟩)
      · refine (habove x hx).imp_right fun hx => hx.imp_right fun ⟨hxf, e', he', hxe⟩ => ?_
        exact ⟨hxf, e', List.mem_cons_of_mem e he', hxe⟩

theorem root_mem_ancestors (h : s.Bound candidates t body front rest)
    (hq : q ∈ t.descendants root) {d : DeclId} (hd : t.part? q = some (.cls d)) :
    root ∈ t.ancestors q := by
  obtain ⟨o, -, hlaid⟩ := h.laid
  refine (List.mem_cons.mp (hlaid.wellFormed.mem_descendants.mp hq)).resolve_left ?_
  rintro rfl
  rw [hlaid.partRoot] at hd
  cases hd

/-- What a class of the text stands below: the module, its body, and classes around it. -/
theorem exists_reached (h : s.Bound candidates t body front rest) (ha : a ∈ t.descendants root)
    (hc : t.part? a = some (.cls c)) (hfront : a ∉ front) : ∃ l, s.graph.Reached c l ∧
      ∀ x, a ∈ t.descendants x →
        x = root ∨ x = body ∨ x ∉ front ∧ ∃ e ∈ c :: l, t.part? x = some (.cls e) := by
  have hw := h.wellFormed
  obtain ⟨l, hl, habove⟩ := h.reached_of_climbs (hw.climbs_ancestors a) (h.root_mem_ancestors ha hc)
    hc hfront
  refine ⟨l, hl, fun x hx => ?_⟩
  rcases List.mem_cons.mp (hw.mem_descendants.mp hx) with rfl | hx
  · exact .inr (.inr ⟨hfront, c, List.mem_cons_self, hc⟩)
  · refine (habove x hx).imp_right fun hx => hx.imp_right fun ⟨hxf, e, he, hxe⟩ => ?_
    exact ⟨hxf, e, List.mem_cons_of_mem c he, hxe⟩

/-- A container stands below the module and its body only. -/
theorem above_container (h : s.Bound candidates t body front rest) (hb : b ∈ front)
    (hx : b ∈ t.descendants x) : x = b ∨ x = body ∨ x = root := by
  obtain ⟨o, -, hlaid⟩ := h.laid
  have hw := hlaid.wellFormed
  have hbody : b ∈ t.parts body := by
    rw [hlaid.partsBody]
    exact List.mem_append_left rest hb
  have hmem := hw.mem_descendants.mp hx
  rw [hw.ancestors_child (CodeTree.mem_parts.mp hbody).1, hlaid.ancestors_body] at hmem
  simpa using hmem

/-- Everything that a class of the text stands below belongs to the skeleton. -/
theorem isSome_above (h : s.Bound candidates t body front rest) (ha : a ∈ t.descendants root)
    (hc : t.part? a = some (.cls c)) (hx : a ∈ t.descendants x) : (t.part? x).isSome := by
  obtain ⟨o, -, hlaid⟩ := h.laid
  by_cases hfront : a ∈ front
  · rcases h.above_container hfront hx with rfl | rfl | rfl
    · rw [hc]; rfl
    · rw [hlaid.partBody]; rfl
    · rw [hlaid.partRoot]; rfl
  · obtain ⟨l, -, habove⟩ := h.exists_reached ha hc hfront
    rcases habove x hx with rfl | rfl | ⟨-, e, -, he⟩
    · rw [hlaid.partRoot]; rfl
    · rw [hlaid.partBody]; rfl
    · rw [he]; rfl

/-- Two classes that are not below each other are below different nodes of the skeleton that have
one parent, which is the body or a class. -/
theorem exists_meet (h : s.Bound candidates t body front rest) (ha : a ∈ t.descendants root)
    (hb : b ∈ t.descendants root) (hc : t.part? a = some (.cls c))
    (hd : t.part? b = some (.cls d)) (hab : a ∉ b :: t.ancestors b)
    (hba : b ∉ a :: t.ancestors a) :
    ∃ p x y, p ∈ t.descendants root ∧ x ∈ t.parts p ∧ y ∈ t.parts p ∧ y ≠ x ∧ p ≠ root ∧
      a ∈ t.descendants x ∧ b ∈ t.descendants y := by
  obtain ⟨o, -, hlaid⟩ := h.laid
  obtain ⟨p, x, y, hp, hx, hy, hne, hax, hby⟩ := hlaid.wellFormed.exists_meet ha hb hab hba
  have hxp : x ∈ t.parts p := CodeTree.mem_parts.mpr ⟨hx, h.isSome_above ha hc hax⟩
  have hyp : y ∈ t.parts p := CodeTree.mem_parts.mpr ⟨hy, h.isSome_above hb hd hby⟩
  refine ⟨p, x, y, hp, hxp, hyp, Ne.symm hne, ?_, hax, hby⟩
  -- below the module there is only its body
  rintro rfl
  rw [hlaid.partsRoot, List.mem_singleton] at hxp hyp
  exact hne (hxp.trans hyp.symm)

theorem ne_body_of_mem_parts (h : s.Bound candidates t body front rest) (hx : x ∈ t.parts p)
    (hp : p ≠ root) : x ≠ body := by
  obtain ⟨o, -, hlaid⟩ := h.laid
  rintro rfl
  have hchild := hlaid.wellFormed.ancestors_child (CodeTree.mem_parts.mp hx).1
  rw [hlaid.ancestors_body] at hchild
  exact hp (List.cons.inj hchild).1.symm

theorem ne_root_of_mem_parts (h : s.Bound candidates t body front rest) (hx : x ∈ t.parts p) :
    x ≠ root := by
  obtain ⟨o, -, hlaid⟩ := h.laid
  rintro rfl
  have hchild := (hlaid.wellFormed.child p root).mp (CodeTree.mem_parts.mp hx).1
  rw [hlaid.parent?_root] at hchild
  cases hchild

/-- Below the body and below classes, what a class of the text stands below is a class around it
or the class itself. -/
theorem exists_class_above (h : s.Bound candidates t body front rest)
    (ha : a ∈ t.descendants root) (hc : t.part? a = some (.cls c)) (hfront : a ∉ front)
    (hx : x ∈ t.parts p) (hp : p ≠ root) (hax : a ∈ t.descendants x) :
    ∃ l, s.graph.Reached c l ∧ x ∉ front ∧ ∃ e ∈ c :: l, t.part? x = some (.cls e) := by
  obtain ⟨l, hl, habove⟩ := h.exists_reached ha hc hfront
  rcases habove x hax with hroot | hbody | hclass
  · exact absurd hroot (h.ne_root_of_mem_parts hx)
  · exact absurd hbody (h.ne_body_of_mem_parts hx hp)
  · exact ⟨l, hl, hclass⟩

/-! ### Two classes -/

/-- The classes below one node of the text, containers left out, are the siblings of a level in
their order. -/
theorem exists_level (h : s.Bound candidates t body front rest) (hx : x ∈ t.parts p)
    (hp : p ≠ root) : ∃ classes nodes, s.Level candidates classes ∧
      s.graph.SideBySide classes ∧ t.Registers nodes (s.graph.sortClasses classes).declarations ∧
      nodes.Sublist (t.parts p) ∧ ∀ y ∈ t.parts p, y ∉ front → y ∈ nodes := by
  obtain ⟨o, ho, hlaid⟩ := h.laid
  rcases hlaid.mem_parts hx with ⟨hroot, -⟩ | ⟨rfl, -⟩ | ⟨-, e, members, -, hclass, hmembers,
    hregisters⟩
  · exact absurd hroot hp
  · have hregisters := hlaid.registered
    rw [DeclGraph.order_classes ho] at hregisters
    refine ⟨_, rest, .module, ⟨fun c hc => List.of_mem_filter hc, fun c hc d hd => ?_⟩,
      hregisters, ?_, fun y hy hyf => ?_⟩
    · obtain ⟨k, hk, hkout⟩ := h.reached c (List.mem_of_mem_filter hc)
      obtain ⟨l, hl, hlout⟩ := h.reached d (List.mem_of_mem_filter hd)
      right
      rw [hk.enclosing_eq h.scopes, hl.enclosing_eq h.scopes]
      exact ⟨hkout, hlout⟩
    · rw [hlaid.partsBody]
      exact List.sublist_append_right front rest
    · rw [hlaid.partsBody] at hy
      exact (List.mem_append.mp hy).resolve_left hyf
  · obtain ⟨classes, hlevel, hclasses⟩ := level_of_boundMembers candidates hclass hmembers
    have hmem : ∀ c ∈ classes, s.graph.isClass c ∧ s.graph.parent? c = some e := by
      intro c hc
      have hcm : c ∈ members.filter s.graph.isClass := by
        rw [hclasses]
        exact DeclGraph.mem_sortClasses.mpr hc
      obtain ⟨hcm, hcc⟩ := List.mem_filter.mp hcm
      exact ⟨hcc, h.scopes.agree e c ((mem_boundMembers hmembers).mp hcm).1⟩
    rw [hclasses] at hregisters
    refine ⟨classes, t.parts p, hlevel, ⟨fun c hc => (hmem c hc).1, fun c hc d hd => ?_⟩,
      hregisters, List.Sublist.refl _, fun y hy _ => hy⟩
    exact .inl ⟨e, hclass, (hmem c hc).2, (hmem d hd).2⟩

/-- **The order of the siblings that are, or contain, two classes decides the order of their
registrations in the text.** -/
theorem precedes_iff (h : s.Bound candidates t body front rest) (ha : a ∈ t.descendants root)
    (hb : b ∈ t.descendants root) (hc : t.part? a = some (.cls c))
    (hd : t.part? b = some (.cls d)) (hab : a ∉ b :: t.ancestors b)
    (hba : b ∉ a :: t.ancestors a) (haf : a ∉ front) (hbf : b ∉ front) :
    ∃ classes e f la lb, s.Level candidates classes ∧ s.graph.SideBySide classes ∧
      s.graph.Reached c la ∧ s.graph.Reached d lb ∧ e ∈ classes ∧ f ∈ classes ∧ e ≠ f ∧
      e ∈ c :: la ∧ f ∈ d :: lb ∧
      (Before (t.descendants root) b a ↔
        Before (s.graph.sortClasses classes).declarations f e) := by
  have hw := h.wellFormed
  obtain ⟨p, x, y, hp, hx, hy, hne, hproot, hax, hby⟩ := h.exists_meet ha hb hc hd hab hba
  obtain ⟨la, hla, hxf, e, hec, he⟩ := h.exists_class_above ha hc haf hx hproot hax
  obtain ⟨lb, hlb, hyf, f, hfd, hf⟩ := h.exists_class_above hb hd hbf hy hproot hby
  -- `x` and `y` are registrations of siblings, so that they stand in the order of a level
  obtain ⟨classes, nodes, hlevel, hside, hregisters, hsub, hnodes⟩ := h.exists_level hx hproot
  have hnodup := DeclGraph.sortClasses_nodup s.graph classes
  have hxn := hnodes x hx hxf
  have hyn := hnodes y hy hyf
  have hin : ∀ {q d}, q ∈ nodes → t.part? q = some (.cls d) → d ∈ classes := by
    intro q d hq hd
    obtain ⟨e, he, hqe⟩ := hregisters.part_of_mem hq
    rw [hd] at hqe
    cases hqe
    exact DeclGraph.mem_sortClasses.mp he
  refine ⟨classes, e, f, la, lb, hlevel, hside, hla, hlb, hin hxn he, hin hyn hf,
    hregisters.ne hnodup hxn hyn hne he hf, hec, hfd, ?_⟩
  have hchildren : nodes.Sublist (t.children p) := hsub.trans List.filter_sublist
  calc Before (t.descendants root) b a
      ↔ Before (t.children p) y x := hw.before_descendants_iff hp (CodeTree.mem_parts.mp hx).1
        (CodeTree.mem_parts.mp hy).1 hne hax hby
    _ ↔ Before nodes y x := (Before.iff_of_sublist hchildren (hw.nodup p) hyn hxn hne).symm
    _ ↔ Before (s.graph.sortClasses classes).declarations f e :=
        hregisters.before_iff hnodup hxn hyn hne he hf

/-- A class is not registered within itself. -/
theorem not_above_self (h : s.Bound candidates t body front rest) (ha : a ∈ t.descendants root)
    (hc : t.part? a = some (.cls c)) (hd : t.part? b = some (.cls c)) (haf : a ∉ front) :
    b ∉ t.ancestors a := by
  obtain ⟨o, -, hlaid⟩ := h.laid
  intro hb
  obtain ⟨k, hk, habove⟩ := h.reached_of_climbs (h.wellFormed.climbs_ancestors a)
    (h.root_mem_ancestors ha hc) hc haf
  rcases habove b hb with rfl | rfl | ⟨-, e, he, hbe⟩
  · rw [hlaid.partRoot] at hd
    cases hd
  · rw [hlaid.partBody] at hd
    cases hd
  · rw [hd] at hbe
    cases hbe
    exact (List.nodup_cons.mp (hk.climbs h.scopes).nodup).1 he

/-- **A class has one registration in the text**, containers left out. -/
theorem unique (h : s.Bound candidates t body front rest) (ha : a ∈ t.descendants root)
    (hb : b ∈ t.descendants root) (hc : t.part? a = some (.cls c))
    (hd : t.part? b = some (.cls c)) (haf : a ∉ front) (hbf : b ∉ front) : a = b := by
  by_contra hne
  have hab : a ∉ b :: t.ancestors b :=
    List.not_mem_cons_of_ne_of_not_mem hne (h.not_above_self hb hd hc hbf)
  have hba : b ∉ a :: t.ancestors a :=
    List.not_mem_cons_of_ne_of_not_mem (Ne.symm hne) (h.not_above_self ha hc hd haf)
  -- two registrations would be within those of two siblings that both contain the class
  obtain ⟨classes, e, f, la, lb, -, hside, hla, hlb, he, hf, hef, hec, hfc, -⟩ :=
    h.precedes_iff ha hb hc hd hab hba haf hbf
  obtain rfl : la = lb := (hla.enclosing_eq h.scopes).symm.trans (hlb.enclosing_eq h.scopes)
  exact hef (hla.sibling_unique h.scopes hside he hf hec hfc)

/-- Containers stand in front of all classes that are none. -/
theorem container_precedes (h : s.Bound candidates t body front rest)
    (ha : a ∈ t.descendants root) (hb : b ∈ t.descendants root)
    (hc : t.part? a = some (.cls c)) (hd : t.part? b = some (.cls d))
    (hab : a ∉ b :: t.ancestors b) (hba : b ∉ a :: t.ancestors a) (haf : a ∉ front)
    (hbf : b ∈ front) : Before (t.descendants root) b a := by
  obtain ⟨o, -, hlaid⟩ := h.laid
  have hw := hlaid.wellFormed
  obtain ⟨p, x, y, hp, hx, hy, hne, hproot, hax, hby⟩ := h.exists_meet ha hb hc hd hab hba
  obtain ⟨-, -, hxf, -⟩ := h.exists_class_above ha hc haf hx hproot hax
  -- nothing but the body and the module is above a container, so that `y` is the container
  have hyb : y = b := by
    rcases h.above_container hbf hby with hyb | hyb | hyb
    · exact hyb
    · exact absurd hyb (h.ne_body_of_mem_parts hy hproot)
    · exact absurd hyb (h.ne_root_of_mem_parts hy)
  subst hyb
  have hbody : y ∈ t.parts body := by
    rw [hlaid.partsBody]
    exact List.mem_append_left rest hbf
  have hpbody : p = body := by
    have hchild := hw.ancestors_child (CodeTree.mem_parts.mp hy).1
    rw [hw.ancestors_child (CodeTree.mem_parts.mp hbody).1] at hchild
    exact (List.cons.inj hchild).1.symm
  subst hpbody
  refine (hw.before_descendants_iff hp (CodeTree.mem_parts.mp hx).1 (CodeTree.mem_parts.mp hy).1
    hne hax hby).mpr ?_
  have hparts : Before (t.parts p) y x := by
    rw [hlaid.partsBody] at hx ⊢
    exact Before.of_mem_append hbf ((List.mem_append.mp hx).resolve_left hxf)
  exact hparts.mono List.filter_sublist

end Bound

end BindingSetup

end Bindery
