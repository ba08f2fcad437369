import Bindery.Proofs.Analysis.ClassOrder
import Bindery.Proofs.Computation
import Bindery.Proofs.Decl.Reached

/-!
# Needs between classes, and classes side by side

A class needs its bases and the classes of its default arguments.  Classes are put in order among
their siblings only, so that a need of one class for another counts there for the siblings that
are, or contain, the two.  Not every need is noticed there: of the bases, only those of the
siblings themselves are.

## Main definitions

* `DeclGraph.Needs` — a class needs another.
* `DeclGraph.Siblings`, `DeclGraph.SideBySide` — classes that are put in order together.
* `DeclGraph.Lifted` — the needs between siblings that come from needs within them.
* `DeclGraph.Noticed` — the need counts in the order of siblings.

## Main results

* `order_classes` — the classes of an order are ordered by themselves.
* `lifted_of_dependsOn` — a dependency between siblings is a lifted need.
* `dependsOn_of_noticed` — **a noticed need is a dependency between siblings.**
-/

namespace Bindery.DeclGraph

variable {g : DeclGraph} {classes ids : List DeclId} {a b c x y z : DeclId} {l la lb : List DeclId}

/-! ### The order of declarations of all sorts -/

theorem mem_orderGroup {group : Group} :
    c ∈ (g.orderGroup group ids).declarations ↔ c ∈ ids := by
  cases group
  case classes => exact mem_sortClasses
  case enums | others => exact Iff.rfl
  all_goals exact List.mem_mergeSort

/-- The declarations of a list that belong to a group. -/
def inGroup (g : DeclGraph) (group : Group) (ids : List DeclId) : List DeclId :=
  ids.filter fun id => (g.kind? id).map Group.of == some group

theorem mem_inGroup {group : Group} :
    c ∈ g.inGroup group ids ↔ c ∈ ids ∧ (g.kind? c).map Group.of = some group := by
  rw [inGroup, List.mem_filter, beq_iff_eq]

theorem inGroup_classes (g : DeclGraph) (ids : List DeclId) :
    g.inGroup .classes ids = ids.filter g.isClass := by
  apply List.filter_congr
  intro id _
  unfold isClass class?
  cases g.kind? id with
  | none => rfl
  | some k =>
    cases k with
    | callable c =>
      simp only [Option.map_some, Group.of]
      split <;> rfl
    | _ => rfl

/-- Sorting the declarations into groups. -/
private theorem mapM_group (group : Group) : ∀ {ids : List DeclId}
    {grouped : List (DeclId × Group)},
    (ids.mapM fun id => do return (id, Group.of (← g.decl id).kind)) = .ok grouped →
      (grouped.filter (·.2 == group)).map (·.1) = g.inGroup group ids
  | [], _, h => by
    cases h
    rfl
  | id :: ids, _, h => by
    rw [List.mapM_cons] at h
    obtain ⟨p, hp, h⟩ := Except.bind_eq_ok.mp h
    obtain ⟨grouped, hgrouped, h⟩ := Except.bind_eq_ok.mp h
    obtain ⟨d, hd, hp⟩ := Except.bind_eq_ok.mp hp
    cases hp
    cases h
    have hkind : g.kind? id = some d.kind := by
      unfold kind?
      rw [decl_eq_ok.mp hd]
      rfl
    have hrest := mapM_group group hgrouped
    unfold inGroup at hrest ⊢
    by_cases hgroup : Group.of d.kind = group
    · rw [List.filter_cons_of_pos (by simpa using hgroup), List.map_cons, hrest,
        List.filter_cons_of_pos (by simpa [hkind] using hgroup)]
    · rw [List.filter_cons_of_neg (by simpa using hgroup), hrest,
        List.filter_cons_of_neg (by simpa [hkind] using hgroup)]

/-- The groups come one after the other. -/
theorem order_ok {o : EmissionOrder} (h : g.order ids = .ok o) :
    o.declarations =
      Group.all.flatMap fun group => (g.orderGroup group (g.inGroup group ids)).declarations := by
  obtain ⟨grouped, hgrouped, h⟩ := Except.bind_eq_ok.mp h
  cases h
  rw [List.flatMap_map]
  apply List.flatMap_congr
  intro group _
  rw [mapM_group group hgrouped]

/-- What is put in order are the declarations of the list. -/
theorem mem_order {o : EmissionOrder} (h : g.order ids = .ok o) :
    c ∈ o.declarations ↔ c ∈ ids := by
  rw [order_ok h, List.mem_flatMap]
  constructor
  · rintro ⟨group, -, hc⟩
    exact (mem_inGroup.mp (mem_orderGroup.mp hc)).1
  · intro hc
    -- all declarations exist, so that each belongs to a group
    obtain ⟨grouped, hgrouped, -⟩ := Except.bind_eq_ok.mp h
    obtain ⟨p, -, hp⟩ := Except.exists_mem_of_mapM hgrouped hc
    obtain ⟨d, hd, -⟩ := Except.bind_eq_ok.mp hp
    have hgroup : (g.kind? c).map Group.of = some (Group.of d.kind) := by
      unfold kind?
      rw [decl_eq_ok.mp hd]
      rfl
    refine ⟨Group.of d.kind, ?_, mem_orderGroup.mpr (mem_inGroup.mpr ⟨hc, hgroup⟩)⟩
    cases Group.of d.kind <;> decide

/-- The classes of an order are ordered by themselves. -/
theorem order_classes {o : EmissionOrder} (h : g.order ids = .ok o) :
    o.declarations.filter g.isClass = (g.sortClasses (ids.filter g.isClass)).declarations := by
  have hgroup : ∀ group, ((g.orderGroup group (g.inGroup group ids)).declarations).filter g.isClass =
      if group = .classes then (g.sortClasses (ids.filter g.isClass)).declarations else [] := by
    intro group
    split
    · next hclasses =>
      have hall : ∀ c ∈ (g.sortClasses (ids.filter g.isClass)).declarations, g.isClass c :=
        fun c hc => List.of_mem_filter (mem_sortClasses.mp hc)
      rw [hclasses, inGroup_classes]
      exact List.filter_eq_self.mpr hall
    · next hother =>
      rw [List.filter_eq_nil_iff]
      intro c hc hclass
      obtain ⟨hmem, hgroup⟩ := mem_inGroup.mp (mem_orderGroup.mp hc)
      have hcls : c ∈ g.inGroup .classes ids := by
        rw [inGroup_classes]
        exact List.mem_filter.mpr ⟨hmem, hclass⟩
      rw [(mem_inGroup.mp hcls).2] at hgroup
      exact hother (Option.some.inj hgroup).symm
  rw [order_ok h, List.filter_flatMap]
  simp only [hgroup]
  simp [Group.all]

theorem exists_decl_of_isClass (h : g.isClass c) :
    ∃ d, g.decl c = .ok d ∧ Group.of d.kind = .classes := by
  unfold isClass class? kind? at h
  cases hget : g.get? c with
  | none =>
    rw [hget] at h
    cases h
  | some d =>
    refine ⟨d, decl_eq_ok.mpr hget, ?_⟩
    rw [hget, Option.map_some] at h
    cases hkind : d.kind with
    | cls _ => rfl
    | _ =>
      rw [hkind] at h
      cases h

/-- Classes among themselves have the order of the classes. -/
theorem order_of_classes (h : ∀ c ∈ ids, g.isClass c) : g.order ids = .ok (g.sortClasses ids) := by
  have hgrouped : (ids.mapM fun id => do return (id, Group.of (← g.decl id).kind)) =
      .ok (ids.map fun id => (id, Group.classes)) := by
    induction ids with
    | nil => rfl
    | cons c ids ih =>
      obtain ⟨d, hd, hgroup⟩ := exists_decl_of_isClass (h c List.mem_cons_self)
      rw [List.mapM_cons, List.map_cons, hd, ih fun d hd => h d (List.mem_cons_of_mem c hd)]
      show Except.ok ((c, Group.of d.kind) :: _) = _
      rw [hgroup]
  -- all groups but that of the classes are empty
  have hgroup : ∀ group, ((ids.map fun id => (id, Group.classes)).filter (·.2 == group)).map (·.1) =
      if group = .classes then ids else [] := by
    intro group
    cases group <;> simp [List.filter_map, Function.comp_def]
  unfold order
  rw [hgrouped]
  show Except.ok _ = _
  simp [hgroup, Group.all, orderGroup]

/-! ### Needs -/

/-- A class needs another, as a base or for a default argument of a function in it. -/
def Needs (g : DeclGraph) (a b : DeclId) : Prop :=
  g.isClass a ∧ (b ∈ g.bases a ∨ b ∈ g.defaultArgumentClasses a)

/-- Two declarations are members of one class, or no class is around either. -/
def Siblings (g : DeclGraph) (x y : DeclId) : Prop :=
  (∃ p, g.isClass p ∧ g.parent? x = some p ∧ g.parent? y = some p) ∨
    (∀ s ∈ g.enclosing x, ¬ g.isClass s) ∧ ∀ s ∈ g.enclosing y, ¬ g.isClass s

/-- A class that is, or contains, a class with a need, and a sibling of it that is, or contains,
the class needed. -/
structure Lifted (g : DeclGraph) (x y : DeclId) : Prop where
  ne : x ≠ y
  left : g.isClass x
  right : g.isClass y
  siblings : g.Siblings x y
  needs : ∃ a b, g.Needs a b ∧ x ∈ a :: g.enclosing a ∧ y ∈ b :: g.enclosing b

/-- The order of siblings takes notice of the need of `a` for `b`: it is for a default argument,
or every class around `a` is around `b` as well; and the classes around `b` share their full names
with no others. -/
structure Noticed (g : DeclGraph) (a b : DeclId) : Prop where
  visible : b ∈ g.defaultArgumentClasses a ∨
    ∀ s ∈ g.enclosing a, g.isClass s → s ∈ g.enclosing b
  named : ∀ s ∈ b :: g.enclosing b, ∀ d, g.isClass d → g.fullName d = g.fullName s → d = s

/-- Classes that are put in order together. -/
structure SideBySide (g : DeclGraph) (classes : List DeclId) : Prop where
  isClass : ∀ x ∈ classes, g.isClass x
  siblings : ∀ x ∈ classes, ∀ y ∈ classes, g.Siblings x y

/-- A class is not around its siblings. -/
theorem Reached.not_mem_of_siblings (hs : g.Scoped) (hx : g.Reached x l)
    (hxy : g.Siblings x y) (hy : g.isClass y) : y ∉ l := by
  intro hmem
  rcases hxy with ⟨p, -, hxp, hyp⟩ | ⟨hxout, -⟩
  · have hclimbs := hx.climbs hs
    cases l with
    | nil => cases hmem
    | cons q l =>
      obtain rfl : q = p := Option.some.inj (hclimbs.1.symm.trans hxp)
      -- `y` has the parent of `x`, so that the chain above `x` is the chain above `y`
      have hyclimbs : Climbs g.parent? y (q :: l) := ⟨hyp, hclimbs.2⟩
      exact (List.nodup_cons.mp hyclimbs.nodup).1 hmem
  · rw [hx.enclosing_eq hs] at hxout
    exact hxout y hmem hy

/-- At most one of several siblings is or contains a declaration. -/
theorem Reached.sibling_unique (hs : g.Scoped) (hside : g.SideBySide classes)
    (hb : g.Reached b l) (hy : y ∈ classes) (hz : z ∈ classes) (hyb : y ∈ b :: l)
    (hzb : z ∈ b :: l) : y = z := by
  rcases hb.above_total hyb hzb with ⟨k, hk, hmem⟩ | ⟨k, hk, hmem⟩
  · refine ((List.mem_cons.mp hmem).resolve_right ?_).symm
    exact hk.not_mem_of_siblings hs (hside.siblings y hy z hz) (hside.isClass z hz)
  · refine (List.mem_cons.mp hmem).resolve_right ?_
    exact hk.not_mem_of_siblings hs (hside.siblings z hz y hy) (hside.isClass y hy)

/-- The owner of a declaration is the sibling that is or contains it. -/
theorem Reached.ownerIn?_eq (hs : g.Scoped) (hside : g.SideBySide classes) (hb : g.Reached b l)
    (hy : y ∈ classes) (hyb : y ∈ b :: l) : g.ownerIn? classes b = some y := by
  unfold ownerIn?
  rw [hb.enclosing_eq hs]
  cases hfind : (b :: l).find? (· ∈ classes) with
  | none =>
    have hnone := List.find?_eq_none.mp hfind y hyb
    exact absurd hy (by simpa using hnone)
  | some z =>
    have hz : z ∈ classes := by simpa using List.find?_some hfind
    rw [hb.sibling_unique hs hside hz hy (List.mem_of_find?_eq_some hfind) hyb]

/-- A dependency between siblings is a lifted need. -/
theorem lifted_of_dependsOn (hside : g.SideBySide classes) (h : g.DependsOn classes x y) :
    g.Lifted x y := by
  obtain ⟨hx, hy⟩ := h
  have hyx := mem_of_mem_classDependencies hy
  obtain ⟨p, hp, rfl⟩ := List.mem_map.mp (NameMap.mem_of_mem_values_ofList hy)
  obtain ⟨e, he, rfl⟩ := List.mem_map.mp hp
  obtain ⟨d, hd, he⟩ := List.mem_filterMap.mp he
  obtain ⟨howner, -⟩ := Option.filter_eq_some_iff.mp he
  refine ⟨Ne.symm hyx.2, hside.isClass x hx, hside.isClass e hyx.1,
    hside.siblings x hx e hyx.1, x, d, ⟨hside.isClass x hx, List.mem_append.mp hd⟩,
    List.mem_cons_self, ?_⟩
  exact List.mem_of_find?_eq_some howner

/-- What a class needs for default arguments is needed by the classes around it. -/
theorem Reached.defaultArgumentClasses_subset (hs : g.Scoped) (ha : g.Reached a la)
    (hx : x ∈ a :: la) : g.defaultArgumentClasses a ⊆ g.defaultArgumentClasses x := by
  rcases List.mem_cons.mp hx with rfl | hx
  · exact List.Subset.refl _
  · intro b hb
    obtain ⟨m, hm, hb⟩ := List.mem_flatMap.mp hb
    exact List.mem_flatMap.mpr ⟨m, ha.descendants_subset hs x hx hm, hb⟩

/-- **A noticed need is a dependency between the siblings that are, or contain, the two classes.** -/
theorem dependsOn_of_noticed (hs : g.Scoped) (hside : g.SideBySide classes)
    (ha : g.Reached a la) (hb : g.Reached b lb) (hx : x ∈ classes) (hy : y ∈ classes)
    (hne : x ≠ y) (hxa : x ∈ a :: la) (hyb : y ∈ b :: lb) (hneeds : g.Needs a b)
    (hnoticed : g.Noticed a b) : g.DependsOn classes x y := by
  have hneed : b ∈ g.bases x ++ g.defaultArgumentClasses x := by
    rw [List.mem_append]
    rcases hnoticed.visible with hdefault | houter
    · exact .inr (ha.defaultArgumentClasses_subset hs hxa hdefault)
    · -- `a` is the sibling itself: a class around it would be around `b`
      have hself : x = a := (List.mem_cons.mp hxa).resolve_right fun hxl => by
        have hxb := houter x (by rw [ha.enclosing_eq hs]; exact hxl) (hside.isClass x hx)
        rw [hb.enclosing_eq hs] at hxb
        exact hne (hb.sibling_unique hs hside hx hy (List.mem_cons_of_mem b hxb) hyb)
      rw [hself]
      exact hneeds.2
  -- the owners are listed by full name, and no other owner has that of `y`
  have howner := hb.ownerIn?_eq hs hside hy hyb
  refine ⟨hx, NameMap.mem_values_ofList (?_ : (g.fullName y, y) ∈ _) ?_⟩
  · refine List.mem_map.mpr ⟨y, List.mem_filterMap.mpr ⟨b, hneed, ?_⟩, rfl⟩
    rw [howner, Option.filter_some_pos]
    exact decide_eq_true (Ne.symm hne)
  · intro p hp hname
    obtain ⟨e, he, rfl⟩ := List.mem_map.mp hp
    obtain ⟨d, -, he⟩ := List.mem_filterMap.mp he
    obtain ⟨howner, -⟩ := Option.filter_eq_some_iff.mp he
    have hclass := hside.isClass e (mem_of_ownerIn? howner)
    exact hnoticed.named y (by rw [hb.enclosing_eq hs]; exact hyb) e hclass hname

end Bindery.DeclGraph
