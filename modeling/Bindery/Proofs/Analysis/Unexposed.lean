import Bindery.Analysis.Unexposed
import Bindery.Proofs.Analysis.Answers
import Bindery.Proofs.ListOrder
import Bindery.Proofs.NameMap

/-!
# The report of missing declarations

Dependencies on declarations that are not exposed are reported in groups.  A group ought to be about
one missing declaration.  The groups are told apart by the full names of the declarations, though,
which are those of several declarations where names are missing, and then one group has the
dependencies on all of these and names the first.

## Main definitions

* `DeclGraph.NeedsExposure` — a declaration that Python has to be told about.
* `DeclGraph.Reportable` — a dependency of an exposed declaration that deserves a report.
* `DeclGraph.GroupedByName` — a group for each full name of missing declarations.
* `DeclGraph.Grouped` — the dependencies are grouped by the missing declarations.
* `DeclGraph.TargetsNamed` — no two of the missing declarations have one full name.

## Main results

* `unexposed_ok` — there is a group for each full name, in the order of the names.
* `GroupedByName.grouped_iff` — the groups are about one declaration each exactly if the names tell
  these apart.
* `Closed.unexposed_grouped` — **the report is complete, in order and the same for every order of
  the exposed declarations**, if the names tell the missing declarations apart.
-/

namespace Bindery

/-! ### The order of dependencies -/

theorem DependencyReason.rank_injective : Function.Injective DependencyReason.rank := by
  intro a b h
  cases a <;> cases b <;> first | rfl | cases h

/-- The numbers by which dependencies of one full name are ordered. -/
def Dependency.key (d : Dependency) : Nat × Nat × Nat := (d.source, d.target, d.reason.rank)

theorem Dependency.key_injective : Function.Injective Dependency.key := by
  intro a b h
  obtain ⟨hsource, h⟩ := Prod.mk.inj h
  obtain ⟨htarget, hrank⟩ := Prod.mk.inj h
  cases a
  cases b
  cases hsource
  cases htarget
  cases DependencyReason.rank_injective hrank
  rfl

namespace DeclGraph

variable {g : DeclGraph} {exported exported' : List DeclId} {ds ds' : List Dependency}
  {d e : Dependency} {name : String} {u v : UnexposedDependency}
  {groups groups' : List UnexposedDependency}

theorem dependencyLe_iff {a b : Dependency} : g.dependencyLe a b ↔
    g.fullName a.source < g.fullName b.source ∨ g.fullName a.source = g.fullName b.source ∧
      (a.key.1 < b.key.1 ∨ a.key.1 = b.key.1 ∧
        (a.key.2.1 < b.key.2.1 ∨ a.key.2.1 = b.key.2.1 ∧ a.key.2.2 ≤ b.key.2.2)) := by
  simp [dependencyLe, Dependency.key]

theorem dependencyLe_trans (a b c : Dependency) (hab : g.dependencyLe a b)
    (hbc : g.dependencyLe b c) : g.dependencyLe a c := by
  rw [dependencyLe_iff] at hab hbc ⊢
  -- the full names decide, and the numbers only where these are the same
  rcases hab with hab | ⟨hab, hrest⟩
  · rcases hbc with hbc | ⟨hbc, -⟩
    · exact .inl (String.lt_trans hab hbc)
    · exact .inl (hbc ▸ hab)
  · rcases hbc with hbc | ⟨hbc, hrest'⟩
    · exact .inl (hab ▸ hbc)
    · exact .inr ⟨hab.trans hbc, by omega⟩

theorem dependencyLe_total (a b : Dependency) : g.dependencyLe a b || g.dependencyLe b a := by
  rw [Bool.or_eq_true, dependencyLe_iff, dependencyLe_iff]
  by_cases heq : g.fullName a.source = g.fullName b.source
  · rw [heq]
    simp only [String.lt_irrefl, false_or, true_and]
    omega
  · by_cases hlt : g.fullName a.source < g.fullName b.source
    · exact .inl (.inl hlt)
    · exact .inr (.inl (Std.lt_of_le_of_ne (String.not_lt.mp hlt) (Ne.symm heq)))

theorem dependencyLe_antisymm {a b : Dependency} (hab : g.dependencyLe a b)
    (hba : g.dependencyLe b a) : a = b := by
  rw [dependencyLe_iff] at hab hba
  have hnames : g.fullName a.source = g.fullName b.source := by
    rcases hab with hab | ⟨hab, -⟩
    · rcases hba with hba | ⟨hba, -⟩
      · exact (String.lt_irrefl _ (String.lt_trans hab hba)).elim
      · exact hba.symm
    · exact hab
  rw [hnames] at hab hba
  simp only [String.lt_irrefl, false_or, true_and] at hab hba
  refine Dependency.key_injective (Prod.ext ?_ (Prod.ext ?_ ?_)) <;> omega

/-- The order of dependencies is that of the full names of the dependents first. -/
theorem fullName_le_of_dependencyLe {a b : Dependency} (h : g.dependencyLe a b) :
    g.fullName a.source ≤ g.fullName b.source := by
  rcases dependencyLe_iff.mp h with hlt | ⟨heq, -⟩
  · exact Std.le_of_lt hlt
  · exact heq ▸ String.le_refl _

/-- There is only one way to put dependencies in order. -/
theorem eq_of_ordered (hds : ds.Pairwise fun a b => g.dependencyLe a b)
    (hds' : ds'.Pairwise fun a b => g.dependencyLe a b) (hnodup : ds.Nodup) (hnodup' : ds'.Nodup)
    (hsame : ∀ d, d ∈ ds ↔ d ∈ ds') : ds = ds' :=
  List.Perm.eq_of_pairwise (fun _ _ _ _ => dependencyLe_antisymm) hds hds'
    ((List.perm_ext_iff_of_nodup hnodup hnodup').mpr hsame)

/-! ### Dependencies that deserve a report -/

/-- Python has to be told about the declaration `t`: it is a class that is more than a name, or an
enumeration, and not one of the standard library, pairs apart. -/
structure NeedsExposure (g : DeclGraph) (target : DeclId) (t : Declaration) : Prop where
  isType : (∃ c, t.kind = .cls c ∧ c.isOpaque = false) ∨ ∃ values, t.kind = .enum values
  foreign : g.isStd target → t.name.startsWith "pair<"

/-- An exposed declaration depends on one that is not exposed and that Python has to be told about;
what is passed as an opaque pointer only, is not. -/
structure Reportable (g : DeclGraph) (exported : List DeclId) (d : Dependency) : Prop where
  source : d.source ∈ exported
  needed : d ∈ g.dependencies d.source
  missing : d.target ∉ exported
  deserves : ∃ t, g.get? d.target = some t ∧ g.NeedsExposure d.target t
  not_opaque : d.reason = .returnType →
    (g.config d.source).callPolicy ≠ some .returnOpaquePointer

theorem deservesReport_iff {target : DeclId} {t : Declaration} :
    g.deservesReport target t ↔ g.NeedsExposure target t := by
  have hforeign : (!g.isStd target || t.name.startsWith "pair<") = true ↔
      (g.isStd target → t.name.startsWith "pair<") := by
    cases g.isStd target <;> simp
  unfold deservesReport
  cases hkind : t.kind with
  | cls c =>
    rw [Bool.and_eq_true, hforeign, Bool.not_eq_true']
    constructor
    · rintro ⟨hplain, hforeign⟩
      exact ⟨.inl ⟨c, hkind, hplain⟩, hforeign⟩
    · rintro ⟨htype, hforeign⟩
      exact ⟨by simpa [hkind] using htype, hforeign⟩
  | enum values =>
    rw [hforeign]
    exact ⟨fun h => ⟨.inr ⟨values, hkind⟩, h⟩, fun h => h.foreign⟩
  | ns | callable | «variable» | typedef =>
    exact iff_of_false (fun h => nomatch h) fun h => by simpa [hkind] using h.isType

theorem isOpaqueResult_eq_false_iff : g.isOpaqueResult d = false ↔
    (d.reason = .returnType → (g.config d.source).callPolicy ≠ some .returnOpaquePointer) := by
  simp [isOpaqueResult]

theorem source_of_mem_dependencies {id : DeclId} (h : d ∈ g.dependencies id) : d.source = id := by
  unfold dependencies at h
  split at h
  · obtain ⟨r, -, rfl⟩ := List.mem_map.mp h
    rfl
  · cases h

theorem isReportable_eq_ok_true : g.isReportable exported d = .ok true ↔ d.target ∉ exported ∧
    (∃ t, g.get? d.target = some t ∧ g.NeedsExposure d.target t) ∧
    (d.reason = .returnType → (g.config d.source).callPolicy ≠ some .returnOpaquePointer) := by
  unfold isReportable
  split
  · next hmem =>
    exact iff_of_false (fun h => nomatch h) fun h => h.1 hmem
  · next hmem =>
    simp only [Except.bind_eq_ok, Except.pure_eq_ok, decl_eq_ok, Bool.and_eq_true,
      Bool.not_eq_true', deservesReport_iff, isOpaqueResult_eq_false_iff]
    constructor
    · rintro ⟨t, ht, hdeserves, hpassed⟩
      exact ⟨hmem, ⟨t, ht, hdeserves⟩, hpassed⟩
    · rintro ⟨-, ⟨t, ht, hdeserves⟩, hpassed⟩
      exact ⟨t, ht, hdeserves, hpassed⟩

theorem mem_reportable (h : g.reportable exported = .ok ds) :
    d ∈ ds ↔ g.Reportable exported d := by
  rw [Except.mem_filterM h, isReportable_eq_ok_true]
  constructor
  · rintro ⟨hmem, hmissing, hdeserves, hpassed⟩
    obtain ⟨id, hid, hd⟩ := List.mem_flatMap.mp hmem
    rw [← source_of_mem_dependencies hd] at hid hd
    exact ⟨List.mem_eraseDups.mp hid, hd, hmissing, hdeserves, hpassed⟩
  · intro h
    exact ⟨List.mem_flatMap.mpr ⟨d.source, List.mem_eraseDups.mpr h.source, h.needed⟩, h.missing,
      h.deserves, h.not_opaque⟩

/-- Only which declarations are exposed matters. -/
theorem reportable_congr (hsame : ∀ id, id ∈ exported' ↔ id ∈ exported) :
    g.Reportable exported' d ↔ g.Reportable exported d :=
  ⟨fun h => ⟨(hsame _).mp h.source, h.needed, fun hm => h.missing ((hsame _).mpr hm), h.deserves,
    h.not_opaque⟩, fun h => ⟨(hsame _).mpr h.source, h.needed,
    fun hm => h.missing ((hsame _).mp hm), h.deserves, h.not_opaque⟩⟩

/-! ### Groups of one full name -/

/-- A group of the dependencies on the missing declarations that have one full name. -/
structure GroupOf (g : DeclGraph) (exported : List DeclId) (u : UnexposedDependency) : Prop where
  /-- The group names a missing declaration. -/
  target : ∃ d, g.Reportable exported d ∧ d.target = u.target
  dependents : ∀ d, d ∈ u.dependents ↔
    g.Reportable exported d ∧ g.fullName d.target = g.fullName u.target
  once : u.dependents.Nodup
  ordered : u.dependents.Pairwise fun a b => g.dependencyLe a b

/-- There is one group for each full name of missing declarations, in the order of these names. -/
structure GroupedByName (g : DeclGraph) (exported : List DeclId)
    (groups : List UnexposedDependency) : Prop where
  ascending : groups.Pairwise fun u v => g.fullName u.target < g.fullName v.target
  groupOf : ∀ u ∈ groups, g.GroupOf exported u
  complete : ∀ d, g.Reportable exported d →
    ∃ u ∈ groups, g.fullName u.target = g.fullName d.target

theorem unexposedGroup_eq_some (h : g.reportable exported = .ok ds)
    (hu : g.unexposedGroup ds name = some u) :
    g.fullName u.target = name ∧ g.GroupOf exported u := by
  unfold unexposedGroup at hu
  split at hu
  · cases hu
  · next d ds' hfilter =>
    cases hu
    have hmem : ∀ e, e ∈ d :: ds' ↔ g.Reportable exported e ∧ g.fullName e.target = name := by
      intro e
      rw [← hfilter, List.mem_filter, mem_reportable h, beq_iff_eq]
    obtain ⟨hd, rfl⟩ := (hmem d).mp List.mem_cons_self
    refine ⟨rfl, ⟨d, hd, rfl⟩, fun e => ?_, nodup_eraseDups _, ?_⟩
    · rw [List.mem_eraseDups, List.mem_mergeSort, hmem]
    · exact (List.pairwise_mergeSort dependencyLe_trans dependencyLe_total _).sublist
        (eraseDups_sublist _)

theorem exists_unexposedGroup (hd : d ∈ ds) :
    ∃ u, g.unexposedGroup ds (g.fullName d.target) = some u := by
  unfold unexposedGroup
  split
  · next hfilter =>
    exact absurd (beq_self_eq_true _) (List.filter_eq_nil_iff.mp hfilter d hd)
  · exact ⟨_, rfl⟩

/-- **Dependencies are grouped by the full names of what is missing.** -/
theorem unexposed_ok (h : g.unexposed exported = .ok groups) :
    g.GroupedByName exported groups := by
  obtain ⟨ds, hds, hgroups⟩ := Except.bind_eq_ok.mp h
  cases hgroups
  refine ⟨?_, fun u hu => ?_, fun d hd => ?_⟩
  · -- the groups come in the order of the names that they are made for
    refine List.Pairwise.filterMap _ (fun n n' hlt u hu v hv => ?_)
      (List.pairwise_map.mpr (NameMap.ascending_ofList _))
    rw [(unexposedGroup_eq_some hds hu).1, (unexposedGroup_eq_some hds hv).1]
    exact hlt
  · obtain ⟨n, -, hu⟩ := List.mem_filterMap.mp hu
    exact (unexposedGroup_eq_some hds hu).2
  · have hmem := (mem_reportable hds).mpr hd
    obtain ⟨u, hu⟩ := exists_unexposedGroup (g := g) hmem
    refine ⟨u, List.mem_filterMap.mpr ⟨_, ?_, hu⟩, (unexposedGroup_eq_some hds hu).1⟩
    rw [NameMap.mem_names_ofList, List.map_map]
    exact List.mem_map_of_mem hmem

theorem GroupedByName.nodup_names (h : g.GroupedByName exported groups) :
    (groups.map fun u => g.fullName u.target).Nodup :=
  List.pairwise_map.mpr (h.ascending.imp Std.ne_of_lt)

/-- The group of a full name is known by the name. -/
theorem GroupedByName.eq_of_fullName_eq (h : g.GroupedByName exported groups) (hu : u ∈ groups)
    (hv : v ∈ groups) (heq : g.fullName u.target = g.fullName v.target) : u = v :=
  List.inj_on_of_nodup_map h.nodup_names hu hv heq

/-! ### Groups of one declaration -/

/-- The dependencies are grouped by the missing declarations: each of these that a dependency
deserving a report leads to has one group, which has exactly those dependencies. -/
structure Grouped (g : DeclGraph) (exported : List DeclId) (groups : List UnexposedDependency) :
    Prop where
  distinct : (groups.map (·.target)).Nodup
  reported : ∀ id, id ∈ groups.map (·.target) ↔ ∃ d, g.Reportable exported d ∧ d.target = id
  dependents : ∀ u ∈ groups, ∀ d, d ∈ u.dependents ↔
    g.Reportable exported d ∧ d.target = u.target
  once : ∀ u ∈ groups, u.dependents.Nodup
  sorted : ∀ u ∈ groups,
    u.dependents.Pairwise fun a b => g.fullName a.source ≤ g.fullName b.source
  ascending : groups.Pairwise fun u v => g.fullName u.target ≤ g.fullName v.target

/-- The full names of the missing declarations tell them apart. -/
def TargetsNamed (g : DeclGraph) (exported : List DeclId) : Prop :=
  ∀ d e, g.Reportable exported d → g.Reportable exported e →
    g.fullName d.target = g.fullName e.target → d.target = e.target

/-- Whether full names tell the missing declarations apart is seen from the dependencies found. -/
theorem targetsNamed_iff (h : g.reportable exported = .ok ds) : g.TargetsNamed exported ↔
    ∀ d ∈ ds, ∀ e ∈ ds, g.fullName d.target = g.fullName e.target → d.target = e.target := by
  unfold TargetsNamed
  simp only [← mem_reportable h]
  exact ⟨fun hnamed d hd e he => hnamed d e hd he, fun hnamed d e hd he => hnamed d hd e he⟩

/-- With a full name for each missing declaration, a group of a full name is one of a
declaration. -/
theorem GroupedByName.grouped (h : g.GroupedByName exported groups)
    (hnamed : g.TargetsNamed exported) : g.Grouped exported groups where
  distinct := List.Nodup.of_map g.fullName (by rw [List.map_map]; exact h.nodup_names)
  reported id := by
    constructor
    · intro hid
      obtain ⟨u, hu, rfl⟩ := List.mem_map.mp hid
      exact (h.groupOf u hu).target
    · rintro ⟨d, hd, rfl⟩
      -- the group of this full name is named after the target of some `e`, not of `d`
      obtain ⟨u, hu, heq⟩ := h.complete d hd
      obtain ⟨e, he, htarget⟩ := (h.groupOf u hu).target
      refine List.mem_map.mpr ⟨u, hu, htarget.symm.trans (hnamed e d he hd ?_)⟩
      rw [htarget, heq]
  dependents u hu d := by
    rw [(h.groupOf u hu).dependents]
    refine and_congr_right fun hd => ⟨fun heq => ?_, fun heq => heq ▸ rfl⟩
    obtain ⟨e, he, htarget⟩ := (h.groupOf u hu).target
    exact (hnamed d e hd he (htarget ▸ heq)).trans htarget
  once u hu := (h.groupOf u hu).once
  sorted u hu := (h.groupOf u hu).ordered.imp fullName_le_of_dependencyLe
  ascending := h.ascending.imp Std.le_of_lt

/-- **The groups are about one declaration each exactly if full names tell these apart.** -/
theorem GroupedByName.grouped_iff (h : g.GroupedByName exported groups) :
    g.Grouped exported groups ↔ g.TargetsNamed exported := by
  refine ⟨fun hgrouped d e hd he heq => ?_, h.grouped⟩
  obtain ⟨u, hu, htarget⟩ := List.mem_map.mp ((hgrouped.reported _).mpr ⟨d, hd, rfl⟩)
  obtain ⟨v, hv, htarget'⟩ := List.mem_map.mp ((hgrouped.reported _).mpr ⟨e, he, rfl⟩)
  rw [← htarget, ← htarget'] at heq ⊢
  rw [h.eq_of_fullName_eq hu hv heq]

/-! ### The order of the exposed declarations -/

/-- The group of a declaration is there whatever the order of the exposed declarations. -/
theorem GroupedByName.mem_of_same (h : g.GroupedByName exported groups)
    (h' : g.GroupedByName exported' groups') (hnamed : g.TargetsNamed exported)
    (hsame : ∀ id, id ∈ exported' ↔ id ∈ exported) (hu : u ∈ groups) : u ∈ groups' := by
  have hgroup := h.groupOf u hu
  -- `v` is the group of the same full name, which could be named after another declaration
  obtain ⟨d, hd, htarget⟩ := hgroup.target
  obtain ⟨v, hv, heq⟩ := h'.complete d ((reportable_congr hsame).mpr hd)
  have hgroup' := h'.groupOf v hv
  obtain ⟨e, he, htarget'⟩ := hgroup'.target
  have hsame_target : u.target = v.target := by
    rw [← htarget, ← htarget']
    exact hnamed d e hd ((reportable_congr hsame).mp he) (htarget' ▸ heq.symm)
  have hdependents : u.dependents = v.dependents := by
    refine eq_of_ordered hgroup.ordered hgroup'.ordered hgroup.once hgroup'.once fun d => ?_
    rw [hgroup.dependents, hgroup'.dependents, reportable_congr hsame, hsame_target]
  cases u
  cases v
  cases hsame_target
  cases hdependents
  exact hv

theorem TargetsNamed.congr (hnamed : g.TargetsNamed exported)
    (hsame : ∀ id, id ∈ exported' ↔ id ∈ exported) : g.TargetsNamed exported' :=
  fun d e hd he => hnamed d e ((reportable_congr hsame).mp hd) ((reportable_congr hsame).mp he)

/-- The report is the same for every order of the exposed declarations. -/
theorem GroupedByName.eq_of_same (h : g.GroupedByName exported groups)
    (h' : g.GroupedByName exported' groups') (hnamed : g.TargetsNamed exported)
    (hsame : ∀ id, id ∈ exported' ↔ id ∈ exported) : groups' = groups := by
  refine List.Perm.eq_of_pairwise (fun u v _ _ hlt hlt' => ?_) h'.ascending h.ascending
    ((List.perm_ext_iff_of_nodup h'.nodup_names.of_map h.nodup_names.of_map).mpr fun u => ?_)
  · exact (String.lt_irrefl _ (String.lt_trans hlt hlt')).elim
  · exact ⟨h'.mem_of_same h (hnamed.congr hsame) fun id => (hsame id).symm,
      h.mem_of_same h' hnamed hsame⟩

/-- **The report of missing declarations.**  There always is one, with a group for each full name
of a missing declaration.  The groups are about one declaration each, with all dependencies on it
and no others, exactly if full names tell the missing declarations apart, and then the report
depends neither on the order of the exposed declarations nor on repetitions among them. -/
theorem Closed.unexposed_grouped (hg : g.Closed) (exported : List DeclId) :
    ∃ groups, g.unexposed exported = .ok groups ∧ g.GroupedByName exported groups ∧
      (g.Grouped exported groups ↔ g.TargetsNamed exported) ∧
      (g.TargetsNamed exported → ∀ exported', (∀ id, id ∈ exported' ↔ id ∈ exported) →
        g.unexposed exported' = .ok groups) := by
  have hanswer : ∀ ids, ∃ groups, g.unexposed ids = .ok groups := fun ids =>
    Except.exists_bind (hg.exists_reportable ids) fun _ _ => ⟨_, rfl⟩
  obtain ⟨groups, hgroups⟩ := hanswer exported
  have hnames := unexposed_ok hgroups
  refine ⟨groups, hgroups, hnames, hnames.grouped_iff, fun hnamed exported' hsame => ?_⟩
  obtain ⟨groups', hgroups'⟩ := hanswer exported'
  rw [hgroups', hnames.eq_of_same (unexposed_ok hgroups') hnamed hsame]

/-- Two enumerations of these names, and a variable of each. -/
def twoEnumerations (first second : String) : DeclGraph :=
  ⟨#[{ name := "::", kind := .ns [1, 2, 3, 4] },
    { name := first, kind := .enum [⟨"red", 0⟩], parent := some root },
    { name := second, kind := .enum [⟨"round", 0⟩], parent := some root },
    { name := "a", kind := .variable { type := .declared 1 }, parent := some root },
    { name := "b", kind := .variable { type := .declared 2 }, parent := some root }]⟩

/-- Enumerations with names have a group each. -/
theorem unexposed_grouped_enumerations : let g := twoEnumerations "Color" "Shape"
    g.Closed ∧ ∃ groups, g.unexposed [3, 4] = .ok groups ∧ g.Grouped [3, 4] groups ∧
      g.unexposed [4, 3, 4] = .ok groups := by
  intro g
  have hclosed : g.Closed := by decide
  have hreportable :
      g.reportable [3, 4] = .ok [⟨3, 1, .variableType⟩, ⟨4, 2, .variableType⟩] := by
    decide +kernel
  have hnamed : g.TargetsNamed [3, 4] := by
    rw [targetsNamed_iff hreportable]
    decide
  obtain ⟨groups, hgroups, -, hiff, hsame⟩ := hclosed.unexposed_grouped [3, 4]
  exact ⟨hclosed, groups, hgroups, hiff.mpr hnamed, hsame hnamed [4, 3, 4] (by simp)⟩

/-- Enumerations without names have one group, which names the one that is met first. -/
theorem unexposed_not_grouped : let g := twoEnumerations "" ""
    g.validate = .ok () ∧ g.Closed ∧ ∃ groups groups', g.unexposed [3, 4] = .ok groups ∧
      g.unexposed [4, 3] = .ok groups' ∧ groups.map (·.target) = [1] ∧
      groups'.map (·.target) = [2] ∧ ¬ g.Grouped [3, 4] groups := by
  intro g
  have hreportable :
      g.reportable [3, 4] = .ok [⟨3, 1, .variableType⟩, ⟨4, 2, .variableType⟩] := by
    decide +kernel
  obtain ⟨groups, hgroups, hfirst⟩ := Except.exists_eq_ok_of_any (x := g.unexposed [3, 4])
    (p := fun groups => groups.map (·.target) = [1]) (by decide +kernel)
  obtain ⟨groups', hgroups', hfirst'⟩ := Except.exists_eq_ok_of_any (x := g.unexposed [4, 3])
    (p := fun groups => groups.map (·.target) = [2]) (by decide +kernel)
  refine ⟨by decide +kernel, by decide, groups, groups', hgroups, hgroups',
    of_decide_eq_true hfirst, of_decide_eq_true hfirst', ?_⟩
  rw [(unexposed_ok hgroups).grouped_iff, targetsNamed_iff hreportable]
  decide

end DeclGraph

end Bindery
