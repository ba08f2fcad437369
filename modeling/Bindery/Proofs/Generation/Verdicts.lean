import Bindery.Generation.Candidates
import Bindery.Proofs.Analysis.Exportability
import Bindery.Proofs.Decl.Reached
import Mathlib.Logic.Relation

/-!
# Verdicts

A module looks for what it offers in namespaces, those of the standard library and those that the
user ignores left aside.  What it finds there has a verdict, unless it is left out without a word,
and so have the members of the classes that take part.

## Main definitions

* `DeclGraph.Searched` — the namespaces that a module looks into.

## Main results

* `mem_namespaceMembers_iff` — **a module finds what lies in the namespaces that it looks into.**
* `hasVerdict_of_mem_judgeWithin`, `mem_judgeWithin` — **what is judged with a declaration has its
  verdict**, and has no other.
* `mem_candidates_iff` — **the candidates are what is found and takes part.**
-/

namespace Bindery.DeclGraph

variable {g : DeclGraph} {options : ModuleOptions} {id m p scope : DeclId} {l : List DeclId}
  {depth : Nat} {v : Exportability} {verdicts : List (DeclId × Exportability)} {c : Candidates}

/-! ### Namespaces -/

/-- A namespace that a module looks into: the global one, and from there those that are neither of
the standard library nor ignored by the user. -/
inductive Searched (g : DeclGraph) : DeclId → Prop
  | root : Searched g DeclGraph.root
  | member {p id : DeclId} {ms : List DeclId} : Searched g p → id ∈ g.members p →
      g.kind? id = some (.ns ms) → ¬ g.isStd id → ¬ (g.config id).ignore → Searched g id

/-- Around a namespace that a module looks into there are no classes. -/
theorem Searched.exists_reached (hs : g.Scoped) (h : g.Searched p) :
    ∃ l, g.Reached p l ∧ ∀ x ∈ p :: l, ¬ g.isClass x := by
  induction h with
  | root =>
    refine ⟨[], .root, ?_⟩
    rw [List.forall_mem_singleton, hs.rootKind]
    exact Bool.false_ne_true
  | member _ hmem hkind _ _ ih =>
    obtain ⟨l, hl, hout⟩ := ih
    refine ⟨_, hl.member hmem, List.forall_mem_cons.mpr ⟨?_, hout⟩⟩
    exact not_isClass_of_kind? hkind fun _ hk => nomatch hk

theorem mem_namespaceMembersWithin_succ : m ∈ g.namespaceMembersWithin (depth + 1) scope ↔
    ∃ id ∈ g.members scope, ¬ g.isStd id ∧
      ((∃ ms, g.kind? id = some (.ns ms) ∧ ¬ (g.config id).ignore ∧
          m ∈ g.namespaceMembersWithin depth id) ∨
        (∀ ms, g.kind? id ≠ some (.ns ms)) ∧ m = id) := by
  rw [namespaceMembersWithin, List.mem_flatMap]
  refine exists_congr fun id => and_congr_right fun _ => ?_
  split
  · next hstd => simp [hstd]
  · next hstd =>
    rw [and_iff_right hstd]
    split
    · next ms hkind => split <;> simp_all
    · next hns =>
      have hother : ∀ ms, g.kind? id ≠ some (.ns ms) := hns
      simp [hother]

theorem exists_searched : ∀ {depth : Nat} {scope : DeclId},
    g.Searched scope → m ∈ g.namespaceMembersWithin depth scope → ∃ p, g.Searched p ∧
      m ∈ g.members p ∧ ¬ g.isStd m ∧ ∀ ms, g.kind? m ≠ some (.ns ms)
  | 0, _, _, hm => absurd hm List.not_mem_nil
  | depth + 1, scope, hscope, hm => by
    obtain ⟨id, hid, hstd, ⟨ms, hkind, hignore, hm⟩ | ⟨hkind, rfl⟩⟩ :=
      mem_namespaceMembersWithin_succ.mp hm
    · exact exists_searched (hscope.member hid hkind hstd hignore) hm
    · exact ⟨scope, hscope, hid, hstd, hkind⟩

/-- The bound on the walk through the namespaces is not felt: there are as many steps left as
declarations that have not been passed. -/
theorem Searched.exists_depth (hs : g.Scoped) (h : g.Searched p) : ∃ l depth, g.Reached p l ∧
    g.size ≤ depth + l.length ∧ g.namespaceMembersWithin depth p ⊆ g.namespaceMembers := by
  induction h with
  | root => exact ⟨[], g.size, .root, le_rfl, List.Subset.refl _⟩
  | @member p id ms _ hmem hkind hstd hignore ih =>
    obtain ⟨l, depth, hl, hdepth, hsubset⟩ := ih
    have hlt := (hl.climbs hs).length_lt (lt_size_of_mem_members hmem) hl.lt_size
    obtain ⟨depth, rfl⟩ : ∃ d, depth = d + 1 := ⟨depth - 1, by omega⟩
    refine ⟨p :: l, depth, hl.member hmem, by rw [List.length_cons]; omega, fun m hm => ?_⟩
    exact hsubset (mem_namespaceMembersWithin_succ.mpr
      ⟨id, hmem, hstd, .inl ⟨ms, hkind, hignore, hm⟩⟩)

/-- **A module finds what lies in the namespaces that it looks into**, the namespaces in them
apart, and what is of the standard library. -/
theorem mem_namespaceMembers_iff (hs : g.Scoped) : m ∈ g.namespaceMembers ↔
    (∃ p, g.Searched p ∧ m ∈ g.members p) ∧ ¬ g.isStd m ∧ ∀ ms, g.kind? m ≠ some (.ns ms) := by
  constructor
  · intro hm
    obtain ⟨p, hp, hmem, hm⟩ := exists_searched .root hm
    exact ⟨⟨p, hp, hmem⟩, hm⟩
  · rintro ⟨⟨p, hp, hmem⟩, hstd, hkind⟩
    obtain ⟨l, depth, hl, hdepth, hsubset⟩ := hp.exists_depth hs
    have hlt := (hl.climbs hs).length_lt (lt_size_of_mem_members hmem) hl.lt_size
    obtain ⟨depth, rfl⟩ : ∃ d, depth = d + 1 := ⟨depth - 1, by omega⟩
    exact hsubset (mem_namespaceMembersWithin_succ.mpr ⟨m, hmem, hstd, .inr ⟨hkind, rfl⟩⟩)

/-! ### Verdicts -/

/-- A declaration is judged first, and then, if it is a class that takes part, its members. -/
theorem judgeWithin_succ (h : g.judgeWithin options (depth + 1) id = .ok verdicts) :
    g.isExcluded id = .ok true ∧ verdicts = [] ∨
    ∃ v rest, g.HasVerdict options id v ∧ verdicts = (id, v) :: rest ∧
      (∀ x ∈ rest, ∃ m vs, g.OffersMember options id m ∧
        g.judgeWithin options depth m = .ok vs ∧ x ∈ vs) ∧
      ∀ m, g.OffersMember options id m → ∃ vs, g.judgeWithin options depth m = .ok vs ∧
        vs ⊆ rest := by
  unfold judgeWithin at h
  obtain ⟨excluded, hexcluded, h⟩ := Except.bind_eq_ok.mp h
  cases excluded with
  | true => exact .inl ⟨hexcluded, (Except.ok.inj h).symm⟩
  | false =>
    obtain ⟨v, hv, h⟩ := Except.bind_eq_ok.mp h
    have hverdict : g.HasVerdict options id v := ⟨hexcluded, hv⟩
    refine .inr ?_
    split at h
    · next hclass =>
      obtain ⟨hyes, hclass⟩ := (Bool.and_eq_true _ _).mp hclass
      obtain ⟨ms, hms, h⟩ := Except.bind_eq_ok.mp h
      obtain ⟨found, hfound, h⟩ := Except.bind_eq_ok.mp h
      refine ⟨v, found.flatten, hverdict, (Except.ok.inj h).symm, fun x hx => ?_, fun m hm => ?_⟩
      · obtain ⟨vs, hvs, hx⟩ := List.mem_flatten.mp hx
        obtain ⟨m, hm, hjudged⟩ := Except.exists_of_mem_mapM hfound hvs
        obtain ⟨hmem, hcandidate⟩ := (mem_candidateMembers hms).mp hm
        exact ⟨m, vs, ⟨hclass, hverdict.isExportable_iff.mp hyes, hmem, hcandidate⟩, hjudged, hx⟩
      · obtain ⟨vs, hvs, hjudged⟩ := Except.exists_mem_of_mapM hfound
          ((mem_candidateMembers hms).mpr ⟨hm.member, hm.candidate⟩)
        exact ⟨vs, hjudged, fun x hx => List.mem_flatten.mpr ⟨vs, hvs, hx⟩⟩
    · next hclass =>
      refine ⟨v, [], hverdict, (Except.ok.inj h).symm, fun x hx => absurd hx List.not_mem_nil,
        fun m hm => absurd ?_ hclass⟩
      rw [hverdict.isExportable_iff.mpr hm.takesPart, hm.isClass, Bool.and_self]

/-- **No declaration is given a verdict that is not its own.** -/
theorem hasVerdict_of_mem_judgeWithin : ∀ {depth : Nat} {id : DeclId}
    {verdicts : List (DeclId × Exportability)}, g.judgeWithin options depth id = .ok verdicts →
    ∀ x ∈ verdicts, g.HasVerdict options x.1 x.2
  | 0, _, _, h, x, hx => by
    cases h
    cases hx
  | depth + 1, id, verdicts, h, x, hx => by
    rcases judgeWithin_succ h with ⟨-, rfl⟩ | ⟨v, rest, hverdict, rfl, hrest, -⟩
    · cases hx
    · rcases List.mem_cons.mp hx with rfl | hx
      · exact hverdict
      · obtain ⟨m, vs, -, hjudged, hx⟩ := hrest x hx
        exact hasVerdict_of_mem_judgeWithin hjudged x hx

/-- **Whatever is judged with a declaration that is found from the global namespace gets its
verdict.** -/
theorem mem_judgeWithin (hs : g.Scoped) (hm : g.HasVerdict options m v) :
    ∀ {depth : Nat} {id : DeclId} {l : List DeclId} {verdicts : List (DeclId × Exportability)},
      g.Reached id l → g.size ≤ depth + l.length →
      g.judgeWithin options depth id = .ok verdicts →
      Relation.ReflTransGen (g.OffersMember options) id m → (m, v) ∈ verdicts := by
  -- what the walk starts from is no declaration that is left out
  have hstart : ∀ {id}, Relation.ReflTransGen (g.OffersMember options) id m →
      g.isExcluded id = .ok false := by
    intro id hid
    rcases hid.cases_head with rfl | ⟨x, hx, -⟩
    · exact hm.included
    · exact hx.takesPart.included
  intro depth
  induction depth with
  | zero =>
    intro id l verdicts hl hdepth _ hid
    have := (hl.climbs hs).length_lt (lt_size_of_isExcluded (hstart hid)) hl.lt_size
    omega
  | succ depth ih =>
    intro id l verdicts hl hdepth h hid
    rcases judgeWithin_succ h with ⟨hexcluded, -⟩ | ⟨v', rest, hverdict, rfl, -, hrest⟩
    · cases hexcluded.symm.trans (hstart hid)
    · rcases hid.cases_head with rfl | ⟨x, hx, hxm⟩
      · rw [Except.ok.inj (hm.verdict.symm.trans hverdict.verdict)]
        exact List.mem_cons_self
      · obtain ⟨vs, hjudged, hsubset⟩ := hrest x hx
        exact List.mem_cons_of_mem _ (hsubset (ih (hl.member hx.member)
          (by rw [List.length_cons]; omega) hjudged hxm))

/-! ### Candidates -/

/-- What is found is judged, and the verdicts are kept. -/
theorem exists_judged (h : g.candidates options = .ok c) (hid : id ∈ g.namespaceMembers) :
    ∃ verdicts, g.judge options id = .ok verdicts ∧ verdicts ⊆ c.judged := by
  obtain ⟨judged, hjudged, h⟩ := Except.bind_eq_ok.mp h
  cases h
  obtain ⟨⟨x, verdicts⟩, hx, hverdicts⟩ := Except.exists_mem_of_mapM hjudged hid
  obtain ⟨_, hjudge, hpair⟩ := Except.bind_eq_ok.mp hverdicts
  cases hpair
  exact ⟨verdicts, hjudge, fun y hy => List.mem_flatMap.mpr ⟨_, hx, hy⟩⟩

/-- The verdicts that are kept are true. -/
theorem hasVerdict_of_mem_judged (h : g.candidates options = .ok c) :
    ∀ x ∈ c.judged, g.HasVerdict options x.1 x.2 := by
  intro x hx
  obtain ⟨judged, hjudged, h⟩ := Except.bind_eq_ok.mp h
  cases h
  obtain ⟨y, hy, hx⟩ := List.mem_flatMap.mp hx
  obtain ⟨id, -, hverdicts⟩ := Except.exists_of_mem_mapM hjudged hy
  obtain ⟨_, hjudge, hpair⟩ := Except.bind_eq_ok.mp hverdicts
  cases hpair
  exact hasVerdict_of_mem_judgeWithin hjudge x hx

/-- What is found, and what comes into question with it, has its verdict. -/
theorem mem_judged (hs : g.Scoped) (h : g.candidates options = .ok c)
    (hid : id ∈ g.namespaceMembers)
    (hm : Relation.ReflTransGen (g.OffersMember options) id m) (hv : g.HasVerdict options m v) :
    (m, v) ∈ c.judged := by
  obtain ⟨verdicts, hjudge, hsubset⟩ := exists_judged h hid
  obtain ⟨⟨p, hp, hmem⟩, -⟩ := (mem_namespaceMembers_iff hs).mp hid
  obtain ⟨l, hl, -⟩ := hp.exists_reached hs
  exact hsubset (mem_judgeWithin hs hv (hl.member hmem) (by omega) hjudge hm)

/-- A declaration takes part if its first verdict says so. -/
theorem any_lookup_judge (h : g.judge options id = .ok verdicts) :
    (verdicts.lookup id).any (·.isExportable) ↔ g.TakesPart options id := by
  unfold judge at h
  cases hsize : g.size with
  | zero =>
    rw [hsize] at h
    cases h
    exact iff_of_false Bool.false_ne_true fun htakes =>
      Nat.not_lt_zero id (hsize ▸ lt_size_of_isExcluded htakes.included)
  | succ depth =>
    rw [hsize] at h
    rcases judgeWithin_succ h with ⟨hexcluded, rfl⟩ | ⟨v, rest, hverdict, rfl, -⟩
    · exact iff_of_false Bool.false_ne_true fun htakes =>
        nomatch hexcluded.symm.trans htakes.included
    · rw [List.lookup_cons_self]
      exact hverdict.isExportable_iff

/-- **The candidates are what is found and takes part.** -/
theorem mem_candidates_iff (h : g.candidates options = .ok c) :
    id ∈ c.declarations ↔ id ∈ g.namespaceMembers ∧ g.TakesPart options id := by
  obtain ⟨judged, hjudged, h⟩ := Except.bind_eq_ok.mp h
  cases h
  rw [List.mem_filterMap]
  constructor
  · rintro ⟨⟨x, verdicts⟩, hx, hid⟩
    obtain ⟨hany, hid⟩ := Option.ite_none_right_eq_some.mp hid
    cases hid
    obtain ⟨y, hy, hverdicts⟩ := Except.exists_of_mem_mapM hjudged hx
    obtain ⟨_, hjudge, hpair⟩ := Except.bind_eq_ok.mp hverdicts
    cases hpair
    exact ⟨hy, (any_lookup_judge hjudge).mp hany⟩
  · rintro ⟨hid, htakes⟩
    obtain ⟨x, hx, hverdicts⟩ := Except.exists_mem_of_mapM hjudged hid
    obtain ⟨verdicts, hjudge, hpair⟩ := Except.bind_eq_ok.mp hverdicts
    cases hpair
    exact ⟨_, hx, if_pos ((any_lookup_judge hjudge).mpr htakes)⟩

/-- Candidates are found through namespaces. -/
theorem reached_of_mem_candidates (hs : g.Scoped) (h : g.candidates options = .ok c)
    (hm : m ∈ c.declarations) : ∃ k, g.Reached m k ∧ ∀ x ∈ k, ¬ g.isClass x := by
  obtain ⟨hm, -⟩ := (mem_candidates_iff h).mp hm
  obtain ⟨⟨p, hp, hmem⟩, -⟩ := (mem_namespaceMembers_iff hs).mp hm
  obtain ⟨l, hl, hout⟩ := hp.exists_reached hs
  exact ⟨p :: l, hl.member hmem, hout⟩

end Bindery.DeclGraph
