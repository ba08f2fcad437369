import Bindery.Generation.Checks
import Bindery.Generation.Candidates
import Bindery.Proofs.Analysis.Exportability
import Bindery.Proofs.Analysis.Siblings

/-!
# Questions that are answered

What can be bound, in which order, and what is to be reported of it is asked of declarations that
exist, in a graph whose ids exist.  No question remains without an answer.

## Main results

* `Closed.exists_candidates`, `exists_order` — the candidates of a module and their order.
* `Closed.exists_unexposedDiagnostics`, `exists_aliasClashes` — what is checked in the end.
-/

namespace Bindery.DeclGraph

variable {g : DeclGraph} {options : ModuleOptions} {id : DeclId} {ids : List DeclId}

/-! ### What can be bound -/

theorem Closed.exists_candidateMembers (hg : g.Closed) (id : DeclId) :
    ∃ ms, g.candidateMembers id = .ok ms :=
  Except.exists_filterM fun _ hm =>
    Except.exists_bind (exists_decl (hg.member hm)) fun _ _ => ⟨_, rfl⟩

theorem Closed.exists_judgeWithin (hg : g.Closed) : ∀ (depth : Nat) {id : DeclId}, id < g.size →
    ∃ verdicts, g.judgeWithin options depth id = .ok verdicts
  | 0, _, _ => ⟨[], rfl⟩
  | depth + 1, id, hid => by
    unfold judgeWithin
    refine Except.exists_bind (exists_isExcluded hid) fun excluded _ => ?_
    split
    · exact ⟨[], rfl⟩
    refine Except.exists_bind (exists_exportability hid) fun verdict _ => ?_
    split
    · refine Except.exists_bind (hg.exists_candidateMembers id) fun ms hms => ?_
      refine Except.exists_bind (Except.exists_mapM fun m hm => ?_) fun _ _ => ⟨_, rfl⟩
      exact hg.exists_judgeWithin depth (hg.member ((Except.mem_filterM hms).mp hm).1)
    · exact ⟨_, rfl⟩

/-- What comes into question for a module are members of namespaces. -/
theorem Closed.lt_size_of_mem_namespaceMembersWithin (hg : g.Closed) : ∀ {depth : Nat}
    {scope : DeclId}, id ∈ g.namespaceMembersWithin depth scope → id < g.size
  | depth + 1, scope, h => by
    unfold namespaceMembersWithin at h
    obtain ⟨m, hm, h⟩ := List.mem_flatMap.mp h
    split at h
    · cases h
    · split at h
      · split at h
        · cases h
        · exact hg.lt_size_of_mem_namespaceMembersWithin h
      · exact List.mem_singleton.mp h ▸ hg.member hm

/-- **A module has candidates**, which exist. -/
theorem Closed.exists_candidates (hg : g.Closed) (options : ModuleOptions) :
    ∃ c, g.candidates options = .ok c ∧ ∀ id ∈ c.declarations, id < g.size := by
  have hmembers : ∀ id ∈ g.namespaceMembers, id < g.size :=
    fun id hid => hg.lt_size_of_mem_namespaceMembersWithin hid
  obtain ⟨judged, hjudged⟩ : ∃ judged, g.namespaceMembers.mapM (fun id => do
      return (id, ← g.judge options id)) = .ok judged :=
    Except.exists_mapM fun id hid =>
      Except.exists_bind (hg.exists_judgeWithin _ (hmembers id hid)) fun _ _ => ⟨_, rfl⟩
  refine ⟨_, Except.bind_eq_ok.mpr ⟨judged, hjudged, rfl⟩, fun id hid => ?_⟩
  obtain ⟨⟨x, verdicts⟩, hx, hid⟩ := List.mem_filterMap.mp hid
  obtain ⟨y, hy, hverdicts⟩ := Except.exists_of_mem_mapM hjudged hx
  obtain ⟨_, -, hpair⟩ := Except.bind_eq_ok.mp hverdicts
  cases hpair
  dsimp only at hid
  split at hid
  · exact Option.some.inj hid ▸ hmembers _ hy
  · cases hid

/-- Declarations that exist can be put in order. -/
theorem exists_order (hids : ∀ id ∈ ids, id < g.size) : ∃ o, g.order ids = .ok o := by
  refine Except.exists_bind (Except.exists_mapM fun id hid => ?_) fun _ _ => ⟨_, rfl⟩
  exact Except.exists_bind (exists_decl (hids id hid)) fun _ _ => ⟨_, rfl⟩

/-! ### What is checked -/

/-- The aliases of declarations are known, if the declarations have to have any. -/
theorem exists_aliasClashes (ids : List DeclId) : ∃ ds, g.aliasClashes ids = .ok ds := by
  refine Except.exists_bind (Except.exists_mapM fun id hid => ?_) fun _ _ => ⟨_, rfl⟩
  have hneeds := (List.mem_filter.mp hid).2
  unfold needsOwnAlias at hneeds
  split at hneeds
  · next d hd =>
    have hid : id < g.size := (Array.getElem?_eq_some_iff.mp hd).1
    exact Except.exists_bind (exists_pythonName hid) fun _ _ => ⟨_, rfl⟩
  · cases hneeds

theorem Closed.exists_reportable (hg : g.Closed) (exported : List DeclId) :
    ∃ ds, g.reportable exported = .ok ds := by
  refine Except.exists_filterM fun d hd => ?_
  obtain ⟨id, -, hd⟩ := List.mem_flatMap.mp hd
  unfold isReportable
  split
  · exact ⟨false, rfl⟩
  · exact Except.exists_bind (exists_decl (hg.dependency hd)) fun _ _ => ⟨_, rfl⟩

theorem Closed.exists_unexposedDiagnostics (hg : g.Closed) (exported : List DeclId) :
    ∃ ds, g.unexposedDiagnostics exported = .ok ds :=
  Except.exists_bind (Except.exists_bind (hg.exists_reportable exported) fun _ _ => ⟨_, rfl⟩)
    fun _ _ => ⟨_, rfl⟩

end Bindery.DeclGraph
