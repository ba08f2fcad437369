import Bindery.Analysis.Exportability
import Bindery.Proofs.Computation
import Bindery.Proofs.Decl.Closed

/-!
# Declarations that take part

A declaration that is not left out without a word has a verdict: it can be bound, and takes part in
the module, or there is a reason why not.

## Main definitions

* `DeclGraph.HasVerdict`, `DeclGraph.TakesPart` — the verdict on a declaration.
* `DeclGraph.OffersMember` — the members that come into question with their class.

## Main results

* `exists_hasVerdict`, `HasVerdict.eq_yes_or_no` — **there is a verdict, and it is clear.**
* `isCandidate_of_takesPart` — a class that takes part comes into question with a class around it.
-/

namespace Bindery.DeclGraph

variable {g : DeclGraph} {options : ModuleOptions} {id m cls : DeclId} {v : Exportability}

theorem exists_isExcluded (hid : id < g.size) : ∃ b, g.isExcluded id = .ok b := by
  refine Except.exists_bind (exists_decl hid) fun d _ => ?_
  split
  · exact ⟨_, rfl⟩
  · split
    · split <;> exact ⟨_, rfl⟩
    · exact ⟨_, rfl⟩
    · exact ⟨_, rfl⟩

theorem exists_exportability (hid : id < g.size) : ∃ e, g.exportability options id = .ok e := by
  refine Except.exists_bind (exists_decl hid) fun d _ => ?_
  split <;> exact ⟨_, rfl⟩

/-- The verdict on a declaration that is not left out without a word. -/
structure HasVerdict (g : DeclGraph) (options : ModuleOptions) (id : DeclId) (v : Exportability) :
    Prop where
  included : g.isExcluded id = .ok false
  verdict : g.exportability options id = .ok v

instance (g : DeclGraph) (options : ModuleOptions) (id : DeclId) (v : Exportability) :
    Decidable (g.HasVerdict options id v) :=
  decidable_of_iff (g.isExcluded id = .ok false ∧ g.exportability options id = .ok v)
    ⟨fun h => ⟨h.1, h.2⟩, fun h => ⟨h.included, h.verdict⟩⟩

/-- The declaration takes part in a module: it is not left out, and can be bound. -/
abbrev TakesPart (g : DeclGraph) (options : ModuleOptions) (id : DeclId) : Prop :=
  g.HasVerdict options id .yes

/-- The class takes part in a module, and the member comes into question with it. -/
structure OffersMember (g : DeclGraph) (options : ModuleOptions) (cls m : DeclId) : Prop where
  isClass : g.isClass cls
  takesPart : g.TakesPart options cls
  member : m ∈ g.members cls
  candidate : ∃ d, g.get? m = some d ∧ g.isCandidate m d.access

theorem lt_size_of_isExcluded {excluded : Bool} (h : g.isExcluded id = .ok excluded) :
    id < g.size := by
  obtain ⟨d, hd, -⟩ := Except.bind_eq_ok.mp h
  exact (Array.getElem?_eq_some_iff.mp (decl_eq_ok.mp hd)).1

/-- What is not left out without a word has a verdict. -/
theorem exists_hasVerdict (options : ModuleOptions) (h : g.isExcluded id = .ok false) :
    ∃ v, g.HasVerdict options id v := by
  obtain ⟨v, hv⟩ : ∃ v, g.exportability options id = .ok v :=
    exists_exportability (lt_size_of_isExcluded h)
  exact ⟨v, h, hv⟩

/-- A verdict is clear, and gives a reason if it is negative. -/
theorem HasVerdict.eq_yes_or_no (h : g.HasVerdict options id v) :
    v = .yes ∨ ∃ reason, v = .no reason := by
  obtain ⟨d, -, hv⟩ := Except.bind_eq_ok.mp h.verdict
  split at hv
  · next reason _ => exact .inr ⟨reason, (Except.ok.inj hv).symm⟩
  · exact .inl (Except.ok.inj hv).symm

theorem HasVerdict.isExportable_iff (h : g.HasVerdict options id v) :
    v.isExportable ↔ g.TakesPart options id := by
  constructor
  · intro hv
    rcases h.eq_yes_or_no with rfl | ⟨reason, rfl⟩
    · exact h
    · cases hv
  · intro htakes
    rw [Except.ok.inj (h.verdict.symm.trans htakes.verdict)]
    rfl

theorem mem_candidateMembers {ms : List DeclId} (h : g.candidateMembers cls = .ok ms) :
    m ∈ ms ↔ m ∈ g.members cls ∧ ∃ d, g.get? m = some d ∧ g.isCandidate m d.access := by
  rw [Except.mem_filterM h]
  simp only [Except.bind_eq_ok, Except.pure_eq_ok, decl_eq_ok]

/-- A class that takes part is public, and so comes into question with a class around it. -/
theorem isCandidate_of_takesPart (hclass : g.isClass cls) (h : g.TakesPart options cls) :
    ∃ d, g.get? cls = some d ∧ g.isCandidate cls d.access := by
  obtain ⟨d, hd, hverdict⟩ := Except.bind_eq_ok.mp h.verdict
  have hd := decl_eq_ok.mp hd
  refine ⟨d, hd, ?_⟩
  obtain ⟨k, hk⟩ := isClass_iff.mp hclass
  have hkind : d.kind = .cls k := by
    unfold kind? at hk
    rw [hd] at hk
    exact Option.some.inj hk
  have hpublic : g.isPublicClass cls := by
    by_contra hne
    unfold fault? at hverdict
    rw [hkind] at hverdict
    split at hverdict
    · cases hverdict
    · next hfault =>
      dsimp only at hfault
      rw [Bool.not_eq_true _ |>.mp hne] at hfault
      split at hfault <;> cases hfault
  have haccess : g.isPublic cls := by
    unfold isPublicClass at hpublic
    rw [List.takeWhile_cons_of_pos hclass, List.all_cons, Bool.and_eq_true] at hpublic
    exact hpublic.1
  unfold isPublic access? at haccess
  rw [hd] at haccess
  rw [show d.access = .pub by simpa using haccess]
  rfl

end Bindery.DeclGraph
