import Bindery.Proofs.Generation.Registered

/-!
# No silence

What lies in the namespaces that a module looks into, and what comes into question with the classes
that it registers, is bound or named in a warning, unless it is left out without a word.

## Main definitions

* `Generation.Accounts` — a declaration is bound, or a warning names it.
* `DeclGraph.InOpenNamespaces` — a declaration lies in namespaces that are not ignored.
* `Generation.halfBound` — a module with warnings.

## Main results

* `Finds.accounts` — **whatever comes into question is accounted for, if it is bound or warned of
  when it takes part.**
* `Generation.finish_accounts` — **nothing is left out in silence.**
-/

namespace Bindery

open Binder

/-! ### What a module looks into -/

namespace DeclGraph

variable {g : DeclGraph} {id p : DeclId} {l : List DeclId}

/-- The declaration lies in namespaces only, and the user ignores none of them, the global one
apart, which cannot be left out. -/
def InOpenNamespaces (g : DeclGraph) (id : DeclId) : Prop :=
  ∀ p ∈ g.enclosing id, (∃ ms, g.kind? p = some (.ns ms)) ∧
    (p = DeclGraph.root ∨ ¬ (g.config p).ignore)

theorem IsOfferedOutside.not_ns (h : g.IsOfferedOutside id) (ms : List DeclId) :
    g.kind? id ≠ some (.ns ms) := by
  intro hns
  rcases h with h | ⟨_, h⟩ | ⟨_, h⟩ | ⟨_, h, -⟩
  · exact not_isClass_of_kind? hns (fun _ hk => nomatch hk) h
  · cases hns.symm.trans h
  · cases hns.symm.trans h
  · cases hns.symm.trans h

theorem Accepted.kind?_root (h : g.Accepted) : ∃ ms, g.kind? DeclGraph.root = some (.ns ms) := by
  have hroot := h.root
  unfold checkRoot at hroot
  split at hroot
  · next ms _ hd => exact ⟨_, by unfold kind?; rw [hd]; rfl⟩
  · cases hroot

/-- A module looks into a namespace if nothing around it keeps it from that. -/
theorem Reached.searched (h : g.Reached p l)
    (hopen : ∀ x ∈ p :: l, (∃ ms, g.kind? x = some (.ns ms)) ∧
      (x = DeclGraph.root ∨ ¬ (g.config x).ignore))
    (hstd : ∀ x ∈ p :: l, x ≠ DeclGraph.root → ¬ g.isStd x) : g.Searched p := by
  induction h with
  | root => exact .root
  | @member id p l hp hmem ih =>
    obtain ⟨hself, hopen⟩ := List.forall_mem_cons.mp hopen
    obtain ⟨hselfStd, hstd⟩ := List.forall_mem_cons.mp hstd
    obtain ⟨⟨ms, hkind⟩, hignore⟩ := hself
    by_cases hroot : id = DeclGraph.root
    · exact hroot ▸ .root
    · exact .member (ih hopen hstd) hmem hkind (hselfStd hroot) (hignore.resolve_left hroot)

/-- In a tree a module finds what lies in open namespaces outside of the standard library. -/
theorem mem_namespaceMembers_of_open (hg : g.Accepted) (hrooted : g.Rooted) (hid : id < g.size)
    (hoffered : g.IsOfferedOutside id) (hstd : ¬ g.isStd id) (hopen : g.InOpenNamespaces id) :
    id ∈ g.namespaceMembers := by
  obtain ⟨l, hl⟩ := hrooted.reached hg hid
  have habove := hl.isStd_of_above hg.scoped
  unfold InOpenNamespaces at hopen
  rw [hl.enclosing_eq hg.scoped] at hopen
  refine (mem_namespaceMembers_iff hg.scoped).mpr ⟨?_, hstd, hoffered.not_ns⟩
  cases hl with
  | root =>
    obtain ⟨ms, hms⟩ := hg.kind?_root
    exact absurd hms (hoffered.not_ns ms)
  | @member _ p l hp hmem =>
    exact ⟨p, hp.searched hopen fun x hx hroot hx' => hstd (habove x hx hroot hx'), hmem⟩

end DeclGraph

namespace Generation

variable {g : DeclGraph} {options : ModuleOptions} {rules : List PolicyRule} {s : Generation}
  {found : Candidates} {o : EmissionOrder} {b : Binder} {c id m : DeclId}

/-! ### What is accounted for -/

/-- The declaration has been bound, or a warning names it. -/
def Accounts (s : Generation) (g : DeclGraph) (id : DeclId) : Prop :=
  id ∈ s.exported ∨ Warned s.diagnostics (g.fullName id)

theorem Finds.accounts_of_answered (h : s.Finds g options rules found o b)
    (hid : (s.setup g options rules).Answered b id) : s.Accounts g id :=
  hid.imp (fun hid => h.exported ▸ hid) fun hwarned => hwarned.mono h.told

/-- A declaration that cannot be bound is warned of. -/
theorem warned_of_mem_judged {reason : String} (h : (id, .no reason) ∈ found.judged) :
    Warned (found.diagnostics g) (g.fullName id) :=
  ⟨_, List.mem_filterMap.mpr ⟨_, h, rfl⟩, rfl, rfl⟩

/-- **What comes into question is accounted for** if it is bound or warned of whenever it takes
part. -/
theorem Finds.accounts (h : s.Finds g options rules found o b) (hg : g.Scoped)
    (hc : c ∈ g.namespaceMembers) (hm : Relation.ReflTransGen (g.OffersMember options) c m)
    (hincluded : g.isExcluded m = .ok false)
    (hbound : g.TakesPart options m → (s.setup g options rules).Answered b m) :
    s.Accounts g m := by
  obtain ⟨v, hv⟩ := DeclGraph.exists_hasVerdict options hincluded
  rcases hv.eq_yes_or_no with rfl | ⟨reason, rfl⟩
  · exact h.accounts_of_answered (hbound hv)
  · have hjudged := DeclGraph.mem_judged hg h.offered hc hm hv
    exact .inr ((warned_of_mem_judged hjudged).mono h.judged)

/-- What a module finds is accounted for. -/
theorem Finds.accounts_found (h : s.Finds g options rules found o b) (hg : g.Scoped)
    (hid : id ∈ g.namespaceMembers) (hoffered : g.IsOfferedOutside id)
    (hincluded : g.isExcluded id = .ok false) : s.Accounts g id := by
  refine h.accounts hg hid .refl hincluded fun htakes => ?_
  have hdeclared := (DeclGraph.mem_candidates_iff h.offered).mpr ⟨hid, htakes⟩
  exact BindingSetup.bind_answers hg (h.reached hg) h.bound
    ((DeclGraph.mem_order h.ordered).mpr hdeclared) (h.isExportable_iff.mpr htakes) hoffered

/-- What comes into question with a class that is registered is accounted for. -/
theorem Finds.accounts_member (h : s.Finds g options rules found o b) (hg : g.Scoped)
    (hc : g.Registered options c) (hmember : m ∈ g.members c)
    (hcandidate : ∃ d, g.get? m = some d ∧ g.isCandidate m d.access)
    (hoffered : g.isClass m ∨ g.IsOffered m) (hincluded : g.isExcluded m = .ok false) :
    s.Accounts g m := by
  obtain ⟨id, hid, hoffers⟩ := hc.exists_found hg
  have hlast : g.OffersMember options c m := ⟨hc.isClass, hc.takesPart, hmember, hcandidate⟩
  refine h.accounts hg hid (hoffers.tail hlast) hincluded fun htakes => ?_
  rcases hoffered with hclass | hoffered
  · obtain ⟨n, hn⟩ := (h.noted_iff hg).mpr (.nested hc hlast hclass htakes)
    exact .inl (h.settled hg hn).exported
  · obtain ⟨n, hn⟩ := (h.noted_iff hg).mpr hc
    exact (h.settled hg hn).answered m
      ⟨hmember, hcandidate, h.isExportable_iff.mpr htakes⟩ hoffered

/-- **Nothing is left out in silence.**  Let a module be made of a tree of declarations.  Of what
lies in namespaces that the user does not ignore, outside of the standard library, each class,
enumeration, variable, and free function or operator has been bound, or a warning names it, unless
it is left out without a word.  So it is with the members that come into question with a class that
has been bound: classes, enumerations, variables, and functions that are not private. -/
theorem finish_accounts (hvalid : g.validate = .ok ()) (hrooted : g.Rooted)
    (hfinish : finish g options rules = .ok s) :
    (∀ id < g.size, g.IsOfferedOutside id → ¬ g.isStd id → g.InOpenNamespaces id →
      g.isExcluded id = .ok false → s.Accounts g id) ∧
    ∀ c ∈ s.exported, g.isClass c → ¬ g.isStd c → ∀ m ∈ g.members c,
      (∃ d, g.get? m = some d ∧ g.isCandidate m d.access) → g.isClass m ∨ g.IsOffered m →
      g.isExcluded m = .ok false → s.Accounts g m := by
  obtain ⟨found, o, b, hfinds⟩ := finish_ok hfinish
  have hg := DeclGraph.validate_eq_ok_iff.mp hvalid
  constructor
  · intro id hid hoffered hstd hopen hincluded
    exact hfinds.accounts_found hg.scoped
      (DeclGraph.mem_namespaceMembers_of_open hg hrooted hid hoffered hstd hopen) hoffered
      hincluded
  · intro c hc hclass hstd m hm hcandidate hoffered hincluded
    have hnoted := ((BindingSetup.bind_recorded hfinds.bound).exported c (hfinds.exported ▸ hc)
      hclass).resolve_left hstd
    exact hfinds.accounts_member hg.scoped ((hfinds.noted_iff hg.scoped).mp hnoted) hm hcandidate
      hoffered hincluded

/-- A class with a function that can be bound and one that cannot, and a free function that cannot
be bound. -/
def halfBound : DeclGraph :=
  let fill (kind : CallableKind) : Callable :=
    { kind, returnType := some .void,
      args := [{ name := "v", type := .array (.fundamental .int) (some 4) }] }
  ⟨#[{ name := "::", kind := .ns [1, 4] },
    { name := "A", kind := .cls { members := [2, 3] }, parent := some DeclGraph.root },
    { name := "run", kind := .callable { kind := .memberFunction, returnType := some .void },
      parent := some 1 },
    { name := "fill", kind := .callable (fill .memberFunction), parent := some 1 },
    { name := "fill", kind := .callable (fill .freeFunction), parent := some DeclGraph.root }]⟩

theorem rooted_halfBound : halfBound.Rooted := by
  refine ⟨by decide, fun id hid => ?_⟩
  have hparent : ∀ id < halfBound.size, id = DeclGraph.root ∨
      halfBound.parent? id = some DeclGraph.root ∨
      halfBound.parent? id = some 1 ∧ halfBound.parent? 1 = some DeclGraph.root := by
    decide +kernel
  rcases hparent id hid with rfl | hp | ⟨hp, hroot⟩
  · exact .refl
  · exact .single hp
  · exact .tail (.single hp) hroot

/-- The functions that are not bound are named in warnings. -/
theorem finish_accounts_halfBound : ∃ s, halfBound.validate = .ok () ∧
    finish halfBound {} = .ok s ∧ s.exported = [1, 2] ∧ Warned s.diagnostics "::A::fill" ∧
      Warned s.diagnostics "::fill" := by
  have hvalid : halfBound.validate = .ok () := by decide +kernel
  obtain ⟨s, hs, hfound⟩ := Except.exists_eq_ok_of_any (x := finish halfBound {})
    (p := fun s => s.exported = [1, 2]) (by decide +kernel)
  have hexported : s.exported = [1, 2] := of_decide_eq_true hfound
  have hopen : halfBound.InOpenNamespaces 4 := by
    intro p hp
    rw [show halfBound.enclosing 4 = [DeclGraph.root] by decide +kernel, List.mem_singleton] at hp
    subst hp
    exact ⟨⟨_, rfl⟩, .inl rfl⟩
  have hfree : halfBound.IsOfferedOutside 4 := .inr (.inr (.inr ⟨_, rfl, rfl⟩))
  have hmethod : halfBound.IsOffered 3 := .inr (.inr (by decide +kernel))
  obtain ⟨houtside, hmember⟩ := finish_accounts hvalid rooted_halfBound hs
  have hfill := hmember 1 (by rw [hexported]; decide) (by decide +kernel) (by decide +kernel) 3
    (by decide +kernel) ⟨_, rfl, by decide +kernel⟩ (.inr hmethod) (by decide +kernel)
  have hfreeFill := houtside 4 (by decide +kernel) hfree (by decide +kernel) hopen
    (by decide +kernel)
  exact ⟨s, hvalid, hs, hexported, hfill.resolve_left (by rw [hexported]; decide),
    hfreeFill.resolve_left (by rw [hexported]; decide)⟩

end Generation

end Bindery
