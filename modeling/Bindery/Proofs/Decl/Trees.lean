import Bindery.Decl.Samples
import Bindery.Proofs.Decl.Reached
import Bindery.Proofs.Walks
import Mathlib.Data.List.TFAE
import Mathlib.Tactic.TFAE

/-!
# Accepted graphs and trees

Validation looks at the links of one declaration after the other: each declaration but the global
namespace has one parent, and the parent lists it once.  Scopes that list each other in a circle
pass these tests as well.  Whether an accepted graph is a tree can be told in several ways, and the
loops along parents and members end in no other graphs.

## Main definitions

* `DeclGraph.Accepted` — what validation makes sure of.
* `circle` — an accepted graph with two namespaces inside each other.

## Main results

* `validate_eq_ok_iff` — validation accepts exactly the graphs with these links.
* `accepted_tfae` — **an accepted graph is a tree as soon as no scope is below itself**, and then all
  loops end.
* `circle_accepted` — in an accepted graph loops may go on for ever.
-/

namespace Bindery.DeclGraph

variable {g : DeclGraph} {id m p : DeclId} {l : List DeclId}

/-! ### What validation makes sure of -/

/-- The first declaration is a namespace without parent, each other declaration has a parent that
lists it once, members name the scope that lists them, and the bases of classes exist. -/
structure Accepted (g : DeclGraph) : Prop where
  root : g.checkRoot = .ok ()
  agree : g.MembersAgree
  nodup : ∀ id, (g.members id).Nodup
  parent : ∀ id < g.size, g.parent? id = none → id = DeclGraph.root
  listed : ∀ id p, g.parent? id = some p → id ∈ g.members p
  base : ∀ id < g.size, g.checkBases id = .ok ()

theorem checkKnown_eq_ok {u : Unit} : g.checkKnown id = .ok u ↔ id < g.size := by
  unfold checkKnown
  split <;> simp_all

theorem checkMembers_eq_ok : ∀ {ms seen seen' : List DeclId},
    g.checkMembers id seen ms = .ok seen' ↔ (∀ m ∈ ms, g.parent? m = some id) ∧ ms.Nodup ∧
      (∀ m ∈ ms, m ∉ seen) ∧ seen' = ms.reverse ++ seen
  | [], seen, seen' => by simp [checkMembers, eq_comm]
  | m :: rest, seen, seen' => by
    unfold checkMembers
    rw [Except.bind_eq_ok]
    simp only [checkKnown_eq_ok, Except.guard_eq_ok, checkMembers_eq_ok, List.forall_mem_cons,
      List.nodup_cons, List.reverse_cons, List.append_assoc, List.singleton_append, not_not]
    simp only [List.mem_cons, not_or]
    constructor
    · rintro ⟨-, -, hnew, hparent, hparents, hnodup, hnews, rfl⟩
      exact ⟨⟨hparent, hparents⟩, ⟨fun hmem => (hnews m hmem).1 rfl, hnodup⟩,
        ⟨hnew, fun x hx => (hnews x hx).2⟩, rfl⟩
    · rintro ⟨⟨hparent, hparents⟩, ⟨hm, hnodup⟩, ⟨hnew, hnews⟩, rfl⟩
      exact ⟨(), lt_size_of_parent? hparent, hnew, hparent, hparents, hnodup,
        fun x hx => ⟨fun heq => hm (heq ▸ hx), hnews x hx⟩, rfl⟩

theorem checkParent_eq_ok : g.checkParent id = .ok () ↔
    (∀ p, g.parent? id = some p → id ∈ g.members p) ∧ (g.parent? id = none → id = root) := by
  unfold checkParent
  cases hp : g.parent? id with
  | none => by_cases hid : id = root <;> simp [hid]
  | some p =>
    rw [Except.bind_eq_ok]
    by_cases hmem : id ∈ g.members p
    · simp [checkKnown_eq_ok, hmem, lt_size_of_mem_members hmem, pure, Except.pure]
    · simp [hmem, throw, throwThe, MonadExceptOf.throw]

theorem checkDecls_eq_ok : ∀ {ids seen : List DeclId}, ids.Nodup →
    (g.checkDecls seen ids = .ok () ↔ ∀ id ∈ ids,
      ((∀ m ∈ g.members id, g.parent? m = some id) ∧ (g.members id).Nodup ∧
        ∀ m ∈ g.members id, m ∉ seen) ∧ g.checkParent id = .ok () ∧ g.checkBases id = .ok ())
  | [], seen, _ => by simp [checkDecls]
  | id :: rest, seen, hids => by
    obtain ⟨hid, hrest⟩ := List.nodup_cons.mp hids
    unfold checkDecls
    simp only [Except.bind_eq_ok, checkMembers_eq_ok, List.forall_mem_cons]
    constructor
    · rintro ⟨_, ⟨hparents, hnodup, hnews, rfl⟩, _, hparent, _, hbases, hothers⟩
      refine ⟨⟨⟨hparents, hnodup, hnews⟩, hparent, hbases⟩, fun x hx => ?_⟩
      obtain ⟨⟨hxparents, hxnodup, hxnews⟩, hx⟩ := (checkDecls_eq_ok hrest).mp hothers x hx
      exact ⟨⟨hxparents, hxnodup,
        fun m hm hseen => hxnews m hm (List.mem_append_right _ hseen)⟩, hx⟩
    · rintro ⟨⟨⟨hparents, hnodup, hnews⟩, hparent, hbases⟩, hothers⟩
      refine ⟨_, ⟨hparents, hnodup, hnews, rfl⟩, (), hparent, (), hbases, ?_⟩
      refine (checkDecls_eq_ok hrest).mpr fun x hx => ?_
      obtain ⟨⟨hxparents, hxnodup, hxnews⟩, hxrest⟩ := hothers x hx
      refine ⟨⟨hxparents, hxnodup, fun m hm hseen => ?_⟩, hxrest⟩
      -- what two scopes list would have both of them as its parent
      rcases List.mem_append.mp hseen with hseen | hseen
      · have hboth := (hparents m (List.mem_reverse.mp hseen)).symm.trans (hxparents m hm)
        exact hid (Option.some.inj hboth ▸ hx)
      · exact hxnews m hm hseen

/-- **Validation accepts exactly the graphs whose links agree.** -/
theorem validate_eq_ok_iff : g.validate = .ok () ↔ g.Accepted := by
  unfold validate
  rw [Except.bind_eq_ok]
  have hids : g.ids.Nodup := List.nodup_range
  simp only [checkDecls_eq_ok hids, checkParent_eq_ok]
  constructor
  · rintro ⟨_, hroot, hdecls⟩
    have hdecl : ∀ id < g.size, _ := fun id hid => hdecls id (List.mem_range.mpr hid)
    exact {
      root := hroot
      agree := fun id m hm => (hdecl id (lt_size_of_mem_members hm)).1.1 m hm
      nodup := fun id => by
        rcases Nat.lt_or_ge id g.size with hid | hid
        · exact (hdecl id hid).1.2.1
        · have hnone : g.members id = [] := by
            rw [List.eq_nil_iff_forall_not_mem]
            exact fun m hm => absurd (lt_size_of_mem_members hm) (Nat.not_lt.mpr hid)
          rw [hnone]
          exact List.nodup_nil
      parent := fun id hid => (hdecl id hid).2.1.2
      listed := fun id p hp => (hdecl id (lt_size_of_parent? hp)).2.1.1 p hp
      base := fun id hid => (hdecl id hid).2.2 }
  · intro h
    refine ⟨(), h.root, fun id hid => ?_⟩
    have hid := List.mem_range.mp hid
    exact ⟨⟨h.agree id, h.nodup id, fun m _ => List.not_mem_nil⟩,
      ⟨h.listed id, h.parent id hid⟩, h.base id hid⟩

theorem Accepted.scoped (h : g.Accepted) : g.Scoped := scoped_of_validate (validate_eq_ok_iff.mpr h)

theorem Accepted.mem_members_iff (h : g.Accepted) : m ∈ g.members p ↔ g.parent? m = some p :=
  ⟨h.agree p m, h.listed m p⟩

/-! ### Trees -/

theorem mem_properIds {m : Nat} : m ∈ g.properIds ↔ m ≠ root ∧ m < g.size := by
  have hpos : m ≠ root ↔ 0 < m := Nat.pos_iff_ne_zero.symm
  unfold properIds ids
  rw [hpos, List.range_eq_range', List.drop_range', List.mem_range'_1]
  omega

/-- What is found is found through the global namespace. -/
theorem Reached.root_above (h : g.Reached p l) : p = DeclGraph.root ∨ DeclGraph.root ∈ l := by
  induction h with
  | root => exact .inl rfl
  | member _ _ ih =>
    rcases ih with rfl | hl
    · exact .inr List.mem_cons_self
    · exact .inr (List.mem_cons_of_mem _ hl)

/-- What is listed below a scope is found through it. -/
theorem Reached.of_mem_descendants (hp : g.Reached p l) (hm : m ∈ g.descendants p) :
    ∃ q k, g.Reached q k ∧ m ∈ g.members q := by
  have hwithin : ∀ fuel p l, g.Reached p l → m ∈ g.descendantsWithin fuel p →
      ∃ q k, g.Reached q k ∧ m ∈ g.members q := by
    intro fuel
    induction fuel with
    | zero => exact fun p l _ hm => absurd hm List.not_mem_nil
    | succ fuel ih =>
      intro p l hp hm
      obtain ⟨c, hc, hm⟩ := List.mem_flatMap.mp hm
      rcases List.mem_cons.mp hm with rfl | hm
      · exact ⟨p, l, hp, hc⟩
      · exact ih c (p :: l) (.member hp hc) hm
  exact hwithin _ p l hp hm

/-- Where all parent chains end at the global namespace, everything is found from there. -/
theorem Rooted.reached (hg : g.Rooted) (h : g.Accepted) (hid : id < g.size) :
    ∃ l, g.Reached id l := by
  induction hg.chain id hid using Relation.ReflTransGen.head_induction_on with
  | refl => exact ⟨[], .root⟩
  | @head a p hp _ ih =>
    have hmem := h.listed a p hp
    obtain ⟨l, hl⟩ := ih (lt_size_of_mem_members hmem)
    exact ⟨p :: l, .member hl hmem⟩

/-- Below a scope are its members and what is below them. -/
theorem Rooted.descendants_eq (hg : g.Rooted) (h : g.Accepted) (id : DeclId) :
    g.descendants id = (g.members id).flatMap fun m => m :: g.descendants m := by
  rw [← hg.descendantsWithin_eq h.agree id 1]
  rfl

/-- In a tree everything but the global namespace is listed once below it. -/
theorem Rooted.descendants_root_perm (hg : g.Rooted) (h : g.Accepted) :
    (g.descendants DeclGraph.root).Perm g.properIds := by
  have hbelow : ∀ a, a :: g.descendants a = a :: (g.members a).flatMap fun m =>
      m :: g.descendants m := fun a => by rw [← hg.descendants_eq h a]
  have hclimbs : ∀ a, ∃ l, Climbs g.parent? a l := by
    intro a
    rcases Nat.lt_or_ge a g.size with ha | ha
    · obtain ⟨l, hl, -⟩ := hg.climbs ha
      exact ⟨l, hl⟩
    · cases hp : g.parent? a with
      | none => exact ⟨[], hp⟩
      | some p => exact absurd (lt_size_of_parent? hp) (Nat.not_lt.mpr ha)
  have hnodup := nodup_below hbelow h.agree h.nodup hclimbs DeclGraph.root
  obtain ⟨hroot, hnodup⟩ := List.nodup_cons.mp hnodup
  have hproper : g.properIds.Nodup := List.nodup_range.sublist (List.drop_sublist 1 _)
  refine (List.perm_ext_iff_of_nodup hnodup hproper).mpr fun m => ?_
  rw [mem_properIds]
  constructor
  · intro hm
    obtain ⟨q, k, hq, hmem⟩ := Reached.of_mem_descendants .root hm
    exact ⟨fun heq => hroot (heq ▸ hm), lt_size_of_parent? (h.agree q m hmem)⟩
  · rintro ⟨hne, hm⟩
    obtain ⟨l, hl⟩ := hg.reached h hm
    cases hl with
    | root => exact absurd rfl hne
    | @member _ p l hp hmem =>
      have hin : m ∈ g.descendants p := by
        rw [hg.descendants_eq h p]
        exact List.mem_flatMap.mpr ⟨m, hmem, List.mem_cons_self⟩
      rcases hp.root_above with rfl | hroot
      · exact hin
      · exact hp.descendants_subset h.scoped _ hroot hin

/-- No scope is above itself exactly when none is below itself. -/
theorem Accepted.transGen_members_iff (h : g.Accepted) :
    Relation.TransGen (fun scope m => m ∈ g.members scope) p m ↔
      Relation.TransGen (fun a b => g.parent? a = some b) m p := by
  have hswap : Function.swap (fun scope m => m ∈ g.members scope) =
      fun a b => g.parent? a = some b := by
    funext a b
    exact propext h.mem_members_iff
  rw [← Relation.transGen_swap, hswap]

/-- Without circles all parent chains end, and only the global namespace is without a parent. -/
theorem Accepted.rooted_of_acyclic (h : g.Accepted)
    (hacyclic : ∀ id, ¬ Relation.TransGen (fun scope m => m ∈ g.members scope) id id) :
    g.Rooted := by
  refine ⟨h.scoped.root, fun id hid => ?_⟩
  have hin : ∀ a p, g.parent? a = some p → p < g.size :=
    fun a p hp => lt_size_of_mem_members (h.listed a p hp)
  obtain ⟨l, hl⟩ := Climbs.exists_of_acyclic hin
    (fun a ha => hacyclic a (h.transGen_members_iff.mpr ha)) id
  induction l generalizing id with
  | nil => exact h.parent id hid hl ▸ .refl
  | cons p l ih => exact (ih p (lt_size_of_mem_members (h.listed id p hl.1)) hl.2).head hl.1

/-- **An accepted graph is a tree as soon as no scope is below itself.**  It is one exactly when all
parent chains lead to the global namespace, when the walk from there lists all other declarations
once, when all loops along parents end, whatever stops them, and when all loops along members end. -/
theorem accepted_tfae (h : g.validate = .ok ()) : List.TFAE [
    ∀ id, ¬ Relation.TransGen (fun scope m => m ∈ g.members scope) id id,
    ∀ id < g.size, Relation.ReflTransGen (fun a b => g.parent? a = some b) id DeclGraph.root,
    (g.descendants DeclGraph.root).Perm g.properIds,
    ∀ id < g.size, ∀ stop : DeclId → Bool,
      Follows g.parent? stop (some id) ((id :: g.enclosing id).takeWhile (!stop ·)),
    ∀ id < g.size, Unstacks g.members (g.members id) (g.descendants id)] := by
  have ha := validate_eq_ok_iff.mp h
  have hlt : ∀ {id}, Relation.TransGen (fun scope m => m ∈ g.members scope) id id → id < g.size :=
    fun hid => have ⟨_, hm, _⟩ := Relation.TransGen.head'_iff.mp hid; lt_size_of_mem_members hm
  tfae_have 1 → 2 := fun hacyclic => (ha.rooted_of_acyclic hacyclic).chain
  tfae_have 2 → 3 := fun hchain =>
    Rooted.descendants_root_perm ⟨ha.scoped.root, hchain⟩ ha
  tfae_have 3 → 1 := by
    intro hperm id hid
    have hup := ha.transGen_members_iff.mp hid
    -- what is listed below the global namespace has a parent chain that ends
    have hne : id ≠ root := by
      rintro rfl
      obtain ⟨p, hp, -⟩ := Relation.TransGen.head'_iff.mp hup
      exact absurd (ha.scoped.root.symm.trans hp) (by simp)
    have hmem := hperm.mem_iff.mpr (mem_properIds.mpr ⟨hne, hlt hid⟩)
    obtain ⟨p, l, hp, hmem⟩ := Reached.of_mem_descendants .root hmem
    exact ((Reached.member hp hmem).climbs ha.scoped).not_transGen_self hup
  tfae_have 2 → 4 := by
    intro hchain id hid stop
    obtain ⟨l, hl⟩ := Rooted.reached ⟨ha.scoped.root, hchain⟩ ha hid
    rw [hl.enclosing_eq ha.scoped]
    exact (hl.climbs ha.scoped).follows stop
  tfae_have 4 → 1 := by
    intro hfollows id hid
    obtain ⟨l, -, hl⟩ := (hfollows id (hlt hid) fun _ => false).climbs id rfl
    exact hl.not_transGen_self (ha.transGen_members_iff.mp hid)
  tfae_have 2 → 5 := by
    intro hchain id _
    have hg : g.Rooted := ⟨ha.scoped.root, hchain⟩
    rw [hg.descendants_eq ha id]
    exact unstacks_flatMap (fun a => by rw [← hg.descendants_eq ha a]) (g.members id)
  tfae_have 5 → 1 := by
    intro hunstacks id hid
    -- on the way round the circle there is always a member that comes next
    have hnext : ∀ a, Relation.TransGen (fun scope m => m ∈ g.members scope) a id →
        ∃ m ∈ g.members a, Relation.TransGen (fun scope m => m ∈ g.members scope) m id := by
      intro a haid
      obtain ⟨m, hm, hrest⟩ := Relation.TransGen.head'_iff.mp haid
      rcases Relation.reflTransGen_iff_eq_or_transGen.mp hrest with rfl | hrest
      · exact ⟨_, hm, hid⟩
      · exact ⟨m, hm, hrest⟩
    obtain ⟨m, hm, hmid⟩ := hnext id hid
    exact Unstacks.not_of_closed hnext hmid hm (hunstacks id (hlt hid))
  tfae_finish

/-- A small library is a tree, as what is listed below its global namespace shows. -/
theorem geometry_rooted : Samples.geometry.validate = .ok () ∧
    ∀ id < Samples.geometry.size,
      Relation.ReflTransGen (fun a b => Samples.geometry.parent? a = some b) id DeclGraph.root := by
  have h : Samples.geometry.validate = .ok () := by decide +kernel
  exact ⟨h, ((accepted_tfae h).out 2 1).mp (by decide +kernel)⟩

/-! ### A circle -/

/-- Two namespaces that are members of each other, beside the global namespace. -/
def circle : DeclGraph :=
  ⟨#[{ name := "::", kind := .ns [] },
    { name := "a", kind := .ns [2], parent := some 2 },
    { name := "b", kind := .ns [1], parent := some 1 }]⟩

/-- It is accepted, but its parent chains do not lead to the global namespace, below which nothing
is listed, and the loops that look for a full name or for what is below a namespace do not end. -/
theorem circle_accepted : circle.validate = .ok () ∧
    ¬ Relation.ReflTransGen (fun a b => circle.parent? a = some b) 1 DeclGraph.root ∧
    circle.descendants DeclGraph.root = [] ∧ circle.properIds = [1, 2] ∧
    (∀ visited, ¬ Follows circle.parent? (· == DeclGraph.root) (some 1) visited) ∧
    ∀ visited, ¬ Unstacks circle.members (circle.members 1) visited := by
  have hparent : ∀ a, a = 1 ∨ a = 2 → a ≠ DeclGraph.root ∧
      ∃ p, circle.parent? a = some p ∧ (p = 1 ∨ p = 2) := by
    rintro a (rfl | rfl)
    · exact ⟨by decide, 2, rfl, .inr rfl⟩
    · exact ⟨by decide, 1, rfl, .inl rfl⟩
  have hmember : ∀ a, a = 1 ∨ a = 2 → ∃ m ∈ circle.members a, m = 1 ∨ m = 2 := by
    rintro a (rfl | rfl)
    · exact ⟨2, List.mem_singleton.mpr rfl, .inr rfl⟩
    · exact ⟨1, List.mem_singleton.mpr rfl, .inl rfl⟩
  refine ⟨by decide, fun hchain => ?_, by decide, by decide, fun visited => ?_, fun visited => ?_⟩
  · -- every step along parents stays in the circle
    have hstay : ∀ b, Relation.ReflTransGen (fun a b => circle.parent? a = some b) 1 b →
        b = 1 ∨ b = 2 := by
      intro b hb
      induction hb with
      | refl => exact .inl rfl
      | @tail b c _ hc ih =>
        obtain ⟨-, p, hp, hin⟩ := hparent b ih
        exact Option.some.inj (hp.symm.trans hc) ▸ hin
    exact absurd (hstay _ hchain) (by decide)
  · exact Follows.not_of_closed (fun a ha => ⟨by simpa using (hparent a ha).1, (hparent a ha).2⟩)
      (.inl rfl)
  · exact Unstacks.not_of_closed hmember (.inr rfl) (List.mem_singleton.mpr rfl)

end Bindery.DeclGraph
