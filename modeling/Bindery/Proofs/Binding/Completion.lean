import Bindery.Proofs.Binding.Construction
import Bindery.Proofs.Binding.Layout

/-!
# Classes under way

The registration of a class is under way from the moment when it is placed until it says whether
Python can make objects of the class; classes in it are registered meanwhile.  As long as it is
under way, neither it nor the wrapper class of the class has constructors.  When it is complete, it
has them, and nothing that is bound for other classes touches them again.

## Main definitions

* `Binder.Sole` — a registration is the only one of its class.
* `BindingSetup.Complete` — a registration with all constructors.
* `BindingSetup.Underway` — some registrations are under way, and all others are complete.

## Main results

* `Underway.register`, `Underway.complete_of_constructs` — a registration comes under way, and
  becomes complete.
* `keeps_registerClass` — **a class is registered, and what is under way stays so.**
* `bind_underway` — **in a module that is bound, all registrations are complete.**
-/

namespace Bindery

open Binding Binder CodeTree

/-- The registration is the only one of its class. -/
def Binder.Sole (b : Binder) (c : DeclId) (n : NodeId) : Prop := ∀ m, (c, m) ∈ b.classNodes → m = n

namespace BindingSetup

variable {s : BindingSetup} {ids : List DeclId} {body p q n node : NodeId} {b b' : Binder}
  {t : CodeTree} {c cls id : DeclId} {ongoing : List (DeclId × NodeId)}

/-! ### Registrations -/

/-- A registration with all constructors: it begins with them, as does the wrapper class of its
class, and it says whether Python can make objects of the class. -/
structure Complete (s : BindingSetup) (b : Binder) (c : DeclId) (n : NodeId) : Prop where
  exposes : ∃ entries, s.Exposes c (s.isHidden b c) entries ∧ b.tree.BeginsWith n entries
  noInit : ∃ r, b.tree.kind? n = some (.cls r) ∧ r.noInit = s.hasNoInit b c
  forwards : ∀ w, b.wrapper? c = some w → s.Forwards c w b.tree

/-- Neither the registration nor, if it is the only one of its class, the wrapper class of the class
has constructors. -/
structure Raw (b : Binder) (c : DeclId) (n : NodeId) : Prop where
  noted : (c, n) ∈ b.classNodes
  begins : b.tree.BeginsWith n []
  wrapper : b.Sole c n → ∀ w, b.wrapper? c = some w → b.tree.BeginsWith w.node []

/-- The registrations of some classes are under way, and all others are complete.  A registration
that names a wrapper class is one of a class that has one.  Those of containers are not noted, and
have neither constructors nor wrapper classes. -/
structure Underway (s : BindingSetup) (body : NodeId) (ongoing : List (DeclId × NodeId))
    (b : Binder) : Prop where
  module : ∃ name, b.tree.kind? root = some (.module name)
  moduleBody : ∃ name, b.tree.kind? body = some (.moduleBody name)
  node : ∀ c n, (c, n) ∈ b.classNodes →
    b.tree.decl? n = some c ∧ ∃ r, b.tree.kind? n = some (.cls r)
  made : ∀ c w, b.wrapper? c = some w → (∃ n, (c, n) ∈ b.classNodes) ∧
    b.tree.decl? w.node = some c ∧ ∃ k, b.tree.kind? w.node = some (.wrapper k)
  told : ∀ c n r, (c, n) ∈ b.classNodes → b.tree.kind? n = some (.cls r) → r.wrapper.isSome →
    (b.wrapper? c).isSome
  others : ∀ n r, b.tree.kind? n = some (.cls r) → (∀ c, (c, n) ∉ b.classNodes) →
    r.wrapper = none ∧ b.tree.BeginsWith n []
  raw : ∀ p ∈ ongoing, Raw b p.1 p.2
  distinct : ongoing.Nodup
  complete : ∀ p ∈ b.classNodes, p ∉ ongoing → b.Sole p.1 p.2 → s.Complete b p.1 p.2

/-- Neither the registration nor the wrapper class of its class has been touched, as far as
constructors go. -/
structure Untouched (b b' : Binder) (c : DeclId) (n : NodeId) : Prop where
  node : Steady b.tree b'.tree n
  wrapper : b'.Sole c n → b'.wrapper? c = b.wrapper? c ∧
    ∀ w, b.wrapper? c = some w → Steady b.tree b'.tree w.node

theorem Complete.untouched (h : s.Complete b c n) (hsole : b'.Sole c n)
    (huntouched : Untouched b b' c n) : s.Complete b' c n := by
  obtain ⟨hwrapper, hsteady⟩ := huntouched.wrapper hsole
  refine ⟨?_, ?_, fun w hw => ?_⟩
  · obtain ⟨entries, hexposes, hbegins⟩ := h.exposes
    refine ⟨entries, ?_, huntouched.node.begins _ hbegins⟩
    rwa [isHidden, hwrapper]
  · obtain ⟨r, hr, hnoInit⟩ := h.noInit
    obtain ⟨r', hr', heq⟩ := huntouched.node.noInit r hr
    refine ⟨r', hr', ?_⟩
    rw [heq, hnoInit, hasNoInit, hasNoInit, hwrapper]
  · rw [hwrapper] at hw
    exact (h.forwards w hw).steady (hsteady w hw)

theorem Raw.untouched (h : Raw b c n) (hnodes : b.classNodes ⊆ b'.classNodes)
    (huntouched : Untouched b b' c n) : Raw b' c n where
  noted := hnodes h.noted
  begins := huntouched.node.begins _ h.begins
  wrapper hsole w hw := by
    obtain ⟨hwrapper, hsteady⟩ := huntouched.wrapper hsole
    rw [hwrapper] at hw
    exact (hsteady w hw).begins _ (h.wrapper (fun m hm => hsole m (hnodes hm)) w hw)

/-- A registration with all constructors is complete when it says whether Python can make objects
of the class. -/
theorem Constructs.complete (h : s.Constructs cls node b b')
    (haltered : Altered b'.tree node (fun r => { r with noInit := s.hasNoInit b' cls }) t)
    (hnode : ∃ r, b'.tree.kind? node = some (.cls r))
    (hwrapper : ∀ w, b.wrapper? cls = some w → w.node ≠ node ∧ b.tree.BeginsWith w.node []) :
    s.Complete { b' with tree := t } cls node := by
  have hmade : b'.wrapper? = b.wrapper? := h.spares.wrapper?
  refine ⟨?_, ?_, fun w hw => ?_⟩
  · obtain ⟨entries, hexposes, hbegins⟩ := h.exposes
    refine ⟨entries, ?_, hbegins.still (haltered.still fun _ => rfl)⟩
    show s.Exposes cls (s.graph.isAbstract cls && (b'.wrapper? cls).isNone) entries
    rwa [hmade]
  · obtain ⟨r, hr⟩ := hnode
    exact ⟨_, (haltered.kind node).trans (by rw [if_pos rfl, hr]; rfl), rfl⟩
  · obtain ⟨hne, hbegins⟩ := hwrapper w (hmade ▸ hw)
    exact (h.forwards w (hmade ▸ hw) hbegins).steady (haltered.steady (fun _ => rfl) (.inl hne))

namespace Underway

/-- A wrapper class is no registration. -/
theorem ne_node (h : s.Underway body ongoing b) {w : WrapperClass} (hw : b.wrapper? c = some w)
    (hn : (cls, n) ∈ b.classNodes) : w.node ≠ n := by
  rintro rfl
  obtain ⟨-, -, k, hk⟩ := h.made c w hw
  obtain ⟨-, r, hr⟩ := h.node cls _ hn
  cases hk.symm.trans hr

/-- A registration is one of one class. -/
theorem eq_cls (h : s.Underway body ongoing b) (hc : (c, n) ∈ b.classNodes)
    (hcls : (cls, n) ∈ b.classNodes) : c = cls :=
  Option.some.inj ((h.node c n hc).1.symm.trans (h.node cls n hcls).1)

theorem node_kept (h : s.Underway body ongoing b) (hgrown : Grown b.tree t)
    (hn : (c, n) ∈ b.classNodes) : t.decl? n = some c ∧ ∃ r, t.kind? n = some (.cls r) := by
  obtain ⟨hdecl, r, hr⟩ := h.node c n hn
  refine ⟨by rw [hgrown.decl n (by rw [hr]; rfl), hdecl], ?_⟩
  rcases hgrown.kind n _ hr with hr | ⟨-, r', -, hr', -⟩
  · exact ⟨r, hr⟩
  · exact ⟨r', hr'⟩

theorem made_kept (h : s.Underway body ongoing b) (hkept : Kept b b') {w : WrapperClass}
    (hw : b.wrapper? c = some w) : (∃ n, (c, n) ∈ b'.classNodes) ∧
      b'.tree.decl? w.node = some c ∧ ∃ k, b'.tree.kind? w.node = some (.wrapper k) := by
  obtain ⟨⟨n, hn⟩, hdecl, k, hk⟩ := h.made c w hw
  exact ⟨⟨n, hkept.classNodes hn⟩, by rw [hkept.tree.decl _ (by rw [hk]; rfl), hdecl], k,
    hkept.tree.kind_of_ne hk fun _ h => (nomatch h)⟩

theorem module_kept (h : s.Underway body ongoing b) (hgrown : Grown b.tree t) :
    (∃ name, t.kind? root = some (.module name)) ∧
      ∃ name, t.kind? body = some (.moduleBody name) := by
  obtain ⟨name, hmodule⟩ := h.module
  obtain ⟨name', hbody⟩ := h.moduleBody
  exact ⟨⟨name, hgrown.kind_of_ne hmodule fun _ h => (nomatch h)⟩,
    ⟨name', hgrown.kind_of_ne hbody fun _ h => (nomatch h)⟩⟩

/-- The module and its body. -/
abbrev IsModule (body q : NodeId) : Prop := q = root ∨ q = body

/-- Neither the module nor its body is a registration or a wrapper class. -/
theorem not_isModule (h : s.Underway body ongoing b)
    (hq : (∃ r, b.tree.kind? q = some (.cls r)) ∨ ∃ k, b.tree.kind? q = some (.wrapper k)) :
    ¬ IsModule body q := by
  obtain ⟨name, hmodule⟩ := h.module
  obtain ⟨name', hbody⟩ := h.moduleBody
  rintro (rfl | rfl) <;> obtain ⟨x, hx⟩ | ⟨x, hx⟩ := hq
  · cases hx.symm.trans hmodule
  · cases hx.symm.trans hmodule
  · cases hx.symm.trans hbody
  · cases hx.symm.trans hbody

/-- Registrations and wrapper classes are untouched as long as their nodes are steady. -/
theorem untouched (h : s.Underway body ongoing b) (hn : (c, n) ∈ b.classNodes)
    (hwrapper : b'.wrapper? c = b.wrapper? c)
    (hsteady : ∀ q, ¬ IsModule body q → Steady b.tree b'.tree q) : Untouched b b' c n :=
  ⟨hsteady n (h.not_isModule (.inl (h.node c n hn).2)),
    fun _ => ⟨hwrapper, fun w hw => hsteady _ (h.not_isModule (.inr (h.made c w hw).2.2))⟩⟩

/-! ### Changes -/

/-- A registration is new and names no wrapper class, or names what it has named before, or is one
of a class that has a wrapper class. -/
inductive Shown (b b' : Binder) (n : NodeId) (r : ClassNode) : Prop
  | container (hnone : r.wrapper = none) (hbegins : b'.tree.BeginsWith n [])
  | stays {r' : ClassNode} (hr' : b.tree.kind? n = some (.cls r')) (heq : r'.wrapper = r.wrapper)
  | tells {c : DeclId} (hc : (c, n) ∈ b.classNodes) (hmade : (b.wrapper? c).isSome)

theorem Shown.of_spares {touched : NodeId → Prop} {r : ClassNode} (h : Spares touched b b')
    (hr : b'.tree.kind? n = some (.cls r)) : Shown b b' n r := by
  obtain ⟨r', hr', heq⟩ := h.shown n r hr
  exact .stays hr' heq

/-- Where no class is registered or gets a wrapper class, what is untouched stays as it is, so that
it is enough to say how registrations become complete. -/
theorem of_unregistered {ongoing' : List (DeclId × NodeId)} (h : s.Underway body ongoing b)
    (hkept : Kept b b') (hclassNodes : b'.classNodes = b.classNodes)
    (hwrapper : b'.wrapper? = b.wrapper?)
    (hshown : ∀ n r, b'.tree.kind? n = some (.cls r) → Shown b b' n r)
    (hcontainer : ∀ n r, b.tree.kind? n = some (.cls r) → (∀ c, (c, n) ∉ b.classNodes) →
      Steady b.tree b'.tree n)
    (hongoing : ∀ p ∈ ongoing', p ∈ ongoing ∧ Untouched b b' p.1 p.2) (hdistinct : ongoing'.Nodup)
    (hcomplete : ∀ p ∈ b.classNodes, p ∉ ongoing' →
      p ∉ ongoing ∧ Untouched b b' p.1 p.2 ∨
        (b.Sole p.1 p.2 → s.Complete b' p.1 p.2)) : s.Underway body ongoing' b' := by
  obtain ⟨hmodule, hbody⟩ := h.module_kept hkept.tree
  refine ⟨hmodule, hbody, fun c n hn => ?_, fun c w hw => ?_, fun c n r hn hr hsome => ?_,
    fun n r hr hnone => ?_, fun p hp => ?_, hdistinct, fun p hp hnot hsole => ?_⟩
  · exact h.node_kept hkept.tree (hclassNodes ▸ hn)
  · exact h.made_kept hkept (hwrapper ▸ hw)
  · rw [hclassNodes] at hn
    rw [hwrapper]
    cases hshown n r hr with
    | container hnone _ =>
      rw [hnone] at hsome
      cases hsome
    | stays hr' heq => exact h.told c n _ hn hr' (heq ▸ hsome)
    | tells hc hmade => exact h.eq_cls hc hn ▸ hmade
  · rw [hclassNodes] at hnone
    cases hshown n r hr with
    | container hunwrapped hbegins => exact ⟨hunwrapped, hbegins⟩
    | stays hr' heq =>
      obtain ⟨hunwrapped, hbegins⟩ := h.others n _ hr' hnone
      exact ⟨heq ▸ hunwrapped, (hcontainer n _ hr' hnone).begins _ hbegins⟩
    | tells hc _ => exact absurd hc (hnone _)
  · obtain ⟨hp, huntouched⟩ := hongoing p hp
    exact (h.raw p hp).untouched hkept.classNodes huntouched
  · rw [hclassNodes] at hp
    have hold : b.Sole p.1 p.2 := fun m hm => hsole m (hkept.classNodes hm)
    rcases hcomplete p hp hnot with ⟨hnot, huntouched⟩ | hcomplete
    · exact (h.complete p hp hnot hold).untouched hsole huntouched
    · exact hcomplete hold

/-- Where besides all nodes but the module and its body are steady, what is under way stays so. -/
theorem of_steady (h : s.Underway body ongoing b) (hkept : Kept b b')
    (hclassNodes : b'.classNodes = b.classNodes) (hwrapper : b'.wrapper? = b.wrapper?)
    (hshown : ∀ n r, b'.tree.kind? n = some (.cls r) → Shown b b' n r)
    (hsteady : ∀ q, ¬ IsModule body q → Steady b.tree b'.tree q) :
    s.Underway body ongoing b' := by
  have huntouched : ∀ p ∈ b.classNodes, Untouched b b' p.1 p.2 := fun p hp =>
    h.untouched hp (congrFun hwrapper p.1) hsteady
  exact h.of_unregistered hkept hclassNodes hwrapper hshown
    (fun n r hr _ => hsteady n (h.not_isModule (.inl ⟨r, hr⟩)))
    (fun p hp => ⟨hp, huntouched p (h.raw p hp).noted⟩) h.distinct
    fun p hp hnot => .inl ⟨hnot, huntouched p hp⟩

/-- What spares all nodes but the module and its body leaves what is under way. -/
theorem spares (h : s.Underway body ongoing b) (hspares : Spares (IsModule body) b b') :
    s.Underway body ongoing b' :=
  h.of_steady hspares.kept hspares.classNodes hspares.wrapper?
    (fun _ _ => .of_spares hspares) hspares.steady

/-- A registration that is not noted comes into the body, or behind other nodes. -/
theorem place {r : ClassNode} {decl : Option DeclId} {front back : List NodeId}
    (h : s.Underway body ongoing b) (hplaced : PlacedAs b.tree p (.cls r) decl front back t)
    (hplace : p = body ∨ back = []) (hr : r.wrapper = none) :
    s.Underway body ongoing { b with tree := t } := by
  refine h.of_steady (.of_tree hplaced.grown) rfl rfl (fun n r' hr' => ?_) fun q hq => ?_
  · have hr' : t.kind? n = some (.cls r') := hr'
    rw [hplaced.kinds] at hr'
    split at hr'
    · next hn =>
      cases hr'
      exact .container hr (hn ▸ hplaced.begins)
    · exact .stays hr' rfl
  · exact hplaced.steady (hplace.imp (fun hp he => hq (.inr (he.trans hp))) fun hback =>
      ⟨hback, rfl⟩)

/-- A registration is noted, and comes under way. -/
theorem note (h : s.Underway body ongoing b) (hnew : ∀ c, (c, node) ∉ b.classNodes)
    (hdecl : b.tree.decl? node = some cls) (hkind : ∃ r, b.tree.kind? node = some (.cls r)) :
    s.Underway body ((cls, node) :: ongoing)
      { b with classNodes := (cls, node) :: b.classNodes } := by
  obtain ⟨registration, hregistration⟩ := hkind
  obtain ⟨hunwrapped, hbegins⟩ := h.others node registration hregistration hnew
  refine ⟨h.module, h.moduleBody, fun c n hn => ?_, fun c w hw => ?_, fun c n r hn hr hsome => ?_,
    fun n r hr hnone => ?_, fun p hp => ?_, ?_, fun p hp hnot hsole => ?_⟩
  · rcases List.mem_cons.mp hn with heq | hn
    · cases heq
      exact ⟨hdecl, registration, hregistration⟩
    · exact h.node c n hn
  · obtain ⟨⟨n, hn⟩, hmade⟩ := h.made c w hw
    exact ⟨⟨n, List.mem_cons_of_mem _ hn⟩, hmade⟩
  · rcases List.mem_cons.mp hn with heq | hn
    · cases heq
      obtain rfl : registration = r :=
        NodeKind.cls.inj (Option.some.inj (hregistration.symm.trans hr))
      rw [hunwrapped] at hsome
      cases hsome
    · exact h.told c n r hn hr hsome
  · exact h.others n r hr fun c hc => hnone c (List.mem_cons_of_mem _ hc)
  · rcases List.mem_cons.mp hp with rfl | hp
    · refine ⟨List.mem_cons_self, hbegins, fun hsole w hw => ?_⟩
      -- a class with a wrapper class has been noted before
      obtain ⟨⟨m, hm⟩, -⟩ := h.made cls w hw
      obtain rfl := hsole m (List.mem_cons_of_mem _ hm)
      exact absurd hm (hnew cls)
    · have hraw := h.raw p hp
      exact ⟨List.mem_cons_of_mem _ hraw.noted, hraw.begins, fun hsole =>
        hraw.wrapper fun m hm => hsole m (List.mem_cons_of_mem _ hm)⟩
  · exact List.nodup_cons.mpr ⟨fun hmem => hnew cls (h.raw _ hmem).noted, h.distinct⟩
  · obtain ⟨hne, hnot⟩ := not_or.mp (mt List.mem_cons.mpr hnot)
    have hp := (List.mem_cons.mp hp).resolve_left hne
    obtain ⟨hexposes, hnoInit, hforwards⟩ := h.complete p hp hnot fun m hm =>
      hsole m (List.mem_cons_of_mem _ hm)
    exact ⟨hexposes, hnoInit, hforwards⟩

/-- A class is registered. -/
theorem register {r : ClassNode} (h : s.Underway body ongoing b)
    (hplaced : PlacedAs b.tree p (.cls r) (some cls) (b.tree.children p) [] t)
    (hr : r.wrapper = none) : s.Underway body ((cls, b.tree.size) :: ongoing) { b with
      tree := t
      classNodes := (cls, b.tree.size) :: b.classNodes
      exported := b.exported ++ [cls] } := by
  have hnew : ∀ c, (c, b.tree.size) ∉ b.classNodes := by
    intro c hc
    obtain ⟨-, r', hr'⟩ := h.node c _ hc
    exact (lt_size_of_kind? hr').ne rfl
  have hnoted := (h.place hplaced (.inr rfl) hr).note hnew
    ((hplaced.decls _).trans (if_pos rfl)) ⟨r, (hplaced.kinds _).trans (if_pos rfl)⟩
  exact hnoted.spares (spares_markExported cls _ () _ rfl)

/-- A class that is under way gets a wrapper class without constructors. -/
theorem make {w : WrapperClass} (h : s.Underway body ongoing b) (hongoing : (cls, node) ∈ ongoing)
    (hnone : b.wrapper? cls = none) (hdecl : b.tree.decl? w.node = some cls)
    (hkind : ∃ k, b.tree.kind? w.node = some (.wrapper k)) (hbegins : b.tree.BeginsWith w.node []) :
    s.Underway body ongoing { b with wrappers := (cls, w) :: b.wrappers } := by
  have hself : wrapper? { b with wrappers := (cls, w) :: b.wrappers } cls = some w :=
    wrapper?_cons_self
  have hother : ∀ c, c ≠ cls →
      wrapper? { b with wrappers := (cls, w) :: b.wrappers } c = b.wrapper? c :=
    fun c => wrapper?_cons_of_ne
  have huntouched : ∀ p : DeclId × NodeId, p.1 ≠ cls →
      Untouched b { b with wrappers := (cls, w) :: b.wrappers } p.1 p.2 := fun p hp =>
    ⟨Steady.refl b.tree p.2, fun _ => ⟨hother p.1 hp, fun w _ => Steady.refl b.tree w.node⟩⟩
  refine ⟨h.module, h.moduleBody, h.node, fun c w' hw' => ?_, fun c n r hn hr hsome => ?_, h.others,
    fun p hp => ?_, h.distinct, fun p hp hnot hsole => ?_⟩
  · by_cases hc : c = cls
    · subst hc
      obtain rfl := Option.some.inj (hself.symm.trans hw')
      exact ⟨⟨node, (h.raw _ hongoing).noted⟩, hdecl, hkind⟩
    · exact h.made c w' (hother c hc ▸ hw')
  · by_cases hc : c = cls
    · rw [hc, hself]
      rfl
    · rw [hother c hc]
      exact h.told c n r hn hr hsome
  · have hraw := h.raw p hp
    by_cases hc : p.1 = cls
    · refine ⟨hraw.noted, hraw.begins, fun _ w' hw' => ?_⟩
      obtain rfl := Option.some.inj (hself.symm.trans (hc ▸ hw'))
      exact hbegins
    · exact hraw.untouched (List.Subset.refl _) (huntouched p hc)
  · -- the class that gets the wrapper class is under way with its only registration
    have hc : p.1 ≠ cls := by
      rintro rfl
      obtain rfl := hsole node (h.raw _ hongoing).noted
      exact hnot hongoing
    exact (h.complete p hp hnot hsole).untouched hsole (huntouched p hc)

/-- The registration of a class with a wrapper class comes to name it. -/
theorem tell {name : String} (h : s.Underway body ongoing b) (hn : (cls, n) ∈ b.classNodes)
    (hmade : (b.wrapper? cls).isSome)
    (haltered : Altered b.tree n (fun r => { r with wrapper := some name }) t) :
    s.Underway body ongoing { b with tree := t } := by
  refine h.of_steady (.of_tree (.of_still (haltered.still fun _ => rfl))) rfl rfl
    (fun q r hr => ?_) fun q _ => haltered.steady (fun _ => rfl) (.inr fun _ => rfl)
  by_cases hq : q = n
  · exact .tells (hq ▸ hn) hmade
  · refine .stays (?_ : b.tree.kind? q = some (.cls r)) rfl
    have hr : t.kind? q = some (.cls r) := hr
    rwa [haltered.kind, if_neg hq] at hr

/-- The constructors of a class come neither to the registration of another class nor to that of a
container. -/
theorem not_receives (h : s.Underway body ongoing b) (hq : ∃ r, b.tree.kind? q = some (.cls r))
    (hne : q ≠ node) : ¬ Receives b cls node q := by
  rintro (he | ⟨w, hw, rfl⟩)
  · exact hne he
  · obtain ⟨r, hr⟩ := hq
    obtain ⟨-, -, k, hk⟩ := h.made cls w hw
    cases hk.symm.trans hr

/-- Nor do they come to the wrapper class of another class. -/
theorem not_receives_wrapper (h : s.Underway body ongoing b) (hnode : (cls, node) ∈ b.classNodes)
    {w : WrapperClass} (hw : b.wrapper? c = some w) (hne : c ≠ cls) :
    ¬ Receives b cls node w.node := by
  rintro (he | ⟨w', hw', he⟩)
  · exact h.ne_node hw hnode he
  · obtain ⟨-, hdecl, -⟩ := h.made c w hw
    obtain ⟨-, hdecl', -⟩ := h.made cls w' hw'
    rw [he] at hdecl
    exact hne (Option.some.inj (hdecl.symm.trans hdecl'))

/-- A registration becomes complete. -/
theorem complete_of_constructs {b₁ : Binder} {u : PUnit}
    (h : s.Underway body ((cls, node) :: ongoing) b) (hconstructs : s.Constructs cls node b b₁)
    (hupdate : (updateClass node fun r => { r with noInit := s.hasNoInit b₁ cls }).run b₁ =
      .ok (u, b')) : s.Underway body ongoing b' := by
  obtain ⟨t, rfl, haltered⟩ := updateClass_ok hupdate
  have hraw := h.raw _ List.mem_cons_self
  have hspares : Spares (Receives b cls node) b { b₁ with tree := t } :=
    trans_of _ hconstructs.spares
      ((Spares.of_altered haltered (fun _ => rfl) fun _ => rfl).mono fun _ => .inl)
  have huntouched : ∀ p ∈ b.classNodes, p ≠ (cls, node) →
      Untouched b { b₁ with tree := t } p.1 p.2 := by
    intro p hp hne
    have hnode : p.2 ≠ node := fun he => hne (Prod.ext (h.eq_cls hp (he ▸ hraw.noted)) he)
    refine ⟨hspares.steady _ (h.not_receives (h.node _ _ hp).2 hnode), fun hsole =>
      ⟨congrFun hspares.wrapper? _, fun w hw => hspares.steady _ ?_⟩⟩
    refine h.not_receives_wrapper hraw.noted hw fun hcls => hnode (hsole node ?_).symm
    exact hcls ▸ hspares.kept.classNodes hraw.noted
  obtain ⟨hnot, hdistinct⟩ := List.nodup_cons.mp h.distinct
  refine h.of_unregistered hspares.kept hspares.classNodes hspares.wrapper?
    (fun _ _ => .of_spares hspares) (fun n r hr hnone => ?_) (fun p hp => ?_) hdistinct
    fun p hp hnot' => ?_
  · refine hspares.steady n (h.not_receives ⟨r, hr⟩ ?_)
    rintro rfl
    exact hnone cls hraw.noted
  · have hmem := List.mem_cons_of_mem (cls, node) hp
    exact ⟨hmem, huntouched p (h.raw p hmem).noted (ne_of_mem_of_not_mem hp hnot)⟩
  · by_cases hself : p = (cls, node)
    · subst hself
      have hnode := (h.node_kept hconstructs.spares.kept.tree hp).2
      exact .inr fun hsole => hconstructs.complete haltered hnode fun w hw =>
        ⟨h.ne_node hw hp, hraw.wrapper hsole w hw⟩
    · exact .inl ⟨List.not_mem_cons_of_ne_of_not_mem hself hnot', huntouched p hp hself⟩

end Underway

/-! ### What keeps classes under way -/

/-- What is under way stays so. -/
def Keeps (s : BindingSetup) (body : NodeId) (ongoing : List (DeclId × NodeId)) (b b' : Binder) :
    Prop := s.Underway body ongoing b → s.Underway body ongoing b'

variable {kind : NodeKind} {α : Type} {m : Binding α}

instance : IsPreorder Binder (s.Keeps body ongoing) where
  refl _ hb := hb
  trans _ _ _ h h' hb := h' (h hb)

theorem keeps_of_spares (h : Moves (Spares (Underway.IsModule body)) m) :
    Moves (s.Keeps body ongoing) m := fun b a b' hrun hb => hb.spares (h b a b' hrun)

theorem keeps_of_aside (h : Moves Aside m) : Moves (s.Keeps body ongoing) m :=
  keeps_of_spares (spares_of_aside h)

theorem keeps_place {decl : Option DeclId} (hkind : kind.isPlain) :
    Moves (s.Keeps body ongoing) (place p kind decl) := keeps_of_spares (spares_place hkind)

theorem keeps_markExported (id : DeclId) : Moves (s.Keeps body ongoing) (markExported id) :=
  keeps_of_spares (spares_markExported id)

theorem keeps_addCustomTexts (parent : NodeId) (worksOnInstance : Bool) (texts : List String) :
    Moves (s.Keeps body ongoing) (addCustomTexts parent worksOnInstance texts) :=
  keeps_of_spares (spares_addCustomTexts parent worksOnInstance texts)

theorem keeps_addHeaders (node : NodeId) (headers : List String) :
    Moves (s.Keeps body ongoing) (addHeaders node headers) := by
  intro b u b' h
  obtain ⟨t, rfl, hshape, -⟩ := addHeaders_ok h
  exact fun hb => hb.spares (.of_shape hshape)

/-- A declaration is bound with its entry. -/
theorem keeps_entered (id : DeclId) (hkind : kind.isPlain) :
    Moves (s.Keeps body ongoing) (place p kind (some id) >>= fun _ => markExported id) :=
  (keeps_place hkind).bind fun _ => keeps_markExported id

/-- What comes into the module in front of its body. -/
theorem keeps_placeBeforeBody {decl : Option DeclId} (hkind : ∀ r, kind ≠ .cls r) :
    Moves (s.Keeps body ongoing) (placeBeforeBody kind decl) := by
  intro b n b' h
  obtain ⟨rfl, t, ht, rfl⟩ := placeBeforeBody_ok h
  exact fun hb => hb.spares (.of_placed (placedAs_of_adoptAt ht) hkind
    fun q hq => .inl fun he => hq (.inl he))

/-- A class that is under way may get a wrapper class. -/
theorem keeps_wrapperOf (hongoing : (cls, node) ∈ ongoing) :
    Moves (s.Keeps body ongoing) (s.wrapperOf cls) := by
  intro b w b' h hb
  unfold wrapperOf at h
  obtain ⟨b₁, b₂, hget, h⟩ := run_bind_eq_ok.mp h
  obtain ⟨rfl, rfl⟩ := run_get_eq_ok.mp hget
  split at h
  · obtain ⟨-, rfl⟩ := run_pure_eq_ok.mp h
    exact hb
  · next hnone =>
    obtain ⟨exposer, b₁, hexposer, h⟩ := run_bind_eq_ok.mp h
    obtain ⟨-, rfl⟩ := run_identifier hexposer
    have hb₁ := keeps_of_aside (s.aside_exposer cls) _ _ _ hexposer hb
    obtain ⟨node', b₂, hplace, h⟩ := run_bind_eq_ok.mp h
    obtain ⟨b₃, b₄, hget, h⟩ := run_bind_eq_ok.mp h
    obtain ⟨rfl, rfl⟩ := run_get_eq_ok.mp hget
    have hb₂ := keeps_placeBeforeBody (by rintro _ ⟨⟩) _ _ _ hplace hb₁
    obtain ⟨rfl, t, ht, rfl⟩ := placeBeforeBody_ok hplace
    have hplaced := placedAs_of_adoptAt ht
    obtain ⟨registration, hregistration⟩ := exists_classNode? (hb.raw _ hongoing).noted
    dsimp only at h
    split at h
    · next registration' hregistration' =>
      obtain ⟨u, b₃, hupdate, h⟩ := run_bind_eq_ok.mp h
      obtain ⟨t', rfl, haltered⟩ := updateClass_ok hupdate
      obtain ⟨u, b₄, hmodify, h⟩ := run_bind_eq_ok.mp h
      obtain rfl := run_modify_eq_ok.mp hmodify
      obtain ⟨-, rfl⟩ := run_pure_eq_ok.mp h
      -- the registration is told first; in the end the order makes no difference
      have hb₃ := hb₂.make (w := ⟨b.tree.size, exposer ++ "_wrapper"⟩) hongoing hnone
        ((hplaced.decls _).trans (if_pos rfl)) ⟨_, (hplaced.kinds _).trans (if_pos rfl)⟩
        hplaced.begins
      exact hb₃.tell (mem_classNodes_of_classNode? hregistration')
        (Option.isSome_iff_exists.mpr ⟨_, wrapper?_cons_self⟩) haltered
    · next hnot => exact absurd hregistration (hnot registration)

/-! ### Members of classes -/

theorem keeps_registerMaker {m : Method} {maker : MakerNode} :
    Moves (s.Keeps body ongoing) (registerMaker node m maker) := by
  unfold registerMaker
  refine (keeps_place rfl).bind fun _ => ?_
  split
  · exact (keeps_of_aside (aside_requestStatic _ _)).bind fun _ => keeps_markExported _
  · exact keeps_markExported _

theorem keeps_registerPlainMethod {m : Method} {exposure : Exposure}
    (hongoing : (cls, node) ∈ ongoing) :
    Moves (s.Keeps body ongoing) (s.registerPlainMethod cls node m exposure) := by
  have hfinish : ∀ wrapper, Moves (s.Keeps body ongoing)
      (s.finishPlainMethod node m exposure wrapper) := by
    intro wrapper
    unfold finishPlainMethod
    split
    · exact Moves.pure _
    · split
      · exact keeps_of_aside (s.aside_warn _ _)
      · exact keeps_registerMaker
  cases exposure with
  | direct =>
    rw [registerPlainMethod_direct]
    exact hfinish _
  | hidden =>
    rw [registerPlainMethod_hidden]
    exact hfinish _
  | shim kind =>
    rw [registerPlainMethod_shim]
    refine (keeps_wrapperOf hongoing).bind fun w => (keeps_place rfl).bind fun _ => ?_
    exact hfinish _

/-- What stands in for a transformed function is neither a constructor nor a registration. -/
theorem isPlain_standIn {m : Method} {t : Transformation} {exposure : Exposure} {kind : NodeKind}
    (h : m.standIn? s.graph t exposure = some kind) : kind.isPlain := by
  cases exposure with
  | direct | hidden => cases h
  | shim shim => cases shim <;> cases h <;> rfl

theorem keeps_registerTransformedMethod {m : Method} {exposure : Exposure}
    (hongoing : (cls, node) ∈ ongoing) :
    Moves (s.Keeps body ongoing) (s.registerTransformedMethod cls node m exposure) := by
  rw [registerTransformedMethod_eq]
  have hfinish : ∀ w t, Moves (s.Keeps body ongoing)
      (s.finishTransformedMethod node m exposure w t) := by
    intro w t
    unfold finishTransformedMethod
    split
    · exact Moves.pure _
    · split
      · exact keeps_of_aside (s.aside_warn _ _)
      · exact (keeps_of_aside (aside_freshIn _ _)).bind fun name =>
          (keeps_place rfl).bind fun _ => keeps_registerMaker
  refine (keeps_wrapperOf hongoing).bind fun w => (Moves.lift_transform _).bind fun t => ?_
  refine (keeps_addHeaders _ _).bind fun _ => ?_
  dsimp only
  split
  · next kind hkind =>
    exact (keeps_place (isPlain_standIn hkind)).bind fun _ => hfinish w t
  · exact hfinish w t

theorem keeps_registerMethod (hongoing : (cls, node) ∈ ongoing) :
    Moves (s.Keeps body ongoing) (s.registerMethod cls node id) := by
  unfold registerMethod
  refine (Moves.lift_missing _).bind fun d => ?_
  split
  · dsimp only
    split
    · exact Moves.pure _
    · refine (keeps_of_aside (s.aside_method _ _ _ _)).bind fun m => ?_
      split
      · exact keeps_registerPlainMethod hongoing
      · exact keeps_registerTransformedMethod hongoing
  · exact Moves.pure _

theorem keeps_registerMemberOperator :
    Moves (s.Keeps body ongoing) (s.registerMemberOperator cls node id) := by
  unfold registerMemberOperator
  split
  · split
    · exact keeps_entered id rfl
    · exact Moves.pure _
  · exact Moves.pure _

theorem keeps_registerFreeOperator (c : Callable) (symbol : String) :
    Moves (s.Keeps body ongoing) (s.registerFreeOperator id c symbol) := by
  unfold registerFreeOperator
  refine Moves.get.bind fun b => ?_
  split
  · exact keeps_of_aside (s.aside_warn _ _)
  · split
    · exact Moves.pure _
    · exact keeps_entered id rfl

theorem keeps_registerCast : Moves (s.Keeps body ongoing) (s.registerCast node id) := by
  unfold registerCast
  split
  · split
    · split
      · exact keeps_of_aside (s.aside_warn _ _)
      · exact keeps_entered id rfl
    · split
      · exact Moves.pure _
      · exact keeps_entered id rfl
  · exact Moves.pure _

theorem keeps_registerEnum (enumerators : List Enumerator) :
    Moves (s.Keeps body ongoing) (s.registerEnum node id enumerators) := by
  unfold registerEnum
  extract_lets config names values register
  split
  · rw [pure_bind]
    exact keeps_entered id rfl
  · refine (keeps_of_aside (s.aside_pythonName id)).bind fun name => ?_
    rw [pure_bind]
    exact keeps_entered id rfl

theorem keeps_registerMemberVariable (hongoing : (cls, node) ∈ ongoing) (v : VariableDecl) :
    Moves (s.Keeps body ongoing) (s.registerMemberVariable cls node id v) := by
  unfold registerMemberVariable
  refine (keeps_of_aside (s.aside_pythonName id)).bind fun pythonName => ?_
  split
  · exact keeps_entered id rfl
  · exact (keeps_wrapperOf hongoing).bind fun w =>
      (keeps_place rfl).bind fun _ => keeps_entered id rfl

theorem keeps_registerMember {nested : NodeId → DeclId → ClassDecl → Binding Unit}
    (hongoing : (cls, node) ∈ ongoing)
    (hnested : ∀ c, Moves (s.Keeps body ongoing) (nested node id c)) :
    Moves (s.Keeps body ongoing) (s.registerMember nested cls node id) := by
  unfold registerMember
  split
  · exact hnested _
  · exact keeps_registerEnum _
  · exact keeps_registerMemberVariable hongoing _
  · split
    · exact Moves.pure _
    · exact Moves.pure _
    · exact keeps_registerCast
    · split
      · exact keeps_registerMethod hongoing
      · exact keeps_registerMemberOperator
    · exact keeps_registerMethod hongoing
  · exact Moves.pure _

/-- A class is completed behind its members and the functions of its bases. -/
theorem run_completeClass_constructs {b₂ : Binder} {u v : PUnit}
    (h : s.Underway body ((cls, node) :: ongoing) b)
    (hcomplete : (s.completeClass cls node).run b = .ok (u, b₂))
    (hupdate : (updateClass node fun r => { r with noInit := s.hasNoInit b₂ cls }).run b₂ =
      .ok (v, b')) : s.Underway body ongoing b' := by
  have hfinish : ∀ b, s.Underway body ((cls, node) :: ongoing) b →
      (s.finishClass cls node).run b = .ok (u, b₂) → s.Underway body ongoing b' := by
    intro b hb hfinish
    have hraw := hb.raw _ List.mem_cons_self
    exact hb.complete_of_constructs (constructs_finishClass hfinish hraw.begins
      fun w hw => hb.ne_node hw hraw.noted) hupdate
  rw [completeClass_eq] at hcomplete
  split at hcomplete
  · exact hfinish b h hcomplete
  · obtain ⟨w, b₁, hwrapper, hcomplete⟩ := run_bind_eq_ok.mp hcomplete
    have hb₁ := keeps_wrapperOf List.mem_cons_self _ _ _ hwrapper h
    obtain ⟨x, b₃, htexts, hcomplete⟩ := run_bind_eq_ok.mp hcomplete
    exact hfinish b₃ (keeps_addCustomTexts _ _ _ _ _ _ htexts hb₁) hcomplete

/-- **A class is registered, and what is under way stays so.** -/
theorem keeps_registerClass (s : BindingSetup) (body : NodeId) :
    ∀ (depth : Nat) (ongoing : List (DeclId × NodeId)) (p : NodeId) (cls : DeclId) (c : ClassDecl),
      Moves (s.Keeps body ongoing) (s.registerClass depth p cls c)
  | 0, _, _, _, _ => Moves.pure _
  | depth + 1, ongoing, p, cls, c => by
    intro b u b' h hb
    obtain ⟨registration, b₁, t, b₂, v, hnode, hplaced, hfill, hupdate⟩ := registerClass_eq_ok h
    have hb₁ := keeps_of_aside (fun _ _ _ h => (classNode_fields h).1) _ _ _ hnode hb
    have hregistered := hb₁.register hplaced (classNode_fields hnode).2.2.1
    obtain ⟨members, found, b₃, b₄, x, y, -, -, hmembers, hfound, hcomplete⟩ := fillClass_ok hfill
    -- classes in the class are registered while it is under way
    have hnested := fun q id c =>
      s.keeps_registerClass body depth ((cls, b₁.tree.size) :: ongoing) q id c
    have hb₃ := Moves.forM members (fun id _ =>
      keeps_registerMember List.mem_cons_self (hnested _ id)) _ _ _ hmembers hregistered
    have hb₄ := Moves.forM found (fun id _ =>
      keeps_registerMethod List.mem_cons_self) _ _ _ hfound hb₃
    exact run_completeClass_constructs hb₄ hcomplete hupdate

/-! ### Declarations outside of classes -/

theorem keeps_registerPlainFunction (c : Callable) :
    Moves (s.Keeps body ongoing) (s.registerPlainFunction body id c) := by
  unfold registerPlainFunction
  dsimp only
  split
  · exact keeps_of_aside (s.aside_warn _ _)
  · exact (keeps_of_aside (s.aside_pythonName id)).bind fun _ => keeps_entered id rfl

theorem keeps_registerTransformedFunction (c : Callable) :
    Moves (s.Keeps body ongoing) (s.registerTransformedFunction body id c) := by
  unfold registerTransformedFunction
  dsimp only
  refine (keeps_of_aside (s.aside_pythonName id)).bind fun pythonName => ?_
  refine (Moves.lift_transform _).bind fun t => ?_
  split
  · exact keeps_of_aside (s.aside_warn _ _)
  · refine (keeps_of_aside (aside_freshIn _ _)).bind fun name => ?_
    refine (keeps_placeBeforeBody (by rintro _ ⟨⟩)).bind fun adapter => ?_
    exact (keeps_addHeaders _ _).bind fun _ => keeps_entered id rfl

theorem keeps_register : Moves (s.Keeps body ongoing) (s.register body id) := by
  unfold register
  refine (Moves.lift_missing _).bind fun exportable => ?_
  split
  · split
    · exact s.keeps_registerClass body _ _ _ _ _
    · exact keeps_registerEnum _
    · exact (keeps_of_aside (s.aside_pythonName id)).bind fun _ => keeps_entered id rfl
    · split
      · split
        · exact keeps_registerPlainFunction _
        · exact keeps_registerTransformedFunction _
      · exact keeps_registerFreeOperator _ _
      · exact Moves.pure _
    · exact Moves.pure _
  · exact Moves.pure _

/-! ### The module -/

theorem keeps_registerContainers : Moves (s.Keeps body ongoing) (s.registerContainers body) := by
  unfold registerContainers
  refine Moves.get.bind fun b => Moves.forM _ fun q _ => ?_
  obtain ⟨⟨fullName, id, kind⟩, position⟩ := q
  show Moves _ (s.registerContainer body position fullName id kind)
  unfold registerContainer
  refine (keeps_of_aside (s.aside_pythonName id)).bind fun pythonName => ?_
  refine (keeps_of_aside (s.aside_exposer id)).bind fun exposer => ?_
  refine Moves.bind (fun b n b' h hb => ?_) fun node => ?_
  · obtain ⟨rfl, t, ht, rfl⟩ := placeAt_ok h
    exact hb.place (placedAs_of_adoptAt ht) (.inl rfl) rfl
  · refine (keeps_place rfl).bind fun _ => (keeps_addHeaders _ _).bind fun _ => ?_
    exact keeps_markExported id

theorem keeps_includeHeaders : Moves (s.Keeps body ongoing) s.includeHeaders := by
  unfold includeHeaders
  refine Moves.get.bind fun b => (Moves.lift_tree _).bind fun headers => ?_
  refine Moves.forM headers fun header _ b u b' h hb => ?_
  obtain ⟨t, ht, rfl⟩ := editTree_ok h
  split at ht
  · next hadd =>
    cases ht
    rcases addInclude_ok hadd with ⟨-, rfl⟩ | ⟨-, back, hplaced⟩
    · exact hb
    · exact hb.spares (.of_placed hplaced (by rintro _ ⟨⟩) fun q hq => .inl fun he => hq (.inl he))
  · cases ht

/-- In a tree where nothing has been bound no class is under way. -/
theorem underway_ofModule
    (h : CodeTree.ofModule s.options.name s.options.license s.options.bindingNamespace = .ok t)
    (hbody : t.body? = some body) : s.Underway body [] { tree := t } := by
  obtain ⟨-, name, hkind⟩ := exists_moduleBody hbody
  refine ⟨⟨_, (arranged_ofModule h hbody).module⟩, ⟨name, hkind⟩, fun c n hn => (nomatch hn),
    fun c w hw => (nomatch hw), fun c n r hn => (nomatch hn), fun n r hr => ?_,
    fun p hp => (nomatch hp), List.nodup_nil, fun p hp => (nomatch hp)⟩
  rcases kind?_ofModule h hr with heq | hpreamble | heq
  · cases heq
  · cases hpreamble
  · cases heq

/-- **In a module that is bound, no class is under way**: all registrations are complete. -/
theorem bind_underway (h : s.bind ids = .ok b) : ∃ body, s.Underway body [] b := by
  obtain ⟨t, body, u, hmodule, hbody, hrun⟩ := bind_ok h
  obtain ⟨b₁, b₂, v, w, hregister, hcontainers, hinclude⟩ := bindAll_ok hrun
  have hb₁ := Moves.forM ids (fun id _ => s.keeps_register) _ _ _ hregister
    (underway_ofModule hmodule hbody)
  have hb₂ := keeps_registerContainers _ _ _ hcontainers hb₁
  exact ⟨body, keeps_includeHeaders _ _ _ hinclude hb₂⟩

end BindingSetup

end Bindery
