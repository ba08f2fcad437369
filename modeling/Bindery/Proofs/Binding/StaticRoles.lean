import Bindery.Proofs.Binding.Construction

/-!
# Static functions and the statements about them

Python has to be told which functions of a class are static, name by name, and behind the
registrations of all functions of the name.  So names are noted while a class is bound, and the
statements come when all its functions are there.

## Main definitions

* `StaticRole`, `CodeTree.staticRoles` — what the children of a registration have to do with static
  functions.
* `Stated` — each name of a static function has one statement, and the statements come last.
* `Unstated` — there are no statements yet, and the names of static functions have been noted.
* `Asking` — the registrations of some classes are under way, and names are noted for these alone.

## Main results

* `Unstated.stated` — **the statements about the names that have been noted.**
* `Asking.gains`, `Asking.register`, `Asking.request`, `Asking.settle` — what is bound keeps the
  account, a class comes under way, a name is noted, and a class gets its statements.
-/

namespace Bindery

open Binding CodeTree

namespace DeclGraph

/-- The declaration is a static function. -/
def isStaticFunction (g : DeclGraph) (id : DeclId) : Bool := (g.callable? id).any (·.isStatic)

/-- The declaration is an operator outside of classes. -/
def isFreeOperator (g : DeclGraph) (id : DeclId) : Bool :=
  (g.callable? id).any (·.kind matches .freeOperator _)

variable {g : DeclGraph} {id : DeclId}

theorem isStaticFunction_iff :
    g.isStaticFunction id ↔ ∃ f, g.callable? id = some f ∧ f.isStatic := by
  rw [isStaticFunction, Option.any_eq_true]

theorem isFreeOperator_iff :
    g.isFreeOperator id ↔ ∃ f symbol, g.callable? id = some f ∧ f.kind = .freeOperator symbol := by
  rw [isFreeOperator, Option.any_eq_true]
  constructor
  · rintro ⟨f, hf, hkind⟩
    split at hkind
    · next symbol hsymbol => exact ⟨f, symbol, hf, hsymbol⟩
    · cases hkind
  · rintro ⟨f, symbol, hf, hsymbol⟩
    exact ⟨f, hf, by rw [hsymbol]⟩

end DeclGraph

/-! ### Roles -/

/-- What a child of a registration has to do with static functions. -/
inductive StaticRole
  /-- It registers a static function under the name. -/
  | needs (pythonName : String)
  /-- It states that the functions of the name are static. -/
  | states (pythonName : String)
  /-- It may come behind the statements: a text of the user, or an operator outside of classes. -/
  | trails
  /-- Whatever else is bound for a class. -/
  | plain
  deriving DecidableEq, Repr

/-- The role of a node that writes this, about this declaration. -/
def NodeKind.staticRole (g : DeclGraph) (decl : Option DeclId) : NodeKind → StaticRole
  | maker m => if decl.any g.isStaticFunction then .needs m.pythonName else .plain
  | staticMethod pythonName => .states pythonName
  | customText _ => .trails
  | operator _ => if decl.any g.isFreeOperator then .trails else .plain
  | _ => .plain

/-- The name that a node states to be one of static functions. -/
def NodeKind.staticName? : NodeKind → Option String
  | staticMethod pythonName => some pythonName
  | _ => none

/-- The name about which there is a statement. -/
def StaticRole.statedName? : StaticRole → Option String
  | states pythonName => some pythonName
  | _ => none

theorem NodeKind.statedName?_staticRole (g : DeclGraph) (decl : Option DeclId) (kind : NodeKind) :
    (kind.staticRole g decl).statedName? = kind.staticName? := by
  cases kind with
  | maker | operator => rw [staticRole]; split <;> rfl
  | _ => rfl

/-- The names about which there are statements. -/
def statedNames (roles : List StaticRole) : List String := roles.filterMap StaticRole.statedName?

theorem mem_statedNames {roles : List StaticRole} {name : String} :
    name ∈ statedNames roles ↔ .states name ∈ roles := by
  unfold statedNames
  rw [List.mem_filterMap]
  constructor
  · rintro ⟨role, hrole, heq⟩
    cases role with
    | states other => exact Option.some.inj heq ▸ hrole
    | _ => cases heq
  · exact fun h => ⟨_, h, rfl⟩

theorem statedNames_append (roles roles' : List StaticRole) :
    statedNames (roles ++ roles') = statedNames roles ++ statedNames roles' :=
  List.filterMap_append

theorem statedNames_map_states (names : List String) :
    statedNames (names.map .states) = names := by
  unfold statedNames
  rw [List.filterMap_map]
  exact List.filterMap_some

/-- Each name of a static function has one statement, no other name has one, and behind the
statements come texts of the user and operators outside of classes alone. -/
structure Stated (roles : List StaticRole) : Prop where
  nodup : (statedNames roles).Nodup
  mem_iff : ∀ name, .states name ∈ roles ↔ .needs name ∈ roles
  last : ∃ front back, roles = front ++ back ∧ (∀ name, .states name ∉ front) ∧
    ∀ role ∈ back, role = .trails ∨ ∃ name, role = .states name

/-- There are no statements yet, and the names of static functions are these. -/
structure Unstated (names : List String) (roles : List StaticRole) : Prop where
  unstated : ∀ name, .states name ∉ roles
  mem_iff : ∀ name, .needs name ∈ roles ↔ name ∈ names

variable {roles front back : List StaticRole} {role : StaticRole} {names names' : List String}

/-- Where no function is static nothing has to be stated. -/
theorem stated_of_plain (h : ∀ role ∈ roles, role = .plain) : Stated roles where
  nodup := by
    have hnone : statedNames roles = [] := List.eq_nil_iff_forall_not_mem.mpr fun name hname =>
      nomatch h _ (mem_statedNames.mp hname)
    rw [hnone]
    exact List.nodup_nil
  mem_iff name := ⟨fun hmem => (nomatch h _ hmem), fun hmem => (nomatch h _ hmem)⟩
  last := ⟨roles, [], (List.append_nil roles).symm, fun name hmem => (nomatch h _ hmem),
    fun _ hmem => absurd hmem List.not_mem_nil⟩

/-- What may come behind statements does so. -/
theorem Stated.trail (h : Stated roles) : Stated (roles ++ [.trails]) := by
  obtain ⟨front, back, heq, hfront, hback⟩ := h.last
  refine ⟨?_, fun name => ?_, front, back ++ [.trails], by rw [heq, List.append_assoc], hfront,
    fun role hrole => ?_⟩
  · rw [statedNames_append]
    exact (List.append_nil _).symm ▸ h.nodup
  · simpa using h.mem_iff name
  · rcases List.mem_append.mp hrole with hrole | hrole
    · exact hback role hrole
    · exact .inl (List.mem_singleton.mp hrole)

/-- What is no static function comes anywhere. -/
theorem Unstated.insert (h : Unstated names (front ++ back))
    (hrole : role = .plain ∨ role = .trails) : Unstated names (front ++ role :: back) := by
  have hmem : ∀ other, other ≠ .plain → other ≠ .trails →
      (other ∈ front ++ role :: back ↔ other ∈ front ++ back) := by
    intro other hplain htrails
    have hne : other ≠ role := by rcases hrole with rfl | rfl <;> assumption
    simp [hne]
  constructor
  · intro name
    rw [hmem _ (by rintro ⟨⟩) (by rintro ⟨⟩)]
    exact h.unstated name
  · intro name
    rw [hmem _ (by rintro ⟨⟩) (by rintro ⟨⟩)]
    exact h.mem_iff name

/-- A static function comes, and its name is noted. -/
theorem Unstated.need {name : String} (h : Unstated names roles)
    (hnames : ∀ other, other ∈ names' ↔ other ∈ names ∨ other = name) :
    Unstated names' (roles ++ [.needs name]) where
  unstated other := by simpa using h.unstated other
  mem_iff other := by simp [hnames, h.mem_iff]

/-- **The statements about the names that have been noted come behind all else.** -/
theorem Unstated.stated (h : Unstated names roles) (hnames : names.Nodup) :
    Stated (roles ++ names.map .states) where
  nodup := by
    have hnone : statedNames roles = [] := List.eq_nil_iff_forall_not_mem.mpr fun name hname =>
      h.unstated name (mem_statedNames.mp hname)
    rw [statedNames_append, statedNames_map_states, hnone, List.nil_append]
    exact hnames
  mem_iff name := by simp [h.unstated, h.mem_iff]
  last := ⟨roles, names.map .states, rfl, h.unstated, fun role hrole => by
    obtain ⟨name, -, rfl⟩ := List.mem_map.mp hrole
    exact .inr ⟨name, rfl⟩⟩

namespace CodeTree

variable {g : DeclGraph} {t t' : CodeTree} {p q : NodeId} {kind : NodeKind} {decl : Option DeclId}
  {front back : List NodeId}

/-- The role of a node. -/
def staticRole (g : DeclGraph) (t : CodeTree) (c : NodeId) : StaticRole :=
  ((t.kind? c).map (·.staticRole g (t.decl? c))).getD .plain

/-- The roles of the children of a node. -/
def staticRoles (g : DeclGraph) (t : CodeTree) (q : NodeId) : List StaticRole :=
  (t.children q).map (t.staticRole g)

theorem staticRoles_of_children_eq_nil (h : t.children q = []) : t.staticRoles g q = [] := by
  rw [staticRoles, h, List.map_nil]

/-- A node that is there keeps its role when another comes. -/
theorem PlacedAs.staticRole_of_ne (h : PlacedAs t p kind decl front back t') {c : NodeId}
    (hc : c ≠ t.size) : t'.staticRole g c = t.staticRole g c := by
  rw [staticRole, staticRole, h.kinds, h.decls, if_neg hc, if_neg hc]

theorem PlacedAs.map_staticRole (h : PlacedAs t p kind decl front back t') {l : List NodeId}
    (hl : t.size ∉ l) : l.map (t'.staticRole g) = l.map (t.staticRole g) :=
  List.map_congr_left fun _ hc => h.staticRole_of_ne fun heq => hl (heq ▸ hc)

/-- The node that comes takes its role among those of the others. -/
theorem PlacedAs.staticRoles_self (h : PlacedAs t p kind decl front back t') (hw : t.WellFormed) :
    t.staticRoles g p = front.map (t.staticRole g) ++ back.map (t.staticRole g) ∧
      t'.staticRoles g p =
        front.map (t.staticRole g) ++ kind.staticRole g decl :: back.map (t.staticRole g) := by
  have hmem := Placed.not_mem_children hw p
  rw [h.before, List.mem_append, not_or] at hmem
  have hnew : t'.staticRole g t.size = kind.staticRole g decl := by
    rw [staticRole, h.kinds, h.decls, if_pos rfl, if_pos rfl]
    rfl
  constructor
  · rw [staticRoles, h.before, List.map_append]
  · rw [staticRoles, h.after, List.map_append, List.map_cons, hnew, h.map_staticRole hmem.1,
      h.map_staticRole hmem.2]

theorem PlacedAs.staticRoles_of_ne (h : PlacedAs t p kind decl front back t') (hw : t.WellFormed)
    (hq : q ≠ p) : t'.staticRoles g q = t.staticRoles g q := by
  rw [staticRoles, h.children q hq, h.map_staticRole (Placed.not_mem_children hw q)]
  rfl

/-- Roles do not change with registrations of classes. -/
theorem Still.staticRoles (h : Still t t') : t'.staticRoles g q = t.staticRoles g q := by
  unfold CodeTree.staticRoles
  rw [h.children]
  refine List.map_congr_left fun c _ => ?_
  rw [staticRole, staticRole, h.decl]
  rcases h.kind c with hk | ⟨old, new, hold, hnew, -⟩
  · rw [hk]
  · rw [hold, hnew]
    rfl

/-! ### What roles say of kinds and declarations -/

theorem staticRole_of_kind? {c : NodeId} (h : t.kind? c = some kind) :
    t.staticRole g c = kind.staticRole g (t.decl? c) := by
  rw [staticRole, h]
  rfl

theorem staticRole_of_kind?_eq_none {c : NodeId} (h : t.kind? c = none) :
    t.staticRole g c = .plain := by
  rw [staticRole, h]
  rfl

theorem staticRole_eq_states_iff {c : NodeId} {name : String} :
    t.staticRole g c = .states name ↔ t.kind? c = some (.staticMethod name) := by
  cases hk : t.kind? c with
  | none => simp [staticRole_of_kind?_eq_none hk]
  | some kind =>
    rw [staticRole_of_kind? hk]
    cases kind with
    | maker | operator => rw [NodeKind.staticRole]; split <;> simp
    | _ => simp [NodeKind.staticRole]

theorem staticRole_eq_needs_iff {c : NodeId} {name : String} :
    t.staticRole g c = .needs name ↔ ∃ m id f, t.kind? c = some (.maker m) ∧ t.decl? c = some id ∧
      g.callable? id = some f ∧ f.isStatic ∧ m.pythonName = name := by
  cases hk : t.kind? c with
  | none => simp [staticRole_of_kind?_eq_none hk]
  | some kind =>
    rw [staticRole_of_kind? hk]
    cases kind with
    | maker m =>
      cases hdecl : t.decl? c with
      | none => simp [NodeKind.staticRole]
      | some id =>
        rw [NodeKind.staticRole, Option.any_some]
        split
        · next hstatic =>
          obtain ⟨f, hf, hstatic⟩ := DeclGraph.isStaticFunction_iff.mp hstatic
          simp [hf, hstatic]
        · next hstatic =>
          rw [DeclGraph.isStaticFunction_iff] at hstatic
          refine iff_of_false (by rintro ⟨⟩) ?_
          rintro ⟨m', id', f, -, hid, hf, hf', -⟩
          cases hid
          exact hstatic ⟨f, hf, hf'⟩
    | operator => rw [NodeKind.staticRole]; split <;> simp
    | _ => simp [NodeKind.staticRole]

theorem staticRole_eq_trails_iff {c : NodeId} :
    t.staticRole g c = .trails ↔ (∃ text, t.kind? c = some (.customText text)) ∨
      ∃ o id f symbol, t.kind? c = some (.operator o) ∧ t.decl? c = some id ∧
        g.callable? id = some f ∧ f.kind = .freeOperator symbol := by
  cases hk : t.kind? c with
  | none => simp [staticRole_of_kind?_eq_none hk]
  | some kind =>
    rw [staticRole_of_kind? hk]
    cases kind with
    | operator o =>
      cases hdecl : t.decl? c with
      | none => simp [NodeKind.staticRole]
      | some id =>
        rw [NodeKind.staticRole, Option.any_some]
        split
        · next hfree =>
          obtain ⟨f, symbol, hf, hsymbol⟩ := DeclGraph.isFreeOperator_iff.mp hfree
          simp [hf, hsymbol]
        · next hfree =>
          rw [DeclGraph.isFreeOperator_iff] at hfree
          refine iff_of_false (by rintro ⟨⟩) ?_
          rintro (⟨text, htext⟩ | ⟨o', id', f, symbol, -, hid, hf, hsymbol⟩)
          · cases htext
          · cases hid
            exact hfree ⟨f, symbol, hf, hsymbol⟩
    | maker => rw [NodeKind.staticRole]; split <;> simp
    | _ => simp [NodeKind.staticRole]

/-- The names about which there are statements among the children of a node. -/
def staticNames (t : CodeTree) (q : NodeId) : List String :=
  (t.children q).filterMap fun c => (t.kind? c).bind NodeKind.staticName?

theorem statedNames_staticRoles (g : DeclGraph) (t : CodeTree) (q : NodeId) :
    statedNames (t.staticRoles g q) = t.staticNames q := by
  rw [statedNames, staticRoles, List.filterMap_map, staticNames]
  refine List.filterMap_congr fun c _ => ?_
  show (t.staticRole g c).statedName? = _
  cases hk : t.kind? c with
  | none =>
    rw [staticRole_of_kind?_eq_none hk]
    rfl
  | some kind =>
    rw [staticRole_of_kind? hk]
    exact NodeKind.statedName?_staticRole g _ kind

/-- A node that is there and no registration of a class. -/
def IsFrame (t : CodeTree) (q : NodeId) : Prop :=
  ∃ kind, t.kind? q = some kind ∧ ∀ r, kind ≠ .cls r

theorem IsFrame.grown (h : t.IsFrame q) (hgrown : Grown t t') : t'.IsFrame q := by
  obtain ⟨kind, hkind, hne⟩ := h
  exact ⟨kind, hgrown.kind_of_ne hkind hne, hne⟩

theorem IsFrame.ne_cls (h : t.IsFrame q) {r : ClassNode} (hr : t.kind? q = some (.cls r)) :
    False := by
  obtain ⟨kind, hkind, hne⟩ := h
  exact hne r (Option.some.inj (hkind.symm.trans hr))

/-- A registration stays one. -/
theorem Grown.exists_cls (h : Grown t t') (hq : ∃ r, t.kind? q = some (.cls r)) :
    ∃ r, t'.kind? q = some (.cls r) := by
  obtain ⟨r, hr⟩ := hq
  rcases h.kind q _ hr with hr | ⟨-, r', -, hr', -⟩
  · exact ⟨r, hr⟩
  · exact ⟨r', hr'⟩

end CodeTree

/-! ### Accounts of static functions -/

namespace Binder

/-- The names that have been noted for a class. -/
def noted (b : Binder) (q : NodeId) : List String :=
  (b.staticMethods.filter (·.1 == q)).map (·.2)

variable {b b' : Binder} {q : NodeId} {name : String}

theorem mem_noted : name ∈ b.noted q ↔ (q, name) ∈ b.staticMethods := by
  unfold noted
  simp

theorem nodup_noted (h : b.staticMethods.Nodup) : (b.noted q).Nodup := by
  refine (h.filter _).map_on fun e he e' he' heq => Prod.ext ?_ heq
  exact (eq_of_beq (List.mem_filter.mp he).2).trans (eq_of_beq (List.mem_filter.mp he').2).symm

/-- Neither the tree nor the wrapper classes nor the names that are noted change. -/
structure Idle (b b' : Binder) : Prop where
  tree : b'.tree = b.tree
  wrappers : b'.wrappers = b.wrappers
  staticMethods : b'.staticMethods = b.staticMethods

instance : IsPreorder Binder Idle where
  refl _ := ⟨rfl, rfl, rfl⟩
  trans _ _ _ h h' := ⟨h'.tree.trans h.tree, h'.wrappers.trans h.wrappers,
    h'.staticMethods.trans h.staticMethods⟩

/-- Children come to a node, or leave it as it is, and no class is registered. -/
structure GainsAt (g : DeclGraph) (p : NodeId) (b b' : Binder) : Prop where
  tree : Grown b.tree b'.tree
  cls : ∀ q r, b'.tree.kind? q = some (.cls r) → ∃ r', b.tree.kind? q = some (.cls r')
  wrappers : b'.wrappers = b.wrappers
  staticMethods : b'.staticMethods = b.staticMethods
  others : ∀ q, q ≠ p → b'.tree.staticRoles g q = b.tree.staticRoles g q

end Binder

open Binder

variable {g : DeclGraph} {frames ongoing : List NodeId} {p q node : NodeId} {b b' b'' : Binder}
  {t : CodeTree} {kind : NodeKind} {decl : Option DeclId} {before behind : List NodeId}

theorem Binder.GainsAt.trans (h : GainsAt g p b b') (h' : GainsAt g p b' b'') :
    GainsAt g p b b'' where
  tree := h.tree.trans h'.tree
  cls q r hr := by
    obtain ⟨r', hr'⟩ := h'.cls q r hr
    exact h.cls q r' hr'
  wrappers := h'.wrappers.trans h.wrappers
  staticMethods := h'.staticMethods.trans h.staticMethods
  others q hq := (h'.others q hq).trans (h.others q hq)

theorem Binder.GainsAt.of_idle (h : Idle b b') : GainsAt g p b b' where
  tree := by
    rw [h.tree]
    exact Grown.refl b.tree
  cls _ r hr := ⟨r, h.tree ▸ hr⟩
  wrappers := h.wrappers
  staticMethods := h.staticMethods
  others _ _ := by rw [h.tree]

theorem Binder.GainsAt.of_still (h : Still b.tree t) : GainsAt g p b { b with tree := t } where
  tree := .of_still h
  cls q r hr := by
    rcases h.kind q with hk | ⟨old, -, hold, -⟩
    · exact ⟨r, hk ▸ hr⟩
    · exact ⟨old, hold⟩
  wrappers := rfl
  staticMethods := rfl
  others _ _ := h.staticRoles

theorem Binder.GainsAt.of_placed (h : PlacedAs b.tree p kind decl before behind t)
    (hw : b.tree.WellFormed) (hkind : ∀ r, kind ≠ .cls r) :
    GainsAt g p b { b with tree := t } where
  tree := h.grown
  cls q r hr := by
    have hr : t.kind? q = some (.cls r) := hr
    rw [h.kinds] at hr
    split at hr
    · exact absurd (Option.some.inj hr) (hkind r)
    · exact ⟨r, hr⟩
  wrappers := rfl
  staticMethods := rfl
  others _ hq := h.staticRoles_of_ne hw hq

/-- The registrations of some classes are under way: they have no statements yet, and the names of
their static functions have been noted.  All others have their statements, and nothing is noted for
them.  Wrapper classes and some other nodes are known to be no registrations. -/
structure Asking (g : DeclGraph) (frames ongoing : List NodeId) (b : Binder) : Prop where
  wellFormed : b.tree.WellFormed
  frame : ∀ q ∈ frames, b.tree.IsFrame q
  wrappers : ∀ e ∈ b.wrappers, b.tree.IsFrame e.2.node
  distinct : ongoing.Nodup
  once : b.staticMethods.Nodup
  within : ∀ e ∈ b.staticMethods, e.1 ∈ ongoing
  registered : ∀ q ∈ ongoing, ∃ r, b.tree.kind? q = some (.cls r)
  unstated : ∀ q ∈ ongoing, Unstated (b.noted q) (b.tree.staticRoles g q)
  stated : ∀ q r, b.tree.kind? q = some (.cls r) → q ∉ ongoing → Stated (b.tree.staticRoles g q)

namespace Asking

theorem not_frame (h : Asking g frames ongoing b) (hq : q ∈ ongoing) : ¬ b.tree.IsFrame q := by
  obtain ⟨r, hr⟩ := h.registered q hq
  exact fun hframe => hframe.ne_cls hr

/-- A node that is under way has been there. -/
theorem ne_size (h : Asking g frames ongoing b) (hq : q ∈ ongoing) : q ≠ b.tree.size := by
  obtain ⟨r, hr⟩ := h.registered q hq
  exact (lt_size_of_kind? hr).ne

/-- The wrapper class of a class is no registration. -/
theorem isFrame (h : Asking g frames ongoing b) {cls : DeclId} {w : WrapperClass}
    (hw : b.wrapper? cls = some w) : b.tree.IsFrame w.node := by
  obtain ⟨front, back, heq, -⟩ := List.lookup_eq_some_iff.mp hw
  exact h.wrappers (cls, w) (heq ▸ List.mem_append_right _ List.mem_cons_self)

/-- Children may come if they keep the account of the node to which they come. -/
theorem gains (h : Asking g frames ongoing b) (hgains : GainsAt g p b b')
    (hunstated : p ∈ ongoing → ∀ names, Unstated names (b.tree.staticRoles g p) →
      Unstated names (b'.tree.staticRoles g p))
    (hstated : p ∉ ongoing → ¬ b.tree.IsFrame p → Stated (b.tree.staticRoles g p) →
      Stated (b'.tree.staticRoles g p)) : Asking g frames ongoing b' where
  wellFormed := hgains.tree.wellFormed h.wellFormed
  frame q hq := (h.frame q hq).grown hgains.tree
  wrappers e he := (h.wrappers e (hgains.wrappers ▸ he)).grown hgains.tree
  distinct := h.distinct
  once := hgains.staticMethods ▸ h.once
  within e he := h.within e (hgains.staticMethods ▸ he)
  registered q hq := hgains.tree.exists_cls (h.registered q hq)
  unstated q hq := by
    have hnoted : b'.noted q = b.noted q := by rw [noted, noted, hgains.staticMethods]
    rw [hnoted]
    by_cases hqp : q = p
    · subst hqp
      exact hunstated hq _ (h.unstated q hq)
    · rw [hgains.others q hqp]
      exact h.unstated q hq
  stated q r hr hq := by
    obtain ⟨r', hr'⟩ := hgains.cls q r hr
    have hbefore := h.stated q r' hr' hq
    by_cases hqp : q = p
    · subst hqp
      exact hstated hq (fun hframe => hframe.ne_cls hr') hbefore
    · rwa [hgains.others q hqp]

theorem idle (h : Asking g frames ongoing b) (hidle : Idle b b') : Asking g frames ongoing b' :=
  h.gains (p := root) (.of_idle hidle) (fun _ _ => hidle.tree ▸ id) fun _ _ => hidle.tree ▸ id

theorem still (h : Asking g frames ongoing b) (hstill : Still b.tree t) :
    Asking g frames ongoing { b with tree := t } :=
  h.gains (p := root) (.of_still hstill) (fun _ _ => hstill.staticRoles ▸ id)
    fun _ _ => hstill.staticRoles ▸ id

/-- A node comes that is neither a registration nor of any consequence for static functions where it
comes. -/
theorem placed (h : Asking g frames ongoing b)
    (hplaced : PlacedAs b.tree p kind decl before behind t)
    (hkind : ∀ r, kind ≠ .cls r)
    (hplace : p ∈ frames ∨
      (kind.staticRole g decl = .plain ∨ kind.staticRole g decl = .trails) ∧ p ∈ ongoing ∨
      kind.staticRole g decl = .trails ∧ behind = []) :
    Asking g frames ongoing { b with tree := t } := by
  obtain ⟨hold, hnew⟩ := hplaced.staticRoles_self (g := g) h.wellFormed
  refine h.gains (.of_placed hplaced h.wellFormed hkind) (fun hp names => ?_)
    fun hp hframe => ?_
  · show Unstated names (b.tree.staticRoles g p) → Unstated names (t.staticRoles g p)
    rw [hold, hnew]
    refine fun hun => hun.insert ?_
    rcases hplace with hp' | ⟨hrole, -⟩ | ⟨hrole, -⟩
    · exact absurd (h.frame p hp') (h.not_frame hp)
    · exact hrole
    · exact .inr hrole
  · show Stated (b.tree.staticRoles g p) → Stated (t.staticRoles g p)
    rcases hplace with hp' | ⟨-, hp'⟩ | ⟨hrole, rfl⟩
    · exact absurd (h.frame p hp') hframe
    · exact absurd hp' hp
    · rw [hold, hnew, hrole, List.map_nil, List.append_nil]
      exact Stated.trail

/-- A wrapper class is noted. -/
theorem wrap (h : Asking g frames ongoing b) {cls : DeclId} {w : WrapperClass}
    (hw : b.tree.IsFrame w.node) :
    Asking g frames ongoing { b with wrappers := (cls, w) :: b.wrappers } :=
  { h with
    wrappers := fun e he => by
      rcases List.mem_cons.mp he with rfl | he
      · exact hw
      · exact h.wrappers e he }

/-- One more node is known to be no registration. -/
theorem cons_frame (h : Asking g frames ongoing b) (hq : b.tree.IsFrame q) :
    Asking g (q :: frames) ongoing b :=
  { h with frame := List.forall_mem_cons.mpr ⟨hq, h.frame⟩ }

theorem of_cons_frame (h : Asking g (q :: frames) ongoing b) : Asking g frames ongoing b :=
  { h with frame := (List.forall_mem_cons.mp h.frame).2 }

/-- A class comes under way. -/
theorem register {r : ClassNode} (h : Asking g frames ongoing b)
    (hplaced : PlacedAs b.tree p (.cls r) decl before behind t) (hp : p ∈ frames ∨ p ∈ ongoing) :
    Asking g frames (b.tree.size :: ongoing) { b with tree := t } := by
  have hwf := h.wellFormed
  have hgrown := hplaced.grown
  have hnew : b.tree.size ∉ ongoing := fun hmem => h.ne_size hmem rfl
  have hframe : b.tree.IsFrame p ∨ p ∈ ongoing := hp.imp_left (h.frame p)
  obtain ⟨hold, hself⟩ := hplaced.staticRoles_self (g := g) hwf
  have hroles : t.staticRoles g b.tree.size = [] := staticRoles_of_children_eq_nil <|
    (hplaced.children _ hplaced.old.symm).trans (children_size b.tree)
  have hnoted : b.noted b.tree.size = [] := by
    refine List.eq_nil_iff_forall_not_mem.mpr fun name hname => hnew ?_
    exact h.within _ (mem_noted.mp hname)
  refine ⟨hgrown.wellFormed hwf, fun q hq => (h.frame q hq).grown hgrown,
    fun e he => (h.wrappers e he).grown hgrown, List.nodup_cons.mpr ⟨hnew, h.distinct⟩, h.once,
    fun e he => List.mem_cons_of_mem _ (h.within e he), fun q hq => ?_, fun q hq => ?_,
    fun q r' hr hq => ?_⟩
  · rcases List.mem_cons.mp hq with rfl | hq
    · exact ⟨r, (hplaced.kinds _).trans (if_pos rfl)⟩
    · exact hgrown.exists_cls (h.registered q hq)
  · show Unstated (b.noted q) (t.staticRoles g q)
    rcases List.mem_cons.mp hq with rfl | hq
    · rw [hroles, hnoted]
      exact ⟨fun _ => List.not_mem_nil, fun _ => iff_of_false List.not_mem_nil List.not_mem_nil⟩
    · by_cases hqp : q = p
      · subst hqp
        rw [hself]
        exact (hold ▸ h.unstated q hq).insert (.inl rfl)
      · rw [hplaced.staticRoles_of_ne hwf hqp]
        exact h.unstated q hq
  · rw [List.mem_cons, not_or] at hq
    have hr : t.kind? q = some (.cls r') := hr
    rw [hplaced.kinds, if_neg hq.1] at hr
    show Stated (t.staticRoles g q)
    have hqp : q ≠ p := by
      rintro rfl
      rcases hframe with hframe | hmem
      · exact hframe.ne_cls hr
      · exact hq.2 hmem
    rw [hplaced.staticRoles_of_ne hwf hqp]
    exact h.stated q r' hr hq.2

/-- A static function is registered for a class that is under way, and its name is noted. -/
theorem request {m : MakerNode} {id : DeclId} {requests : List (NodeId × String)}
    (h : Asking g frames ongoing b)
    (hplaced : PlacedAs b.tree p (.maker m) (some id) before [] t) (hp : p ∈ ongoing)
    (hstatic : g.isStaticFunction id) (hnodup : requests.Nodup)
    (hrequests : ∀ e, e ∈ requests ↔ e ∈ b.staticMethods ∨ e = (p, m.pythonName)) :
    Asking g frames ongoing { b with tree := t, staticMethods := requests } := by
  have hwf := h.wellFormed
  have hgains : GainsAt g p b { b with tree := t } := .of_placed hplaced hwf (by rintro _ ⟨⟩)
  have hrole : (NodeKind.maker m).staticRole g (some id) = .needs m.pythonName := if_pos hstatic
  obtain ⟨hold, hself⟩ := hplaced.staticRoles_self (g := g) hwf
  rw [List.map_nil, List.append_nil] at hold
  rw [List.map_nil, hrole, ← hold] at hself
  refine ⟨hgains.tree.wellFormed hwf, fun q hq => (h.frame q hq).grown hgains.tree,
    fun e he => (h.wrappers e he).grown hgains.tree, h.distinct, hnodup, fun e he => ?_,
    fun q hq => ?_, fun q hq => ?_, fun q r hr hq => ?_⟩
  · rcases (hrequests e).mp he with he | rfl
    · exact h.within e he
    · exact hp
  · exact hgains.tree.exists_cls (h.registered q hq)
  · show Unstated (noted { b with tree := t, staticMethods := requests } q) (t.staticRoles g q)
    by_cases hqp : q = p
    · subst hqp
      rw [hself]
      refine (h.unstated q hq).need fun other => ?_
      rw [mem_noted, hrequests, mem_noted, Prod.mk.injEq]
      exact or_congr_right (and_iff_right rfl)
    · rw [hplaced.staticRoles_of_ne hwf hqp]
      have hsame : ∀ name, name ∈ noted { b with tree := t, staticMethods := requests } q ↔
          name ∈ b.noted q := by
        intro name
        rw [mem_noted, hrequests, mem_noted]
        exact or_iff_left fun heq => hqp (Prod.mk.inj heq).1
      exact ⟨(h.unstated q hq).unstated, fun name =>
        ((h.unstated q hq).mem_iff name).trans (hsame name).symm⟩
  · obtain ⟨r', hr'⟩ := hgains.cls q r hr
    show Stated (t.staticRoles g q)
    rw [hplaced.staticRoles_of_ne hwf (by rintro rfl; exact hq hp)]
    exact h.stated q r' hr' hq

/-- A class gets the statements about the names that have been noted for it, which are then
forgotten. -/
theorem settle (h : Asking g frames (node :: ongoing) b)
    (hgains : GainsAt g node
      { b with staticMethods := b.staticMethods.filter (·.1 != node) } b')
    (hroles : b'.tree.staticRoles g node =
      b.tree.staticRoles g node ++ (b.noted node).map .states) : Asking g frames ongoing b' := by
  obtain ⟨hnot, hdistinct⟩ := List.nodup_cons.mp h.distinct
  have hgrown : Grown b.tree b'.tree := hgains.tree
  refine ⟨hgrown.wellFormed h.wellFormed, fun q hq => (h.frame q hq).grown hgrown,
    fun e he => (h.wrappers e (hgains.wrappers ▸ he)).grown hgrown, hdistinct, ?_,
    fun e he => ?_, fun q hq => ?_, fun q hq => ?_, fun q r hr hq => ?_⟩
  · rw [hgains.staticMethods]
    exact h.once.filter _
  · rw [hgains.staticMethods, List.mem_filter, bne_iff_ne] at he
    exact (List.mem_cons.mp (h.within e he.1)).resolve_left he.2
  · exact hgrown.exists_cls (h.registered q (List.mem_cons_of_mem node hq))
  · have hne : q ≠ node := fun heq => hnot (heq ▸ hq)
    have hroles' : b'.tree.staticRoles g q = b.tree.staticRoles g q := hgains.others q hne
    have hbefore := h.unstated q (List.mem_cons_of_mem node hq)
    rw [hroles']
    refine ⟨hbefore.unstated, fun name => (hbefore.mem_iff name).trans ?_⟩
    rw [mem_noted, mem_noted, hgains.staticMethods, List.mem_filter, bne_iff_ne]
    exact (and_iff_left hne).symm
  · by_cases hqn : q = node
    · subst hqn
      rw [hroles]
      exact (h.unstated q List.mem_cons_self).stated (nodup_noted h.once)
    · have hroles' : b'.tree.staticRoles g q = b.tree.staticRoles g q := hgains.others q hqn
      obtain ⟨r', hr'⟩ := hgains.cls q r hr
      rw [hroles']
      exact h.stated q r' hr' (List.not_mem_cons_of_ne_of_not_mem hqn hq)

/-- A class without children needs no statements. -/
theorem settle_of_empty (h : Asking g frames (node :: ongoing) b)
    (hempty : b.tree.staticRoles g node = []) : Asking g frames ongoing b := by
  have hunstated := h.unstated node List.mem_cons_self
  have hnoted : b.noted node = [] := List.eq_nil_iff_forall_not_mem.mpr fun name hname => by
    have hneeds := (hunstated.mem_iff name).mpr hname
    rw [hempty] at hneeds
    cases hneeds
  have hkept : b.staticMethods.filter (·.1 != node) = b.staticMethods := by
    refine List.filter_eq_self.mpr fun e he => bne_iff_ne.mpr fun heq => ?_
    have hmem : e.2 ∈ b.noted node := mem_noted.mpr (heq ▸ he)
    rw [hnoted] at hmem
    cases hmem
  refine h.settle (.of_idle ⟨rfl, rfl, hkept.symm⟩) ?_
  rw [hnoted, List.map_nil, List.append_nil]

end Asking

end Bindery
