import Bindery.Proofs.Binding.Members
import Bindery.Proofs.Binding.References

/-!
# The ledger of a binding

Beside its tree a binding keeps a ledger: the declarations that have been bound, the registrations
and wrapper classes of classes, and what the user is to be told.  Every change of the tree comes
with its entries, and nothing is ever struck out.

## Main definitions

* `CodeTree.Altered` — the registration of a class has been changed, and nothing else.
* `Binder.Site`, `Binder.IsWrapper` — where the registrations of bound declarations stand, and
  where functions stand that are generated for them.
* `BindingSetup.Admitted` — the classes that are registered.
* `BindingSetup.NeedsWrapper` — the reasons for which a class gets a wrapper class.
* `BindingSetup.LedgerStep`, `BindingSetup.LedgerRun` — changes with their entries, and runs.
* `Binder.Kept` — nothing that was there is gone.
* `BindingSetup.Enters`, `BindingSetup.Within` — runs for a place of registrations and for a class.

## Main results

* `kept_of_run` — **nodes and entries stay along a run.**
* `enters_placed` — a declaration is bound with its entry.
* `run_wrapperOf_needed` — a wrapper class is made with its entry, for a reason.
-/

namespace Bindery

open Binding CodeTree

/-! ### Changes of one registration -/

/-- What a node writes when the registration in it, if it is one, is changed. -/
def NodeKind.changeClass (change : ClassNode → ClassNode) : NodeKind → NodeKind
  | .cls c => .cls (change c)
  | kind => kind

namespace CodeTree

variable {t t' : CodeTree} {q : NodeId} {change : ClassNode → ClassNode}

/-- The registration of a class has been changed, and nothing else. -/
structure Altered (t : CodeTree) (q : NodeId) (change : ClassNode → ClassNode) (t' : CodeTree) :
    Prop where
  kind : ∀ n, t'.kind? n =
    if n = q then (t.kind? n).map (NodeKind.changeClass change) else t.kind? n
  decl : t'.decl? = t.decl?
  parent : t'.parent? = t.parent?
  children : t'.children = t.children
  unwritten : t.Unwritten → t'.Unwritten

theorem Altered.still (h : Altered t q change t')
    (hname : ∀ c, (change c).pythonName = c.pythonName) : Still t t' := by
  refine ⟨fun n => ?_, h.decl, h.parent, h.children⟩
  rw [h.kind]
  split
  · cases hk : t.kind? n with
    | none => exact .inl rfl
    | some kind =>
      cases kind with
      | cls c => exact .inr ⟨c, change c, rfl, rfl, hname c⟩
      | _ => exact .inl rfl
  · exact .inl rfl

end CodeTree

theorem Binding.updateClass_ok {node : NodeId} {change : ClassNode → ClassNode} {b b' : Binder}
    {u : PUnit} (h : (updateClass node change).run b = .ok (u, b')) :
    ∃ t, b' = { b with tree := t } ∧ Altered b.tree node change t := by
  obtain ⟨t, ht, rfl⟩ := editTree_ok h
  refine ⟨t, rfl, ?_⟩
  split at ht
  · next c hc =>
    obtain ⟨⟨n, hn⟩, rfl⟩ := replaceKind_eq_ok.mp ht
    refine ⟨fun r => ?_, decl?_replaced _ _ _, parent?_replaced _ _ _, children_replaced _ _ _,
      fun h => h.replaced _ _⟩
    split
    · next hr => rw [hr, kind?_replaced_self hn, hc]; rfl
    · next hr => rw [kind?_replaced_of_ne _ _ (Ne.symm hr)]
  · next hnot =>
    cases ht
    refine ⟨fun r => ?_, rfl, rfl, rfl, id⟩
    split
    · next hr =>
      subst hr
      cases hk : b.tree.kind? r with
      | none => rfl
      | some kind =>
        cases kind with
        | cls c => exact absurd hk (hnot c)
        | _ => rfl
    · rfl

theorem Binding.addHeaders_ok {node : NodeId} : ∀ {headers : List String} {b b' : Binder}
    {u : PUnit}, (addHeaders node headers).run b = .ok (u, b') →
      ∃ t, b' = { b with tree := t } ∧ SameShape b.tree t ∧ (b.tree.Unwritten → t.Unwritten)
  | [], b, _, _, h => by
    obtain ⟨-, rfl⟩ := run_pure_eq_ok.mp h
    exact ⟨b.tree, rfl, ⟨rfl, rfl, rfl, rfl⟩, id⟩
  | header :: headers, b, b', u, h => by
    have hcons : (editTree (·.addHeader node header) >>= fun _ => addHeaders node headers).run b =
      .ok (u, b') := h
    obtain ⟨v, b₁, hfirst, hrest⟩ := run_bind_eq_ok.mp hcons
    obtain ⟨t₁, ht₁, rfl⟩ := editTree_ok hfirst
    obtain ⟨t, rfl, hshape, hunwritten⟩ := addHeaders_ok hrest
    obtain ⟨hshape₁, -, hremembered⟩ := addHeader_ok ht₁
    exact ⟨t, rfl, hshape₁.trans hshape, fun h => hunwritten (h.congr hremembered)⟩

/-! ### Nodes beside the body -/

/-- The node is the body of a module. -/
def NodeKind.isBody : NodeKind → Bool
  | moduleBody _ => true
  | _ => false

namespace CodeTree

variable {t t' : CodeTree}

/-- The children of the root in front of the body. -/
def beforeBody (t : CodeTree) : List NodeId :=
  (t.children root).takeWhile fun c => !(t.kind? c).any NodeKind.isBody

/-- The license and the includes that a module begins with. -/
def preamble (t : CodeTree) : List NodeId :=
  (t.children root).takeWhile fun c => (t.kind? c).any isPreamble

theorem placedAs_of_adoptBeforeBody {kind : NodeKind} {decl : Option DeclId}
    (hkind : ∀ name, kind ≠ .moduleBody name)
    (h : (t.create kind decl).2.adoptBeforeBody t.size = .ok t') :
    ∃ back, PlacedAs t root kind decl t.beforeBody back t' := by
  have hbefore : (t.create kind decl).2.beforeBody = t.beforeBody := by
    unfold beforeBody
    rw [children_create]
    congr 1
    funext c
    rw [kind?_create]
    split
    · -- a new node is no body, and neither is one that is still to come
      next hc =>
      have hnone : t.kind? c = none := by
        rw [hc, kind?, get?_eq_none_iff.mpr (Nat.le_refl _)]
        rfl
      rw [hnone]
      cases kind with
      | moduleBody name => exact absurd rfl (hkind name)
      | _ => rfl
    · rfl
  have htake : (t.children root).take t.beforeBody.length = t.beforeBody :=
    List.prefix_iff_eq_take.mp (List.takeWhile_prefix _) |>.symm
  have hok : (t.create kind decl).2.adoptAt root t.size t.beforeBody.length = .ok t' := by
    rw [← hbefore]
    exact h
  exact ⟨_, htake ▸ placedAs_of_adoptAt hok⟩

/-- A header that is not included yet comes behind the includes that a module begins with. -/
theorem addInclude_ok {header : String} (h : t.addInclude header = (.ok (), t')) :
    header ∈ t.includes ∧ t' = t ∨
      header ∉ t.includes ∧
        ∃ back, PlacedAs t root (.include header) none t.preamble back t' := by
  unfold addInclude at h
  split at h
  · next hmem =>
    cases h
    exact .inl ⟨hmem, rfl⟩
  · next hnot =>
    dsimp only at h
    split at h
    · cases h
    · next hadopt =>
      cases h
      have htake : (t.children root).take t.preamble.length = t.preamble :=
        List.prefix_iff_eq_take.mp (List.takeWhile_prefix _) |>.symm
      exact .inr ⟨hnot, _, htake ▸ placedAs_of_adoptAt hadopt⟩

end CodeTree

/-! ### Sites -/

namespace Binder

/-- A place for registrations: the body of the module, or the registration of a class. -/
def Site (b : Binder) (body p : NodeId) : Prop := p = body ∨ ∃ cls, (cls, p) ∈ b.classNodes

/-- The node is a wrapper class. -/
def IsWrapper (b : Binder) (p : NodeId) : Prop := ∃ cls w, b.wrapper? cls = some w ∧ p = w.node

/-- A node that may have others below it and is not the module itself: a place for registrations, a
wrapper class, or the registration of a container. -/
def Inside (b : Binder) (body p : NodeId) : Prop :=
  b.Site body p ∨ b.IsWrapper p ∨ ∃ r, b.tree.kind? p = some (.cls r)

/-- Nothing is noted but names and what the user is told. -/
structure Aside (b b' : Binder) : Prop where
  tree : b'.tree = b.tree
  classNodes : b'.classNodes = b.classNodes
  wrappers : b'.wrappers = b.wrappers
  exported : b'.exported = b.exported
  diagnostics : b.diagnostics ⊆ b'.diagnostics

instance : IsPreorder Binder Aside where
  refl _ := ⟨rfl, rfl, rfl, rfl, List.Subset.refl _⟩
  trans _ _ _ h h' := ⟨h'.tree.trans h.tree, h'.classNodes.trans h.classNodes,
    h'.wrappers.trans h.wrappers, h'.exported.trans h.exported,
    List.Subset.trans h.diagnostics h'.diagnostics⟩

/-- What was there is there: nodes, registrations and wrapper classes, declarations that have been
bound, and diagnostics. -/
structure Kept (b b' : Binder) : Prop where
  tree : Grown b.tree b'.tree
  classNodes : b.classNodes ⊆ b'.classNodes
  wrapper : ∀ cls w, b.wrapper? cls = some w → b'.wrapper? cls = some w
  exported : b.exported ⊆ b'.exported
  diagnostics : b.diagnostics ⊆ b'.diagnostics

instance : IsPreorder Binder Kept where
  refl b := ⟨Grown.refl b.tree, List.Subset.refl _, fun _ _ => id, List.Subset.refl _,
    List.Subset.refl _⟩
  trans _ _ _ h h' := ⟨h.tree.trans h'.tree, List.Subset.trans h.classNodes h'.classNodes,
    fun cls w hw => h'.wrapper cls w (h.wrapper cls w hw),
    List.Subset.trans h.exported h'.exported, List.Subset.trans h.diagnostics h'.diagnostics⟩

variable {b b' : Binder} {body p : NodeId} {cls : DeclId}

theorem Kept.of_tree {t : CodeTree} (h : Grown b.tree t) : Kept b { b with tree := t } :=
  { refl_of Kept b with tree := h }

theorem Kept.of_aside (h : Aside b b') : Kept b b' where
  tree := by
    rw [h.tree]
    exact Grown.refl b.tree
  classNodes := h.classNodes ▸ List.Subset.refl _
  wrapper cls w hw := by
    unfold wrapper? at hw ⊢
    rw [h.wrappers, hw]
  exported := h.exported ▸ List.Subset.refl _
  diagnostics := h.diagnostics

theorem Site.kept (h : b.Site body p) (hkept : Kept b b') : b'.Site body p :=
  h.imp_right fun ⟨cls, hcls⟩ => ⟨cls, hkept.classNodes hcls⟩

theorem IsWrapper.kept (h : b.IsWrapper p) (hkept : Kept b b') : b'.IsWrapper p := by
  obtain ⟨cls, w, hw, rfl⟩ := h
  exact ⟨cls, w, hkept.wrapper cls w hw, rfl⟩

theorem mem_classNodes_of_classNode? {node : NodeId} (h : b.classNode? cls = some node) :
    (cls, node) ∈ b.classNodes := by
  obtain ⟨front, back, heq, -⟩ := List.lookup_eq_some_iff.mp h
  rw [heq]
  exact List.mem_append_right _ List.mem_cons_self

theorem exists_classNode? {node : NodeId} (h : (cls, node) ∈ b.classNodes) :
    ∃ n, b.classNode? cls = some n := by
  refine Option.ne_none_iff_exists'.mp fun hnone => ?_
  have hne := List.lookup_eq_none_iff.mp hnone _ h
  simp at hne

theorem wrapper?_cons_self {w : WrapperClass} {t : CodeTree} :
    wrapper? { b with tree := t, wrappers := (cls, w) :: b.wrappers } cls = some w :=
  List.lookup_cons_self

theorem wrapper?_cons_of_ne {c : DeclId} {w : WrapperClass} {t : CodeTree} (h : c ≠ cls) :
    wrapper? { b with tree := t, wrappers := (cls, w) :: b.wrappers } c = b.wrapper? c := by
  unfold wrapper?
  rw [List.lookup_cons, beq_eq_false_iff_ne.mpr h]

end Binder

open Binder

/-! ### Classes and their wrapper classes -/

/-- The function is bound through the wrapper class of the class that it is bound for: it is not
public, or virtual, or transformed. -/
def DeclGraph.BoundInWrapper (g : DeclGraph) (id : DeclId) : Prop :=
  ∃ d c, g.get? id = some d ∧ d.kind = .callable c ∧
    (d.access ≠ .pub ∨ c.virtuality.isVirtual ∨ d.config.transformers ≠ [])

namespace BindingSetup

/-- The member is bound with the class: it comes into question and takes part in the module. -/
structure BindsMember (s : BindingSetup) (cls m : DeclId) : Prop where
  member : m ∈ s.graph.members cls
  candidate : ∃ d, s.graph.get? m = some d ∧ s.graph.isCandidate m d.access
  exportable : s.isExportable m = .ok true

theorem mem_boundMembers_iff {s : BindingSetup} {cls m : DeclId} {members : List DeclId}
    (h : s.boundMembers cls = .ok members) : m ∈ members ↔ s.BindsMember cls m :=
  (mem_boundMembers h).trans ⟨fun ⟨hm, hd, hok⟩ => ⟨hm, hd, hok⟩,
    fun h => ⟨h.member, h.candidate, h.exportable⟩⟩

/-- What is bound with the declarations of a list: those that take part in the module, and the
members that are bound with classes among them. -/
inductive Admitted (s : BindingSetup) (ids : List DeclId) : DeclId → Prop
  | module {id : DeclId} : id ∈ ids → s.isExportable id = .ok true → Admitted s ids id
  | member {cls m : DeclId} : Admitted s ids cls → s.graph.isClass cls → s.BindsMember cls m →
      Admitted s ids m

/-- A reason for a class to have a wrapper class: the user puts code into it, a variable is reached
through accessors, a function is bound through it, or a function of a base is bound again. -/
inductive NeedsWrapper (s : BindingSetup) (cls : DeclId) : Prop
  | code : (s.graph.config cls).wrapperCode ≠ [] → NeedsWrapper s cls
  | variable {m : DeclId} {v : VariableDecl} : s.BindsMember cls m →
      s.graph.kind? m = some (.variable v) → (v.bits.isSome ∨ s.pointsToClass v) →
      NeedsWrapper s cls
  | method {m : DeclId} : s.BindsMember cls m → s.graph.isMethod m → s.graph.BoundInWrapper m →
      NeedsWrapper s cls
  | inherited {found : List DeclId} : s.inheritedMethods cls = .ok found → found ≠ [] →
      NeedsWrapper s cls

/-! ### Steps -/

/-- A change of the tree with its entries in the ledger, where the declarations `ids` are bound in
a module with the given body. -/
inductive LedgerStep (s : BindingSetup) (ids : List DeclId) (body : NodeId) : Binder → Binder → Prop
  | aside {b b' : Binder} : Aside b b' → LedgerStep s ids body b b'
  | alike {b : Binder} {t : CodeTree} : SameShape b.tree t → (b.tree.Unwritten → t.Unwritten) →
      LedgerStep s ids body b { b with tree := t }
  /-- A node without an entry refers to nothing, and is about no declaration or one that has been
  bound, or stands in a wrapper class. -/
  | place {b : Binder} {t : CodeTree} {p : NodeId} {kind : NodeKind} {decl : Option DeclId}
      {front back : List NodeId} : PlacedAs b.tree p kind decl front back t → kind.Quiet →
      b.Inside body p → (∀ id, decl = some id → id ∈ b.exported ∨ b.IsWrapper p) →
      LedgerStep s ids body b { b with tree := t }
  | adapter {b : Binder} {t : CodeTree} {a : TransformedNode} {id : DeclId} {back : List NodeId} :
      PlacedAs b.tree root (.transformed a) (some id) b.tree.beforeBody back t →
      LedgerStep s ids body b { b with tree := t }
  | header {b : Binder} {t : CodeTree} {header : String} {back : List NodeId} :
      PlacedAs b.tree root (.include header) none b.tree.preamble back t →
      header ∉ b.tree.includes → LedgerStep s ids body b { b with tree := t }
  | enter {b : Binder} {t : CodeTree} {p : NodeId} {kind : NodeKind} {id : DeclId}
      {front back : List NodeId} : PlacedAs b.tree p kind (some id) front back t →
      ¬ kind.isCompound → (∀ r ∈ kind.references, b.Grounded body p id r) → b.Site body p →
      ¬ s.graph.isClass id →
      LedgerStep s ids body b { b with tree := t, exported := b.exported ++ [id] }
  | container {b : Binder} {t : CodeTree} {r : ClassNode} {id : DeclId}
      {front back : List NodeId} : PlacedAs b.tree body (.cls r) (some id) front back t →
      s.graph.isStd id → r.bases = [] → r.exposer = s.exposerName id →
      LedgerStep s ids body b { b with tree := t, exported := b.exported ++ [id] }
  | register {b : Binder} {t : CodeTree} {p : NodeId} {r : ClassNode} {cls : DeclId}
      {c : ClassDecl} {front back : List NodeId} :
      PlacedAs b.tree p (.cls r) (some cls) front back t → b.Site body p →
      s.Admitted ids cls → s.graph.kind? cls = some (.cls c) → s.boundBases c = .ok r.bases →
      r.wrapper = none → r.exposer = s.exposerName cls →
      LedgerStep s ids body b { b with
        tree := t
        classNodes := (cls, b.tree.size) :: b.classNodes
        exported := b.exported ++ [cls] }
  | noInit {b : Binder} {t : CodeTree} {node : NodeId} {noInit : Bool} :
      Altered b.tree node (fun r => { r with noInit }) t →
      LedgerStep s ids body b { b with tree := t }
  | wrap {b : Binder} {t t' : CodeTree} {cls : DeclId} {node : NodeId} {back : List NodeId} :
      s.NeedsWrapper cls → b.wrapper? cls = none →
      PlacedAs b.tree root
        (.wrapper ⟨s.wrapperName cls, s.wrapperName cls, s.graph.fullName cls⟩) (some cls)
        b.tree.beforeBody back t →
      b.classNode? cls = some node →
      Altered t node (fun r => { r with wrapper := some (s.wrapperName cls) }) t' →
      LedgerStep s ids body b { b with
        tree := t'
        wrappers := (cls, ⟨b.tree.size, s.wrapperName cls⟩) :: b.wrappers }

/-- A run of such changes. -/
def LedgerRun (s : BindingSetup) (ids : List DeclId) (body : NodeId) : Binder → Binder → Prop :=
  Relation.ReflTransGen (s.LedgerStep ids body)

variable {s : BindingSetup} {ids : List DeclId} {body p node : NodeId} {b b' b'' : Binder}
  {cls id : DeclId}

instance : IsPreorder Binder (s.LedgerRun ids body) :=
  inferInstanceAs (IsPreorder Binder (Relation.ReflTransGen _))

theorem LedgerStep.run (h : s.LedgerStep ids body b b') : s.LedgerRun ids body b b' := .single h

theorem LedgerRun.trans (h : s.LedgerRun ids body b b') (h' : s.LedgerRun ids body b' b'') :
    s.LedgerRun ids body b b'' := Relation.ReflTransGen.trans h h'

theorem LedgerRun.of_aside (h : Aside b b') : s.LedgerRun ids body b b' := (LedgerStep.aside h).run

/-- A step leaves what was there. -/
theorem kept_of_step (h : s.LedgerStep ids body b b') : Kept b b' := by
  cases h with
  | aside h => exact .of_aside h
  | alike h _ => exact .of_tree (Grown.of_still (Still.of_shape h))
  | place h | adapter h | header h => exact .of_tree h.grown
  | enter h | container h =>
    exact { Kept.of_tree h.grown with exported := List.subset_append_left _ _ }
  | register h =>
    exact { Kept.of_tree h.grown with
      classNodes := List.subset_cons_self _ _
      exported := List.subset_append_left _ _ }
  | noInit h => exact .of_tree (Grown.of_still (h.still fun _ => rfl))
  | @wrap _ _ cls _ _ _ hnone h _ haltered =>
    refine { Kept.of_tree (h.grown.trans (Grown.of_still (haltered.still fun _ => rfl))) with
      wrapper := fun c w hw => ?_ }
    have hne : c ≠ cls := by
      rintro rfl
      rw [hnone] at hw
      cases hw
    rwa [wrapper?_cons_of_ne hne]

/-- **Nodes and entries stay along a run.** -/
theorem kept_of_run (h : s.LedgerRun ids body b b') : Kept b b' := by
  induction h with
  | refl => exact refl_of Kept b
  | tail _ hstep ih => exact trans_of Kept ih (kept_of_step hstep)

/-! ### Runs that depend on what is there -/

/-- What holds of a state holds as long as everything that is there stays. -/
class Lasting (P : Binder → Prop) : Prop where
  kept : ∀ {b b'}, Kept b b' → P b → P b'

instance : Lasting fun b => b.Site body p := ⟨fun h hsite => hsite.kept h⟩

instance : Lasting fun b => b.IsWrapper p := ⟨fun h hwrapper => hwrapper.kept h⟩

instance : Lasting fun b => (cls, node) ∈ b.classNodes := ⟨fun h hnode => h.classNodes hnode⟩

/-- A run, if there is what it depends on. -/
def RunFrom (s : BindingSetup) (ids : List DeclId) (body : NodeId) (P : Binder → Prop)
    (b b' : Binder) : Prop := P b → s.LedgerRun ids body b b'

/-- A run, if the node is a place for registrations. -/
abbrev Enters (s : BindingSetup) (ids : List DeclId) (body node : NodeId) :
    Binder → Binder → Prop := s.RunFrom ids body fun b => b.Site body node

/-- A run, if the node is the registration of the class. -/
abbrev Within (s : BindingSetup) (ids : List DeclId) (body : NodeId) (cls : DeclId)
    (node : NodeId) : Binder → Binder → Prop :=
  s.RunFrom ids body fun b => (cls, node) ∈ b.classNodes

variable {P : Binder → Prop} {α : Type} {m : Binding α}

instance [Lasting P] : IsPreorder Binder (s.RunFrom ids body P) where
  refl b _ := refl_of (s.LedgerRun ids body) b
  trans _ _ _ h h' hP := (h hP).trans (h' (Lasting.kept (kept_of_run (h hP)) hP))

theorem moves_of_aside (h : Moves Aside m) : Moves (s.RunFrom ids body P) m :=
  fun b a b' hrun _ => .of_aside (h b a b' hrun)

/-- Each run of a loop starts with what the loop depends on, and what it leaves is kept. -/
theorem exists_kept_of_forM [Lasting P] {f : α → Binding PUnit} {l : List α} {a : α} {u : PUnit}
    (h : ∀ a ∈ l, Moves (s.RunFrom ids body P) (f a)) (hrun : (l.forM f).run b = .ok (u, b'))
    (hP : P b) (ha : a ∈ l) : ∃ b₁ b₂ v, P b₁ ∧ (f a).run b₁ = .ok (v, b₂) ∧ Kept b₂ b' := by
  obtain ⟨b₁, b₂, v, hbefore, hrun, hafter⟩ := exists_run_of_forM h hrun ha
  have hP₁ : P b₁ := Lasting.kept (kept_of_run (hbefore hP)) hP
  have hP₂ : P b₂ := Lasting.kept (kept_of_run (h a ha _ _ _ hrun hP₁)) hP₁
  exact ⟨b₁, b₂, v, hP₁, hrun, kept_of_run (hafter hP₂)⟩

theorem within_of_enters (h : Moves (s.Enters ids body node) m) :
    Moves (s.Within ids body cls node) m :=
  fun b a b' hrun hnode => h b a b' hrun (.inr ⟨cls, hnode⟩)

end BindingSetup

/-! ### What is noted aside -/

namespace Binding

theorem aside_identifier (name : String) : Moves Aside (identifier name) := by
  intro b mangled b' h
  obtain ⟨-, rfl⟩ := BindingSetup.run_identifier h
  exact ⟨rfl, rfl, rfl, rfl, List.Subset.refl _⟩

theorem aside_freshIn (scope wanted : String) : Moves Aside (freshIn scope wanted) := by
  intro b name b' h
  obtain rfl := (Prod.mk.inj (run_modifyGet_eq_ok.mp h)).2
  exact ⟨rfl, rfl, rfl, rfl, List.Subset.refl _⟩

theorem aside_requestStatic (node : NodeId) (pythonName : String) :
    Moves Aside (requestStatic node pythonName) := by
  intro b u b' h
  obtain rfl := run_modify_eq_ok.mp h
  split <;> exact ⟨rfl, rfl, rfl, rfl, List.Subset.refl _⟩

theorem aside_takeStatic (node : NodeId) : Moves Aside (takeStatic node) := by
  intro b names b' h
  obtain rfl := (Prod.mk.inj (run_modifyGet_eq_ok.mp h)).2
  exact ⟨rfl, rfl, rfl, rfl, List.Subset.refl _⟩

end Binding

namespace BindingSetup

variable {s : BindingSetup} {ids : List DeclId} {body p node : NodeId} {b b' b'' : Binder}
  {cls id : DeclId}

theorem aside_warn (s : BindingSetup) (id : DeclId) (message : String) :
    Moves Aside (s.warn id message) := by
  intro b u b' h
  obtain rfl := run_modify_eq_ok.mp h
  exact ⟨rfl, rfl, rfl, rfl, List.subset_append_left _ _⟩

theorem aside_pythonName (s : BindingSetup) (id : DeclId) : Moves Aside (s.pythonName id) := by
  unfold pythonName
  refine (Moves.lift_missing _).bind fun name => ?_
  split
  · exact Moves.pure name
  · exact aside_identifier name

theorem aside_exposer (s : BindingSetup) (cls : DeclId) : Moves Aside (s.exposer cls) :=
  aside_identifier _

theorem aside_methodAlias (s : BindingSetup) (id : DeclId) (c : Callable) :
    Moves Aside (s.methodAlias id c) := by
  unfold methodAlias
  split
  · exact Moves.pure _
  · exact s.aside_pythonName id

theorem aside_method (s : BindingSetup) (cls id : DeclId) (d : Declaration) (c : Callable) :
    Moves Aside (s.method cls id d c) := by
  unfold method
  exact (s.aside_methodAlias id c).bind fun _ => Moves.pure _

/-- The registration of a class names its bases, and no wrapper class yet; its variables are called
after the identifier of the class. -/
theorem classNode_fields {c : ClassDecl} {r : ClassNode}
    (h : (s.classNode cls c).run b = .ok (r, b')) :
    Aside b b' ∧ s.boundBases c = .ok r.bases ∧ r.wrapper = none ∧
      r.exposer = s.exposerName cls := by
  unfold classNode at h
  obtain ⟨bases, b₁, hbases, h⟩ := run_bind_eq_ok.mp h
  obtain ⟨hok, rfl⟩ := run_lift_missing_eq_ok.mp hbases
  obtain ⟨pythonName, b₁, hname, h⟩ := run_bind_eq_ok.mp h
  obtain ⟨exposer, b₂, hexposer, h⟩ := run_bind_eq_ok.mp h
  obtain ⟨noncopyable, b₃, hcopy, h⟩ := run_bind_eq_ok.mp h
  obtain ⟨-, rfl⟩ := run_lift_missing_eq_ok.mp hcopy
  obtain ⟨rfl, rfl⟩ := run_pure_eq_ok.mp h
  exact ⟨trans_of Aside (s.aside_pythonName _ _ _ _ hname) (s.aside_exposer _ _ _ _ hexposer),
    hok, rfl, (run_identifier hexposer).1⟩

/-! ### Nodes with their entries -/

variable {kind : NodeKind}

/-- A declaration is bound: its registration is placed, and then comes its entry. -/
theorem run_entered {t : CodeTree} {front back : List NodeId} {u : PUnit}
    (hplaced : PlacedAs b.tree p kind (some id) front back t) (hkind : ¬ kind.isCompound)
    (hgrounded : ∀ r ∈ kind.references, b.Grounded body p id r)
    (hsite : b.Site body p) (hclass : ¬ s.graph.isClass id)
    (haside : Aside { b with tree := t } b') (h : (markExported id).run b' = .ok (u, b'')) :
    s.LedgerRun ids body b b'' := by
  refine (LedgerStep.enter hplaced hkind hgrounded hsite hclass).run.trans (.of_aside ?_)
  obtain rfl := run_modify_eq_ok.mp h
  exact ⟨haside.tree, haside.classNodes, haside.wrappers,
    congrArg (· ++ [id]) haside.exported, haside.diagnostics⟩

/-- Where nothing is referred to, all of it is there. -/
theorem grounded_of_quiet (h : kind.Quiet) :
    ∀ r ∈ kind.references, b.Grounded body p id r := by
  rw [h.silent]
  exact fun r hr => absurd hr List.not_mem_nil

theorem enters_placed (hkind : kind.Quiet) (hclass : ¬ s.graph.isClass id) :
    Moves (s.Enters ids body node) (place node kind (some id) >>= fun _ => markExported id) := by
  intro b u b' h hsite
  obtain ⟨n, b₁, hplace, h⟩ := run_bind_eq_ok.mp h
  obtain ⟨rfl, t, ht, rfl⟩ := place_ok hplace
  exact run_entered (placedAs_of_adopt ht) hkind.leaf (grounded_of_quiet hkind) hsite hclass
    (refl_of Aside _) h

/-- A node is placed for a declaration that has been bound, or in a wrapper class. -/
theorem run_place_bound {decl : Option DeclId} {n : NodeId} (ids : List DeclId) (body : NodeId)
    (h : (place p kind decl).run b = .ok (n, b')) (hkind : kind.Quiet)
    (hinside : b.Inside body p)
    (hdecl : ∀ id, decl = some id → id ∈ b.exported ∨ b.IsWrapper p) :
    s.LedgerRun ids body b b' := by
  obtain ⟨rfl, t, ht, rfl⟩ := place_ok h
  exact (LedgerStep.place (placedAs_of_adopt ht) hkind hinside hdecl).run

theorem run_placeAt_bound {position : Nat} {decl : Option DeclId} {n : NodeId} (ids : List DeclId)
    (body : NodeId) (h : (placeAt p position kind decl).run b = .ok (n, b'))
    (hkind : kind.Quiet) (hinside : b.Inside body p)
    (hdecl : ∀ id, decl = some id → id ∈ b.exported ∨ b.IsWrapper p) :
    s.LedgerRun ids body b b' := by
  obtain ⟨rfl, t, ht, rfl⟩ := placeAt_ok h
  exact (LedgerStep.place (placedAs_of_adoptAt ht) hkind hinside hdecl).run

/-- A node is placed in a wrapper class. -/
theorem run_place_wrapper {w : WrapperClass} {n : NodeId} (ids : List DeclId) (body : NodeId)
    (h : (place w.node kind (some id)).run b = .ok (n, b')) (hkind : kind.Quiet)
    (hw : b.wrapper? cls = some w) :
    s.LedgerRun ids body b b' ∧ n ∈ b'.tree.children w.node ∧ b'.tree.decl? n = some id ∧
      b'.tree.kind? n = some kind := by
  have hwrapper : b.IsWrapper w.node := ⟨cls, w, hw, rfl⟩
  refine ⟨run_place_bound ids body h hkind (.inr (.inl hwrapper)) fun _ _ => .inr hwrapper, ?_⟩
  obtain ⟨rfl, t, ht, rfl⟩ := place_ok h
  have hplaced := placedAs_of_adopt ht
  refine ⟨?_, (hplaced.decls _).trans (if_pos rfl), (hplaced.kinds _).trans (if_pos rfl)⟩
  show b.tree.size ∈ t.children w.node
  rw [hplaced.after]
  exact List.mem_append_right _ List.mem_cons_self

variable {P : Binder → Prop}

/-- A node is placed for no declaration. -/
theorem moves_place_none (hkind : kind.Quiet) (hinside : ∀ b, P b → b.Inside body p) :
    Moves (s.RunFrom ids body P) (place p kind none) :=
  fun _ _ _ h hP => run_place_bound ids body h hkind (hinside _ hP) fun _ hid => (nomatch hid)

theorem moves_addHeaders_noted (headers : List String) :
    Moves (s.RunFrom ids body P) (addHeaders p headers) := by
  intro b u b' h _
  obtain ⟨t, rfl, hshape, hunwritten⟩ := addHeaders_ok h
  exact (LedgerStep.alike hshape hunwritten).run

/-- A wrapper class that is asked for, for a reason, is there with its entry. -/
theorem run_wrapperOf_needed {w : WrapperClass} (ids : List DeclId) (body : NodeId)
    (h : (s.wrapperOf cls).run b = .ok (w, b')) (hneeds : s.NeedsWrapper cls)
    (hnode : (cls, node) ∈ b.classNodes) :
    s.LedgerRun ids body b b' ∧ b'.wrapper? cls = some w := by
  unfold wrapperOf at h
  obtain ⟨b₁, b₂, hget, h⟩ := run_bind_eq_ok.mp h
  obtain ⟨rfl, rfl⟩ := run_get_eq_ok.mp hget
  split at h
  · next w' hw =>
    obtain ⟨rfl, rfl⟩ := run_pure_eq_ok.mp h
    exact ⟨refl_of (s.LedgerRun ids body) _, hw⟩
  · next hnone =>
    obtain ⟨exposer, b₁, hexposer, h⟩ := run_bind_eq_ok.mp h
    obtain ⟨hname, rfl⟩ := run_identifier hexposer
    replace hname : exposer ++ "_wrapper" = s.wrapperName cls := congrArg (· ++ "_wrapper") hname
    rw [hname] at h
    obtain ⟨node', b₂, hplace, h⟩ := run_bind_eq_ok.mp h
    obtain ⟨b₃, b₄, hget, h⟩ := run_bind_eq_ok.mp h
    obtain ⟨rfl, rfl⟩ := run_get_eq_ok.mp hget
    obtain ⟨rfl, t, ht, rfl⟩ := placeBeforeBody_ok hplace
    obtain ⟨back, hplaced⟩ := placedAs_of_adoptBeforeBody (by rintro _ ⟨⟩) ht
    obtain ⟨registration, hregistration⟩ := exists_classNode? hnode
    have hexposed : s.LedgerRun ids body b { b with mangler := b.mangler.add _ } :=
      .of_aside (s.aside_exposer cls _ _ _ hexposer)
    -- the class has been noted, so that its registration is told of the wrapper class
    dsimp only at h
    split at h
    · next registration' hregistration' =>
      obtain ⟨u, b₃, hupdate, h⟩ := run_bind_eq_ok.mp h
      obtain ⟨t', rfl, haltered⟩ := updateClass_ok hupdate
      obtain ⟨u, b₄, hmodify, h⟩ := run_bind_eq_ok.mp h
      obtain rfl := run_modify_eq_ok.mp hmodify
      obtain ⟨rfl, rfl⟩ := run_pure_eq_ok.mp h
      exact ⟨hexposed.tail (.wrap hneeds hnone hplaced hregistration' haltered),
        List.lookup_cons_self⟩
    · next hnot =>
      exact absurd hregistration (hnot registration)

end BindingSetup

end Bindery
