import Bindery.Proofs.Analysis.Answers
import Bindery.Proofs.Binding.Members
import Bindery.Proofs.Binding.Room

/-!
# Bindings that stop for one reason only

A binding works on a tree in which there is room below the module, below the registrations of
classes and below their wrapper classes.  As long as this holds no edit of the tree is refused, and
in a graph whose ids exist no question is left open, so that only the transformers of a function can
bring a binding to a stop.

## Main definitions

* `DeclGraph.TransformersFail` — the transformers of some function cannot be applied.
* `Binder.Ready` — there is room wherever nodes are put.
* `Binding.Safe g m b Q` — `m` keeps the room there is at `b` and establishes `Q`, or stops because
  transformers fail.

## Main results

* `Safe.bind`, `Safe.forM`, `Safe.foldlM` — compositions.
* `safe_place`, `safe_placeAt`, `safe_placeBeforeBody`, `safe_wrapperOf` — single steps.
-/

namespace Bindery

/-- The transformers of some function, which is no constructor, destructor or conversion, cannot be
applied to it for the given reason. -/
def DeclGraph.TransformersFail (g : DeclGraph) (e : TransformError) : Prop :=
  ∃ id c, g.callable? id = some c ∧ c.isMethod ∧ (g.config id).transformers ≠ [] ∧
    Transformation.ofSpecs (g.fullName id) c (g.config id).transformers = .error e

namespace Binder

/-- The tree has room wherever nodes are going to be put, and no diagnostic is an error. -/
structure Ready (b : Binder) : Prop where
  wellFormed : b.tree.WellFormed
  root : b.tree.hasChildList CodeTree.root
  wrapper : ∀ cls w, b.wrapper? cls = some w → b.tree.hasChildList w.node
  classNode : ∀ cls node, b.classNode? cls = some node → b.tree.hasChildList node
  warned : ∀ d ∈ b.diagnostics, d.severity ≠ .error

private theorem of_lookup_cons {α : Type} {k k' : DeclId} {v v' : α} {l : List (DeclId × α)}
    (h : ((k, v) :: l).lookup k' = some v') : v' = v ∨ l.lookup k' = some v' := by
  rw [List.lookup_cons] at h
  split at h
  · exact .inl (Option.some.inj h).symm
  · exact .inr h

/-- A wrapper class with room may be noted. -/
theorem Ready.note_wrapper {b : Binder} (hb : b.Ready) {w : WrapperClass}
    (hw : b.tree.hasChildList w.node) (cls : DeclId) :
    Ready { b with wrappers := (cls, w) :: b.wrappers } :=
  { hb with
    wrapper := fun c v hv => (of_lookup_cons hv).elim (fun heq => heq ▸ hw) (hb.wrapper c v) }

/-- A registration with room may be noted. -/
theorem Ready.note_classNode {b : Binder} (hb : b.Ready) {node : NodeId}
    (hnode : b.tree.hasChildList node) (cls : DeclId) :
    Ready { b with classNodes := (cls, node) :: b.classNodes } :=
  { hb with
    classNode := fun c n hn =>
      (of_lookup_cons hn).elim (fun heq => heq ▸ hnode) (hb.classNode c n) }

/-- All is ready, and there is no less room than there was. -/
structure Onward (b b' : Binder) : Prop where
  ready : b'.Ready
  roomier : b.tree.Roomier b'.tree

theorem Ready.onward {b : Binder} (hb : b.Ready) : Onward b b := ⟨hb, .refl hb.wellFormed⟩

namespace Onward

variable {b b' b'' : Binder} {node : NodeId}

theorem trans (h : Onward b b') (h' : Onward b' b'') : Onward b b'' :=
  ⟨h'.ready, h.roomier.trans h'.roomier⟩

theorem room (h : Onward b b') (hnode : b.tree.hasChildList node) : b'.tree.hasChildList node :=
  h.roomier.room node hnode

theorem lt_size (h : Onward b b') (hnode : node < b.tree.size) : node < b'.tree.size :=
  hnode.trans_le h.roomier.size

/-- A tree with as much room can take the place of another. -/
theorem of_tree {t : CodeTree} (hb : b.Ready) (h : b.tree.Roomier t) :
    Onward b { b with tree := t } where
  ready := {
    wellFormed := h.wellFormed
    root := h.room _ hb.root
    wrapper := fun cls w hw => h.room _ (hb.wrapper cls w hw)
    classNode := fun cls node hnode => h.room _ (hb.classNode cls node hnode)
    warned := hb.warned }
  roomier := h

end Onward

/-- The node has come, with room of its own if it may have children, and `parent` has one child
more. -/
structure Gains (b : Binder) (parent : NodeId) (kind : NodeKind) (node : NodeId) (b' : Binder) :
    Prop where
  present : node < b'.tree.size
  room : kind.isCompound → b'.tree.hasChildList node
  child : (b.tree.children parent).length < (b'.tree.children parent).length

end Binder

namespace Binding

open Binder

variable {α β : Type} {g : DeclGraph} {b : Binder} {Q : α → Binder → Prop}
  {R : β → Binder → Prop}

/-- A run from the given state leads on to one with as much room, and what is wanted holds there;
if it stops, then because transformers fail. -/
def Safe (g : DeclGraph) (m : Binding α) (b : Binder) (Q : α → Binder → Prop) : Prop :=
  match m.run b with
  | .ok (a, b') => Onward b b' ∧ Q a b'
  | .error e => ∃ err, e = .transform err ∧ g.TransformersFail err

/-! ### Composition -/

namespace Safe

theorem of_run {m : Binding α} {a : α} {b' : Binder} (hrun : m.run b = .ok (a, b'))
    (h : Onward b b') (hQ : Q a b') : Safe g m b Q := by
  unfold Safe
  rw [hrun]
  exact ⟨h, hQ⟩

theorem pure {a : α} (hb : b.Ready) (hQ : Q a b) : Safe g (Pure.pure a) b Q :=
  of_run rfl hb.onward hQ

theorem bind {m : Binding α} {f : α → Binding β} (hm : Safe g m b Q)
    (hf : ∀ a b', Onward b b' → Q a b' → Safe g (f a) b' R) : Safe g (m >>= f) b R := by
  unfold Safe at hm ⊢
  rw [StateT.run_bind]
  cases hrun : m.run b with
  | error e =>
    rw [hrun] at hm
    exact hm
  | ok p =>
    obtain ⟨a, b'⟩ := p
    rw [hrun] at hm
    obtain ⟨hstep, hQ⟩ := hm
    have hrest := hf a b' hstep hQ
    unfold Safe at hrest
    show match (f a).run b' with
      | .ok (c, b'') => Onward b b'' ∧ R c b''
      | .error e => _
    cases hrun' : (f a).run b' with
    | error e =>
      rw [hrun'] at hrest
      exact hrest
    | ok p =>
      obtain ⟨c, b''⟩ := p
      rw [hrun'] at hrest
      exact ⟨hstep.trans hrest.1, hrest.2⟩

theorem mono {m : Binding α} {Q' : α → Binder → Prop} (hm : Safe g m b Q)
    (h : ∀ a b', Onward b b' → Q a b' → Q' a b') : Safe g m b Q' := by
  unfold Safe at hm ⊢
  cases hrun : m.run b with
  | error e =>
    rw [hrun] at hm
    exact hm
  | ok p =>
    rw [hrun] at hm
    exact ⟨hm.1, h _ _ hm.1 hm.2⟩

/-- What is looked at is the state of the binding. -/
theorem get_bind {f : Binder → Binding β} (h : Safe g (f b) b R) :
    Safe g (get >>= f : Binding β) b R := h

theorem modify {f : Binder → Binder} {Q : PUnit → Binder → Prop} (hf : Onward b (f b))
    (hQ : Q () (f b)) : Safe g (modify f : Binding PUnit) b Q := of_run rfl hf hQ

theorem modifyGet {f : Binder → α × Binder} (hf : Onward b (f b).2) (hQ : Q (f b).1 (f b).2) :
    Safe g (modifyGet f : Binding α) b Q := of_run rfl hf hQ

/-- A question that is answered. -/
theorem lift_missing {x : Except MissingDecl α} (hb : b.Ready) (hx : ∃ a, x = .ok a) :
    Safe g (liftM x : Binding α) b fun a _ => x = .ok a := by
  obtain ⟨a, ha⟩ := hx
  exact of_run (run_lift_missing_eq_ok.mpr ⟨ha, rfl⟩) hb.onward ha

theorem lift_transform {x : Except TransformError α} (hb : b.Ready)
    (hx : ∀ e, x = .error e → g.TransformersFail e) :
    Safe g (liftM x : Binding α) b fun _ _ => True := by
  cases x with
  | ok a => exact of_run (a := a) rfl hb.onward trivial
  | error e => exact ⟨e, rfl, hx e rfl⟩

/-- Each round of a loop finds as much room as there was in the beginning, and what the rounds
before it have established. -/
theorem foldlM {f : β → α → Binding β} : ∀ {l : List α} {x : β} {b : Binder}, b.Ready → R x b →
    (∀ x, ∀ a ∈ l, ∀ b', Onward b b' → R x b' → Safe g (f x a) b' R) → Safe g (l.foldlM f x) b R
  | [], _, _, hb, hR, _ => Safe.pure hb hR
  | a :: l, x, b, hb, hR, h => by
    rw [List.foldlM_cons]
    refine (h x a List.mem_cons_self b hb.onward hR).bind fun y b₁ h₁ hy => ?_
    exact foldlM h₁.ready hy fun z c hc b' hb' =>
      h z c (List.mem_cons_of_mem a hc) b' (h₁.trans hb')

theorem forM {f : α → Binding PUnit} : ∀ {l : List α} {b : Binder}, b.Ready →
    (∀ a ∈ l, ∀ b', Onward b b' → Safe g (f a) b' fun _ _ => True) →
      Safe g (l.forM f) b fun _ _ => True
  | [], _, hb, _ => Safe.pure hb trivial
  | a :: l, b, hb, h => by
    show Safe g (f a >>= fun _ => l.forM f) b _
    refine (h a List.mem_cons_self b hb.onward).bind fun _ b₁ h₁ _ => ?_
    exact forM h₁.ready fun c hc b' hb' => h c (List.mem_cons_of_mem a hc) b' (h₁.trans hb')

/-- A loop that counts its rounds. -/
theorem forM_zipIdx {f : α × Nat → Binding PUnit} {P : Nat → Binder → Prop} : ∀ {l : List α}
    {k : Nat} {b : Binder}, b.Ready → P k b →
    (∀ a i b', a ∈ l → Onward b b' → P i b' → Safe g (f (a, i)) b' fun _ => P (i + 1)) →
      Safe g ((l.zipIdx k).forM f) b fun _ _ => True
  | [], _, _, hb, _, _ => Safe.pure hb trivial
  | a :: l, k, b, hb, hP, h => by
    show Safe g (f (a, k) >>= fun _ => (l.zipIdx (k + 1)).forM f) b _
    refine (h a k b List.mem_cons_self hb.onward hP).bind fun _ b₁ h₁ hP₁ => ?_
    exact forM_zipIdx h₁.ready hP₁ fun c i b' hc hb' =>
      h c i b' (List.mem_cons_of_mem a hc) (h₁.trans hb')

theorem forIn {f : α → PUnit → Binding (ForInStep PUnit)} : ∀ {l : List α} {b : Binder}, b.Ready →
    (∀ a ∈ l, ∀ u b', Onward b b' → Safe g (f a u) b' fun _ _ => True) →
      ∀ u, Safe g (forIn l u f) b fun _ _ => True
  | [], b, hb, _, u => by
    rw [List.forIn_nil]
    exact Safe.pure hb trivial
  | a :: l, b, hb, h, u => by
    rw [List.forIn_cons]
    refine (h a List.mem_cons_self u b hb.onward).bind fun r b₁ h₁ _ => ?_
    cases r with
    | done v => exact Safe.pure h₁.ready trivial
    | yield v =>
      exact forIn h₁.ready (fun c hc u b' hb' =>
        h c (List.mem_cons_of_mem a hc) u b' (h₁.trans hb')) v

end Safe

/-! ### Steps on the tree -/

variable {parent node : NodeId} {kind : NodeKind} {decl : Option DeclId}

theorem run_editTree {edit : CodeTree → Except TreeError CodeTree} {t : CodeTree}
    (h : edit b.tree = .ok t) : (editTree edit).run b = .ok ((), { b with tree := t }) := by
  have hrun : (editTree edit).run b = (match edit b.tree with
      | .ok t => .ok ((), { b with tree := t })
      | .error e => .error (.tree e)) := by
    unfold editTree
    rw [StateT.run_bind]
    cases hedit : edit b.tree with
    | ok t =>
      show ((liftM (edit b.tree) : Binding CodeTree) >>= fun tree => set { b with tree }).run b = _
      rw [hedit]
      rfl
    | error e =>
      show ((liftM (edit b.tree) : Binding CodeTree) >>= fun tree => set { b with tree }).run b = _
      rw [hedit]
      rfl
  rw [hrun, h]

theorem safe_editTree {edit : CodeTree → Except TreeError CodeTree} (hb : b.Ready)
    (h : ∃ t, edit b.tree = .ok t ∧ b.tree.Roomier t) :
    Safe g (editTree edit) b fun _ _ => True := by
  obtain ⟨t, ht, hroom⟩ := h
  exact Safe.of_run (run_editTree ht) (.of_tree hb hroom) trivial

/-- A new node is put into the tree. -/
private theorem safe_newNode_editTree {edit : NodeId → CodeTree → Except TreeError CodeTree}
    (hb : b.Ready) (h : ∃ t, edit b.tree.size (b.tree.create kind decl).2 = .ok t ∧
      b.tree.Adopted parent kind t) :
    Safe g (do
      let id ← newNode kind decl
      editTree (edit id)
      return id : Binding NodeId) b (b.Gains parent kind) := by
  obtain ⟨t, ht, hadopted⟩ := h
  have hrun : (do
      let id ← newNode kind decl
      editTree (edit id)
      return id : Binding NodeId).run b = .ok (b.tree.size, { b with tree := t }) := by
    refine run_bind_eq_ok.mpr ⟨b.tree.size, { b with tree := (b.tree.create kind decl).2 }, rfl, ?_⟩
    exact run_bind_eq_ok.mpr ⟨(), { b with tree := t }, run_editTree ht, rfl⟩
  exact Safe.of_run hrun (.of_tree hb hadopted.toRoomier)
    ⟨hadopted.fresh, hadopted.newRoom, hadopted.newChild⟩

theorem safe_place (hb : b.Ready) (hp : b.tree.hasChildList parent) :
    Safe g (place parent kind decl) b (b.Gains parent kind) :=
  safe_newNode_editTree hb (hb.wellFormed.exists_adopt hp kind decl)

theorem safe_placeAt {position : Nat} (hb : b.Ready) (hp : b.tree.hasChildList parent)
    (hle : position ≤ (b.tree.children parent).length) :
    Safe g (placeAt parent position kind decl) b (b.Gains parent kind) :=
  safe_newNode_editTree hb (hb.wellFormed.exists_adoptAt hp hle kind decl)

theorem safe_placeBeforeBody (hb : b.Ready) :
    Safe g (placeBeforeBody kind decl) b (b.Gains CodeTree.root kind) :=
  safe_newNode_editTree hb (hb.wellFormed.exists_adoptBeforeBody hb.root kind decl)

theorem safe_updateClass {change : ClassNode → ClassNode} (hb : b.Ready) :
    Safe g (updateClass node change) b fun _ _ => True := by
  refine safe_editTree hb ?_
  split
  · next c hc => exact hb.wellFormed.exists_replaceKind (CodeTree.lt_size_of_kind? hc) _
  · exact ⟨b.tree, rfl, .refl hb.wellFormed⟩

theorem safe_addHeaders {headers : List String} (hb : b.Ready) (hnode : node < b.tree.size) :
    Safe g (addHeaders node headers) b fun _ _ => True :=
  Safe.forM hb fun header _ _ hb' => safe_editTree hb'.ready
    (hb'.ready.wellFormed.exists_addHeader (hb'.lt_size hnode) header)

/-! ### Names and results -/

theorem safe_identifier (hb : b.Ready) (name : String) :
    Safe g (identifier name) b fun _ _ => True :=
  Safe.modifyGet ⟨{ hb with }, .refl hb.wellFormed⟩ trivial

theorem safe_freshIn (hb : b.Ready) (scope wanted : String) :
    Safe g (freshIn scope wanted) b fun _ _ => True :=
  Safe.modifyGet ⟨{ hb with }, .refl hb.wellFormed⟩ trivial

theorem safe_markExported (hb : b.Ready) (id : DeclId) :
    Safe g (markExported id) b fun _ _ => True :=
  Safe.modify ⟨{ hb with }, .refl hb.wellFormed⟩ trivial

theorem safe_requestStatic (hb : b.Ready) (node : NodeId) (pythonName : String) :
    Safe g (requestStatic node pythonName) b fun _ _ => True := by
  refine Safe.modify ?_ trivial
  split
  · exact hb.onward
  · exact ⟨{ hb with }, .refl hb.wellFormed⟩

theorem safe_takeStatic (hb : b.Ready) (node : NodeId) :
    Safe g (takeStatic node) b fun _ _ => True :=
  Safe.modifyGet ⟨{ hb with }, .refl hb.wellFormed⟩ trivial

end Binding

/-! ### Names of declarations and wrapper classes -/

namespace BindingSetup

open Binding

variable {s : BindingSetup} {b : Binder} {id cls : DeclId}

theorem exists_isExportable (hid : id < s.graph.size) : ∃ e, s.isExportable id = .ok e := by
  refine Except.exists_bind (DeclGraph.exists_isExcluded hid) fun excluded _ => ?_
  split
  · exact ⟨false, rfl⟩
  · split
    · exact ⟨_, rfl⟩
    · exact Except.exists_bind (DeclGraph.exists_exportability hid) fun _ _ => ⟨_, rfl⟩

theorem safe_warn (hb : b.Ready) (id : DeclId) (message : String) :
    Safe s.graph (s.warn id message) b fun _ _ => True := by
  refine Safe.modify ⟨⟨hb.wellFormed, hb.root, hb.wrapper, hb.classNode, fun d hd => ?_⟩,
    .refl hb.wellFormed⟩ trivial
  rcases List.mem_append.mp hd with hd | hd
  · exact hb.warned d hd
  · rw [List.mem_singleton.mp hd]
    exact Severity.noConfusion

theorem safe_pythonName (hb : b.Ready) (hid : id < s.graph.size) :
    Safe s.graph (s.pythonName id) b fun _ _ => True := by
  unfold pythonName
  refine (Safe.lift_missing hb (DeclGraph.exists_pythonName hid)).bind fun name b₁ h₁ _ => ?_
  split
  · exact Safe.pure h₁.ready trivial
  · exact safe_identifier h₁.ready name

theorem safe_exposer (hb : b.Ready) (cls : DeclId) :
    Safe s.graph (s.exposer cls) b fun _ _ => True := safe_identifier hb _

/-- The wrapper class of a class has room. -/
theorem safe_wrapperOf (hb : b.Ready) (cls : DeclId) :
    Safe s.graph (s.wrapperOf cls) b fun w b' => b'.tree.hasChildList w.node := by
  unfold wrapperOf
  refine Safe.get_bind ?_
  split
  · next w hw => exact Safe.pure hb (hb.wrapper cls w hw)
  refine (safe_exposer hb cls).bind fun exposer b₁ h₁ _ => ?_
  generalize exposer ++ "_wrapper" = name
  refine (safe_placeBeforeBody h₁.ready).bind fun node b₂ h₂ hnode => ?_
  -- the wrapper class is noted last
  have hnote : ∀ {b₃ : Binder}, b₂.Onward b₃ → Safe s.graph (do
      modify fun b => { b with wrappers := (cls, ⟨node, name⟩) :: b.wrappers }
      return ⟨node, name⟩ : Binding WrapperClass) b₃ fun w b' => b'.tree.hasChildList w.node := by
    intro b₃ h₃
    have hroom := h₃.room (hnode.room rfl)
    refine (Safe.modify (Q := fun _ b' => b'.tree.hasChildList node)
      ⟨h₃.ready.note_wrapper hroom cls, .refl h₃.ready.wellFormed⟩ hroom).bind
        fun _ b₄ h₄ hroom => Safe.pure h₄.ready hroom
  refine Safe.get_bind ?_
  split
  · exact (safe_updateClass h₂.ready).bind fun _ b₃ h₃ _ => hnote h₃
  · exact hnote h₂.ready.onward

end BindingSetup

end Bindery
