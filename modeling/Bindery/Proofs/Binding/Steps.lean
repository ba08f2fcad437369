import Bindery.Binding.Module
import Bindery.Proofs.Binding.Parts
import Bindery.Proofs.Text.Mangler
import Mathlib.Logic.Relation

/-!
# Steps of a binding

Whatever is bound, apart from classes and containers, is bound in steps of a few sorts: a name is
met, a header is noted, the registration of a class is changed, a wrapper class is made, and nodes
are placed that fit what is known of their declarations.  What each step keeps, a run of steps
keeps.

## Main definitions

* `MakerNode.addresses` — the functions that a registration refers to.
* `BindingSetup.Named`, `BindingSetup.StandsIn` — names of nodes, and functions with stand-ins.
* `BindingSetup.Fits` — what a node that is placed has to do with its declaration.
* `BindingSetup.BindStep`, `BindingSetup.BindRun` — single steps, and runs of them.
* `BindingSetup.Later` — nothing that was there is gone.

## Main results

* `plain_of_run` — a run leaves the skeleton of the tree alone.
* `later_of_run` — nodes and wrapper classes stay along a run, and names stay met.
* `moves_place`, `run_wrapperOf` and their neighbours — the parts of which bindings are made.
-/

namespace Bindery

open Binding CodeTree

/-- The functions that a registration refers to, each with the type to which its address is cast. -/
def MakerNode.addresses (m : MakerNode) : List (String × Option String) :=
  (m.function, m.signature) ::
    match m.style with
    | .overridable function signature => [(function, signature)]
    | _ => []

/-- The registration of the function casts the addresses to which it refers: the function is not
transformed, and the user wants a cast, or there are others of the same name in its scope. -/
def DeclGraph.castsAddress (g : DeclGraph) (id : DeclId) : Bool :=
  (g.config id).transformers.isEmpty && g.needsSignature id

namespace BindingSetup

variable {s : BindingSetup} {may : DeclId → DeclId → Prop} {cls? : Option DeclId}

/-- The name is the identifier of the alias of the declaration.  An alias that is no identifier
itself has been met. -/
def Named (s : BindingSetup) (b : Binder) (id : DeclId) (name : String) : Prop :=
  ∃ raw, s.graph.pythonName id = .ok raw ∧ name = Text.identifierOf raw ∧
    (Text.isIdentifier raw ∨ raw ∈ b.mangler.seen)

/-- A wrapper class overrides the function, if it is bound for its class: Python cannot reach the
function itself, which is no static one, and no transformer puts an adapter in its place. -/
def StandsIn (s : BindingSetup) (f : DeclId) : Prop :=
  ∃ d c kind, s.graph.get? f = some d ∧ d.kind = .callable c ∧
    Exposure.of d.access c = .shim kind ∧ kind ≠ .protStatic ∧
      (kind = .prot → d.config.transformers.isEmpty)

/-- What a node has to do with the declaration that it is about: its name, the casts of the
addresses it refers to, and the function for which it stands in, where `here` says for which
functions it may do that. -/
def Fits (s : BindingSetup) (here : DeclId → Prop) (b : Binder) (decl : Option DeclId) :
    NodeKind → Prop
  | .maker m => ∃ id, decl = some id ∧
      ∀ r ∈ m.addresses, r.2.isSome = s.graph.castsAddress id
  | .shim shim => ∃ f, decl = some f ∧ here f ∧ (shim.kind = .protStatic ∨ s.StandsIn f)
  | .transformed t =>
    match t.kind with
    | .override .. => ∃ f, decl = some f ∧ here f ∧ s.StandsIn f
    | .function _ => True
  | .enum e => ∃ id, decl = some id ∧ s.Named b id e.pythonName
  | .globalVariable name _ => ∃ id, decl = some id ∧ s.Named b id name
  | .memberVariable v => ∃ id, decl = some id ∧ s.Named b id v.pythonName
  | .property p => ∃ id, decl = some id ∧ s.Named b id p.pythonName
  | .module _ | .moduleBody _ | .cls _ | .wrapper _ => False
  | _ => True

/-- `p` is the wrapper class of the class that is being bound, in which the function may have a
stand-in. -/
def InWrapper (may : DeclId → DeclId → Prop) (cls? : Option DeclId) (b : Binder) (p : NodeId)
    (f : DeclId) : Prop :=
  ∃ cls w, cls? = some cls ∧ b.wrapper? cls = some w ∧ p = w.node ∧ may cls f

/-- A step of a binding, for the class `cls?` if it is for one.  Stand-ins are for functions that
`may` allows. -/
inductive BindStep (s : BindingSetup) (may : DeclId → DeclId → Prop) (cls? : Option DeclId) :
    Binder → Binder → Prop
  | quiet {b b' : Binder} : Quiet b b' → BindStep s may cls? b b'
  | meet (b : Binder) (name : String) :
      BindStep s may cls? b { b with mangler := b.mangler.add name }
  | still {b : Binder} {t : CodeTree} : Still b.tree t → BindStep s may cls? b { b with tree := t }
  | place {b : Binder} {t : CodeTree} {p : NodeId} {kind : NodeKind} {decl : Option DeclId}
      {front back : List NodeId} : PlacedAs b.tree p kind decl front back t →
      s.Fits (InWrapper may cls? b p) b decl kind → BindStep s may cls? b { b with tree := t }
  | wrap {b : Binder} {t : CodeTree} {p : NodeId} {cls : DeclId} {name : String}
      {front back : List NodeId} : cls? = some cls → b.wrapper? cls = none →
      PlacedAs b.tree p (.wrapper ⟨name, name, s.graph.fullName cls⟩) (some cls) front back t →
      BindStep s may cls? b
        { b with tree := t, wrappers := (cls, ⟨b.tree.size, name⟩) :: b.wrappers }

/-- A run of steps. -/
def BindRun (s : BindingSetup) (may : DeclId → DeclId → Prop) (cls? : Option DeclId) :
    Binder → Binder → Prop := Relation.ReflTransGen (s.BindStep may cls?)

theorem BindRun.trans {b b' b'' : Binder} (h : s.BindRun may cls? b b')
    (h' : s.BindRun may cls? b' b'') : s.BindRun may cls? b b'' := Relation.ReflTransGen.trans h h'

theorem BindStep.run {b b' : Binder} (h : s.BindStep may cls? b b') : s.BindRun may cls? b b' :=
  .single h

instance : RunRelation (s.BindRun may cls?) where
  quiet h := (BindStep.quiet h).run
  meet b name := (BindStep.meet b name).run
  trans := BindRun.trans

/-! ### What runs keep -/

theorem part?_of_fits {here : DeclId → Prop} {b : Binder} {decl : Option DeclId}
    {kind : NodeKind} (h : s.Fits here b decl kind) : kind.part? decl = none := by
  cases kind with
  | module _ | moduleBody _ | cls _ => exact h.elim
  | _ => rfl

theorem plain_of_step {b b' : Binder} (h : s.BindStep may cls? b b') : Plain b b' := by
  cases h with
  | quiet h => exact StepRelation.of_tree_eq h.tree
  | meet => exact StepRelation.of_tree_eq rfl
  | still h => exact SameParts.of_still h
  | place h hfits => exact h.sameParts (part?_of_fits hfits)
  | wrap _ _ h => exact h.sameParts rfl

/-- A run leaves the skeleton of the tree alone. -/
theorem plain_of_run {b b' : Binder} (h : s.BindRun may cls? b b') : Plain b b' := by
  induction h with
  | refl => exact RunRelation.refl b
  | tail _ hstep ih => exact StepRelation.trans ih (plain_of_step hstep)

/-- What has been bound stays: nodes, wrapper classes, and names that have been met. -/
structure Later (b b' : Binder) : Prop where
  tree : Grown b.tree b'.tree
  wrapper : ∀ cls w, b.wrapper? cls = some w → b'.wrapper? cls = some w
  seen : b.mangler.seen ⊆ b'.mangler.seen

instance : RunRelation Later where
  quiet {b b'} h := by
    refine ⟨?_, fun cls w hw => ?_, ?_⟩
    · rw [h.tree]
      exact Grown.refl b.tree
    · unfold Binder.wrapper?
      rw [h.wrappers]
      exact hw
    · rw [h.mangler]
      exact List.Subset.refl _
  meet b name := ⟨Grown.refl b.tree, fun _ _ => id, Text.Mangler.seen_subset_add _ name⟩
  trans h h' := ⟨h.tree.trans h'.tree, fun cls w hw => h'.wrapper cls w (h.wrapper cls w hw),
    List.Subset.trans h.seen h'.seen⟩

theorem Later.of_tree {b : Binder} {t : CodeTree} (h : Grown b.tree t) :
    Later b { b with tree := t } := ⟨h, fun _ _ => id, List.Subset.refl _⟩

theorem later_of_step {b b' : Binder} (h : s.BindStep may cls? b b') : Later b b' := by
  cases h with
  | quiet h => exact RunRelation.quiet h
  | meet name => exact RunRelation.meet b name
  | still h => exact .of_tree (Grown.of_still h)
  | place h _ => exact .of_tree h.grown
  | @wrap _ _ cls _ _ _ _ hnone h =>
    refine ⟨h.grown, fun cls' w hw => ?_, List.Subset.refl _⟩
    have hne : cls' ≠ cls := by
      rintro rfl
      rw [hnone] at hw
      cases hw
    unfold Binder.wrapper? at hw ⊢
    rw [List.lookup_cons, beq_eq_false_iff_ne.mpr hne]
    exact hw

/-- What has been bound stays along a run. -/
theorem later_of_run {b b' : Binder} (h : s.BindRun may cls? b b') : Later b b' := by
  induction h with
  | refl => exact RunRelation.refl b
  | tail _ hstep ih => exact RunRelation.trans ih (later_of_step hstep)

theorem Named.mono {b b' : Binder} {id : DeclId} {name : String} (h : s.Named b id name)
    (hseen : b.mangler.seen ⊆ b'.mangler.seen) : s.Named b' id name := by
  obtain ⟨raw, hok, hname, hmet⟩ := h
  exact ⟨raw, hok, hname, hmet.imp_right fun h => hseen h⟩

theorem Fits.mono {here here' : DeclId → Prop} {b b' : Binder} {decl : Option DeclId}
    {kind : NodeKind} (h : s.Fits here b decl kind) (hhere : ∀ f, here f → here' f)
    (hseen : b.mangler.seen ⊆ b'.mangler.seen) : s.Fits here' b' decl kind := by
  cases kind with
  | shim shim =>
    obtain ⟨f, hf, hhere', hstands⟩ := h
    exact ⟨f, hf, hhere f hhere', hstands⟩
  | transformed t =>
    obtain ⟨kind, name, pythonName, code⟩ := t
    cases kind with
    | override =>
      obtain ⟨f, hf, hhere', hstands⟩ := h
      exact ⟨f, hf, hhere f hhere', hstands⟩
    | function => trivial
  | enum | globalVariable | memberVariable | property =>
    obtain ⟨id, hid, hname⟩ := h
    exact ⟨id, hid, hname.mono hseen⟩
  | module | moduleBody | cls | wrapper => exact h.elim
  | maker => exact h
  | _ => trivial

/-! ### The parts of which bindings are made -/

theorem run_place {b b' : Binder} {parent id : NodeId} {kind : NodeKind} {decl : Option DeclId}
    (h : (place parent kind decl).run b = .ok (id, b'))
    (hfits : s.Fits (InWrapper may cls? b parent) b decl kind) :
    s.BindRun may cls? b b' := by
  obtain ⟨rfl, t, ht, rfl⟩ := place_ok h
  exact (BindStep.place (placedAs_of_adopt ht) hfits).run

theorem moves_place {parent : NodeId} {kind : NodeKind} {decl : Option DeclId}
    (hfits : ∀ b, s.Fits (InWrapper may cls? b parent) b decl kind) :
    Moves (s.BindRun may cls?) (place parent kind decl) :=
  fun b _ _ h => run_place h (hfits b)

theorem moves_placeAt {parent : NodeId} {position : Nat} {kind : NodeKind} {decl : Option DeclId}
    (hfits : ∀ b, s.Fits (InWrapper may cls? b parent) b decl kind) :
    Moves (s.BindRun may cls?) (placeAt parent position kind decl) := by
  intro b id b' h
  obtain ⟨rfl, t, ht, rfl⟩ := placeAt_ok h
  exact (BindStep.place (placedAs_of_adoptAt ht) (hfits b)).run

theorem moves_placeBeforeBody {kind : NodeKind} {decl : Option DeclId}
    (hfits : ∀ b, s.Fits (InWrapper may cls? b root) b decl kind) :
    Moves (s.BindRun may cls?) (placeBeforeBody kind decl) := by
  intro b id b' h
  obtain ⟨rfl, t, ht, rfl⟩ := placeBeforeBody_ok h
  exact (BindStep.place (placedAs_of_adoptAt ht) (hfits b)).run

theorem moves_addHeaders (node : NodeId) (headers : List String) :
    Moves (s.BindRun may cls?) (addHeaders node headers) := by
  refine Moves.forM headers fun header _ b a b' h => ?_
  obtain ⟨t, ht, rfl⟩ := editTree_ok h
  exact (BindStep.still (Still.of_shape (addHeader_ok ht).1)).run

/-- The registration of a class may be changed, if it keeps the name that it has in Python. -/
theorem run_updateClass (s : BindingSetup) (may : DeclId → DeclId → Prop) (cls? : Option DeclId)
    {b b' : Binder} {node : NodeId} {change : ClassNode → ClassNode} {u : PUnit}
    (h : (updateClass node change).run b = .ok (u, b'))
    (hchange : ∀ c, (change c).pythonName = c.pythonName) :
    ∃ t, b' = { b with tree := t } ∧
      ∀ wrappers, s.BindRun may cls? { b with wrappers } { b with tree := t, wrappers } := by
  obtain ⟨t, ht, rfl⟩ := editTree_ok h
  refine ⟨t, rfl, fun wrappers => ?_⟩
  split at ht
  · next c hc =>
    obtain ⟨⟨n, hn⟩, rfl⟩ := replaceKind_eq_ok.mp ht
    exact (BindStep.still (b := { b with wrappers }) (Still.of_replaced hn hc (hchange c))).run
  · cases ht
    exact RunRelation.refl _

theorem moves_updateClass (node : NodeId) {change : ClassNode → ClassNode}
    (hchange : ∀ c, (change c).pythonName = c.pythonName) :
    Moves (s.BindRun may cls?) (updateClass node change) := by
  intro b u b' h
  obtain ⟨t, rfl, hrun⟩ := run_updateClass s may cls? h hchange
  exact hrun b.wrappers

theorem run_identifier {b b' : Binder} {name mangled : String}
    (h : (identifier name).run b = .ok (mangled, b')) :
    mangled = Text.identifierOf name ∧ b' = { b with mangler := b.mangler.add name } := by
  unfold identifier at h
  rw [run_modifyGet_eq_ok, Text.Mangler.mangle_eq] at h
  obtain ⟨hmangled, rfl⟩ := Prod.mk.inj h
  exact ⟨hmangled.symm, rfl⟩

theorem run_pythonName (may : DeclId → DeclId → Prop) (cls? : Option DeclId) {b b' : Binder}
    {id : DeclId} {name : String} (h : (s.pythonName id).run b = .ok (name, b')) :
    s.BindRun may cls? b b' ∧ s.Named b' id name := by
  unfold pythonName at h
  obtain ⟨raw, b₁, hraw, h⟩ := run_bind_eq_ok.mp h
  obtain ⟨hok, rfl⟩ := run_lift_missing_eq_ok.mp hraw
  split at h
  · next hidentifier =>
    obtain ⟨rfl, rfl⟩ := run_pure_eq_ok.mp h
    exact ⟨RunRelation.refl _, raw, hok, (Text.identifierOf_eq_self hidentifier).symm,
      .inl hidentifier⟩
  · obtain ⟨rfl, rfl⟩ := run_identifier h
    exact ⟨(BindStep.meet _ raw).run, raw, hok, rfl, .inr (Text.Mangler.mem_seen_add _ raw)⟩

/-- A wrapper class is there when it has been asked for. -/
theorem run_wrapperOf (may : DeclId → DeclId → Prop) {b b' : Binder} {cls : DeclId}
    {w : WrapperClass} (h : (s.wrapperOf cls).run b = .ok (w, b')) :
    s.BindRun may (some cls) b b' ∧ b'.wrapper? cls = some w := by
  unfold wrapperOf at h
  obtain ⟨b₁, b₂, hget, h⟩ := run_bind_eq_ok.mp h
  obtain ⟨rfl, rfl⟩ := run_get_eq_ok.mp hget
  split at h
  · next w' hw =>
    obtain ⟨rfl, rfl⟩ := run_pure_eq_ok.mp h
    exact ⟨RunRelation.refl _, hw⟩
  · next hnone =>
    obtain ⟨exposer, b₁, hexposer, h⟩ := run_bind_eq_ok.mp h
    generalize exposer ++ "_wrapper" = name at h
    obtain ⟨node, b₂, hplace, h⟩ := run_bind_eq_ok.mp h
    obtain ⟨b₃, b₄, hget, h⟩ := run_bind_eq_ok.mp h
    obtain ⟨rfl, rfl⟩ := run_get_eq_ok.mp hget
    obtain ⟨-, rfl⟩ := run_identifier hexposer
    have hmeet : s.BindRun may (some cls) b { b with mangler := b.mangler.add _ } :=
      (BindStep.meet b (DeclGraph.withoutRoot (s.graph.fullName cls))).run
    obtain ⟨rfl, t, ht, rfl⟩ := placeBeforeBody_ok hplace
    have hwrap := hmeet.tail (.wrap rfl hnone (placedAs_of_adoptAt ht))
    -- the wrapper class is noted behind the change of the registration, which leaves it alone
    dsimp only at h
    split at h
    · obtain ⟨u, b₃, hupdate, h⟩ := run_bind_eq_ok.mp h
      obtain ⟨t', rfl, hrun⟩ := run_updateClass s may (some cls) hupdate fun _ => rfl
      obtain ⟨u, b₄, hmodify, h⟩ := run_bind_eq_ok.mp h
      obtain rfl := run_modify_eq_ok.mp hmodify
      obtain ⟨rfl, rfl⟩ := run_pure_eq_ok.mp h
      exact ⟨hwrap.trans (hrun _), List.lookup_cons_self⟩
    · obtain ⟨u, b₄, hmodify, h⟩ := run_bind_eq_ok.mp h
      obtain rfl := run_modify_eq_ok.mp hmodify
      obtain ⟨rfl, rfl⟩ := run_pure_eq_ok.mp h
      exact ⟨hwrap, List.lookup_cons_self⟩

theorem moves_wrapperOf (cls : DeclId) : Moves (s.BindRun may (some cls)) (s.wrapperOf cls) :=
  fun _ _ _ h => (run_wrapperOf may h).1

end BindingSetup

end Bindery
