import Bindery.Proofs.Binding.Recorded
import Bindery.Proofs.Binding.Exported
import Bindery.Proofs.Binding.Room

/-!
# The layout of a module

Below the root of a module stand the license, the includes, the alias of the namespace of the
binding library, what is generated for declarations, and the body, in this order.  Nodes come in
between as long as declarations are bound, each at a place that is found by a look at the nodes that
are there; headers that nodes need are included when all nodes are there.

## Main definitions

* `ModuleOptions.layout` — the nodes below the root.
* `BindingSetup.Arranged` — the nodes below the root stand in their order, and each header is
  included once, that of the binding library first.

## Main results

* `Arranged.step`, `Arranged.run` — nodes come to their places.
* `run_includeHeaders` — the headers that nodes need are included.
* `bind_layout` — **the nodes below the root of a module stand in their order, and all headers that
  nodes need are included.**
-/

namespace Bindery

open Binding Binder CodeTree

/-- Where a list is cut behind the elements that pass a test, what they are is cut as well. -/
theorem map_of_takeWhile {α β : Type} {f : α → Option β} {test : Option β → Bool}
    {front back : List α} {passing failing : List β}
    (hfront : (front ++ back).takeWhile (fun a => test (f a)) = front)
    (hmap : (front ++ back).map f = (passing ++ failing).map some)
    (hpassing : ∀ b ∈ passing, test (some b)) (hfailing : ∀ b ∈ failing, ¬ test (some b)) :
    front.map f = passing.map some ∧ back.map f = failing.map some := by
  have hpass : ∀ b ∈ passing.map some, test b := List.forall_mem_map.mpr hpassing
  have hfail : (failing.map some).takeWhile test = [] := by
    cases failing with
    | nil => rfl
    | cons b rest => exact List.takeWhile_cons_of_neg (hfailing b List.mem_cons_self)
  have hcut : front.map f = passing.map some := by
    calc front.map f = ((front ++ back).takeWhile (test ∘ f)).map f :=
          congrArg (List.map f) hfront.symm
      _ = ((front ++ back).map f).takeWhile test := List.takeWhile_map.symm
      _ = passing.map some := by
        rw [hmap, List.map_append, List.takeWhile_append_of_pos hpass, hfail, List.append_nil]
  rw [List.map_append, List.map_append, hcut] at hmap
  exact ⟨hcut, List.append_cancel_left hmap⟩

/-! ### The order of the nodes -/

namespace NodeKind

/-- What is generated for declarations in front of the body: wrapper classes and adapters. -/
def isGenerated : NodeKind → Bool
  | wrapper _ | transformed _ => true
  | _ => false

theorem isGenerated_iff {kind : NodeKind} :
    kind.isGenerated ↔ (∃ w, kind = wrapper w) ∨ ∃ a, kind = transformed a := by
  cases kind <;> simp [isGenerated]

end NodeKind

/-- The nodes below the root of a module: the license, the includes, the alias of the namespace of
the binding library, what is generated, and the body. -/
def ModuleOptions.layout (o : ModuleOptions) (headers : List String) (generated : List NodeKind) :
    List NodeKind :=
  (o.license.toList.map .license ++ headers.map .include) ++
    ((libraryAlias o.bindingNamespace).toList.map .namespaceAlias ++ generated ++
      [.moduleBody o.name])

namespace ModuleOptions

variable {o : ModuleOptions} {headers : List String} {generated : List NodeKind} {kind : NodeKind}

theorem mem_layout : kind ∈ o.layout headers generated ↔
    (∃ text ∈ o.license, .license text = kind) ∨ (∃ header ∈ headers, .include header = kind) ∨
      (∃ a ∈ libraryAlias o.bindingNamespace, .namespaceAlias a = kind) ∨ kind ∈ generated ∨
      kind = .moduleBody o.name := by
  unfold layout
  simp only [List.mem_append, List.mem_map, Option.mem_toList, Option.mem_def, List.mem_singleton,
    or_assoc]

end ModuleOptions

namespace CodeTree

variable {t t' : CodeTree} {p : NodeId} {front back : List NodeId}

/-- The included headers are those that nodes below the root say. -/
theorem mem_includes {header : String} :
    header ∈ t.includes ↔ ∃ c ∈ t.children root, t.kind? c = some (.include header) := by
  unfold includes
  rw [List.mem_filterMap]
  refine exists_congr fun c => and_congr_right fun _ => ⟨fun h => ?_, fun h => by rw [h]⟩
  split at h
  · next hkind =>
    cases h
    exact hkind
  · cases h

theorem Grown.includes_subset (h : Grown t t') : t.includes ⊆ t'.includes := by
  intro header hheader
  obtain ⟨c, hc, hkind⟩ := mem_includes.mp hheader
  exact mem_includes.mpr ⟨c, h.child _ _ hc, h.kind_of_ne hkind fun _ h => nomatch h⟩

/-- The nodes of the list write what they wrote, if none of them is a registration of a class. -/
theorem Grown.map_kind? (h : Grown t t') {l : List NodeId} {kinds : List NodeKind}
    (hkinds : l.map t.kind? = kinds.map some) (hcls : ∀ kind ∈ kinds, ∀ c, kind ≠ .cls c) :
    l.map t'.kind? = kinds.map some := by
  rw [← hkinds]
  refine List.map_congr_left fun n hn => ?_
  have hmem : t.kind? n ∈ kinds.map some := hkinds ▸ List.mem_map_of_mem hn
  obtain ⟨kind, hkind, heq⟩ := List.mem_map.mp hmem
  rw [← heq]
  exact h.kind_of_ne heq.symm (hcls kind hkind)

/-- What stands below a node when another has been put there. -/
theorem PlacedAs.map_kind? {kind : NodeKind} {decl : Option DeclId}
    (h : PlacedAs t p kind decl front back t') (hw : t.WellFormed) : (t'.children p).map t'.kind? =
      front.map t.kind? ++ some kind :: back.map t.kind? := by
  have hsize : t.size ∉ t.children p := Placed.not_mem_children hw p
  rw [h.before, List.mem_append, not_or] at hsize
  have hold : ∀ {l : List NodeId}, t.size ∉ l → l.map t'.kind? = l.map t.kind? := by
    refine @fun l hl => List.map_congr_left fun n hn => ?_
    have hne : n ≠ t.size := fun hns => hl (hns ▸ hn)
    rw [h.kinds, if_neg hne]
  rw [h.after, List.map_append, List.map_cons, hold hsize.1, hold hsize.2, h.kinds, if_pos rfl]

theorem isSome_kind?_of_mem_headers {header : String} (h : header ∈ t.headers p) :
    (t.kind? p).isSome := by
  unfold headers at h
  unfold kind?
  cases hget : t.get? p with
  | none =>
    rw [hget] at h
    cases h
  | some n => rfl

/-- The headers that are needed at a node or below it. -/
theorem mem_requiredHeaders {headers : List String} (h : t.requiredHeaders p = .ok headers)
    {header : String} : header ∈ headers ↔ ∃ n ∈ t.descendants p, header ∈ t.headers n := by
  unfold requiredHeaders at h
  obtain ⟨n, -, h⟩ := Except.bind_eq_ok.mp h
  cases h
  rw [List.mem_eraseDups, List.mem_flatMap]

end CodeTree

namespace BindingSetup

variable {s : BindingSetup} {ids : List DeclId} {body p : NodeId} {b b' : Binder} {t t' : CodeTree}
  {headers : List String} {generated : List NodeKind}

/-- The nodes below the root of a module stand in their order, and each header is included once,
that of the binding library first. -/
structure Arranged (s : BindingSetup) (t : CodeTree) (body : NodeId) (headers : List String)
    (generated : List NodeKind) : Prop where
  wellFormed : t.WellFormed
  module : t.kind? root = some (.module s.options.name)
  body : t.kind? body = some (.moduleBody s.options.name)
  kinds : (t.children root).map t.kind? = (s.options.layout headers generated).map some
  generated : ∀ kind ∈ generated, kind.isGenerated
  first : headers.head? = some "boost/python.hpp"
  nodup : headers.Nodup

namespace Arranged

/-- No class is registered next to the body. -/
theorem ne_cls (h : s.Arranged t body headers generated) :
    ∀ kind ∈ s.options.layout headers generated, ∀ c, kind ≠ .cls c := by
  rintro _ hmem c rfl
  rcases ModuleOptions.mem_layout.mp hmem with ⟨_, -, heq⟩ | ⟨_, -, heq⟩ | ⟨_, -, heq⟩ | hmem | heq
  · cases heq
  · cases heq
  · cases heq
  · cases h.generated _ hmem
  · cases heq

theorem mem_includes (h : s.Arranged t body headers generated) {header : String} :
    header ∈ t.includes ↔ header ∈ headers := by
  have hmap : header ∈ t.includes ↔
      some (.include header) ∈ (s.options.layout headers generated).map some := by
    rw [CodeTree.mem_includes, ← h.kinds, List.mem_map]
  rw [hmap, List.mem_map_of_injective fun _ _ => Option.some.inj, ModuleOptions.mem_layout]
  constructor
  · rintro (⟨_, -, heq⟩ | ⟨_, hheader, heq⟩ | ⟨_, -, heq⟩ | hmem | heq)
    · cases heq
    · cases heq
      exact hheader
    · cases heq
    · cases h.generated _ hmem
    · cases heq
  · exact fun hheader => .inr (.inl ⟨header, hheader, rfl⟩)

/-- The root has no place for registrations, and no functions are generated in it. -/
theorem ne_root (h : s.Arranged b.tree body headers generated) (hrecorded : s.Recorded ids b)
    (hp : b.Inside body p) : p ≠ root := by
  rintro rfl
  have hmodule := h.module
  rcases hp with (rfl | ⟨cls, hcls⟩) | ⟨cls, w, hw, hnode⟩ | ⟨r, hr⟩
  · rw [h.body] at hmodule
    cases hmodule
  · obtain ⟨-, -, r, hr⟩ := hrecorded.node cls _ hcls
    rw [hr] at hmodule
    cases hmodule
  · obtain ⟨-, -, -, hr⟩ := hrecorded.made cls w hw
    rw [hnode, hr] at hmodule
    cases hmodule
  · rw [hr] at hmodule
    cases hmodule

/-- Nodes that come elsewhere leave the nodes below the root alone. -/
theorem of_grown (h : s.Arranged t body headers generated) (hgrown : Grown t t')
    (hchildren : t'.children root = t.children root) : s.Arranged t' body headers generated where
  wellFormed := hgrown.wellFormed h.wellFormed
  module := hgrown.kind_of_ne h.module fun _ h => nomatch h
  body := hgrown.kind_of_ne h.body fun _ h => nomatch h
  kinds := hchildren ▸ hgrown.map_kind? h.kinds h.ne_cls
  generated := h.generated
  first := h.first
  nodup := h.nodup

/-- A node comes next to the body where the nodes that are there are cut by a test.  The order is
kept if what passes the test belongs in front of the node, and what does not belongs behind it. -/
theorem of_cut {test : Option NodeKind → Bool} {kind : NodeKind} {decl : Option DeclId}
    {front back : List NodeId} {headers' : List String}
    {generated' passing failing : List NodeKind} (h : s.Arranged t body headers generated)
    (hplaced : PlacedAs t root kind decl front back t')
    (hfront : front = (t.children root).takeWhile fun c => test (t.kind? c))
    (hpassing : ∀ k ∈ passing, test (some k)) (hfailing : ∀ k ∈ failing, ¬ test (some k))
    (hbefore : s.options.layout headers generated = passing ++ failing)
    (hafter : s.options.layout headers' generated' = passing ++ kind :: failing)
    (hgenerated : ∀ kind ∈ generated', kind.isGenerated)
    (hfirst : headers'.head? = some "boost/python.hpp") (hnodup : headers'.Nodup) :
    s.Arranged t' body headers' generated' where
  wellFormed := hplaced.wellFormed h.wellFormed
  module := hplaced.grown.kind_of_ne h.module fun _ h => nomatch h
  body := hplaced.grown.kind_of_ne h.body fun _ h => nomatch h
  kinds := by
    have hkinds : (front ++ back).map t.kind? = (passing ++ failing).map some := by
      rw [← hplaced.before, h.kinds, hbefore]
    have hcut : (front ++ back).takeWhile (fun c => test (t.kind? c)) = front := by
      rw [← hplaced.before, ← hfront]
    obtain ⟨hpass, hfail⟩ := map_of_takeWhile hcut hkinds hpassing hfailing
    rw [hplaced.map_kind? h.wellFormed, hpass, hfail, hafter, List.map_append, List.map_cons]
  generated := hgenerated
  first := hfirst
  nodup := hnodup

/-- What is generated comes in front of the body, behind what has been generated. -/
theorem generate {kind : NodeKind} {decl : Option DeclId} {back : List NodeId}
    (h : s.Arranged t body headers generated)
    (hplaced : PlacedAs t root kind decl t.beforeBody back t') (hkind : kind.isGenerated) :
    s.Arranged t' body headers (generated ++ [kind]) := by
  let passing : List NodeKind :=
    s.options.license.toList.map .license ++ headers.map .include ++
      ((libraryAlias s.options.bindingNamespace).toList.map .namespaceAlias ++ generated)
  let test : Option NodeKind → Bool := fun kind? => !kind?.any NodeKind.isBody
  have hpassing : ∀ k ∈ passing, test (some k) := by
    intro k hk
    simp only [passing, List.mem_append, List.mem_map] at hk
    rcases hk with (⟨_, -, rfl⟩ | ⟨_, -, rfl⟩) | ⟨_, -, rfl⟩ | hk
    · rfl
    · rfl
    · rfl
    · rcases NodeKind.isGenerated_iff.mp (h.generated k hk) with ⟨w, rfl⟩ | ⟨a, rfl⟩ <;> rfl
  have hfailing : ∀ k ∈ [NodeKind.moduleBody s.options.name], ¬ test (some k) := by
    intro k hk
    rw [List.mem_singleton.mp hk]
    exact Bool.false_ne_true
  refine h.of_cut hplaced rfl hpassing hfailing (List.append_assoc _ _ _).symm ?_ ?_ h.first h.nodup
  · simp only [ModuleOptions.layout, passing, List.append_assoc, List.singleton_append]
  · intro k hk
    rcases List.mem_append.mp hk with hk | hk
    · exact h.generated k hk
    · rwa [List.mem_singleton.mp hk]

/-- A header that is not included yet comes behind those that are. -/
theorem addInclude {header : String} {back : List NodeId}
    (h : s.Arranged t body headers generated)
    (hplaced : PlacedAs t root (.include header) none t.preamble back t')
    (hnot : header ∉ t.includes) : s.Arranged t' body (headers ++ [header]) generated := by
  let passing : List NodeKind := s.options.license.toList.map .license ++ headers.map .include
  let failing : List NodeKind :=
    (libraryAlias s.options.bindingNamespace).toList.map .namespaceAlias ++ generated ++
      [.moduleBody s.options.name]
  let test : Option NodeKind → Bool := fun kind? => kind?.any isPreamble
  have hpassing : ∀ k ∈ passing, test (some k) := by
    intro k hk
    simp only [passing, List.mem_append, List.mem_map] at hk
    rcases hk with ⟨_, -, rfl⟩ | ⟨_, -, rfl⟩ <;> rfl
  have hfailing : ∀ k ∈ failing, ¬ test (some k) := by
    intro k hk
    simp only [failing, List.mem_append, List.mem_map, List.mem_singleton] at hk
    rcases hk with (⟨_, -, rfl⟩ | hk) | rfl
    · exact Bool.false_ne_true
    · rcases NodeKind.isGenerated_iff.mp (h.generated k hk) with ⟨w, rfl⟩ | ⟨a, rfl⟩ <;>
        exact Bool.false_ne_true
    · exact Bool.false_ne_true
  rw [h.mem_includes] at hnot
  refine h.of_cut hplaced rfl hpassing hfailing rfl ?_ h.generated ?_ ?_
  · simp only [ModuleOptions.layout, passing, failing, List.append_assoc, List.map_append,
      List.map_cons, List.map_nil, List.singleton_append]
  · rw [List.head?_append, h.first]
    rfl
  · exact List.nodup_append.mpr ⟨h.nodup, List.nodup_singleton header,
      fun a ha c hc hac => hnot (List.mem_singleton.mp hc ▸ hac ▸ ha)⟩

/-- Nodes come to their places. -/
theorem step (h : s.Arranged b.tree body headers generated) (hrecorded : s.Recorded ids b)
    (hstep : s.LedgerStep ids body b b') :
    ∃ headers generated, s.Arranged b'.tree body headers generated := by
  have hgrown := (kept_of_step hstep).tree
  have hsite : ∀ {p}, b.Site body p → root ≠ p :=
    fun hp => (h.ne_root hrecorded (.inl hp)).symm
  cases hstep with
  | aside haside => exact ⟨_, _, h.of_grown hgrown (by rw [haside.tree])⟩
  | alike hshape _ => exact ⟨_, _, h.of_grown hgrown (congrFun hshape.children root)⟩
  | noInit haltered => exact ⟨_, _, h.of_grown hgrown (congrFun haltered.children root)⟩
  | place hplaced _ hinside _ =>
    exact ⟨_, _, h.of_grown hgrown (hplaced.children _ (h.ne_root hrecorded hinside).symm)⟩
  | enter hplaced _ _ hp _ => exact ⟨_, _, h.of_grown hgrown (hplaced.children _ (hsite hp))⟩
  | container hplaced => exact ⟨_, _, h.of_grown hgrown (hplaced.children _ (hsite (.inl rfl)))⟩
  | register hplaced hp => exact ⟨_, _, h.of_grown hgrown (hplaced.children _ (hsite hp))⟩
  | adapter hplaced => exact ⟨_, _, h.generate hplaced rfl⟩
  | header hplaced hnot => exact ⟨_, _, h.addInclude hplaced hnot⟩
  | wrap _ _ hplaced _ haltered =>
    exact ⟨_, _, (h.generate hplaced rfl).of_grown (Grown.of_still (haltered.still fun _ => rfl))
      (congrFun haltered.children root)⟩

/-- **The nodes below the root stand in their order along a run.** -/
theorem run (h : s.Arranged b.tree body headers generated) (hrecorded : s.Recorded ids b)
    (hrun : s.LedgerRun ids body b b') :
    ∃ headers generated, s.Arranged b'.tree body headers generated := by
  induction hrun with
  | refl => exact ⟨headers, generated, h⟩
  | tail hbefore hstep ih =>
    obtain ⟨headers, generated, ih⟩ := ih
    exact ih.step (hrecorded.run hbefore) hstep

end Arranged

/-! ### The headers that nodes need -/

/-- Headers are included, and nodes need what they needed. -/
structure Including (b b' : Binder) : Prop where
  tree : Grown b.tree b'.tree
  headers : b'.tree.headers = b.tree.headers

instance : IsPreorder Binder Including where
  refl b := ⟨Grown.refl b.tree, rfl⟩
  trans _ _ _ h h' := ⟨h.tree.trans h'.tree, h'.headers.trans h.headers⟩

/-- A header that is asked for is included. -/
theorem including_addInclude {header : String} {u : PUnit}
    (h : (editTree fun t => match t.addInclude header with
      | (.ok (), t) => .ok t
      | (.error e, _) => .error e).run b = .ok (u, b')) :
    Including b b' ∧ header ∈ b'.tree.includes := by
  obtain ⟨t, ht, rfl⟩ := editTree_ok h
  split at ht
  · next hadd =>
    cases ht
    rcases addInclude_ok hadd with ⟨hmem, rfl⟩ | ⟨-, back, hplaced⟩
    · exact ⟨refl_of Including _, hmem⟩
    · refine ⟨⟨hplaced.grown, hplaced.headers⟩, CodeTree.mem_includes.mpr ⟨b.tree.size, ?_, ?_⟩⟩
      · rw [hplaced.after]
        exact List.mem_append_right _ List.mem_cons_self
      · exact (hplaced.kinds _).trans (if_pos rfl)
  · cases ht

/-- The headers that nodes need are included, and no node needs others for it. -/
theorem run_includeHeaders {u : PUnit} (h : s.includeHeaders.run b = .ok (u, b')) :
    ∃ required, b.tree.requiredHeaders root = .ok required ∧ Including b b' ∧
      required ⊆ b'.tree.includes := by
  unfold includeHeaders at h
  obtain ⟨b₀, b₁, hget, h⟩ := run_bind_eq_ok.mp h
  obtain ⟨rfl, rfl⟩ := run_get_eq_ok.mp hget
  obtain ⟨headers, b₁, hheaders, h⟩ := run_bind_eq_ok.mp h
  obtain ⟨hok, rfl⟩ := run_lift_tree_eq_ok.mp hheaders
  obtain ⟨required, hrequired, hasked⟩ : ∃ required, b.tree.requiredHeaders root = .ok required ∧
      required ⊆ headers := by
    unfold moduleHeaders at hok
    obtain ⟨required, hrequired, hok⟩ := Except.bind_eq_ok.mp hok
    cases hok
    exact ⟨required, hrequired, fun header hheader =>
      List.mem_eraseDups.mpr (List.mem_append_right _ hheader)⟩
  have hmoves : ∀ header, Moves Including (editTree fun t => match t.addInclude header with
      | (.ok (), t) => .ok t
      | (.error e, _) => .error e) := fun _ _ _ _ h => (including_addInclude h).1
  refine ⟨required, hrequired, Moves.forM _ (fun header _ => hmoves header) _ _ _ h,
    fun header hheader => ?_⟩
  obtain ⟨b₂, b₃, v, -, hrun, hafter⟩ :=
    exists_run_of_forM (fun header _ => hmoves header) h (hasked hheader)
  exact hafter.tree.includes_subset (including_addInclude hrun).2

/-! ### The module -/

/-- At first nothing is generated, and the header of the binding library alone is included. -/
theorem arranged_ofModule
    (h : CodeTree.ofModule s.options.name s.options.license s.options.bindingNamespace = .ok t)
    (hbody : t.body? = some body) : s.Arranged t body ["boost/python.hpp"] [] := by
  let P : List NodeKind → CodeTree → Prop := fun kinds t => t.WellFormed ∧
    t.kind? root = some (.module s.options.name) ∧
    (t.children root).map t.kind? = kinds.map some
  have hstart : P [] (ofKind (.module s.options.name)) := ⟨wellFormed_empty.create _ _, rfl, rfl⟩
  have hstep : ∀ {kinds t t' kind}, P kinds t → t.append kind = .ok t' →
      P (kinds ++ [kind]) t' := by
    intro kinds t t' kind ⟨hw, hmodule, hkinds⟩ happend
    have hplaced := append_ok happend
    refine ⟨hplaced.wellFormed hw, hplaced.grown.kind_of_ne hmodule fun _ h => (nomatch h), ?_⟩
    rw [hplaced.map_kind? hw, hkinds, List.map_append]
    rfl
  obtain ⟨t₀, ht₀, hlast⟩ := ofModule_begins hstart (fun _ => hstep) h
  obtain ⟨hw, hmodule, hkinds⟩ := hstep ht₀ hlast
  obtain ⟨-, name, hkind⟩ := exists_moduleBody hbody
  have hname : NodeKind.moduleBody name = .moduleBody s.options.name := by
    rcases kind?_ofModule h hkind with heq | hpreamble | heq
    · cases heq
    · cases hpreamble
    · exact heq
  refine ⟨hw, hmodule, hname ▸ hkind, ?_, fun _ hmem => (nomatch hmem), rfl,
    List.nodup_singleton _⟩
  rw [hkinds, ModuleOptions.layout, List.append_nil, List.append_assoc]
  rfl

/-- **The nodes below the root of a module stand in their order**: the license if there is one, the
includes, the alias of the namespace of the binding library if it has a name, wrapper classes and
adapters, and the body.  Each header is included once, that of the binding library first, and all
headers that nodes need are among them, whichever node needs them. -/
theorem bind_layout (h : s.bind ids = .ok b) : ∃ headers generated required,
    (b.tree.children root).map b.tree.kind? =
      (s.options.layout headers generated).map some ∧
    (∀ kind ∈ generated, kind.isGenerated) ∧
    headers.head? = some "boost/python.hpp" ∧ headers.Nodup ∧
    b.tree.requiredHeaders root = .ok required ∧ required ⊆ headers ∧
    ∀ n, b.tree.headers n ⊆ headers := by
  obtain ⟨t, body, u, hmodule, hbody, hrun⟩ := bind_ok h
  have hledger : s.LedgerRun ids body { tree := t } b := moves_bindAll_noted _ _ _ hrun
  obtain ⟨headers, generated, harranged⟩ :=
    (arranged_ofModule hmodule hbody).run (b := { tree := t }) (recorded_ofModule hmodule) hledger
  have haccounted := accounted_ofModule hmodule hbody
  have hneeded : ∀ n, b.tree.headers n ⊆ headers := by
    -- what the nodes need that are there when headers are included is what all nodes need
    obtain ⟨b₁, v, hbound, hinclude⟩ := run_bindAll_noted hrun
    obtain ⟨required₁, hrequired₁, hincluding, hsubset⟩ := run_includeHeaders hinclude
    intro n header hn
    rw [hincluding.headers] at hn
    have hbelow : n ∈ b₁.tree.descendants root :=
      (haccounted.run hbound).mem_descendants_root (isSome_kind?_of_mem_headers hn)
    exact harranged.mem_includes.mp
      (hsubset ((mem_requiredHeaders hrequired₁).mpr ⟨n, hbelow, hn⟩))
  obtain ⟨required, hrequired⟩ := exists_requiredHeaders (lt_size_of_kind? harranged.module)
  refine ⟨headers, generated, required, harranged.kinds, harranged.generated, harranged.first,
    harranged.nodup, hrequired, fun header hheader => ?_, hneeded⟩
  obtain ⟨n, -, hn⟩ := (mem_requiredHeaders hrequired).mp hheader
  exact hneeded n hn

/-- A class with a pure virtual function, and a function that reads an array. -/
def withArray : DeclGraph :=
  ⟨#[{ name := "::", kind := .ns [1, 3] },
    { name := "Shape", kind := .cls { members := [2] }, parent := some DeclGraph.root },
    { name := "area", parent := some 1,
      kind := .callable {
        kind := .memberFunction, returnType := some Samples.double, virtuality := .pure } },
    { name := "total", parent := some DeclGraph.root,
      kind := .callable {
        kind := .freeFunction, returnType := some Samples.double
        args := [{ name := "areas", type := .pointer Samples.double }] },
      config := { transformers := [⟨.inputArray 3, 1⟩] } }]⟩

/-- With a license and a header of the user, one wrapper class and one adapter, there are eight
nodes; the adapter needs the third header. -/
theorem bind_layout_withArray : ∃ (s : BindingSetup) (b : Binder) (headers : List String)
    (generated : List NodeKind), s.bind [1, 3] = .ok b ∧ (b.tree.children root).length = 8 ∧
      (b.tree.children root).map b.tree.kind? =
        (s.options.layout headers generated).map some ∧
      (∀ kind ∈ generated, kind.isGenerated) ∧ headers.head? = some "boost/python.hpp" ∧
      headers.Nodup ∧ b.tree.includes = ["boost/python.hpp", "shape.hpp", "__convenience.pypp.hpp"] ∧
      b.tree.requiredHeaders root = .ok ["__convenience.pypp.hpp"] ∧
      ["__convenience.pypp.hpp"] ⊆ headers ∧
      ∃ n ∈ b.tree.children root, (b.tree.kind? n).any NodeKind.isGenerated ∧
        b.tree.headers n = ["__convenience.pypp.hpp"] ∧ b.tree.headers n ⊆ headers := by
  let s : BindingSetup := {
    graph := withArray
    options := { license := some "// Shapes", includes := ["shape.hpp"] } }
  obtain ⟨b, hb, hall⟩ := Except.exists_eq_ok_of_any (x := s.bind [1, 3])
    (p := fun b => (b.tree.children root).length = 8 ∧
      b.tree.includes = ["boost/python.hpp", "shape.hpp", "__convenience.pypp.hpp"] ∧
      (b.tree.requiredHeaders root).toOption = some ["__convenience.pypp.hpp"] ∧
      ∃ n ∈ b.tree.children root, (b.tree.kind? n).any NodeKind.isGenerated ∧
        b.tree.headers n = ["__convenience.pypp.hpp"]) (by decide +kernel)
  obtain ⟨height, hincludes, hneeds, n, hn, hkind, hheaders⟩ := of_decide_eq_true hall
  obtain ⟨headers, generated, required, hkinds, hgenerated, hfirst, hnodup, hrequired, hsubset,
    hnodes⟩ := bind_layout hb
  obtain rfl : required = ["__convenience.pypp.hpp"] := by
    rw [hrequired] at hneeds
    exact Option.some.inj hneeds
  exact ⟨s, b, headers, generated, hb, height, hkinds, hgenerated, hfirst, hnodup, hincludes,
    hrequired, hsubset, n, hn, hkind, hheaders, hnodes n⟩

end BindingSetup

end Bindery
