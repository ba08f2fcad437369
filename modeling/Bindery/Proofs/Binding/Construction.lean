import Bindery.Proofs.Binding.Ledger

/-!
# Constructors

The registration of a class begins with the constructors that Python may call, and so does its
wrapper class with those that forward to them.  They come at one moment, when all members of the
class are bound: each behind those that are there, and in front of all else.

## Main definitions

* `NodeKind.isConstruction` — the constructors of classes and of wrapper classes.
* `CodeTree.BeginsWith` — the nodes of these sorts below a node, which come first.
* `CodeTree.Steady` — with what a node begins has not changed, nor whether Python can make objects.
* `Binder.Spares` — no class is registered or wrapped, and all nodes but some are steady.
* `BindingSetup.Exposes`, `BindingSetup.Forwards` — the constructors that the registration of a
  class begins with, and those that its wrapper class does.
* `BindingSetup.Constructs` — the constructors of a class have come.

## Main results

* `BeginsWith.insert` — one more constructor, behind those that are there.
* `constructs_registerConstructors` — **with what the registration of a class begins, and with what
  its wrapper class does.**
-/

namespace Bindery

open Binding

/-- A constructor of a class or of a wrapper class. -/
def NodeKind.isConstruction : NodeKind → Bool
  | constructor _ | constructorWrapper _ | nullConstructorWrapper _ | copyConstructorWrapper _ =>
    true
  | _ => false

namespace CodeTree

variable {t t' t'' : CodeTree} {p q n : NodeId} {kind : NodeKind} {decl : Option DeclId}
  {front back : List NodeId} {entries : List (NodeKind × Option DeclId)}

/-! ### Constructors in front -/

theorem children_size (t : CodeTree) : t.children t.size = [] := by
  rw [children, get?_eq_none_iff.mpr (Nat.le_refl _)]
  rfl

/-- The constructors below a node come first among its children: they write these things, about
these declarations. -/
structure BeginsWith (t : CodeTree) (q : NodeId) (entries : List (NodeKind × Option DeclId)) :
    Prop where
  constructs : ∀ e ∈ entries, e.1.isConstruction
  split : ∃ front back, t.children q = front ++ back ∧ front.map t.kind? = entries.map (some ·.1) ∧
    front.map t.decl? = entries.map (·.2) ∧
    ∀ n ∈ back, ∃ kind, t.kind? n = some kind ∧ kind.isConstruction = false

/-- The nodes that stay constructors stay in front, where only other nodes come behind them. -/
theorem BeginsWith.grown (h : t.BeginsWith q entries) (hgrown : Grown t t') {new : List NodeId}
    (hchildren : t'.children q = t.children q ++ new)
    (hnew : ∀ n ∈ new, ∃ kind, t'.kind? n = some kind ∧ kind.isConstruction = false) :
    t'.BeginsWith q entries := by
  obtain ⟨front, back, hsplit, hkinds, hdecls, hback⟩ := h.split
  have hkind : ∀ n ∈ front, t'.kind? n = t.kind? n ∧ t'.decl? n = t.decl? n := by
    intro n hn
    have hmem : t.kind? n ∈ entries.map (some ·.1) := hkinds ▸ List.mem_map_of_mem hn
    obtain ⟨e, he, heq⟩ := List.mem_map.mp hmem
    have hconstructs := h.constructs e he
    refine ⟨?_, hgrown.decl n (by rw [← heq]; rfl)⟩
    rw [← heq]
    refine hgrown.kind_of_ne heq.symm fun c hc => ?_
    rw [hc] at hconstructs
    cases hconstructs
  refine ⟨h.constructs, front, back ++ new, by rw [hchildren, hsplit, List.append_assoc], ?_, ?_,
    fun n hn => ?_⟩
  · rw [← hkinds]
    exact List.map_congr_left fun n hn => (hkind n hn).1
  · rw [← hdecls]
    exact List.map_congr_left fun n hn => (hkind n hn).2
  · rcases List.mem_append.mp hn with hn | hn
    · obtain ⟨kind, hk, hnot⟩ := hback n hn
      rcases hgrown.kind n kind hk with hk' | ⟨old, new, -, hk', -⟩
      · exact ⟨kind, hk', hnot⟩
      · exact ⟨_, hk', rfl⟩
    · exact hnew n hn

theorem BeginsWith.unmoved (h : t.BeginsWith q entries) (hgrown : Grown t t')
    (hchildren : t'.children q = t.children q) : t'.BeginsWith q entries :=
  h.grown hgrown (by rw [hchildren, List.append_nil]) fun _ hn => absurd hn List.not_mem_nil

/-- What a node begins with does not change with registrations of classes. -/
theorem BeginsWith.still (h : t.BeginsWith q entries) (hstill : Still t t') :
    t'.BeginsWith q entries :=
  h.unmoved (Grown.of_still hstill) (congrFun hstill.children q)

/-- One more constructor comes behind those that are there. -/
theorem BeginsWith.insert (h : t.BeginsWith q entries) (hkind : kind.isConstruction)
    (hplaced : PlacedAs t q kind decl ((t.children q).take entries.length)
      ((t.children q).drop entries.length) t') : t'.BeginsWith q (entries ++ [(kind, decl)]) := by
  obtain ⟨front, back, hsplit, hkinds, hdecls, hback⟩ := h.split
  have hlength : entries.length = front.length := by
    simpa using (congrArg List.length hkinds).symm
  have hold : ∀ n kind, t.kind? n = some kind → n ≠ t.size := fun n kind hk =>
    (lt_size_of_kind? hk).ne
  have hfront : ∀ n ∈ front, n ≠ t.size := by
    intro n hn
    have hmem : t.kind? n ∈ entries.map (some ·.1) := hkinds ▸ List.mem_map_of_mem hn
    obtain ⟨e, -, he⟩ := List.mem_map.mp hmem
    exact hold n e.1 he.symm
  rw [hlength, hsplit, List.take_left, List.drop_left] at hplaced
  refine ⟨?_, front ++ [t.size], back, ?_, ?_, ?_, fun n hn => ?_⟩
  · intro e he
    rcases List.mem_append.mp he with he | he
    · exact h.constructs e he
    · exact List.mem_singleton.mp he ▸ hkind
  · rw [hplaced.after, List.append_assoc]
    rfl
  · rw [List.map_append, List.map_append, ← hkinds]
    congr 1
    · exact List.map_congr_left fun n hn => (hplaced.kinds n).trans (if_neg (hfront n hn))
    · exact congrArg (fun k => [k]) ((hplaced.kinds t.size).trans (if_pos rfl))
  · rw [List.map_append, List.map_append, ← hdecls]
    congr 1
    · exact List.map_congr_left fun n hn => (hplaced.decls n).trans (if_neg (hfront n hn))
    · exact congrArg (fun d => [d]) ((hplaced.decls t.size).trans (if_pos rfl))
  · obtain ⟨k, hk, hnot⟩ := hback n hn
    exact ⟨k, by rw [hplaced.kinds, if_neg (hold n k hk), hk], hnot⟩

/-! ### Steady nodes -/

/-- With what the node begins has not changed, nor whether Python can make objects of the class, if
the node is the registration of one. -/
structure Steady (t t' : CodeTree) (q : NodeId) : Prop where
  begins : ∀ entries, t.BeginsWith q entries → t'.BeginsWith q entries
  noInit : ∀ r, t.kind? q = some (.cls r) →
    ∃ r', t'.kind? q = some (.cls r') ∧ r'.noInit = r.noInit

theorem Steady.refl (t : CodeTree) (q : NodeId) : Steady t t q :=
  ⟨fun _ => id, fun r hr => ⟨r, hr, rfl⟩⟩

theorem Steady.trans (h : Steady t t' q) (h' : Steady t' t'' q) : Steady t t'' q where
  begins entries hbegins := h'.begins entries (h.begins entries hbegins)
  noInit r hr := by
    obtain ⟨r', hr', heq⟩ := h.noInit r hr
    obtain ⟨r'', hr'', heq'⟩ := h'.noInit r' hr'
    exact ⟨r'', hr'', heq'.trans heq⟩

/-- A new node of another sort has been put behind the others, or below another node. -/
theorem PlacedAs.steady (h : PlacedAs t p kind decl front back t')
    (hplace : q ≠ p ∨ back = [] ∧ kind.isConstruction = false) : Steady t t' q where
  begins entries hbegins := by
    by_cases hq : q = p
    · obtain ⟨rfl, hkind⟩ := hplace.resolve_left (not_not_intro hq)
      subst hq
      have hchildren : t'.children q = t.children q ++ [t.size] := by
        rw [h.after, h.before, List.append_nil]
      refine hbegins.grown h.grown hchildren fun n hn => ?_
      rw [List.mem_singleton.mp hn]
      exact ⟨kind, (h.kinds t.size).trans (if_pos rfl), hkind⟩
    · exact hbegins.unmoved h.grown (h.children q hq)
  noInit r hr := ⟨r, by rw [h.kinds, if_neg (lt_size_of_kind? hr).ne, hr], rfl⟩

/-- A new node, put below another, has nothing below it. -/
theorem PlacedAs.begins (h : PlacedAs t p kind decl front back t') :
    t'.BeginsWith t.size [] := by
  have hchildren : t'.children t.size = [] := by
    rw [h.children _ h.old.symm]
    exact children_size t
  exact ⟨fun _ he => (nomatch he), [], [], hchildren, rfl, rfl, fun _ hn => (nomatch hn)⟩

/-- Nothing but registrations of classes has changed. -/
theorem Steady.of_still (h : Still t t')
    (hnoInit : ∀ r, t.kind? q = some (.cls r) →
      ∃ r', t'.kind? q = some (.cls r') ∧ r'.noInit = r.noInit) : Steady t t' q where
  begins _ hbegins := hbegins.still h
  noInit := hnoInit

theorem Steady.of_shape (h : SameShape t t') : Steady t t' q :=
  .of_still (.of_shape h) fun r hr => ⟨r, by rw [h.kind, hr], rfl⟩

theorem Altered.steady {change : ClassNode → ClassNode} (h : Altered t n change t')
    (hname : ∀ r, (change r).pythonName = r.pythonName)
    (hnoInit : q ≠ n ∨ ∀ r, (change r).noInit = r.noInit) : Steady t t' q := by
  refine .of_still (h.still hname) fun r hr => ?_
  rw [h.kind, hr]
  split
  · next hq => exact ⟨change r, rfl, hnoInit.resolve_left (not_not_intro hq) r⟩
  · exact ⟨r, rfl, rfl⟩

theorem Altered.shown {change : ClassNode → ClassNode} (h : Altered t n change t')
    (hwrapper : ∀ r, (change r).wrapper = r.wrapper) {r : ClassNode}
    (hr : t'.kind? q = some (.cls r)) :
    ∃ r', t.kind? q = some (.cls r') ∧ r'.wrapper = r.wrapper := by
  rw [h.kind] at hr
  split at hr
  · obtain ⟨kind, hkind, heq⟩ := Option.map_eq_some_iff.mp hr
    cases kind <;> cases heq
    exact ⟨_, hkind, (hwrapper _).symm⟩
  · exact ⟨r, hr, rfl⟩

end CodeTree

open Binder CodeTree

/-! ### What spares nodes -/

/-- No class is registered and none gets a wrapper class, and with all nodes but some it is as it
was. -/
structure Binder.Spares (touched : NodeId → Prop) (b b' : Binder) : Prop where
  kept : Kept b b'
  classNodes : b'.classNodes = b.classNodes
  wrappers : b'.wrappers = b.wrappers
  shown : ∀ n r, b'.tree.kind? n = some (.cls r) →
    ∃ r', b.tree.kind? n = some (.cls r') ∧ r'.wrapper = r.wrapper
  steady : ∀ q, ¬ touched q → Steady b.tree b'.tree q

variable {touched touched' : NodeId → Prop} {b b' b'' : Binder} {α : Type} {m : Binding α}

instance : IsPreorder Binder (Spares touched) where
  refl b := ⟨refl_of Kept b, rfl, rfl, fun _ r hr => ⟨r, hr, rfl⟩, fun q _ => Steady.refl b.tree q⟩
  trans _ _ _ h h' := ⟨trans_of Kept h.kept h'.kept, h'.classNodes.trans h.classNodes,
    h'.wrappers.trans h.wrappers, fun n r hr => by
      obtain ⟨r', hr', heq'⟩ := h'.shown n r hr
      obtain ⟨r'', hr'', heq''⟩ := h.shown n r' hr'
      exact ⟨r'', hr'', heq''.trans heq'⟩,
    fun q hq => (h.steady q hq).trans (h'.steady q hq)⟩

namespace Binder.Spares

theorem mono (h : Spares touched b b') (htouched : ∀ q, touched q → touched' q) :
    Spares touched' b b' :=
  ⟨h.kept, h.classNodes, h.wrappers, h.shown, fun q hq => h.steady q (hq ∘ htouched q)⟩

theorem wrapper? (h : Spares touched b b') : b'.wrapper? = b.wrapper? := by
  unfold Binder.wrapper?
  rw [h.wrappers]

theorem of_aside (h : Aside b b') : Spares touched b b' where
  kept := .of_aside h
  classNodes := h.classNodes
  wrappers := h.wrappers
  shown n r hr := ⟨r, h.tree ▸ hr, rfl⟩
  steady q _ := by
    rw [h.tree]
    exact Steady.refl b.tree q

/-- A node that is no registration has come. -/
theorem of_placed {t : CodeTree} {p : NodeId} {kind : NodeKind} {decl : Option DeclId}
    {front back : List NodeId} (h : PlacedAs b.tree p kind decl front back t)
    (hkind : ∀ r, kind ≠ .cls r)
    (hplace : ∀ q, ¬ touched q → q ≠ p ∨ back = [] ∧ kind.isConstruction = false) :
    Spares touched b { b with tree := t } where
  kept := .of_tree h.grown
  classNodes := rfl
  wrappers := rfl
  shown n r hr := by
    have hr : t.kind? n = some (.cls r) := hr
    rw [h.kinds] at hr
    split at hr
    · exact absurd (Option.some.inj hr) (hkind r)
    · exact ⟨r, hr, rfl⟩
  steady q hq := h.steady (hplace q hq)

theorem of_shape {t : CodeTree} (h : SameShape b.tree t) : Spares touched b { b with tree := t } :=
  ⟨.of_tree (.of_still (.of_shape h)), rfl, rfl, fun n r hr => ⟨r, congrFun h.kind n ▸ hr, rfl⟩,
    fun _ _ => .of_shape h⟩

/-- A registration has changed. -/
theorem of_altered {t : CodeTree} {n : NodeId} {change : ClassNode → ClassNode}
    (h : Altered b.tree n change t) (hname : ∀ r, (change r).pythonName = r.pythonName)
    (hwrapper : ∀ r, (change r).wrapper = r.wrapper) :
    Spares (· = n) b { b with tree := t } where
  kept := .of_tree (.of_still (h.still hname))
  classNodes := rfl
  wrappers := rfl
  shown _ _ := h.shown hwrapper
  steady _ hq := h.steady hname (.inl hq)

end Binder.Spares

/-- A node that is neither a constructor nor the registration of a class. -/
def NodeKind.isPlain (kind : NodeKind) : Bool :=
  !kind.isConstruction && !(kind matches .cls _)

theorem NodeKind.isPlain_iff {kind : NodeKind} :
    kind.isPlain ↔ kind.isConstruction = false ∧ ∀ r, kind ≠ .cls r := by
  cases kind <;> simp [isPlain, isConstruction]

namespace Binding

theorem spares_of_aside (h : Moves Aside m) : Moves (Spares touched) m :=
  fun b a b' hrun => .of_aside (h b a b' hrun)

theorem spares_place {p : NodeId} {kind : NodeKind} {decl : Option DeclId} (hkind : kind.isPlain) :
    Moves (Spares touched) (place p kind decl) := by
  intro b n b' h
  obtain ⟨rfl, t, ht, rfl⟩ := place_ok h
  obtain ⟨hconstruction, hcls⟩ := NodeKind.isPlain_iff.mp hkind
  exact .of_placed (placedAs_of_adopt ht) hcls fun q _ => .inr ⟨rfl, hconstruction⟩

/-- Whatever is put below a node, registrations apart, spares the others. -/
theorem spares_placeAt {p : NodeId} {position : Nat} {kind : NodeKind} {decl : Option DeclId}
    (hkind : ∀ r, kind ≠ .cls r) (hp : touched p) :
    Moves (Spares touched) (placeAt p position kind decl) := by
  intro b n b' h
  obtain ⟨rfl, t, ht, rfl⟩ := placeAt_ok h
  exact .of_placed (placedAs_of_adoptAt ht) hkind fun q hq => .inl fun he => hq (he ▸ hp)

theorem spares_markExported (id : DeclId) : Moves (Spares touched) (markExported id) := by
  intro b u b' h
  obtain rfl := run_modify_eq_ok.mp h
  exact { refl_of (Spares touched) b with
    kept := { refl_of Kept b with exported := List.subset_append_left _ _ } }

end Binding

namespace BindingSetup

variable {s : BindingSetup} {cls : DeclId} {node : NodeId} {u : PUnit} {w : WrapperClass}
  {entries : List (NodeKind × Option DeclId)} {ctors : List (DeclId × Callable)}
  {kinds : List NodeKind}

theorem spares_addCustomTexts (parent : NodeId) (worksOnInstance : Bool) (texts : List String) :
    Moves (Spares touched) (addCustomTexts parent worksOnInstance texts) :=
  Moves.forM texts fun _ _ => (spares_place rfl).bind fun _ => Moves.pure _

/-! ### Constructors of a class -/

/-- There is a call policy for the constructor. -/
def hasPolicy (s : BindingSetup) (ctor : DeclId × Callable) : Bool :=
  (s.graph.policy? s.rules ctor.1).isSome

/-- A conversion from the parameter of a constructor is neither a constructor nor a registration. -/
theorem isPlain_castingConversion {c : Callable} {conversion : NodeKind}
    (h : s.castingConversion? cls c = some conversion) : conversion.isPlain := by
  unfold castingConversion? at h
  split at h
  · obtain ⟨-, heq⟩ := Option.ite_none_right_eq_some.mp h
    cases heq
    rfl
  · cases h

/-- A constructor with a call policy comes behind those that are there, and one without is left
out. -/
theorem run_registerConstructor {position next : Nat} {ctor : DeclId × Callable}
    (h : (s.registerConstructor cls node position ctor).run b = .ok (next, b'))
    (hbegins : b.tree.BeginsWith node entries) (hposition : position = entries.length) :
    Spares (· = node) b b' ∧ ∃ new, b'.tree.BeginsWith node (entries ++ new) ∧
      next = (entries ++ new).length ∧ (∀ e ∈ new, ∃ k, e.1 = .constructor k) ∧
      new.map (·.2) = ([ctor].filter s.hasPolicy).map (some ·.1) := by
  subst hposition
  unfold registerConstructor at h
  dsimp only at h
  split at h
  · next hnone =>
    obtain ⟨v, b₁, hwarn, h⟩ := run_bind_eq_ok.mp h
    obtain ⟨rfl, rfl⟩ := run_pure_eq_ok.mp h
    have haside := s.aside_warn _ _ _ _ _ hwarn
    refine ⟨.of_aside haside, [], ?_, by rw [List.append_nil], fun _ he => (nomatch he), ?_⟩
    · rwa [List.append_nil, haside.tree]
    · rw [List.filter_singleton, hasPolicy, hnone]
      rfl
  · next callPolicy hpolicy =>
    obtain ⟨n, b₁, hplace, h⟩ := run_bind_eq_ok.mp h
    have hspared : Spares (· = node) b b₁ :=
      spares_placeAt (by rintro _ ⟨⟩) (by rfl) _ _ _ hplace
    obtain ⟨rfl, t, ht, rfl⟩ := placeAt_ok hplace
    have hinserted := hbegins.insert rfl (placedAs_of_adoptAt ht)
    obtain ⟨v, b₂, hmark, h⟩ := run_bind_eq_ok.mp h
    -- what comes behind the constructor leaves it where it is
    have hrest : Spares (fun _ => False) b₂ b' ∧ next = entries.length + 1 := by
      split at h
      · next conversion hconversion =>
        obtain ⟨n, b₃, hplace, h⟩ := run_bind_eq_ok.mp h
        obtain ⟨rfl, rfl⟩ := run_pure_eq_ok.mp h
        exact ⟨spares_place (isPlain_castingConversion hconversion) _ _ _ hplace, rfl⟩
      · obtain ⟨rfl, rfl⟩ := run_pure_eq_ok.mp h
        exact ⟨refl_of (Spares fun _ => False) _, rfl⟩
    obtain ⟨hrest, rfl⟩ := hrest
    have hmarked := trans_of _ (spares_markExported _ _ _ _ hmark) hrest
    refine ⟨trans_of _ hspared (hmarked.mono fun _ => False.elim), _,
      (hmarked.steady node id).begins _ hinserted, by rw [List.length_append]; rfl, ?_, ?_⟩
    · exact fun e he => List.mem_singleton.mp he ▸ ⟨_, rfl⟩
    · rw [List.filter_singleton, hasPolicy, hpolicy]
      rfl

/-- Constructors come one behind the other. -/
theorem run_foldlM_registerConstructor : ∀ {ctors : List (DeclId × Callable)} {b b' : Binder}
    {position next : Nat} {entries : List (NodeKind × Option DeclId)},
    (ctors.foldlM (s.registerConstructor cls node) position).run b = .ok (next, b') →
    b.tree.BeginsWith node entries → position = entries.length →
    Spares (· = node) b b' ∧ ∃ new, b'.tree.BeginsWith node (entries ++ new) ∧
      (∀ e ∈ new, ∃ k, e.1 = .constructor k) ∧
      new.map (·.2) = (ctors.filter s.hasPolicy).map (some ·.1)
  | [], b, b', _, _, entries, h, hbegins, _ => by
    obtain ⟨-, rfl⟩ := run_pure_eq_ok.mp h
    exact ⟨refl_of (Spares (· = node)) b, [], by rwa [List.append_nil], fun _ he => (nomatch he),
      rfl⟩
  | ctor :: ctors, b, b', position, next, entries, h, hbegins, hposition => by
    rw [List.foldlM_cons] at h
    obtain ⟨position', b₁, hfirst, hrest⟩ := run_bind_eq_ok.mp h
    obtain ⟨hspared, new, hbegins₁, hposition', hnew, hdecls⟩ :=
      run_registerConstructor hfirst hbegins hposition
    obtain ⟨hspared', new', hbegins', hnew', hdecls'⟩ :=
      run_foldlM_registerConstructor hrest hbegins₁ hposition'
    refine ⟨trans_of _ hspared hspared', new ++ new', by rwa [← List.append_assoc], ?_, ?_⟩
    · exact fun e he => (List.mem_append.mp he).elim (hnew e) (hnew' e)
    · rw [List.map_append, hdecls, hdecls', ← List.map_append, ← List.filter_append]
      rfl

/-! ### Constructors of a wrapper class -/

theorem isConstruction_of_wrapperConstructors {wrapper : String}
    (h : s.wrapperConstructors cls wrapper ctors = .ok kinds) :
    ∀ kind ∈ kinds, kind.isConstruction := by
  obtain ⟨isNoncopyable, -, h⟩ := Except.bind_eq_ok.mp h
  cases h
  simp only [List.mem_append, List.mem_map]
  rintro kind ((hkind | ⟨c, -, rfl⟩) | hkind)
  · split at hkind
    · exact List.mem_singleton.mp hkind ▸ rfl
    · cases hkind
  · rfl
  · split at hkind
    · exact List.mem_singleton.mp hkind ▸ rfl
    · cases hkind

/-- Constructors come one behind the other into the wrapper class. -/
theorem run_placeConstructors {p : NodeId} : ∀ {kinds : List NodeKind} {b b' : Binder} {u : PUnit}
    (entries : List (NodeKind × Option DeclId)), (∀ kind ∈ kinds, kind.isConstruction) →
    ((kinds.zipIdx entries.length).forM fun (kind, i) => do
      let _ ← placeAt p i kind (some cls)).run b = .ok (u, b') →
    b.tree.BeginsWith p entries →
    b'.tree.BeginsWith p (entries ++ kinds.map fun kind => (kind, some cls))
  | [], b, b', _, _, _, h, hbegins => by
    obtain ⟨-, rfl⟩ := run_pure_eq_ok.mp h
    rwa [List.map_nil, List.append_nil]
  | kind :: kinds, b, b', u, entries, hkinds, h, hbegins => by
    rw [List.zipIdx_cons] at h
    obtain ⟨v, b₁, hfirst, hrest⟩ := run_bind_eq_ok.mp h
    obtain ⟨n, b₂, hplace, hpure⟩ := run_bind_eq_ok.mp hfirst
    obtain ⟨-, rfl⟩ := run_pure_eq_ok.mp hpure
    obtain ⟨rfl, t, ht, rfl⟩ := placeAt_ok hplace
    have hinserted := hbegins.insert (hkinds kind List.mem_cons_self) (placedAs_of_adoptAt ht)
    have hlength : (entries ++ [(kind, some cls)]).length = entries.length + 1 :=
      List.length_append
    rw [← hlength] at hrest
    have hplaced := run_placeConstructors _ (fun k hk => hkinds k (List.mem_cons_of_mem kind hk))
      hrest hinserted
    rwa [List.append_assoc] at hplaced

/-! ### All constructors -/

/-- No object can be made of the class in Python: it is abstract, and has no wrapper class. -/
def isHidden (s : BindingSetup) (b : Binder) (cls : DeclId) : Bool :=
  s.graph.isAbstract cls && (b.wrapper? cls).isNone

/-- The registration of a class begins with the constructors of the class that have parameters and
call policies, in the order of its members; if it is hidden, with none. -/
structure Exposes (s : BindingSetup) (cls : DeclId) (hidden : Bool)
    (entries : List (NodeKind × Option DeclId)) : Prop where
  constructors : ∀ e ∈ entries, ∃ k, e.1 = .constructor k
  decls : ∃ ctors, s.callableConstructors cls = .ok ctors ∧ entries.map (·.2) =
    if hidden then [] else
      ((ctors.filter fun ctor => !ctor.2.args.isEmpty).filter s.hasPolicy).map (some ·.1)

/-- The wrapper class begins with the constructors that it gets for those of the class. -/
def Forwards (s : BindingSetup) (cls : DeclId) (w : WrapperClass) (t : CodeTree) : Prop :=
  ∃ ctors kinds, s.callableConstructors cls = .ok ctors ∧
    s.wrapperConstructors cls w.name ctors = .ok kinds ∧
    t.BeginsWith w.node (kinds.map fun kind => (kind, some cls))

/-- A node where constructors of the class come: its registration, or its wrapper class. -/
def Receives (b : Binder) (cls : DeclId) (node q : NodeId) : Prop :=
  q = node ∨ ∃ w, b.wrapper? cls = some w ∧ q = w.node

/-- The constructors of a class have come, and other nodes are as they were. -/
structure Constructs (s : BindingSetup) (cls : DeclId) (node : NodeId) (b b' : Binder) : Prop where
  spares : Spares (Receives b cls node) b b'
  exposes : ∃ entries, s.Exposes cls (s.isHidden b cls) entries ∧ b'.tree.BeginsWith node entries
  forwards : ∀ w, b.wrapper? cls = some w → b.tree.BeginsWith w.node [] →
    s.Forwards cls w b'.tree

theorem Forwards.steady {t t' : CodeTree} (h : s.Forwards cls w t) (hsteady : Steady t t' w.node) :
    s.Forwards cls w t' := by
  obtain ⟨ctors, kinds, hctors, hkinds, hbegins⟩ := h
  exact ⟨ctors, kinds, hctors, hkinds, hsteady.begins _ hbegins⟩

theorem Constructs.trans_spares (h : s.Constructs cls node b b')
    (hspares : Spares (fun _ => False) b' b'') : s.Constructs cls node b b'' where
  spares := trans_of _ h.spares (hspares.mono fun _ => False.elim)
  exposes := by
    obtain ⟨entries, hexposes, hbegins⟩ := h.exposes
    exact ⟨entries, hexposes, (hspares.steady node id).begins _ hbegins⟩
  forwards w hw hbegins := (h.forwards w hw hbegins).steady (hspares.steady w.node id)

/-- A wrapper class without constructors gets those for a class. -/
theorem run_wrapperConstructors (hok : s.callableConstructors cls = .ok ctors)
    (hkinds : s.wrapperConstructors cls w.name ctors = .ok kinds)
    (h : (kinds.zipIdx.forM fun (kind, i) => do
      let _ ← placeAt w.node i kind (some cls)).run b = .ok (u, b')) :
    Spares (· = w.node) b b' ∧ (b.tree.BeginsWith w.node [] → s.Forwards cls w b'.tree) := by
  have hconstruct := isConstruction_of_wrapperConstructors hkinds
  refine ⟨Moves.forM _ (fun q hq => ?_) _ _ _ h, fun hbegins => ?_⟩
  · obtain ⟨kind, i⟩ := q
    have hkind := hconstruct kind (List.fst_mem_of_mem_zipIdx hq)
    refine (spares_placeAt (fun r hr => ?_) (by rfl)).bind fun _ => Moves.pure _
    rw [hr] at hkind
    cases hkind
  · exact ⟨ctors, kinds, hok, hkinds, run_placeConstructors [] hconstruct h hbegins⟩

/-- **With what the registration of a class begins, and with what its wrapper class does.** -/
theorem constructs_registerConstructors (h : (s.registerConstructors cls node).run b = .ok (u, b'))
    (hnode : b.tree.BeginsWith node [])
    (hwrapper : ∀ w, b.wrapper? cls = some w → w.node ≠ node) :
    s.Constructs cls node b b' := by
  unfold registerConstructors at h
  obtain ⟨b₁, b₂, hget, h⟩ := run_bind_eq_ok.mp h
  obtain ⟨rfl, rfl⟩ := run_get_eq_ok.mp hget
  obtain ⟨ctors, b₂, hctors, h⟩ := run_bind_eq_ok.mp h
  obtain ⟨hok, rfl⟩ := run_lift_missing_eq_ok.mp hctors
  extract_lets fill withArgs at h
  have hfill : ∀ b₂ u b', Spares (· = node) b b₂ → (fill ()).run b₂ = .ok (u, b') →
      Spares (∃ w, b.wrapper? cls = some w ∧ · = w.node) b₂ b' ∧
        ∀ w, b.wrapper? cls = some w → b.tree.BeginsWith w.node [] →
          s.Forwards cls w b'.tree := by
    intro b₂ u b' hspared h
    unfold fill at h
    split at h
    · next w hw =>
      obtain ⟨kinds, b₃, hlift, h⟩ := run_bind_eq_ok.mp h
      obtain ⟨hkinds, rfl⟩ := run_lift_missing_eq_ok.mp hlift
      obtain ⟨hspares, hforwards⟩ := run_wrapperConstructors hok hkinds h
      refine ⟨hspares.mono fun q hq => ⟨w, hw, hq⟩, fun w' hw' hbegins => ?_⟩
      obtain rfl := Option.some.inj (hw.symm.trans hw')
      exact hforwards ((hspared.steady w.node (hwrapper w hw)).begins [] hbegins)
    · next hnone =>
      obtain ⟨-, rfl⟩ := run_pure_eq_ok.mp h
      exact ⟨refl_of (Spares _) _, fun w hw => absurd hw (hnone w)⟩
  -- the constructors of the class have come, and those of its wrapper class follow
  have hend : ∀ b₂ entries, Spares (· = node) b b₂ → s.Exposes cls (s.isHidden b cls) entries →
      b₂.tree.BeginsWith node entries → (fill ()).run b₂ = .ok (u, b') →
      s.Constructs cls node b b' := by
    intro b₂ entries hspared hexposes hbegins h
    obtain ⟨hfilled, hforwards⟩ := hfill b₂ u b' hspared h
    have hsteady := hfilled.steady node fun ⟨w, hw, heq⟩ => hwrapper w hw heq.symm
    exact ⟨trans_of _ (hspared.mono fun _ => .inl) (hfilled.mono fun _ => .inr),
      ⟨entries, hexposes, hsteady.begins _ hbegins⟩, hforwards⟩
  split at h
  · next hhidden =>
    refine hend _ [] (refl_of _ _) ⟨fun _ he => (nomatch he), ctors, hok, ?_⟩ hnode h
    rw [if_pos (show s.isHidden b cls = true from hhidden)]
    rfl
  · next hhidden =>
    obtain ⟨next, b₂, hfold, h⟩ := run_bind_eq_ok.mp h
    obtain ⟨hspared, new, hbegins, hnew, hdecls⟩ := run_foldlM_registerConstructor hfold hnode rfl
    refine hend b₂ new hspared ⟨hnew, ctors, hok, ?_⟩ hbegins h
    rw [if_neg (show ¬ s.isHidden b cls = true from hhidden)]
    exact hdecls

/-- What comes behind the constructors of a class leaves them in front. -/
theorem constructs_finishClass (h : (s.finishClass cls node).run b = .ok (u, b'))
    (hnode : b.tree.BeginsWith node [])
    (hwrapper : ∀ w, b.wrapper? cls = some w → w.node ≠ node) :
    s.Constructs cls node b b' := by
  unfold finishClass at h
  obtain ⟨v, b₁, hconstructors, h⟩ := run_bind_eq_ok.mp h
  refine (constructs_registerConstructors hconstructors hnode hwrapper).trans_spares ?_
  refine (?_ : Moves (Spares fun _ => False) _) _ _ _ h
  refine (spares_of_aside (aside_takeStatic node)).bind fun names => ?_
  refine Moves.bind (Moves.forIn (fun name _ => ?_) _ _) fun _ => spares_addCustomTexts _ _ _
  exact (spares_place rfl).bind fun _ => Moves.pure _

end BindingSetup

end Bindery
