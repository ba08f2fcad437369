import Bindery.Proofs.Code.Coherence

/-!
# Runs of edits

A tree begins with one node and is changed by edits, between which texts may be asked for.  Every
edit forgets the texts that it may have changed, with one exception: what a node writes can be
replaced by, or instead of, a namespace alias.  The names below the siblings behind the node then
change, but only the texts of the node and of what is above it are forgotten.

## Main definitions

* `CodeTree.Edit`, `Edit.apply`, `CodeTree.applyAll` — edits and their runs.
* `Edit.Harmless` — the edit replaces no alias to which a text remembered behind it owes a name.
* `CodeTree.Sound` — well-formed and coherent.

## Main results

* `Sound.apply` — harmless edits keep a tree sound.
* `render_applyAll_iff` — **the texts asked for during a run are those of a tree without memory,
  exactly when all its edits are harmless.**
* `render_applyAll_stale` — after the replacement of an alias a text may be out of date.
-/

namespace Bindery.CodeTree

variable {t t' u : CodeTree} {id p c q : NodeId}

/-- A change of a tree, or a request for a text, which is then remembered. -/
inductive Edit
  | create (kind : NodeKind) (decl : Option DeclId)
  | adopt (parent child : NodeId)
  | adoptAt (parent child : NodeId) (position : Nat)
  | remove (parent child : NodeId)
  | moveTo (parent child : NodeId) (position : Nat)
  | addHeader (id : NodeId) (header : String)
  | replaceKind (id : NodeId) (kind : NodeKind)
  | render (id : NodeId)
  deriving DecidableEq, Repr

/-- The tree behind an edit.  An edit that fails changes nothing, except that a move may take the
node from its parent before it fails. -/
def Edit.apply (t : CodeTree) : Edit → CodeTree
  | create kind decl => (t.create kind decl).2
  | adopt p c => (t.adopt p c).toOption.getD t
  | adoptAt p c position => (t.adoptAt p c position).toOption.getD t
  | remove p c => (t.remove p c).toOption.getD t
  | moveTo p c position => (t.moveTo p c position).2
  | addHeader id header => (t.addHeader id header).toOption.getD t
  | replaceKind id kind => (t.replaceKind id kind).toOption.getD t
  | render id => (t.render id).2

/-- The tree behind a run of edits. -/
def applyAll (t : CodeTree) (edits : List Edit) : CodeTree := edits.foldl Edit.apply t

/-- What is remembered at the siblings behind a node, or below them, is right in another tree. -/
def RightBehind (t : CodeTree) (id : NodeId) (t' : CodeTree) : Prop :=
  ∀ p y q text, Before (t.children p) id y → y ∈ q :: t.ancestors q →
    t.remembered? q = some text → t'.freshText q = text

/-- An edit is harmless unless it makes a node define another alias, or an alias where it defined
none, or none where it defined one, and so changes texts that are remembered behind the node. -/
def Edit.Harmless (t : CodeTree) : Edit → Prop
  | replaceKind id kind =>
    (t.kind? id).bind (·.alias?) = kind.alias? ∨
      t.RightBehind id ((replaceKind id kind).apply t)
  | _ => True

/-- Every edit of a run is harmless where it is made. -/
def AllHarmless : CodeTree → List Edit → Prop
  | _, [] => True
  | t, e :: edits => e.Harmless t ∧ AllHarmless (e.apply t) edits

/-- A tree that hangs together and has no remembered text that is out of date. -/
structure Sound (t : CodeTree) : Prop where
  wellFormed : t.WellFormed
  coherent : t.Coherent

/-! ### Single edits -/

theorem sound_ofKind (kind : NodeKind) : (ofKind kind).Sound where
  wellFormed := wellFormed_empty.create kind none
  coherent := by
    intro id text h
    unfold ofKind remembered? at h
    rw [get?_create] at h
    split at h
    · cases h
    · cases h

theorem Sound.create (h : t.Sound) (kind : NodeKind) (decl : Option DeclId) :
    (t.create kind decl).2.Sound where
  wellFormed := h.wellFormed.create kind decl
  coherent := by
    intro q text hq
    unfold remembered? at hq
    rw [get?_create] at hq
    split at hq
    · cases hq
    · -- a text is remembered of a node that was there before only
      have hlt : q < t.size := by
        by_contra hge
        rw [get?_eq_none_iff.mpr (Nat.not_lt.mp hge)] at hq
        cases hq
      rw [h.wellFormed.freshText_create kind decl hlt]
      exact h.coherent q text hq

theorem Sound.adoptAt {position : Nat} (h : t.Sound) (hok : t.adoptAt p c position = .ok t') :
    t'.Sound := by
  obtain ⟨-, hne, hnot, u, hlinked, hremembered, rfl⟩ := adoptAt_ok hok
  have hw := h.wellFormed
  have hwu := hlinked.wellFormed hw hne hnot
  have halike := Alike.of_forgetAll (forgetAll_forgetAround u p c)
  refine ⟨hwu.congr halike.parent halike.children, fun q text hq => ?_⟩
  -- what is still remembered is neither below the child nor above its parent
  obtain ⟨hq, halias, hc, hp⟩ := remembered?_forgetAround hwu hq
  rw [hremembered] at hq
  rw [hlinked.kind] at halias
  have hcq : c ∉ q :: t.ancestors q := fun hmem => hc (hlinked.mem_ancestors hw hwu hmem)
  have hcp : c ∉ p :: t.ancestors p := fun hmem => (List.mem_cons.mp hmem).elim hne hnot
  rw [hlinked.ancestors_of_not_mem hw hwu hcp] at hp
  rw [halike.freshText hwu, hlinked.freshText hw hwu halias hcq hp]
  exact h.coherent q text hq

theorem Sound.remove (h : t.Sound) (hok : t.remove p c = .ok t') : t'.Sound := by
  have hw := h.wellFormed
  -- read backwards, a removal is an adoption
  obtain ⟨u, front, back, hlinked, hremembered, rfl⟩ := remove_ok hw hok
  have hwu := hlinked.wellFormed_back hw
  have halike := Alike.of_forgetAll (forgetAll_forgetAround u p c)
  refine ⟨hwu.congr halike.parent halike.children, fun q text hq => ?_⟩
  obtain ⟨hq, halias, hc, hp⟩ := remembered?_forgetAround hwu hq
  rw [hremembered] at hq
  rw [halike.freshText hwu, ← hlinked.freshText hwu hw halias hc hp]
  exact h.coherent q text hq

theorem Sound.detach (h : t.Sound) (hok : t.detach c = .ok t') : t'.Sound := by
  simp only [CodeTree.detach, Except.bind_eq_ok] at hok
  obtain ⟨n, -, hok⟩ := hok
  split at hok
  · exact h.remove hok
  · rw [Except.pure_eq_ok] at hok
    exact hok ▸ h

theorem Sound.moveTo (h : t.Sound) (p c : NodeId) (position : Nat) :
    (t.moveTo p c position).2.Sound := by
  unfold CodeTree.moveTo
  split
  · exact h
  · next s hs =>
    have h := h.detach hs
    split
    · exact h
    · next s' hs' => exact h.adoptAt hs'

theorem Sound.addHeader {header : String} (h : t.Sound) (hok : t.addHeader id header = .ok t') :
    t'.Sound := by
  obtain ⟨hshape, hsize, hremembered⟩ := addHeader_ok hok
  have hw := h.wellFormed
  refine ⟨hw.congr hshape.parent hshape.children, fun q text hq => ?_⟩
  rw [hremembered] at hq
  rw [hw.freshText_of_shape hsize hshape.kind hshape.parent hshape.children]
  exact h.coherent q text hq

theorem remembered?_replaced (t : CodeTree) (id q : NodeId) (kind : NodeKind) :
    (t.replaced id kind).remembered? q =
      if q ∈ id :: t.ancestors id then none else t.remembered? q := by
  unfold replaced
  rw [remembered?_modify]
  · rw [forgetUp, remembered?_forgetEach]
  · exact fun _ => rfl

/-- The replacement of what a node writes changes the texts of the node, of what is above it, and,
where an alias is concerned, of what is behind it. -/
theorem WellFormed.freshText_replaced {kind : NodeKind} {n : CodeNode} (hw : t.WellFormed)
    (hn : t.get? id = some n) (hq : q ∉ id :: t.ancestors id)
    (h : (t.kind? id).bind (·.alias?) = kind.alias? ∨
      ¬ ∃ p y, Before (t.children p) id y ∧ y ∈ q :: t.ancestors q) :
    (t.replaced id kind).freshText q = t.freshText q := by
  have hw' : (t.replaced id kind).WellFormed :=
    hw.congr (parent?_replaced t id kind) (children_replaced t id kind)
  refine freshText_congr hw hw' fun r hr => ?_
  have hrid : id ≠ r := fun hrid => hq (hrid ▸ hr)
  refine ⟨kind?_replaced_of_ne t kind hrid, by rw [children_replaced], ?_⟩
  have hancestors : (t.replaced id kind).ancestors r = t.ancestors r := by
    rw [ancestors_congr (parent?_replaced t id kind) (size_replaced t id kind)]
  refine hw.aliasesInScope_congr hancestors fun x hx p hp => ?_
  rw [aliasesBefore_eq, aliasesBefore_eq, children_replaced]
  congr 1
  apply List.filterMap_congr
  intro z hz
  by_cases hzid : id = z
  · subst hzid
    rw [kind?_replaced_self hn]
    rcases h with halias | hbehind
    · exact halias.symm
    · -- `q` is above or below the sibling `x`, and above it only the ancestors of `id` are
      have hxp := (hw.child p x).mpr hp
      have hidp : id ∈ t.children p := (List.takeWhile_sublist _).subset hz
      have hxq : x ∉ q :: t.ancestors q := fun hxq =>
        hbehind ⟨p, x, Before.of_mem_takeWhile hz hxp, hxq⟩
      have hqx := (hw.above_total hx hr).resolve_left hxq
      rw [hw.ancestors_child hxp, ← hw.ancestors_child hidp] at hqx
      rcases List.mem_cons.mp hqx with rfl | hqx
      · exact absurd List.mem_cons_self hxq
      · exact absurd (List.mem_cons_of_mem id hqx) hq
  · rw [kind?_replaced_of_ne t kind hzid]

theorem Sound.replaceKind {kind : NodeKind} (h : t.Sound)
    (hharmless : (Edit.replaceKind id kind).Harmless t)
    (hok : t.replaceKind id kind = .ok t') : t'.Sound := by
  obtain ⟨⟨n, hn⟩, rfl⟩ := replaceKind_eq_ok.mp hok
  have hw := h.wellFormed
  refine ⟨hw.congr (parent?_replaced t id kind) (children_replaced t id kind), fun q text hq => ?_⟩
  rw [remembered?_replaced] at hq
  split at hq
  · cases hq
  · -- `q` is neither the node nor above it, so that only what is behind the node is in danger
    next hforgotten =>
    have htext := h.coherent q text hq
    rcases hharmless with halias | hright
    · rw [hw.freshText_replaced hn hforgotten (.inl halias), htext]
    · rw [Edit.apply, hok] at hright
      by_cases hbehind : ∃ p y, Before (t.children p) id y ∧ y ∈ q :: t.ancestors q
      · obtain ⟨p, y, hbefore, hy⟩ := hbehind
        exact hright p y q text hbefore hy hq
      · rw [hw.freshText_replaced hn hforgotten (.inr hbehind), htext]

/-! ### Runs -/

theorem Sound.render (h : t.Sound) (id : NodeId) : (t.render id).2.Sound := by
  obtain ⟨-, hforget, hco⟩ := h.coherent.render h.wellFormed id
  have halike := Alike.of_forgetAll hforget
  exact ⟨h.wellFormed.congr halike.parent halike.children, hco⟩

/-- What an edit does where it fails or succeeds. -/
private theorem sound_getD {r : Except TreeError CodeTree} (h : t.Sound)
    (hok : ∀ t', r = .ok t' → t'.Sound) : (r.toOption.getD t).Sound := by
  cases r with
  | error e => exact h
  | ok t' => exact hok t' rfl

/-- **Harmless edits keep a tree sound.** -/
theorem Sound.apply (h : t.Sound) {e : Edit} (he : e.Harmless t) : (e.apply t).Sound := by
  cases e with
  | create kind decl => exact h.create kind decl
  | adopt p c => exact sound_getD h fun _ hok => h.adoptAt hok
  | adoptAt p c position => exact sound_getD h fun _ hok => h.adoptAt hok
  | remove p c => exact sound_getD h fun _ hok => h.remove hok
  | moveTo p c position => exact h.moveTo p c position
  | addHeader id header => exact sound_getD h fun _ hok => h.addHeader hok
  | replaceKind id kind => exact sound_getD h fun _ hok => h.replaceKind he hok
  | render id => exact h.render id

theorem allHarmless_of_append {front back : List Edit} (h : t.AllHarmless (front ++ back)) :
    t.AllHarmless front := by
  induction front generalizing t with
  | nil => trivial
  | cons e front ih => exact ⟨h.1, ih h.2⟩

theorem Sound.applyAll {edits : List Edit} (h : t.Sound) (he : t.AllHarmless edits) :
    (t.applyAll edits).Sound := by
  induction edits generalizing t with
  | nil => exact h
  | cons e edits ih => exact ih (h.apply he.1) he.2

/-- After harmless edits a text is the one that a tree without remembered texts gives. -/
theorem Sound.render_forgetAll (h : t.Sound) (id : NodeId) :
    (t.render id).1 = (t.forgetAll.render id).1 := by
  have halike := alike_forgetAll t
  have hw := h.wellFormed.congr halike.parent halike.children
  rw [(h.coherent.render h.wellFormed id).1, ((coherent_forgetAll t).render hw id).1,
    halike.freshText h.wellFormed]

/-- A tree is coherent if every text asked for is the one of a tree without remembered texts. -/
theorem WellFormed.coherent_of_render (hw : t.WellFormed)
    (h : ∀ id, (t.render id).1 = (t.forgetAll.render id).1) : t.Coherent := by
  intro id text hid
  have halike := alike_forgetAll t
  have hw' := hw.congr halike.parent halike.children
  obtain ⟨n, hn, hcache⟩ := Option.bind_eq_some_iff.mp hid
  have hrender := h id
  rw [CodeTree.render, run_renderWithin_of_cache hn hcache,
    ((coherent_forgetAll t).render hw' id).1, halike.freshText hw] at hrender
  exact hrender.symm

/-- What is behind a node is neither the node nor above it. -/
theorem WellFormed.not_mem_of_behind (hw : t.WellFormed) {y : NodeId}
    (hbefore : Before (t.children p) id y) (hy : y ∈ q :: t.ancestors q) :
    q ∉ id :: t.ancestors id := by
  intro hq
  have hid : id ∈ t.children p := hbefore.mem_left
  have hyp : y ∈ t.children p := hbefore.mem_right
  have hne : id ≠ y := hbefore.ne (hw.nodup p)
  -- otherwise `y` would be above its parent
  have hyid : y ∈ t.ancestors id := by
    rcases List.mem_cons.mp hq with rfl | hq
    · exact (List.mem_cons.mp hy).resolve_left (Ne.symm hne)
    · rcases List.mem_cons.mp hy with rfl | hy
      · exact hq
      · exact hw.mem_ancestors_trans hy (List.mem_cons_of_mem id hq)
  have hnodup := (hw.climbs_ancestors y).nodup
  rw [hw.ancestors_child hid, ← hw.ancestors_child hyp] at hyid
  exact (List.nodup_cons.mp hnodup).1 hyid

/-- A replacement behind which all texts asked for are right is harmless. -/
theorem Sound.harmless_replaceKind {kind : NodeKind} (h : t.Sound)
    (hrender : ∀ q, (((Edit.replaceKind id kind).apply t).render q).1 =
      (((Edit.replaceKind id kind).apply t).forgetAll.render q).1) :
    (Edit.replaceKind id kind).Harmless t := by
  have hw := h.wellFormed
  refine .inr fun p y q text hbefore hy hq => ?_
  obtain ⟨m, hm⟩ : ∃ n, t.get? id = some n := by
    have hlt := hw.child_lt hbefore.mem_left
    exact ⟨t.nodes[id], Array.getElem?_eq_getElem hlt⟩
  have happly : (Edit.replaceKind id kind).apply t = t.replaced id kind := by
    rw [Edit.apply, replaceKind_eq_ok.mpr ⟨⟨m, hm⟩, rfl⟩]
    rfl
  rw [happly] at hrender ⊢
  have hw' : (t.replaced id kind).WellFormed :=
    hw.congr (parent?_replaced t id kind) (children_replaced t id kind)
  apply hw'.coherent_of_render hrender q text
  rw [remembered?_replaced, if_neg (hw.not_mem_of_behind hbefore hy), hq]

/-- Edits are harmless exactly when every text asked for on the way is right. -/
theorem Sound.allHarmless_iff {edits : List Edit} (h : t.Sound) :
    t.AllHarmless edits ↔ ∀ front id, front <+: edits →
      ((t.applyAll front).render id).1 = ((t.applyAll front).forgetAll.render id).1 := by
  constructor
  · intro he front id hfront
    obtain ⟨back, rfl⟩ := hfront
    exact (h.applyAll (allHarmless_of_append he)).render_forgetAll id
  · intro hright
    induction edits generalizing t with
    | nil => trivial
    | cons e edits ih =>
      -- the run of the first edit alone shows that it is harmless
      have hfirst : ∀ id, ((e.apply t).render id).1 = ((e.apply t).forgetAll.render id).1 :=
        fun id => hright [e] id (List.prefix_append [e] edits)
      have he : e.Harmless t := by
        cases e with
        | replaceKind id kind => exact h.harmless_replaceKind hfirst
        | _ => trivial
      refine ⟨he, ih (h.apply he) fun front id hfront => ?_⟩
      exact hright (e :: front) id (List.cons_prefix_cons.mpr ⟨rfl, hfront⟩)

/-- **All texts asked for during a run of edits are those of a tree without remembered texts,
exactly when no replacement of a namespace alias has changed a text remembered behind it.** -/
theorem render_applyAll_iff (kind : NodeKind) (edits : List Edit) :
    (∀ front id, front <+: edits →
      (((ofKind kind).applyAll front).render id).1 =
        (((ofKind kind).applyAll front).forgetAll.render id).1) ↔
      (ofKind kind).AllHarmless edits :=
  (sound_ofKind kind).allHarmless_iff.symm

/-- A module with an alias of the binding library and a variable, whose texts are remembered. -/
def Edit.aliasedModule : List Edit :=
  [.create (.namespaceAlias ⟨"bp", bindingLibrary⟩) none, .adopt root 1,
   .create (.globalVariable "a" "::a") none, .adopt root 2, .render root]

/-- The replacement of the alias leaves a text behind it that is out of date. -/
theorem render_applyAll_stale : ∃ edits : List Edit,
    (((ofKind (.module "m")).applyAll edits).render 2).1 = "bp::scope().attr( \"a\" ) = ::a;" ∧
      (((ofKind (.module "m")).applyAll edits).forgetAll.render 2).1 =
        "py::scope().attr( \"a\" ) = ::a;" :=
  ⟨Edit.aliasedModule ++ [.replaceKind 1 (.namespaceAlias ⟨"py", bindingLibrary⟩)],
    by decide +kernel, by decide +kernel⟩

end Bindery.CodeTree
