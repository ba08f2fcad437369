import Bindery.Proofs.Code.FreshText

/-!
# Remembered texts are up to date

A tree is coherent when every remembered text is the one that would be written now.  Rendering a
coherent tree gives the text as the tree stands and keeps the tree coherent.

## Main definitions

* `CodeTree.Coherent` — every remembered text is up to date.
* `CodeTree.Unwritten` — no text is remembered.

## Main results

* `Coherent.render` — **rendering gives the text that the tree without remembered texts gives.**
-/

namespace Bindery.CodeTree

variable {t t' : CodeTree} {id p c q : NodeId}

/-- Every remembered text is the text of its node as the tree stands. -/
def Coherent (t : CodeTree) : Prop :=
  ∀ id text, t.remembered? id = some text → t.freshText id = text

/-! ### Forgetting -/

theorem remembered?_forgetAll (t : CodeTree) (q : NodeId) : t.forgetAll.remembered? q = none := by
  unfold remembered?
  rw [get?_forgetAll]
  cases t.get? q <;> rfl

theorem remembered?_forget (t : CodeTree) (id q : NodeId) :
    (t.forget id).remembered? q = if id = q then none else t.remembered? q := by
  unfold remembered? forget
  rw [get?_modify]
  split
  · cases t.get? q <;> rfl
  · rfl

theorem remembered?_forgetEach (t : CodeTree) (ids : List NodeId) (q : NodeId) :
    (t.forgetEach ids).remembered? q = if q ∈ ids then none else t.remembered? q := by
  unfold forgetEach
  induction ids generalizing t with
  | nil => simp
  | cons id ids ih =>
    rw [List.foldl_cons, ih, remembered?_forget]
    by_cases hids : q ∈ ids
    · simp [hids]
    · by_cases hid : id = q
      · simp [hid]
      · simp [hids, hid, Ne.symm hid]

theorem coherent_forgetAll (t : CodeTree) : t.forgetAll.Coherent := by
  intro id text h
  rw [remembered?_forgetAll] at h
  cases h

/-- Nothing has been written, or all has been forgotten. -/
def Unwritten (t : CodeTree) : Prop := ∀ q, t.remembered? q = none

theorem Unwritten.coherent (h : t.Unwritten) : t.Coherent := by
  intro id text hid
  rw [h] at hid
  cases hid

theorem Unwritten.congr (h : t.Unwritten) (heq : t'.remembered? = t.remembered?) : t'.Unwritten :=
  fun q => (congrFun heq q).trans (h q)

theorem Unwritten.create (h : t.Unwritten) (kind : NodeKind) (decl : Option DeclId) :
    (t.create kind decl).2.Unwritten := by
  intro q
  unfold remembered?
  rw [get?_create]
  split
  · rfl
  · exact h q

theorem Unwritten.forgetEach (h : t.Unwritten) (ids : List NodeId) :
    (t.forgetEach ids).Unwritten := by
  intro q
  rw [remembered?_forgetEach, h, ite_self]

theorem Unwritten.forgetAround (h : t.Unwritten) (p c : NodeId) :
    (t.forgetAround p c).Unwritten := by
  unfold CodeTree.forgetAround
  split
  · exact remembered?_forgetAll t
  · exact (h.forgetEach _).forgetEach _

theorem Unwritten.replaced (h : t.Unwritten) (id : NodeId) (kind : NodeKind) :
    (t.replaced id kind).Unwritten :=
  (h.forgetEach _).congr (remembered?_modify fun _ => rfl)

/-- What is still remembered behind the coming or going of a child. -/
theorem remembered?_forgetAround (hw : t.WellFormed) {text : String}
    (h : (t.forgetAround p c).remembered? q = some text) :
    t.remembered? q = some text ∧ (t.kind? c).bind (·.alias?) = none ∧
      c ∉ q :: t.ancestors q ∧ q ∉ p :: t.ancestors p := by
  unfold forgetAround at h
  split at h
  · rw [remembered?_forgetAll] at h
    cases h
  · -- the child is no alias, so that only what is below it and above `p` is forgotten
    next halias =>
    have hdown : (t.forgetDown c).ancestors = t.ancestors := by
      have ha := Alike.of_forgetAll (forgetAll_forgetDown t c)
      exact ancestors_congr ha.parent ha.size
    unfold forgetUp at h
    rw [remembered?_forgetEach, hdown] at h
    split at h
    · cases h
    · next hp =>
      unfold forgetDown at h
      rw [remembered?_forgetEach] at h
      split at h
      · cases h
      · next hc =>
        refine ⟨h, ?_, ?_, hp⟩
        · cases hk : t.kind? c with
          | none => rfl
          | some kind =>
            cases kind with
            | namespaceAlias a => exact absurd hk (halias a)
            | _ => rfl
        · intro hmem
          rw [hw.mem_descendants_iff] at hc
          exact hc ((List.mem_cons.mp hmem).imp_left Eq.symm)

/-! ### Rendering -/

theorem remembered?_remember (t : CodeTree) (id q : NodeId) (text : String) :
    (t.remember id text).remembered? q =
      if id = q then (t.get? q).map fun _ => text else t.remembered? q := by
  unfold remembered? remember
  rw [get?_modify]
  split
  · cases t.get? q <;> rfl
  · rfl

@[simp] theorem forgetAll_remember (t : CodeTree) (id : NodeId) (text : String) :
    (t.remember id text).forgetAll = t.forgetAll := forgetAll_modify fun _ => rfl

/-- Remembering the text as the tree stands keeps the tree coherent. -/
theorem Coherent.remember (h : t.Coherent) (hw : t.WellFormed) (id : NodeId) :
    (t.remember id (t.freshText id)).Coherent := by
  intro q text hq
  rw [(Alike.of_forgetAll (forgetAll_remember t id _)).freshText hw]
  rw [remembered?_remember] at hq
  split at hq
  · next hid =>
    obtain ⟨n, -, rfl⟩ := Option.map_eq_some_iff.mp hq
    rw [hid]
  · exact h q text hq

/-- What a rendering with the given bound does to coherent trees. -/
def Renders (fuel : Nat) : Prop :=
  ∀ (t : CodeTree) (id : NodeId), t.WellFormed → t.Coherent →
    t.size ≤ fuel + (t.ancestors id).length →
    ∃ t', (renderWithin fuel id).run t = (t.freshText id, t') ∧ t'.forgetAll = t.forgetAll ∧
      t'.Coherent

/-- The children of a node are written one after the other. -/
private theorem filterMapM_render {fuel : Nat} (hrender : Renders fuel) (hw : t.WellFormed) :
    ∀ (cs : List NodeId) (s : CodeTree), s.forgetAll = t.forgetAll → s.Coherent →
      (∀ c ∈ cs, t.size ≤ fuel + (t.ancestors c).length) →
      ∃ s', (cs.filterMapM fun c => do
          return t.childText? c (← renderWithin fuel c) : StateM CodeTree _).run s =
            (cs.filterMap fun c => t.childText? c (t.freshText c), s') ∧
        s'.forgetAll = t.forgetAll ∧ s'.Coherent := by
  intro cs
  induction cs with
  | nil => exact fun s hs hco _ => ⟨s, rfl, hs, hco⟩
  | cons c cs ih =>
    intro s hs hco hfuel
    -- the tree so far remembers more than `t`, but writes the same
    have halike := Alike.of_forgetAll hs
    obtain ⟨s₁, hrun, hs₁, hco₁⟩ := hrender s c (hw.congr halike.parent halike.children) hco
      (by rw [halike.size, ancestors_congr halike.parent halike.size]
          exact hfuel c List.mem_cons_self)
    obtain ⟨s₂, hrest, hs₂, hco₂⟩ := ih s₁ (hs₁.trans hs) hco₁
      fun d hd => hfuel d (List.mem_cons_of_mem c hd)
    refine ⟨s₂, ?_, hs₂, hco₂⟩
    rw [halike.freshText hw] at hrun
    rw [List.filterMapM_cons, List.filterMap_cons]
    have hstep : ((do return t.childText? c (← renderWithin fuel c) : StateM CodeTree _).run s) =
        (t.childText? c (t.freshText c), s₁) := by
      show ((renderWithin fuel c).run s >>= fun x => (pure (t.childText? c x.1, x.2) : Id _)) = _
      rw [hrun]
      rfl
    rw [StateT.run_bind, hstep]
    cases t.childText? c (t.freshText c) with
    | none => exact hrest
    | some child =>
      show ((cs.filterMapM fun c => do
          return t.childText? c (← renderWithin fuel c) : StateM CodeTree _).run s₁ >>=
            fun x => (pure (child :: x.1, x.2) : Id _)) = _
      rw [hrest]
      rfl

/-- The text of a node around the texts of its children. -/
theorem WellFormed.freshText_of_kind? (hw : t.WellFormed) {kind : NodeKind}
    (hk : t.kind? id = some kind) : t.freshText id =
      kind.text (t.libraryName id)
        ((t.writtenChildren id kind).filterMap fun c => t.childText? c (t.freshText c)) := by
  unfold freshText
  rw [freshTextWithin, hk]
  simp only
  congr 1
  apply List.filterMap_congr
  intro c _
  rw [hw.freshTextWithin_eq_freshText (by omega), freshText]

theorem run_renderWithin_of_none {fuel : Nat} (h : t.get? id = none) :
    (renderWithin (fuel + 1) id).run t = ("", t) := by
  rw [renderWithin, StateT.run_bind, StateT.run_get, pure_bind]
  split
  · exact StateT.run_pure "" t
  · next n hn => rw [h] at hn; cases hn

theorem run_renderWithin_of_cache {fuel : Nat} {n : CodeNode} {text : String}
    (h : t.get? id = some n) (hcache : n.cache = some text) :
    (renderWithin (fuel + 1) id).run t = (text, t) := by
  rw [renderWithin, StateT.run_bind, StateT.run_get, pure_bind]
  split
  · next hn => rw [h] at hn; cases hn
  · next m hm =>
    obtain rfl : n = m := Option.some.inj (h.symm.trans hm)
    split
    · next text' htext =>
      obtain rfl : text = text' := Option.some.inj (hcache.symm.trans htext)
      exact StateT.run_pure text t
    · next htext => rw [hcache] at htext; cases htext

theorem run_renderWithin {fuel : Nat} {n : CodeNode} {s : CodeTree} {children : List ChildText}
    (h : t.get? id = some n) (hcache : n.cache = none)
    (hrun : ((t.writtenChildren id n.kind).filterMapM fun c => do
      return t.childText? c (← renderWithin fuel c) : StateM CodeTree _).run t = (children, s)) :
    (renderWithin (fuel + 1) id).run t =
      (n.kind.text (t.libraryName id) children,
        s.remember id (n.kind.text (t.libraryName id) children)) := by
  rw [renderWithin, StateT.run_bind, StateT.run_get, pure_bind]
  split
  · next hn => rw [h] at hn; cases hn
  · next m hm =>
    obtain rfl : n = m := Option.some.inj (h.symm.trans hm)
    split
    · next text htext => rw [hcache] at htext; cases htext
    · rw [StateT.run_bind, hrun]
      rfl

/-- Rendering gives fresh texts: by induction on the bound, which reaches the deepest nodes. -/
theorem renders (fuel : Nat) : Renders fuel := by
  induction fuel with
  | zero =>
    intro t id hw hco hfuel
    refine ⟨t, ?_, rfl, hco⟩
    rw [← hw.freshTextWithin_eq_freshText hfuel, freshTextWithin, renderWithin, StateT.run_pure]
    rfl
  | succ fuel ih =>
    intro t id hw hco hfuel
    cases hn : t.get? id with
    | none =>
      have hk : t.kind? id = none := by simp [kind?, hn]
      refine ⟨t, ?_, rfl, hco⟩
      rw [freshText, freshTextWithin_of_kind?_eq_none hk, run_renderWithin_of_none hn]
    | some n =>
      have hk : t.kind? id = some n.kind := by simp [kind?, hn]
      cases hcache : n.cache with
      | some text =>
        have htext := hco id text (by simp [remembered?, hn, hcache])
        exact ⟨t, by rw [run_renderWithin_of_cache hn hcache, htext], rfl, hco⟩
      | none =>
        -- a child stands one deeper, which is what the smaller bound allows for
        have hchildren : ∀ c ∈ t.writtenChildren id n.kind,
            t.size ≤ fuel + (t.ancestors c).length := by
          intro c hc
          rw [hw.ancestors_child (mem_children_of_mem_writtenChildren hc), List.length_cons]
          omega
        obtain ⟨s, hrun, hs, hcos⟩ := filterMapM_render ih hw _ t rfl hco hchildren
        have halike := Alike.of_forgetAll hs
        have hws := hw.congr halike.parent halike.children
        refine ⟨s.remember id (t.freshText id), ?_, by rw [forgetAll_remember, hs], ?_⟩
        · rw [run_renderWithin hn hcache hrun, hw.freshText_of_kind? hk]
        · rw [← halike.freshText hw]
          exact hcos.remember hws id

/-- **Rendering a node of a coherent tree gives its text as the tree stands, and keeps the tree
coherent.** -/
theorem Coherent.render (hco : t.Coherent) (hw : t.WellFormed) (id : NodeId) :
    (t.render id).1 = t.freshText id ∧ (t.render id).2.forgetAll = t.forgetAll ∧
      (t.render id).2.Coherent := by
  obtain ⟨s, hrun, hs, hcos⟩ := renders (t.size + 1) t id hw hco (by omega)
  rw [CodeTree.render, hrun]
  exact ⟨rfl, hs, hcos⟩

end Bindery.CodeTree
