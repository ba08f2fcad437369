import Bindery.Proofs.Code.Changes

/-!
# What a text is made of when some texts are remembered

Rendering takes a remembered text where there is one, whether or not it is up to date.  Still, what
is remembered of a node was written around the texts that are remembered of its children: every
change that makes the tree forget a text makes it forget the texts around it, too.

## Main definitions

* `CodeTree.shownText` — the text of a node with remembered texts in place of their nodes, written
  without remembering anything.
* `CodeTree.Recalls t s` — `s` is `t` with some more of its texts remembered.
* `CodeTree.Nested spelled t` — every remembered text was written around the remembered texts of
  the children, with names of the library that `spelled` allows.

## Main results

* `WellFormed.render_shows` — **rendering gives the shown text and keeps remembered texts nested.**
* `Nested.change` — so does every change.
* `Nested.render_eq` — a text is made of the texts that its children have.
-/

namespace Bindery.CodeTree

variable {t t' s : CodeTree} {id p c q : NodeId} {spelled : NodeId → LibraryName → Prop}

/-! ### Shown texts -/

/-- The text of a node, looking `fuel` levels down, with remembered texts in place of their
nodes. -/
def shownTextWithin (t : CodeTree) : Nat → NodeId → String
  | 0, _ => ""
  | fuel + 1, id =>
    match t.remembered? id, t.kind? id with
    | some text, _ => text
    | none, none => ""
    | none, some kind =>
      kind.text (t.libraryName id) <| (t.writtenChildren id kind).filterMap fun c =>
        t.childText? c (shownTextWithin t fuel c)

/-- The text of a node with remembered texts in place of their nodes. -/
def shownText (t : CodeTree) (id : NodeId) : String := t.shownTextWithin (t.size + 1) id

theorem shownText_of_remembered? {text : String} (h : t.remembered? id = some text) :
    t.shownText id = text := by
  rw [shownText, shownTextWithin, h]

theorem remembered?_eq_none_of_kind? (h : t.kind? id = none) : t.remembered? id = none := by
  have hnone : t.get? id = none := Option.map_eq_none_iff.mp h
  rw [remembered?, hnone]
  rfl

theorem shownTextWithin_of_kind?_eq_none (h : t.kind? id = none) (fuel : Nat) :
    t.shownTextWithin fuel id = "" := by
  cases fuel with
  | zero => rfl
  | succ fuel => rw [shownTextWithin, remembered?_eq_none_of_kind? h, h]

theorem Alike.libraryName (h : Alike t s) (hw : t.WellFormed) (id : NodeId) :
    s.libraryName id = t.libraryName id := by
  refine libraryName_congr (hw.aliasesInScope_congr (by rw [ancestors_congr h.parent h.size]) ?_)
  intro x _ p _
  rw [aliasesBefore_eq, aliasesBefore_eq, h.kind, h.children]

/-- `s` is `t` with some more of its texts remembered. -/
structure Recalls (t s : CodeTree) : Prop where
  forgetAll : s.forgetAll = t.forgetAll
  kept : ∀ q text, t.remembered? q = some text → s.remembered? q = some text
  shown : ∀ q text, s.remembered? q = some text → t.shownText q = text

theorem Recalls.refl (t : CodeTree) : Recalls t t :=
  ⟨rfl, fun _ _ h => h, fun _ _ => shownText_of_remembered?⟩

theorem Recalls.alike (h : Recalls t s) : Alike t s := .of_forgetAll h.forgetAll

theorem Recalls.wellFormed (h : Recalls t s) (hw : t.WellFormed) : s.WellFormed :=
  hw.congr h.alike.parent h.alike.children

/-- By induction on the bound, which has to reach the deepest nodes.  A text that only the second
tree remembers is the one that the first shows, as far as the bound allows. -/
private theorem shownTextWithin_eq (hw : t.WellFormed) (ha : Alike t s)
    (hkept : ∀ q text, t.remembered? q = some text → s.remembered? q = some text)
    (hshown : ∀ q text fuel, s.remembered? q = some text →
      t.size ≤ fuel + (t.ancestors q).length → t.shownTextWithin fuel q = text) :
    ∀ (fuel fuel' : Nat) (id : NodeId), t.size ≤ fuel + (t.ancestors id).length →
      t.size ≤ fuel' + (t.ancestors id).length →
      s.shownTextWithin fuel id = t.shownTextWithin fuel' id := by
  have hzero : ∀ id, t.size ≤ (t.ancestors id).length → t.kind? id = none := by
    intro id hle
    cases hk : t.kind? id with
    | none => rfl
    | some kind =>
      have := hw.length_lt (hw.climbs_ancestors id) (lt_size_of_kind? hk)
      omega
  have hnone : ∀ id fuel fuel', t.kind? id = none →
      s.shownTextWithin fuel id = t.shownTextWithin fuel' id := by
    intro id fuel fuel' hk
    rw [shownTextWithin_of_kind?_eq_none hk,
      shownTextWithin_of_kind?_eq_none (by rw [ha.kind]; exact hk)]
  intro fuel
  induction fuel with
  | zero => exact fun fuel' id hle _ => hnone id 0 fuel' (hzero id (by omega))
  | succ fuel ih =>
    intro fuel' id hle hle'
    cases fuel' with
    | zero => exact hnone id (fuel + 1) 0 (hzero id (by omega))
    | succ fuel' =>
      cases hs : s.remembered? id with
      | some text => rw [hshown id text (fuel' + 1) hs hle', shownTextWithin, hs]
      | none =>
        have ht : t.remembered? id = none := by
          cases ht : t.remembered? id with
          | none => rfl
          | some text => rw [hkept id text ht] at hs; cases hs
        rw [shownTextWithin, shownTextWithin, hs, ht, ha.kind]
        cases t.kind? id with
        | none => rfl
        | some kind =>
          have hwritten : s.writtenChildren id kind = t.writtenChildren id kind := by
            rw [writtenChildren, ha.children, writtenChildren]
          simp only [hwritten, ha.libraryName hw]
          congr 1
          apply List.filterMap_congr
          intro c hc
          have hc := mem_children_of_mem_writtenChildren hc
          have hlen : (t.ancestors c).length = (t.ancestors id).length + 1 := by
            rw [hw.ancestors_child hc, List.length_cons]
          rw [ih fuel' c (by omega) (by omega), childText?, ha.kind, childText?]

private theorem shownTextWithin_of_remembered? (hw : t.WellFormed) {text : String} {fuel : Nat}
    (h : t.remembered? q = some text) (hle : t.size ≤ fuel + (t.ancestors q).length) :
    t.shownTextWithin fuel q = text := by
  cases fuel with
  | succ fuel => rw [shownTextWithin, h]
  | zero =>
    have hlt : q < t.size := by
      by_contra hge
      rw [remembered?, get?_eq_none_iff.mpr (Nat.not_lt.mp hge)] at h
      cases h
    have := hw.length_lt (hw.climbs_ancestors q) hlt
    omega

/-- A bound that reaches the deepest nodes below a node gives its whole text. -/
theorem WellFormed.shownTextWithin_eq_shownText (hw : t.WellFormed) {fuel : Nat}
    (h : t.size ≤ fuel + (t.ancestors id).length) : t.shownTextWithin fuel id = t.shownText id :=
  shownTextWithin_eq hw (.of_forgetAll rfl) (fun _ _ h => h)
    (fun _ _ _ => shownTextWithin_of_remembered? hw) fuel (t.size + 1) id h (by omega)

/-- **Remembering what is shown changes nothing about what is shown.** -/
theorem Recalls.shownText (h : Recalls t s) (hw : t.WellFormed) (id : NodeId) :
    s.shownText id = t.shownText id := by
  refine shownTextWithin_eq hw h.alike h.kept ?_ (s.size + 1) (t.size + 1) id ?_ (by omega)
  · intro q text fuel hq hle
    rw [hw.shownTextWithin_eq_shownText hle]
    exact h.shown q text hq
  · rw [h.alike.size]
    omega

theorem Recalls.trans {r : CodeTree} (h : Recalls t s) (h' : Recalls s r) (hw : t.WellFormed) :
    Recalls t r where
  forgetAll := h'.forgetAll.trans h.forgetAll
  kept q text hq := h'.kept q text (h.kept q text hq)
  shown q text hq := (h.shownText hw q).symm.trans (h'.shown q text hq)

theorem Recalls.remember (h : Recalls t s) (id : NodeId) :
    Recalls t (s.remember id (t.shownText id)) where
  forgetAll := by rw [forgetAll_remember, h.forgetAll]
  kept q text hq := by
    rw [remembered?_remember]
    split
    · next hid =>
      have hs := h.kept q text hq
      obtain ⟨n, hn, -⟩ := Option.bind_eq_some_iff.mp hs
      rw [hn, hid, shownText_of_remembered? hq]
      rfl
    · exact h.kept q text hq
  shown q text hq := by
    rw [remembered?_remember] at hq
    split at hq
    · next hid =>
      obtain ⟨-, -, rfl⟩ := Option.map_eq_some_iff.mp hq
      rw [hid]
    · exact h.shown q text hq

/-- The text of a node around the shown texts of its children. -/
theorem WellFormed.shownText_of_kind? (hw : t.WellFormed) {kind : NodeKind}
    (hr : t.remembered? id = none) (hk : t.kind? id = some kind) : t.shownText id =
      kind.text (t.libraryName id)
        ((t.writtenChildren id kind).filterMap fun c => t.childText? c (t.shownText c)) := by
  unfold shownText
  rw [shownTextWithin, hr, hk]
  simp only
  congr 1
  apply List.filterMap_congr
  intro c _
  rw [hw.shownTextWithin_eq_shownText (by omega), shownText]

/-! ### Nested texts -/

/-- Every remembered text was written around the remembered texts of the children, which are all
there, with names of the library that are allowed for the node. -/
def Nested (spelled : NodeId → LibraryName → Prop) (t : CodeTree) : Prop :=
  ∀ id kind text, t.kind? id = some kind → t.remembered? id = some text →
    (∀ c ∈ t.writtenChildren id kind, (t.remembered? c).isSome) ∧
      ∃ lib, spelled id lib ∧ text = kind.text lib
        ((t.writtenChildren id kind).filterMap fun c => t.childText? c (t.shownText c))

/-- What is still remembered is nested as before, if the children are remembered as before, too. -/
theorem Nested.kept (h : t.Nested spelled)
    (hkept : ∀ q text, t'.remembered? q = some text → t.remembered? q = some text ∧
      t'.kind? q = t.kind? q ∧ t'.children q = t.children q ∧
      ∀ c ∈ t.children q, t'.remembered? c = t.remembered? c ∧ t'.kind? c = t.kind? c) :
    t'.Nested spelled := by
  intro q kind text hk hq
  obtain ⟨hq, hkind, hchildren, hsame⟩ := hkept q text hq
  obtain ⟨hsome, lib, hlib, htext⟩ := h q kind text (hkind ▸ hk) hq
  have hwritten : t'.writtenChildren q kind = t.writtenChildren q kind := by
    rw [writtenChildren, hchildren, writtenChildren]
  rw [hwritten]
  refine ⟨?_, lib, hlib, ?_⟩
  · intro c hc
    rw [(hsame c (mem_children_of_mem_writtenChildren hc)).1]
    exact hsome c hc
  · rw [htext]
    congr 1
    apply List.filterMap_congr
    intro c hc
    obtain ⟨hr, hkc⟩ := hsame c (mem_children_of_mem_writtenChildren hc)
    obtain ⟨child, hchild⟩ := Option.isSome_iff_exists.mp (hsome c hc)
    rw [shownText_of_remembered? hchild, shownText_of_remembered? (hr.trans hchild), childText?,
      childText?, hkc]

/-- Remembering what is shown of a node keeps texts nested if its children are remembered. -/
theorem Nested.remember (h : s.Nested spelled) (hw : s.WellFormed) {kind : NodeKind}
    (hk : s.kind? id = some kind)
    (hlib : spelled id (s.libraryName id))
    (hchildren : ∀ c ∈ s.writtenChildren id kind, (s.remembered? c).isSome) :
    (s.remember id (s.shownText id)).Nested spelled := by
  have hrecalls := (Recalls.refl s).remember id
  have halike := hrecalls.alike
  have hsome : ∀ c, (s.remembered? c).isSome →
      ((s.remember id (s.shownText id)).remembered? c).isSome := by
    intro c hc
    obtain ⟨text, htext⟩ := Option.isSome_iff_exists.mp hc
    rw [hrecalls.kept c text htext]
    rfl
  intro q kind' text hkq hq
  rw [halike.kind] at hkq
  rw [writtenChildren, halike.children]
  have htexts : ∀ c, (s.remember id (s.shownText id)).childText? c
      ((s.remember id (s.shownText id)).shownText c) = s.childText? c (s.shownText c) := by
    intro c
    rw [hrecalls.shownText hw, childText?, halike.kind, childText?]
  simp only [htexts]
  cases hr : s.remembered? q with
  | some text' =>
    cases (hrecalls.kept q text' hr).symm.trans hq
    obtain ⟨hq', lib, hlib', htext⟩ := h q kind' text hkq hr
    exact ⟨fun c hc => hsome c (hq' c hc), lib, hlib', htext⟩
  | none =>
    rw [remembered?_remember] at hq
    split at hq
    · next hid =>
      subst hid
      obtain ⟨-, -, rfl⟩ := Option.map_eq_some_iff.mp hq
      cases hk.symm.trans hkq
      exact ⟨fun c hc => hsome c (hchildren c hc), _, hlib, hw.shownText_of_kind? hr hk⟩
    · rw [hr] at hq
      cases hq

/-! ### Rendering -/

/-- What a rendering with the given bound does to trees with nested texts. -/
def RendersShown (spelled : NodeId → LibraryName → Prop) (fuel : Nat) : Prop :=
  ∀ (t : CodeTree) (id : NodeId), t.WellFormed → t.Nested spelled →
    (∀ q, spelled q (t.libraryName q)) → t.size ≤ fuel + (t.ancestors id).length →
    ∃ s, (renderWithin fuel id).run t = (t.shownText id, s) ∧ Recalls t s ∧ s.Nested spelled ∧
      (id < t.size → (s.remembered? id).isSome)

/-- The children of a node are written one after the other. -/
private theorem filterMapM_rendersShown {fuel : Nat} (hrenders : RendersShown spelled fuel)
    (hw : t.WellFormed) (hlib : ∀ q, spelled q (t.libraryName q)) :
    ∀ (cs : List NodeId) (s : CodeTree), Recalls t s → s.Nested spelled →
      (∀ c ∈ cs, c < t.size ∧ t.size ≤ fuel + (t.ancestors c).length) →
      ∃ s', (cs.filterMapM fun c => do
          return t.childText? c (← renderWithin fuel c) : StateM CodeTree _).run s =
            (cs.filterMap fun c => t.childText? c (t.shownText c), s') ∧
        Recalls t s' ∧ s'.Nested spelled ∧ (∀ q, (s.remembered? q).isSome →
          (s'.remembered? q).isSome) ∧ ∀ c ∈ cs, (s'.remembered? c).isSome := by
  intro cs
  induction cs with
  | nil => exact fun s hs hn _ => ⟨s, rfl, hs, hn, fun _ h => h, nofun⟩
  | cons c cs ih =>
    intro s hs hn hfuel
    obtain ⟨hlt, hle⟩ := hfuel c List.mem_cons_self
    have halike := hs.alike
    have hws := hs.wellFormed hw
    obtain ⟨s₁, hrun, hs₁, hn₁, hc⟩ := hrenders s c hws hn
      (fun q => by rw [halike.libraryName hw]; exact hlib q)
      (by rw [halike.size, ancestors_congr halike.parent halike.size]; exact hle)
    obtain ⟨s₂, hrest, hs₂, hn₂, hkept, hcs⟩ := ih s₁ (hs.trans hs₁ hw) hn₁
      fun d hd => hfuel d (List.mem_cons_of_mem c hd)
    refine ⟨s₂, ?_, hs₂, hn₂, ?_, ?_⟩
    · rw [hs.shownText hw] at hrun
      have hstep : ((do return t.childText? c (← renderWithin fuel c) : StateM CodeTree _).run s) =
          (t.childText? c (t.shownText c), s₁) := by
        show ((renderWithin fuel c).run s >>= fun x => (pure (t.childText? c x.1, x.2) : Id _)) = _
        rw [hrun]
        rfl
      rw [List.filterMapM_cons, List.filterMap_cons, StateT.run_bind, hstep]
      cases t.childText? c (t.shownText c) with
      | none => exact hrest
      | some child =>
        show ((cs.filterMapM fun c => do
            return t.childText? c (← renderWithin fuel c) : StateM CodeTree _).run s₁ >>=
              fun x => (pure (child :: x.1, x.2) : Id _)) = _
        rw [hrest]
        rfl
    · intro q hq
      obtain ⟨text, htext⟩ := Option.isSome_iff_exists.mp hq
      exact hkept q (Option.isSome_iff_exists.mpr ⟨text, hs₁.kept q text htext⟩)
    · intro d hd
      rcases List.mem_cons.mp hd with rfl | hd
      · exact hkept d (hc (halike.size ▸ hlt))
      · exact hcs d hd

/-- By induction on the bound, which reaches the deepest nodes. -/
theorem rendersShown (fuel : Nat) : RendersShown spelled fuel := by
  induction fuel with
  | zero =>
    intro t id hw hn _ hfuel
    have hge : ¬ id < t.size := by
      intro hlt
      have := hw.length_lt (hw.climbs_ancestors id) hlt
      omega
    refine ⟨t, ?_, .refl t, hn, fun hlt => absurd hlt hge⟩
    rw [← hw.shownTextWithin_eq_shownText hfuel, shownTextWithin, renderWithin, StateT.run_pure]
    rfl
  | succ fuel ih =>
    intro t id hw hn hlib hfuel
    cases hget : t.get? id with
    | none =>
      have hk : t.kind? id = none := by simp [kind?, hget]
      refine ⟨t, ?_, .refl t, hn, fun hlt => ?_⟩
      · rw [shownText, shownTextWithin_of_kind?_eq_none hk, run_renderWithin_of_none hget]
      · exact absurd hlt (Nat.not_lt.mpr (get?_eq_none_iff.mp hget))
    | some n =>
      have hk : t.kind? id = some n.kind := by simp [kind?, hget]
      cases hcache : n.cache with
      | some text =>
        have hr : t.remembered? id = some text := by simp [remembered?, hget, hcache]
        refine ⟨t, ?_, .refl t, hn, fun _ => by rw [hr]; rfl⟩
        rw [run_renderWithin_of_cache hget hcache, shownText_of_remembered? hr]
      | none =>
        have hr : t.remembered? id = none := by simp [remembered?, hget, hcache]
        -- a child stands one deeper, which is what the smaller bound allows for
        have hchildren : ∀ c ∈ t.writtenChildren id n.kind,
            c < t.size ∧ t.size ≤ fuel + (t.ancestors c).length := by
          intro c hc
          have hc := mem_children_of_mem_writtenChildren hc
          refine ⟨hw.child_lt hc, ?_⟩
          rw [hw.ancestors_child hc, List.length_cons]
          omega
        obtain ⟨s, hrun, hs, hns, hkept, hall⟩ :=
          filterMapM_rendersShown ih hw hlib _ t (.refl t) hn hchildren
        have halike := hs.alike
        have htext := hw.shownText_of_kind? hr hk
        refine ⟨s.remember id (t.shownText id), ?_, hs.remember id, ?_, fun hlt => ?_⟩
        · rw [run_renderWithin hget hcache hrun, htext]
        · rw [← hs.shownText hw]
          refine hns.remember (hs.wellFormed hw) (by rw [halike.kind]; exact hk) ?_ ?_
          · rw [halike.libraryName hw]
            exact hlib id
          · rw [writtenChildren, halike.children]
            exact hall
        · rw [remembered?_remember, if_pos rfl]
          have hsome := isSome_kind?_iff.mpr (halike.size ▸ hlt)
          rw [kind?, Option.isSome_map] at hsome
          rw [Option.isSome_map]
          exact hsome

/-- **Rendering gives the shown text and keeps remembered texts nested.** -/
theorem WellFormed.render_shows (hw : t.WellFormed) (hn : t.Nested spelled)
    (hlib : ∀ q, spelled q (t.libraryName q)) (id : NodeId) :
    (t.render id).1 = t.shownText id ∧ Recalls t (t.render id).2 ∧
      (t.render id).2.Nested spelled := by
  obtain ⟨s, hrun, hs, hns, -⟩ := rendersShown (t.size + 1) t id hw hn hlib (by omega)
  rw [CodeTree.render, hrun]
  exact ⟨rfl, hs, hns⟩

/-- **The text of a node is made of the texts that its children have**, with names of the library
that are allowed for the node. -/
theorem WellFormed.render_eq (hw : t.WellFormed) (hn : t.Nested spelled)
    (hlib : ∀ q, spelled q (t.libraryName q)) {kind : NodeKind} (hk : t.kind? id = some kind) :
    ∃ lib, spelled id lib ∧ (t.remembered? id = none → lib = t.libraryName id) ∧
      (t.render id).1 = kind.text lib
        ((t.writtenChildren id kind).filterMap fun c => t.childText? c (t.render c).1) := by
  have hrender : ∀ q, (t.render q).1 = t.shownText q := fun q => (hw.render_shows hn hlib q).1
  simp only [hrender]
  cases hr : t.remembered? id with
  | some text =>
    obtain ⟨-, lib, hspelled, htext⟩ := hn id kind text hk hr
    exact ⟨lib, hspelled, nofun, (shownText_of_remembered? hr).trans htext⟩
  | none => exact ⟨_, hlib id, fun _ => rfl, hw.shownText_of_kind? hr hk⟩

/-! ### Changes -/

theorem nested_ofKind (kind : NodeKind) : (ofKind kind).Nested spelled := by
  intro id kind' text _ h
  have hnone : ∀ q, (ofKind kind).remembered? q = none := by
    intro q
    unfold ofKind remembered?
    rw [get?_create]
    split <;> rfl
  rw [hnone] at h
  cases h

theorem Nested.create (h : t.Nested spelled) (hw : t.WellFormed) (kind : NodeKind)
    (decl : Option DeclId) : (t.create kind decl).2.Nested spelled := by
  have hold : ∀ q, q < t.size → (t.create kind decl).2.remembered? q = t.remembered? q := by
    intro q hq
    rw [remembered?, get?_create, if_neg hq.ne, remembered?]
  refine h.kept fun q text hq => ?_
  have hlt : q < t.size := by
    rw [remembered?, get?_create] at hq
    split at hq
    · cases hq
    · by_contra hge
      rw [get?_eq_none_iff.mpr (Nat.not_lt.mp hge)] at hq
      cases hq
  refine ⟨hold q hlt ▸ hq, kind?_create_of_lt kind decl hlt, by rw [children_create], ?_⟩
  intro c hc
  have hc := hw.child_lt hc
  exact ⟨hold c hc, kind?_create_of_lt kind decl hc⟩

/-- Where a text is still remembered behind the coming or going of a child, the texts of its own
children are remembered as before. -/
theorem remembered?_forgetAround_child (hw : t.WellFormed) {text : String} (hcq : c ∉ t.children q)
    (hq : (t.forgetAround p c).remembered? q = some text) (hd : id ∈ t.children q) :
    (t.forgetAround p c).remembered? id = t.remembered? id := by
  obtain ⟨-, halias, hc, hp⟩ := remembered?_forgetAround hw hq
  have hancestors := hw.ancestors_child hd
  unfold forgetAround
  split
  · next a ha =>
    rw [ha] at halias
    cases halias
  · have hdown : (t.forgetDown c).ancestors = t.ancestors := by
      have ha := Alike.of_forgetAll (forgetAll_forgetDown t c)
      exact ancestors_congr ha.parent ha.size
    unfold forgetUp
    rw [remembered?_forgetEach, hdown, if_neg, forgetDown, remembered?_forgetEach, if_neg]
    · -- the node is not below the child
      rw [hw.mem_descendants_iff, hancestors]
      rintro (rfl | hmem)
      · exact hcq hd
      · exact hc hmem
    · -- nor above the parent, as its own parent would be
      intro hmem
      have hqd : q ∈ t.ancestors id := hancestors ▸ List.mem_cons_self
      exact hp (List.mem_cons_of_mem _ (hw.mem_ancestors_trans hqd hmem))

theorem Nested.adoptAt {position : Nat} (h : t.Nested spelled) (hw : t.WellFormed)
    (hok : t.adoptAt p c position = .ok t') : t'.Nested spelled := by
  obtain ⟨-, hne, hnot, u, hlinked, hremembered, rfl⟩ := adoptAt_ok hok
  have hwu := hlinked.wellFormed hw hne hnot
  have halike := Alike.of_forgetAll (forgetAll_forgetAround u p c)
  refine h.kept fun q text hq => ?_
  obtain ⟨hqu, -, -, hp⟩ := remembered?_forgetAround hwu hq
  have hqp : q ≠ p := fun hqp => hp (hqp ▸ List.mem_cons_self)
  have hchildren : u.children q = t.children q := hlinked.children q hqp
  have hcq : c ∉ u.children q := fun hmem =>
    hqp (Option.some.inj (((hwu.child q c).mp hmem).symm.trans hlinked.adopted))
  refine ⟨hremembered ▸ hqu, by rw [halike.kind, hlinked.kind], by rw [halike.children, hchildren],
    fun d hd => ⟨?_, by rw [halike.kind, hlinked.kind]⟩⟩
  rw [remembered?_forgetAround_child hwu hcq hq (hchildren ▸ hd), hremembered]

theorem Nested.remove (h : t.Nested spelled) (hw : t.WellFormed) (hok : t.remove p c = .ok t') :
    t'.Nested spelled := by
  obtain ⟨u, front, back, hlinked, hremembered, rfl⟩ := remove_ok hw hok
  have hwu := hlinked.wellFormed_back hw
  have halike := Alike.of_forgetAll (forgetAll_forgetAround u p c)
  refine h.kept fun q text hq => ?_
  obtain ⟨hqu, -, -, hp⟩ := remembered?_forgetAround hwu hq
  have hqp : q ≠ p := fun hqp => hp (hqp ▸ List.mem_cons_self)
  have hchildren : u.children q = t.children q := (hlinked.children q hqp).symm
  have hcq : c ∉ u.children q := by
    intro hmem
    have hparent := (hwu.child q c).mp hmem
    rw [hlinked.alone] at hparent
    cases hparent
  refine ⟨hremembered ▸ hqu, by rw [halike.kind, ← hlinked.kind],
    by rw [halike.children, hchildren], fun d hd => ⟨?_, by rw [halike.kind, ← hlinked.kind]⟩⟩
  rw [remembered?_forgetAround_child hwu hcq hq (hchildren ▸ hd), hremembered]

theorem Nested.detach (h : t.Nested spelled) (hw : t.WellFormed) (hok : t.detach c = .ok t') :
    t'.Nested spelled := by
  simp only [CodeTree.detach, Except.bind_eq_ok] at hok
  obtain ⟨n, -, hok⟩ := hok
  split at hok
  · exact h.remove hw hok
  · exact Except.pure_eq_ok.mp hok ▸ h

theorem Nested.moveTo (h : t.Nested spelled) (hw : t.WellFormed) (p c : NodeId) (position : Nat) :
    (t.moveTo p c position).2.Nested spelled := by
  unfold CodeTree.moveTo
  split
  · exact h
  · next s hs =>
    have h := h.detach hw hs
    split
    · exact h
    · next s' hs' => exact h.adoptAt (hw.detach hs) hs'

theorem Nested.addHeader {header : String} (h : t.Nested spelled)
    (hok : t.addHeader id header = .ok t') : t'.Nested spelled := by
  obtain ⟨hshape, -, hremembered⟩ := addHeader_ok hok
  refine h.kept fun q text hq => ⟨hremembered ▸ hq, by rw [hshape.kind], by rw [hshape.children],
    fun d _ => ⟨by rw [hremembered], by rw [hshape.kind]⟩⟩

/-- A replacement forgets the texts of the node and of what is above it. -/
theorem Nested.replaceKind {kind : NodeKind} (h : t.Nested spelled) (hw : t.WellFormed)
    (hok : t.replaceKind id kind = .ok t') : t'.Nested spelled := by
  obtain ⟨-, rfl⟩ := replaceKind_eq_ok.mp hok
  refine h.kept fun q text hq => ?_
  rw [remembered?_replaced] at hq
  split at hq
  · cases hq
  · next hforgotten =>
    have hid : ∀ d, q ∈ d :: t.ancestors d → d ∉ id :: t.ancestors id := by
      intro d hqd hmem
      rcases List.mem_cons.mp hqd with rfl | hqd
      · exact hforgotten hmem
      · exact hforgotten (List.mem_cons_of_mem _ (hw.mem_ancestors_trans hqd hmem))
    have hne : ∀ d, q ∈ d :: t.ancestors d → id ≠ d := by
      rintro d hqd rfl
      exact hid id hqd List.mem_cons_self
    refine ⟨hq, kind?_replaced_of_ne t kind (hne q List.mem_cons_self), by rw [children_replaced],
      fun d hd => ?_⟩
    have hqd : q ∈ d :: t.ancestors d :=
      List.mem_cons_of_mem d (hw.ancestors_child hd ▸ List.mem_cons_self)
    exact ⟨by rw [remembered?_replaced, if_neg (hid d hqd)],
      kind?_replaced_of_ne t kind (hne d hqd)⟩

private theorem nested_getD {r : Except TreeError CodeTree} (h : t.Nested spelled)
    (hok : ∀ t', r = .ok t' → t'.Nested spelled) : (r.toOption.getD t).Nested spelled := by
  cases r with
  | error e => exact h
  | ok t' => exact hok t' rfl

/-- **Every change keeps remembered texts nested.** -/
theorem Nested.change (h : t.Nested spelled) (hw : t.WellFormed)
    (hlib : ∀ q, spelled q (t.libraryName q)) (change : Change) :
    (change.apply t).Nested spelled := by
  cases change with
  | edit e =>
    cases e with
    | create kind decl => exact h.create hw kind decl
    | adopt p c => exact nested_getD h fun _ hok => h.adoptAt hw hok
    | adoptAt p c position => exact nested_getD h fun _ hok => h.adoptAt hw hok
    | remove p c => exact nested_getD h fun _ hok => h.remove hw hok
    | moveTo p c position => exact h.moveTo hw p c position
    | addHeader id header => exact nested_getD h fun _ hok => h.addHeader hok
    | replaceKind id kind => exact nested_getD h fun _ hok => h.replaceKind hw hok
    | render id => exact (hw.render_shows h hlib id).2.2
  | addInclude header =>
    have hcreated := h.create hw (.include header) none
    show (t.addInclude header).2.Nested spelled
    unfold CodeTree.addInclude
    split
    · exact h
    · dsimp only
      split
      · exact hcreated
      · next s hs => exact hcreated.adoptAt (hw.create _ _) hs
  | adoptBeforeBody id => exact nested_getD h fun _ hok => h.adoptAt hw hok

/-- What a node of a tree behind a run of changes calls the library: how the name of the library is
written at the node behind some of the changes. -/
def SpelledDuring (kind : NodeKind) (changes : List Change) (id : NodeId) (lib : LibraryName) :
    Prop :=
  ∃ earlier, earlier <+: changes ∧ lib = ((ofKind kind).changed earlier).libraryName id

theorem Nested.mono {spelled' : NodeId → LibraryName → Prop} (h : t.Nested spelled)
    (hle : ∀ id lib, spelled id lib → spelled' id lib) : t.Nested spelled' := by
  intro id kind text hk hr
  obtain ⟨hsome, lib, hlib, htext⟩ := h id kind text hk hr
  exact ⟨hsome, lib, hle id lib hlib, htext⟩

theorem changed_append (t : CodeTree) (front back : List Change) :
    t.changed (front ++ back) = (t.changed front).changed back := List.foldl_append

/-- **Behind any run of changes remembered texts are nested.** -/
theorem nested_changed (kind : NodeKind) (changes : List Change) :
    ((ofKind kind).changed changes).Nested (SpelledDuring kind changes) := by
  -- one change more at the end of the run
  induction changes using List.reverseRecOn with
  | nil => exact nested_ofKind kind
  | append_singleton changes change ih =>
    rw [changed_append]
    have hw := (wellFormed_empty.create kind none).changed changes
    have hlonger : ∀ id lib, SpelledDuring kind changes id lib →
        SpelledDuring kind (changes ++ [change]) id lib := by
      rintro id lib ⟨earlier, hprefix, hlib⟩
      exact ⟨earlier, hprefix.trans (List.prefix_append _ _), hlib⟩
    exact (ih.mono hlonger).change hw
      (fun q => ⟨changes, List.prefix_append _ _, rfl⟩) change

/-- **Behind any run of changes a text is made of the texts that the children have.** -/
theorem render_changed_eq {root : NodeKind} {changes : List Change} {kind : NodeKind}
    (hk : ((ofKind root).changed changes).kind? id = some kind) :
    ∃ lib, SpelledDuring root changes id lib ∧
      (((ofKind root).changed changes).remembered? id = none →
        lib = ((ofKind root).changed changes).libraryName id) ∧
      (((ofKind root).changed changes).render id).1 = kind.text lib
        ((((ofKind root).changed changes).writtenChildren id kind).filterMap fun c =>
          ((ofKind root).changed changes).childText? c
            (((ofKind root).changed changes).render c).1) :=
  ((wellFormed_empty.create root none).changed changes).render_eq (nested_changed root changes)
    (fun _ => ⟨changes, List.prefix_refl _, rfl⟩) hk

end Bindery.CodeTree
