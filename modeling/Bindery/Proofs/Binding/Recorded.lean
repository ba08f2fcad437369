import Bindery.Proofs.Binding.Entries

/-!
# Registrations and wrapper classes

What the ledger notes of registrations and wrapper classes is what the tree shows, and what the
registration of a class says of its wrapper class is what is noted.

## Main definitions

* `BindingSetup.Described` — the registration of a class says what is noted of the class.
* `BindingSetup.Recorded` — the ledger and the tree agree on registrations and wrapper classes.

## Main results

* `Recorded.step`, `Recorded.run` — a change with its entries leaves them in agreement, and so
  does a run.
-/

namespace Bindery

open Binding Binder CodeTree

namespace BindingSetup

variable {s : BindingSetup} {ids : List DeclId} {body p : NodeId} {b b' : Binder} {t : CodeTree}
  {c cls : DeclId} {n : NodeId} {r r' : ClassNode}

/-- The registration says what is noted of the class: its bases are those that are bound, and its
wrapper class is the one that is noted, as long as there is no other registration of the class. -/
structure Described (s : BindingSetup) (b : Binder) (n : NodeId) (r : ClassNode) (c : DeclId) :
    Prop where
  noted : (c, n) ∈ b.classNodes
  bases : ∃ d, s.graph.kind? c = some (.cls d) ∧ s.boundBases d = .ok r.bases
  wrapper : (∀ m, (c, m) ∈ b.classNodes → m = n) → r.wrapper = (b.wrapper? c).map (·.name)

/-- What the registration says does not change with the other registrations. -/
theorem Described.mono (h : s.Described b n r c) (hnodes : b.classNodes ⊆ b'.classNodes)
    (hbases : r'.bases = r.bases) (hwrapper : r'.wrapper = r.wrapper)
    (hwrapper? : b'.wrapper? c = b.wrapper? c) : s.Described b' n r' c where
  noted := hnodes h.noted
  bases := hbases ▸ h.bases
  wrapper hone := by
    rw [hwrapper, hwrapper?]
    exact h.wrapper fun m hm => hone m (hnodes hm)

/-- The ledger and the tree agree on registrations and wrapper classes: those that are noted are in
the tree, with what they are noted for; those in the tree are noted, and say what is noted, but for
containers of the standard library, which have no bases. -/
structure Recorded (s : BindingSetup) (ids : List DeclId) (b : Binder) : Prop where
  node : ∀ c n, (c, n) ∈ b.classNodes → (s.Admitted ids c ∧ s.graph.isClass c) ∧
    b.tree.decl? n = some c ∧ ∃ r, b.tree.kind? n = some (.cls r)
  shown : ∀ n r, b.tree.kind? n = some (.cls r) →
    ∃ c, b.tree.decl? n = some c ∧ (s.graph.isStd c ∧ r.bases = [] ∨ s.Described b n r c)
  exported : ∀ c ∈ b.exported, s.graph.isClass c → s.graph.isStd c ∨ ∃ n, (c, n) ∈ b.classNodes
  made : ∀ c w, b.wrapper? c = some w → s.NeedsWrapper c ∧ (∃ n, (c, n) ∈ b.classNodes) ∧
    b.tree.decl? w.node = some c ∧
    b.tree.kind? w.node = some (.wrapper ⟨w.name, w.name, s.graph.fullName c⟩)
  wrapper : ∀ n k, b.tree.kind? n = some (.wrapper k) →
    ∃ c, b.tree.decl? n = some c ∧ b.wrapper? c = some ⟨n, k.name⟩

namespace Recorded

/-- What is noted is in the tree as long as it stays there. -/
theorem node_kept (h : s.Recorded ids b) (hkept : Kept b b') (hc : (c, n) ∈ b.classNodes) :
    (s.Admitted ids c ∧ s.graph.isClass c) ∧ b'.tree.decl? n = some c ∧
      ∃ r, b'.tree.kind? n = some (.cls r) := by
  obtain ⟨hadmitted, hdecl, r, hr⟩ := h.node c n hc
  refine ⟨hadmitted, by rw [hkept.tree.decl n (by rw [hr]; rfl), hdecl], ?_⟩
  rcases hkept.tree.kind n _ hr with hr | ⟨-, new, -, hr, -⟩
  · exact ⟨r, hr⟩
  · exact ⟨new, hr⟩

theorem made_kept (h : s.Recorded ids b) (hkept : Kept b b') {w : WrapperClass}
    (hw : b.wrapper? c = some w) : s.NeedsWrapper c ∧ (∃ n, (c, n) ∈ b'.classNodes) ∧
      b'.tree.decl? w.node = some c ∧
      b'.tree.kind? w.node = some (.wrapper ⟨w.name, w.name, s.graph.fullName c⟩) := by
  obtain ⟨hneeds, ⟨n, hn⟩, hdecl, hkind⟩ := h.made c w hw
  refine ⟨hneeds, ⟨n, hkept.classNodes hn⟩, by rw [hkept.tree.decl _ (by rw [hkind]; rfl), hdecl],
    ?_⟩
  rcases hkept.tree.kind _ _ hkind with hkind | ⟨old, -, hold, -, -⟩
  · exact hkind
  · cases hold

/-- Where no node comes and no entry, registrations may change what they say of neither bases nor
wrapper classes. -/
theorem of_still (h : s.Recorded ids b) (hkept : Kept b b')
    (hkind : ∀ n, b'.tree.kind? n = b.tree.kind? n ∨ ∃ r r', b.tree.kind? n = some (.cls r) ∧
      b'.tree.kind? n = some (.cls r') ∧ r'.bases = r.bases ∧ r'.wrapper = r.wrapper)
    (hdecl : b'.tree.decl? = b.tree.decl?) (hclassNodes : b'.classNodes = b.classNodes)
    (hwrappers : b'.wrappers = b.wrappers) (hexported : b'.exported = b.exported) :
    s.Recorded ids b' := by
  have hwrapper? : b'.wrapper? = b.wrapper? := by
    unfold Binder.wrapper?
    rw [hwrappers]
  refine ⟨fun c n hc => h.node_kept hkept (hclassNodes ▸ hc), fun n r hr => ?_, ?_,
    fun c w hw => h.made_kept hkept (hwrapper? ▸ hw), fun n k hk => ?_⟩
  · have hold : ∃ r₀, b.tree.kind? n = some (.cls r₀) ∧ r.bases = r₀.bases ∧
        r.wrapper = r₀.wrapper := by
      rcases hkind n with hsame | ⟨r₀, r₁, hold, hnew, hsame⟩
      · exact ⟨r, hsame ▸ hr, rfl, rfl⟩
      · rw [hnew] at hr
        cases hr
        exact ⟨r₀, hold, hsame⟩
    obtain ⟨r₀, hr₀, hbases, hwrapper⟩ := hold
    obtain ⟨c, hc, hdescribed⟩ := h.shown n r₀ hr₀
    rw [hdecl]
    exact ⟨c, hc, hdescribed.imp (And.imp_right hbases.trans) fun hd =>
      hd.mono hkept.classNodes hbases hwrapper (congrFun hwrapper? c)⟩
  · rw [hclassNodes, hexported]
    exact h.exported
  · rw [hdecl, hwrapper?]
    rcases hkind n with hsame | ⟨-, r, -, hnew, -⟩
    · exact h.wrapper n k (hsame ▸ hk)
    · rw [hnew] at hk
      cases hk

/-- A node that comes has to be recorded if it is a registration or a wrapper class. -/
theorem of_placed {kind : NodeKind} {decl : Option DeclId} {front back : List NodeId}
    (h : s.Recorded ids b) (hkept : Kept b b') (hplaced : PlacedAs b.tree p kind decl front back t)
    (htree : b'.tree = t) (hwrappers : b'.wrappers = b.wrappers)
    (hnode : ∀ c n, (c, n) ∈ b'.classNodes → (c, n) ∈ b.classNodes ∨
      n = b.tree.size ∧ decl = some c ∧ (s.Admitted ids c ∧ s.graph.isClass c) ∧
        ∃ r, kind = .cls r)
    (hcls : ∀ r, kind = .cls r →
      ∃ c, decl = some c ∧ (s.graph.isStd c ∧ r.bases = [] ∨ s.Described b' b.tree.size r c))
    (hexported : ∀ c ∈ b'.exported, s.graph.isClass c →
      c ∈ b.exported ∨ s.graph.isStd c ∨ ∃ n, (c, n) ∈ b'.classNodes)
    (hwrapper : ∀ k, kind ≠ .wrapper k) : s.Recorded ids b' := by
  subst htree
  have hwrapper? : b'.wrapper? = b.wrapper? := by
    unfold Binder.wrapper?
    rw [hwrappers]
  refine ⟨fun c n hc => ?_, fun n r hr => ?_, fun c hc hclass => ?_,
    fun c w hw => h.made_kept hkept (hwrapper? ▸ hw), fun n k hk => ?_⟩
  · rcases hnode c n hc with hc | ⟨rfl, rfl, hadmitted, r, rfl⟩
    · exact h.node_kept hkept hc
    · exact ⟨hadmitted, (hplaced.decls _).trans (if_pos rfl), r,
        (hplaced.kinds _).trans (if_pos rfl)⟩
  · rw [hplaced.decls]
    rw [hplaced.kinds] at hr
    split at hr
    · next hn =>
      rw [if_pos hn, hn]
      exact hcls r (Option.some.inj hr)
    · next hn =>
      rw [if_neg hn]
      obtain ⟨c, hc, hdescribed⟩ := h.shown n r hr
      exact ⟨c, hc, hdescribed.imp_right fun hd =>
        hd.mono hkept.classNodes rfl rfl (congrFun hwrapper? c)⟩
  · rcases hexported c hc hclass with hc | hstd | hn
    · exact (h.exported c hc hclass).imp_right fun ⟨n, hn⟩ => ⟨n, hkept.classNodes hn⟩
    · exact .inl hstd
    · exact .inr hn
  · rw [hplaced.decls, hwrapper?]
    rw [hplaced.kinds] at hk
    split at hk
    · exact absurd (Option.some.inj hk) (hwrapper k)
    · next hn =>
      rw [if_neg hn]
      exact h.wrapper n k hk

/-- A wrapper class comes, and the registration of its class is told. -/
theorem of_wrap {t' : CodeTree} {node : NodeId} {name : String} {front back : List NodeId}
    (h : s.Recorded ids b) (hkept : Kept b b') (hneeds : s.NeedsWrapper cls)
    (hplaced : PlacedAs b.tree root (.wrapper ⟨name, name, s.graph.fullName cls⟩) (some cls)
      front back t)
    (hnode : b.classNode? cls = some node)
    (haltered : Altered t node (fun r => { r with wrapper := some name }) t')
    (hb' : b' = { b with
      tree := t', wrappers := (cls, ⟨b.tree.size, name⟩) :: b.wrappers }) : s.Recorded ids b' := by
  have hnoted := mem_classNodes_of_classNode? hnode
  have hself : b'.wrapper? cls = some ⟨b.tree.size, name⟩ := by
    rw [hb']
    exact wrapper?_cons_self
  have hother : ∀ c, c ≠ cls → b'.wrapper? c = b.wrapper? c := by
    intro c hc
    rw [hb']
    exact wrapper?_cons_of_ne hc
  have hclassNodes : b'.classNodes = b.classNodes := by rw [hb']
  have hdecl : ∀ n, b'.tree.decl? n = if n = b.tree.size then some cls else b.tree.decl? n := by
    intro n
    rw [hb']
    exact (congrFun haltered.decl n).trans (hplaced.decls n)
  obtain ⟨-, hdecl₀, r₀, hr₀⟩ := h.node cls node hnoted
  have hsize : node ≠ b.tree.size := Nat.ne_of_lt (lt_size_of_kind? hr₀)
  have hkindNode : b'.tree.kind? node = some (.cls { r₀ with wrapper := some name }) := by
    rw [hb']
    show t'.kind? node = _
    rw [haltered.kind, if_pos rfl, hplaced.kinds, if_neg hsize, hr₀]
    rfl
  have hkind : ∀ n, n ≠ node → b'.tree.kind? n = if n = b.tree.size then
      some (.wrapper ⟨name, name, s.graph.fullName cls⟩) else b.tree.kind? n := by
    intro n hn
    rw [hb']
    show t'.kind? n = _
    rw [haltered.kind, if_neg hn, hplaced.kinds]
  refine ⟨fun c n hc => h.node_kept hkept (hclassNodes ▸ hc), fun n r hr => ?_, ?_,
    fun c w hw => ?_, fun n k hk => ?_⟩
  · by_cases hn : n = node
    · subst hn
      rw [hkindNode] at hr
      cases hr
      obtain ⟨c, hc, hdescribed⟩ := h.shown n r₀ hr₀
      obtain rfl : cls = c := Option.some.inj (hdecl₀.symm.trans hc)
      refine ⟨cls, by rw [hdecl, if_neg hsize, hc], hdescribed.imp_right fun hd => ?_⟩
      exact ⟨hclassNodes ▸ hd.noted, hd.bases, fun _ => by rw [hself]; rfl⟩
    · rw [hkind n hn] at hr
      split at hr
      · cases hr
      · next hns =>
        obtain ⟨c, hc, hdescribed⟩ := h.shown n r hr
        refine ⟨c, by rw [hdecl, if_neg hns, hc], hdescribed.imp_right fun hd => ?_⟩
        by_cases hcls : c = cls
        · -- the class has two registrations, so that nothing is said of this one
          subst hcls
          exact ⟨hclassNodes ▸ hd.noted, hd.bases,
            fun hone => absurd (hone node (hclassNodes ▸ hnoted)).symm hn⟩
        · exact hd.mono hkept.classNodes rfl rfl (hother c hcls)
  · rw [hclassNodes, show b'.exported = b.exported by rw [hb']]
    exact h.exported
  · by_cases hcls : c = cls
    · subst hcls
      obtain rfl := Option.some.inj (hself.symm.trans hw)
      refine ⟨hneeds, ⟨node, hclassNodes ▸ hnoted⟩, by rw [hdecl, if_pos rfl], ?_⟩
      rw [hkind _ hsize.symm, if_pos rfl]
    · exact h.made_kept hkept (hother c hcls ▸ hw)
  · have hn : n ≠ node := by
      rintro rfl
      rw [hkindNode] at hk
      cases hk
    rw [hkind n hn] at hk
    rw [hdecl]
    split at hk
    · next hns =>
      cases hk
      exact ⟨cls, if_pos hns, hns ▸ hself⟩
    · next hns =>
      rw [if_neg hns]
      obtain ⟨c, hc, hw⟩ := h.wrapper n k hk
      exact ⟨c, hc, hkept.wrapper c _ hw⟩

theorem step (h : s.Recorded ids b) (hstep : s.LedgerStep ids body b b') : s.Recorded ids b' := by
  have hkept := kept_of_step hstep
  cases hstep with
  | aside haside =>
    refine h.of_still hkept (fun n => .inl ?_) ?_ haside.classNodes haside.wrappers haside.exported
    · rw [haside.tree]
    · rw [haside.tree]
  | alike hshape _ =>
    exact h.of_still hkept (fun n => .inl (congrFun hshape.kind n)) hshape.decl rfl rfl rfl
  | @noInit _ node noInit haltered =>
    refine h.of_still hkept (fun n => ?_) haltered.decl rfl rfl rfl
    show _ = _ ∨ _
    rw [haltered.kind]
    split
    · cases hk : b.tree.kind? n with
      | none => exact .inl rfl
      | some kind =>
        cases kind with
        | cls r => exact .inr ⟨r, _, rfl, rfl, rfl, rfl⟩
        | _ => exact .inl rfl
    · exact .inl rfl
  | place hplaced hkind _ _ =>
    refine h.of_placed hkept hplaced rfl rfl (fun _ _ => .inl) ?_ (fun _ hc _ => .inl hc) ?_
    · rintro r rfl
      exact absurd rfl hkind.leaf
    · rintro k rfl
      exact absurd rfl hkind.leaf
  | adapter hplaced | header hplaced =>
    exact h.of_placed hkept hplaced rfl rfl (fun _ _ => .inl) (fun _ hr => nomatch hr)
      (fun _ hc _ => .inl hc) fun _ hk => nomatch hk
  | @enter _ _ _ id _ _ hplaced hkind _ _ hclass =>
    refine h.of_placed hkept hplaced rfl rfl (fun _ _ => .inl) ?_ (fun c hc hcls => .inl ?_) ?_
    · rintro r rfl
      exact absurd rfl hkind
    · refine (List.mem_append.mp hc).resolve_right fun hc => hclass ?_
      rwa [← List.mem_singleton.mp hc]
    · rintro k rfl
      exact absurd rfl hkind
  | @container _ _ id _ _ hplaced hstd hbases _ =>
    refine h.of_placed hkept hplaced rfl rfl (fun _ _ => .inl) (fun r hr => ?_)
      (fun c hc _ => ?_) fun k hk => nomatch hk
    · cases hr
      exact ⟨id, rfl, .inl ⟨hstd, hbases⟩⟩
    · refine (List.mem_append.mp hc).imp_right fun hc => .inl ?_
      rwa [List.mem_singleton.mp hc]
  | @register t p r cls d _ _ hplaced _ hadmitted hkind hbases hnone _ =>
    refine h.of_placed hkept hplaced rfl rfl (fun c n hc => ?_) (fun r' hr' => ?_)
      (fun c hc _ => ?_) fun k hk => nomatch hk
    · rcases List.mem_cons.mp hc with heq | hc
      · cases heq
        exact .inr ⟨rfl, rfl, ⟨hadmitted, DeclGraph.isClass_iff.mpr ⟨d, hkind⟩⟩, r, rfl⟩
      · exact .inl hc
    · cases hr'
      refine ⟨cls, rfl, .inr ⟨List.mem_cons_self, ⟨d, hkind, hbases⟩, fun hone => ?_⟩⟩
      -- a class with a wrapper class has been registered before
      have hno : b.wrapper? cls = none := by
        by_contra hne
        obtain ⟨w, hw⟩ := Option.ne_none_iff_exists'.mp hne
        obtain ⟨-, ⟨m, hm⟩, -⟩ := h.made cls w hw
        obtain ⟨-, -, r', hr'⟩ := h.node cls m hm
        exact Nat.ne_of_lt (lt_size_of_kind? hr') (hone m (List.mem_cons_of_mem _ hm))
      rw [hnone]
      exact (congrArg (Option.map _) hno).symm
    · rcases List.mem_append.mp hc with hc | hc
      · exact .inl hc
      · rw [List.mem_singleton.mp hc]
        exact .inr (.inr ⟨_, List.mem_cons_self⟩)
  | wrap hneeds _ hplaced hnode haltered =>
    exact h.of_wrap hkept hneeds hplaced hnode haltered rfl

/-- **What agrees before a run agrees behind it.** -/
theorem run (h : s.Recorded ids b) (hrun : s.LedgerRun ids body b b') : s.Recorded ids b' := by
  induction hrun with
  | refl => exact h
  | tail _ hstep ih => exact ih.step hstep

end Recorded

/-! ### The module -/

/-- In the tree of a module that nothing has been bound in there is nothing to record. -/
theorem recorded_ofModule {name nspace : String} {license : Option String}
    (h : CodeTree.ofModule name license nspace = .ok t) : s.Recorded ids { tree := t } := by
  have hbare : ∀ n kind, t.kind? n = some kind →
      (∀ r, kind ≠ .cls r) ∧ ∀ k, kind ≠ .wrapper k := by
    intro n kind hkind
    rcases kind?_ofModule h hkind with rfl | hpreamble | rfl
    · exact ⟨fun _ h => (nomatch h), fun _ h => (nomatch h)⟩
    · refine ⟨?_, ?_⟩ <;> (rintro r rfl; cases hpreamble)
    · exact ⟨fun _ h => (nomatch h), fun _ h => (nomatch h)⟩
  exact ⟨fun c n hc => (nomatch hc), fun n r hr => absurd rfl ((hbare n _ hr).1 r),
    fun c hc => (nomatch hc), fun c w hw => (nomatch hw),
    fun n k hk => absurd rfl ((hbare n _ hk).2 k)⟩

/-- **The registrations and wrapper classes of a module are recorded.** -/
theorem bind_recorded (h : s.bind ids = .ok b) : s.Recorded ids b := by
  obtain ⟨t, body, u, hmodule, -, hrun⟩ := bind_ok h
  have hsteps : s.LedgerRun ids body { tree := t } b := moves_bindAll_noted _ _ _ hrun
  exact (recorded_ofModule hmodule).run hsteps

end BindingSetup

end Bindery
