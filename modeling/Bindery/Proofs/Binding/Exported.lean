import Bindery.Decl.Samples
import Bindery.Proofs.Binding.Entries

/-!
# What a module exports

A binding lists the declarations that it has bound.  The list is exactly what the nodes below the
body of the module are about, and no node stands apart from the module.

## Main definitions

* `BindingSetup.Accounted` — the ledger and the tree agree on what has been bound.

## Main results

* `Accounted.step`, `Accounted.run` — a change with its entries leaves them in agreement, and so
  does a run.
* `bind_exports` — **what is exported is what the nodes below the body are about.**
-/

namespace Bindery

open Binding Binder CodeTree

theorem CodeTree.isSome_kind?_of_decl? {t : CodeTree} {n : NodeId} {id : DeclId}
    (h : t.decl? n = some id) : (t.kind? n).isSome := by
  obtain ⟨node, hnode, -⟩ := Option.bind_eq_some_iff.mp h
  unfold CodeTree.kind?
  rw [hnode]
  rfl

namespace BindingSetup

variable {s : BindingSetup} {ids : List DeclId} {body p : NodeId} {b b' : Binder} {t : CodeTree}

/-- The ledger and the tree agree on what has been bound: registrations stand below the body, and
wrapper classes beside it; what is listed is registered below the body; and a node is about a
declaration that is listed, or stands beside the body or in a wrapper class. -/
structure Accounted (b : Binder) (body : NodeId) : Prop where
  wellFormed : b.tree.WellFormed
  bodyNode : (b.tree.kind? body).isSome ∧ b.tree.decl? body = none
  adopted : ∀ n, (b.tree.kind? n).isSome → n = root ∨ ∃ p, n ∈ b.tree.children p
  site : ∀ p, b.Site body p → p ∈ b.tree.descendants body
  wrapper : ∀ cls w, b.wrapper? cls = some w → w.node ≠ body ∧ w.node ∈ b.tree.children root
  listed : ∀ id ∈ b.exported, ∃ n ∈ b.tree.descendants body, b.tree.decl? n = some id
  decorated : ∀ n id, b.tree.decl? n = some id →
    id ∈ b.exported ∨ n ∈ b.tree.children root ∨ ∃ p, b.IsWrapper p ∧ n ∈ b.tree.children p

namespace Accounted

/-- Where no node comes, nothing is to be accounted for. -/
theorem of_still (h : Accounted b body) (hkept : Kept b b') (hstill : Still b.tree b'.tree)
    (hclassNodes : b'.classNodes = b.classNodes) (hwrappers : b'.wrappers = b.wrappers)
    (hexported : b'.exported = b.exported) : Accounted b' body := by
  have hdown := hkept.tree.descendants_subset h.wellFormed body
  have hwrapper : b'.wrapper? = b.wrapper? := by
    unfold Binder.wrapper?
    rw [hwrappers]
  refine ⟨hkept.tree.wellFormed h.wellFormed, ⟨hkept.tree.isSome_kind h.bodyNode.1, ?_⟩,
    fun n hn => ?_, fun p hp => ?_, fun cls w hw => ?_, fun id hid => ?_, fun n id hid => ?_⟩
  · rw [hstill.decl]
    exact h.bodyNode.2
  · rw [hstill.children]
    refine h.adopted n ?_
    rcases hstill.kind n with hk | ⟨old, new, hold, -, -⟩
    · rwa [hk] at hn
    · rw [hold]
      rfl
  · unfold Binder.Site at hp
    rw [hclassNodes] at hp
    exact hdown (h.site p hp)
  · rw [hwrapper] at hw
    rw [hstill.children]
    exact h.wrapper cls w hw
  · rw [hexported] at hid
    obtain ⟨n, hn, hdecl⟩ := h.listed id hid
    exact ⟨n, hdown hn, by rw [hstill.decl, hdecl]⟩
  · rw [hstill.decl] at hid
    unfold Binder.IsWrapper
    rw [hexported, hstill.children, hwrapper]
    exact h.decorated n id hid

/-- A node that comes has to be accounted for: it is about a declaration that is listed, or stands
beside the body or in a wrapper class; and what is new in the ledger is the node's. -/
theorem of_placed {kind : NodeKind} {decl : Option DeclId} {front back : List NodeId}
    (h : Accounted b body) (hkept : Kept b b') (hplaced : PlacedAs b.tree p kind decl front back t)
    (hstill : Still t b'.tree)
    (hdecl : ∀ id, decl = some id → id ∈ b'.exported ∨ p = root ∨ b.IsWrapper p)
    (hsite : ∀ q, b'.Site body q → b.Site body q ∨ q = b.tree.size ∧ b.Site body p)
    (hwrapper : ∀ cls w, b'.wrapper? cls = some w →
      b.wrapper? cls = some w ∨ w.node = b.tree.size ∧ p = root)
    (hlisted : ∀ id ∈ b'.exported, id ∈ b.exported ∨ decl = some id ∧ b.Site body p) :
    Accounted b' body := by
  have hw := hkept.tree.wellFormed h.wellFormed
  have hdown := hkept.tree.descendants_subset h.wellFormed body
  have hnew : b.tree.size ∈ b'.tree.children p := by
    rw [hstill.children, hplaced.after]
    exact List.mem_append_right _ List.mem_cons_self
  have hnewDecl : b'.tree.decl? b.tree.size = decl := by
    rw [hstill.decl, hplaced.decls, if_pos rfl]
  have hbelow : b.Site body p → b.tree.size ∈ b'.tree.descendants body :=
    fun hp => hw.mem_descendants_child (hdown (h.site p hp)) hnew
  have hold : ∀ n, n ≠ b.tree.size → (b'.tree.kind? n).isSome → (b.tree.kind? n).isSome := by
    intro n hn hsome
    rcases hstill.kind n with hk | ⟨old, new, hk, -, -⟩
    · rwa [hk, hplaced.kinds, if_neg hn] at hsome
    · rw [hplaced.kinds, if_neg hn] at hk
      rw [hk]
      rfl
  refine ⟨hw, ⟨hkept.tree.isSome_kind h.bodyNode.1, ?_⟩, fun n hn => ?_, fun q hq => ?_,
    fun cls w hcls => ?_, fun id hid => ?_, fun n id hid => ?_⟩
  · rw [hkept.tree.decl body h.bodyNode.1, h.bodyNode.2]
  · by_cases hsize : n = b.tree.size
    · exact .inr ⟨p, hsize ▸ hnew⟩
    · exact (h.adopted n (hold n hsize hn)).imp_right fun ⟨q, hq⟩ => ⟨q, hkept.tree.child q n hq⟩
  · rcases hsite q hq with hq | ⟨rfl, hp⟩
    · exact hdown (h.site q hq)
    · exact hbelow hp
  · rcases hwrapper cls w hcls with hcls | ⟨hnode, rfl⟩
    · exact ⟨(h.wrapper cls w hcls).1, hkept.tree.child _ _ (h.wrapper cls w hcls).2⟩
    · rw [hnode]
      refine ⟨fun hbody => ?_, hnew⟩
      exact Nat.lt_irrefl _ (hbody ▸ isSome_kind?_iff.mp h.bodyNode.1)
  · rcases hlisted id hid with hid | ⟨hdecl, hp⟩
    · obtain ⟨n, hn, hdecl⟩ := h.listed id hid
      exact ⟨n, hdown hn, by rw [hkept.tree.decl n (isSome_kind?_of_decl? hdecl), hdecl]⟩
    · exact ⟨b.tree.size, hbelow hp, hnewDecl.trans hdecl⟩
  · by_cases hsize : n = b.tree.size
    · subst hsize
      rcases hdecl id (hnewDecl.symm.trans hid) with hmem | rfl | hp
      · exact .inl hmem
      · exact .inr (.inl hnew)
      · exact .inr (.inr ⟨p, hp.kept hkept, hnew⟩)
    · have hsome := hold n hsize (isSome_kind?_of_decl? hid)
      rw [hkept.tree.decl n hsome] at hid
      rcases h.decorated n id hid with hmem | hroot | ⟨q, hq, hchild⟩
      · exact .inl (hkept.exported hmem)
      · exact .inr (.inl (hkept.tree.child _ _ hroot))
      · exact .inr (.inr ⟨q, hq.kept hkept, hkept.tree.child _ _ hchild⟩)

theorem step (h : Accounted b body) (hstep : s.LedgerStep ids body b b') : Accounted b' body := by
  have hkept := kept_of_step hstep
  cases hstep with
  | aside haside =>
    exact h.of_still hkept (haside.tree ▸ Still.refl _) haside.classNodes haside.wrappers
      haside.exported
  | alike hshape _ => exact h.of_still hkept (Still.of_shape hshape) rfl rfl rfl
  | noInit haltered => exact h.of_still hkept (haltered.still fun _ => rfl) rfl rfl rfl
  | place hplaced _ _ hdecl =>
    exact h.of_placed hkept hplaced (Still.refl _)
      (fun id hid => (hdecl id hid).imp_right .inr) (fun _ => .inl) (fun _ _ => .inl) fun _ => .inl
  | adapter hplaced | header hplaced =>
    exact h.of_placed hkept hplaced (Still.refl _) (fun _ _ => .inr (.inl rfl)) (fun _ => .inl)
      (fun _ _ => .inl) fun _ => .inl
  | enter hplaced _ _ hsite _ =>
    refine h.of_placed hkept hplaced (Still.refl _) (fun id hid => .inl ?_) (fun _ => .inl)
      (fun _ _ => .inl) fun id hid => ?_
    · exact Option.some.inj hid ▸ List.mem_append_right _ (List.mem_singleton_self _)
    · refine (List.mem_append.mp hid).imp_right fun hid => ⟨?_, hsite⟩
      rw [List.mem_singleton.mp hid]
  | container hplaced _ _ =>
    refine h.of_placed hkept hplaced (Still.refl _) (fun id hid => .inl ?_) (fun _ => .inl)
      (fun _ _ => .inl) fun id hid => ?_
    · exact Option.some.inj hid ▸ List.mem_append_right _ (List.mem_singleton_self _)
    · refine (List.mem_append.mp hid).imp_right fun hid => ⟨?_, .inl rfl⟩
      rw [List.mem_singleton.mp hid]
  | register hplaced hsite =>
    refine h.of_placed hkept hplaced (Still.refl _) (fun id hid => .inl ?_) (fun q hq => ?_)
      (fun _ _ => .inl) fun id hid => ?_
    · exact Option.some.inj hid ▸ List.mem_append_right _ (List.mem_singleton_self _)
    · rcases hq with hq | ⟨c, hc⟩
      · exact .inl (.inl hq)
      · rcases List.mem_cons.mp hc with heq | hc
        · exact .inr ⟨congrArg Prod.snd heq, hsite⟩
        · exact .inl (.inr ⟨c, hc⟩)
    · refine (List.mem_append.mp hid).imp_right fun hid => ⟨?_, hsite⟩
      rw [List.mem_singleton.mp hid]
  | @wrap t t' cls _ _ _ _ hplaced _ haltered =>
    refine h.of_placed hkept hplaced (haltered.still fun _ => rfl) (fun _ _ => .inr (.inl rfl))
      (fun _ => .inl) (fun c w hw => ?_) fun _ => .inl
    by_cases hc : c = cls
    · subst hc
      rw [wrapper?_cons_self] at hw
      exact .inr ⟨congrArg WrapperClass.node (Option.some.inj hw).symm, rfl⟩
    · rw [wrapper?_cons_of_ne hc] at hw
      exact .inl hw

/-- What agrees before a run agrees behind it. -/
theorem run (h : Accounted b body) (hrun : s.LedgerRun ids body b b') : Accounted b' body := by
  induction hrun with
  | refl => exact h
  | tail _ hstep ih => exact ih.step hstep

end Accounted

/-! ### The module -/

/-- In the tree of a module that nothing has been bound in, no node is about a declaration. -/
theorem accounted_ofModule {name nspace : String} {license : Option String}
    (h : CodeTree.ofModule name license nspace = .ok t) (hbody : t.body? = some body) :
    Accounted { tree := t } body := by
  let P : CodeTree → Prop := fun t => t.WellFormed ∧ (∀ n, t.decl? n = none) ∧
    ∀ n, (t.kind? n).isSome → n = root ∨ ∃ p, n ∈ t.children p
  have hstart : P (ofKind (.module name)) := by
    refine ⟨wellFormed_empty.create _ _, fun n => ?_, fun n hn => .inl ?_⟩
    · rw [show (ofKind (.module name)).decl? n = _ from decl?_create {} (.module name) none n]
      split <;> rfl
    · rw [show (ofKind (.module name)).kind? n = _ from kind?_create {} (.module name) none n] at hn
      split at hn
      · next hroot => exact hroot
      · cases hn
  have hstep : ∀ {t t' : CodeTree} {kind : NodeKind}, P t → t.append kind = .ok t' → P t' := by
    intro t t' kind ⟨hw, hdecl, hadopted⟩ happend
    have hplaced := append_ok happend
    refine ⟨hplaced.wellFormed hw, fun n => ?_, fun n hn => ?_⟩
    · rw [hplaced.decls]
      split
      · rfl
      · exact hdecl n
    · by_cases hsize : n = t.size
      · refine .inr ⟨root, ?_⟩
        rw [hplaced.after, hsize]
        exact List.mem_append_right _ List.mem_cons_self
      · rw [hplaced.kinds, if_neg hsize] at hn
        exact (hadopted n hn).imp_right fun ⟨p, hp⟩ => ⟨p, hplaced.grown.child p n hp⟩
  obtain ⟨t₀, ht₀, hlast⟩ := ofModule_ok hstart (fun _ => hstep) h
  obtain ⟨hw, hdecl, hadopted⟩ := hstep ht₀ hlast
  have hself : body ∈ t.descendants body := hw.mem_descendants.mpr List.mem_cons_self
  refine ⟨hw, ⟨?_, hdecl body⟩, hadopted, fun p hp => ?_, fun cls w hcls => (nomatch hcls),
    fun id hid => absurd hid List.not_mem_nil, fun n id hid => ?_⟩
  · obtain ⟨-, name, hkind⟩ := exists_moduleBody hbody
    rw [hkind]
    rfl
  · rcases hp with rfl | ⟨cls, hcls⟩
    · exact hself
    · cases hcls
  · rw [show t.decl? n = none from hdecl n] at hid
    cases hid

/-- Every node that is adopted by some other stands below the root. -/
theorem Accounted.mem_descendants_root (h : Accounted b body) {n : NodeId}
    (hn : (b.tree.kind? n).isSome) : n ∈ b.tree.descendants root := by
  have hup : ∀ (l : List NodeId) (n : NodeId), Climbs b.tree.parent? n l →
      (b.tree.kind? n).isSome → n ∈ b.tree.descendants root := by
    intro l
    induction l with
    | nil =>
      intro n hnone hn
      rcases h.adopted n hn with rfl | ⟨p, hp⟩
      · exact h.wellFormed.mem_descendants.mpr List.mem_cons_self
      · have hparent := (h.wellFormed.child p n).mp hp
        rw [show b.tree.parent? n = none from hnone] at hparent
        cases hparent
    | cons p l ih =>
      intro n hl _
      have hchild := (h.wellFormed.child p n).mpr hl.1
      have hp : (b.tree.kind? p).isSome := isSome_kind?_iff.mpr (lt_size_of_mem_children hchild)
      exact h.wellFormed.mem_descendants_child (ih p hl.2 hp) hchild
  exact hup _ n (h.wellFormed.climbs_ancestors n) hn

/-- A node beside the body, or in a wrapper class, does not stand below the body. -/
theorem Accounted.not_below_body (h : Accounted b body) (hroot : b.tree.parent? root = none)
    (hbody : b.tree.parent? body = some root) {n : NodeId}
    (hn : n ∈ b.tree.children root ∨ ∃ p, b.IsWrapper p ∧ n ∈ b.tree.children p) :
    body ∉ b.tree.ancestors n := by
  have hchild : ∀ {m}, m ∈ b.tree.children root → b.tree.ancestors m = [root] :=
    fun hm => h.wellFormed.ancestors_eq ⟨(h.wellFormed.child _ _).mp hm, hroot⟩
  have hne : body ≠ root := by
    rintro rfl
    rw [hroot] at hbody
    cases hbody
  rcases hn with hn | ⟨p, ⟨cls, w, hw, rfl⟩, hn⟩
  · rw [hchild hn, List.mem_singleton]
    exact hne
  · obtain ⟨hwrapper, hbeside⟩ := h.wrapper cls w hw
    rw [h.wellFormed.ancestors_child hn, hchild hbeside]
    simp [hne, Ne.symm hwrapper]

/-- The ledger of a module and its tree agree on what has been bound below its body. -/
theorem bind_accounted (h : s.bind ids = .ok b) : ∃ body, b.tree.body? = some body ∧
    Accounted b body ∧ b.tree.parent? root = none ∧ b.tree.parent? body = some root := by
  obtain ⟨t, body, u, hmodule, hbody, hrun⟩ := bind_ok h
  have hledger : s.LedgerRun ids body { tree := t } b := moves_bindAll_noted _ _ _ hrun
  have haccounted := (accounted_ofModule hmodule hbody).run hledger
  obtain ⟨body', front, rest, hlaid⟩ := bind_laid h
  have hkept := kept_of_run hledger
  -- the body is the one that the module began with
  obtain ⟨hbegin, name, hkind⟩ := exists_moduleBody hbody
  have hchild : body ∈ b.tree.children root := hkept.tree.child _ _ hbegin
  obtain rfl : body = body' := by
    rcases hkept.tree.kind body _ hkind with hkind | ⟨old, new, hcls, -⟩
    · exact hlaid.eq_body hchild hkind
    · cases hcls
  exact ⟨body, hlaid.body?_eq, haccounted, hlaid.parent?_root,
    (haccounted.wellFormed.child root body).mp hchild⟩

/-- **What is exported is what the nodes below the body of a module are about**, and all nodes
of the module hang together. -/
theorem bind_exports (h : s.bind ids = .ok b) : ∃ body, b.tree.body? = some body ∧
    (∀ id, id ∈ b.exported ↔ ∃ n, body ∈ b.tree.ancestors n ∧ b.tree.decl? n = some id) ∧
    ∀ n < b.tree.size, n ∈ b.tree.descendants root := by
  obtain ⟨body, hbody, haccounted, hroot, hparent⟩ := bind_accounted h
  refine ⟨body, hbody, fun id => ⟨fun hid => ?_, fun ⟨n, hn, hdecl⟩ => ?_⟩, fun n hn =>
    haccounted.mem_descendants_root (isSome_kind?_iff.mpr hn)⟩
  · obtain ⟨n, hn, hdecl⟩ := haccounted.listed id hid
    refine ⟨n, (List.mem_cons.mp (haccounted.wellFormed.mem_descendants.mp hn)).resolve_left ?_,
      hdecl⟩
    rintro rfl
    rw [haccounted.bodyNode.2] at hdecl
    cases hdecl
  · rcases haccounted.decorated n id hdecl with hid | hbeside
    · exact hid
    · exact absurd hn (haccounted.not_below_body hroot hparent hbeside)

/-- An abstract class is exported with its function, whose stand-in is not below the body. -/
theorem bind_exports_shape : ∃ (s : BindingSetup) (b : Binder) (body : NodeId),
    s.bind [1] = .ok b ∧ b.exported = [1, 2] ∧ b.tree.body? = some body ∧
      (∃ n, body ∈ b.tree.ancestors n ∧ b.tree.decl? n = some 2) ∧
      ∃ n ∈ b.tree.descendants root, body ∉ b.tree.ancestors n ∧ b.tree.decl? n = some 2 := by
  let s : BindingSetup := { graph := Samples.shape, options := {} }
  obtain ⟨b, hb, hfound⟩ := Except.exists_eq_ok_of_any (x := s.bind [1])
    (p := fun b => b.exported = [1, 2] ∧ b.tree.body? = some 3 ∧ 6 < b.tree.size ∧
      3 ∉ b.tree.ancestors 6 ∧ b.tree.decl? 6 = some 2) (by decide +kernel)
  obtain ⟨hexported, hbody, hsize, hbeside, hdecl⟩ := of_decide_eq_true hfound
  obtain ⟨body, hbody', hlisted, hreached⟩ := bind_exports hb
  obtain rfl : 3 = body := Option.some.inj (hbody.symm.trans hbody')
  exact ⟨s, b, 3, hb, hexported, hbody, (hlisted 2).mp (by rw [hexported]; decide),
    6, hreached 6 hsize, hbeside, hdecl⟩

end BindingSetup

end Bindery
