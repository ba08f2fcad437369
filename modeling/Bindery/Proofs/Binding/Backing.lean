import Bindery.Proofs.Binding.Recorded
import Bindery.Proofs.Binding.Exported

/-!
# No registration refers to something that is not there

The name by which a registration refers to a function is put together when a declaration is bound;
the function is defined when the text of its node is written.  Both go by the access of the
declaration, by whether it is virtual, static or transformed, and by what it returns, and they go
together.

## Main definitions

* `BindingSetup.Backed` — every registration refers to something that is there.

## Main results

* `Backed.step`, `Backed.run` — a change with its entries leaves no reference without its function.
* `bind_unwritten` — a binding writes no texts.
* `bind_defines` — **what a registration refers to in the wrapper class of its class is defined by a
  member of that class, for the same declaration.**
-/

namespace Bindery

open Binding Binder CodeTree

open Text (contentLines)

/-- What a registration refers to stays there. -/
theorem Binder.Grounded.kept {b b' : Binder} {body p : NodeId} {id : DeclId} {r : String}
    (h : b.Grounded body p id r) (hkept : Kept b b') : b'.Grounded body p id r := by
  cases h with
  | declared name => exact .declared name
  | adapter hp hq hdecl hkind =>
    refine .adapter hp (hkept.tree.child _ _ hq) ?_
      (hkept.tree.kind_of_ne hkind fun _ h => nomatch h)
    rw [hkept.tree.decl _ (by rw [hkind]; rfl), hdecl]
  | @member cls w q kind name hnode hw hq hdecl hkind hdefines =>
    refine .member (hkept.classNodes hnode) (hkept.wrapper cls w hw) (hkept.tree.child _ _ hq) ?_
      (hkept.tree.kind_of_ne hkind ?_) hdefines
    · rw [hkept.tree.decl _ (by rw [hkind]; rfl), hdecl]
    · rintro c rfl
      cases hdefines.definesFunctions

namespace BindingSetup

variable {s : BindingSetup} {ids : List DeclId} {body p : NodeId} {b b' : Binder} {t : CodeTree}

/-- Every registration refers to something that is there, and wrapper classes have the names that
are expected of them. -/
structure Backed (s : BindingSetup) (b : Binder) (body : NodeId) : Prop where
  grounded : ∀ p n kind, n ∈ b.tree.children p → b.tree.kind? n = some kind →
    ∀ r ∈ kind.references, ∃ id, b.tree.decl? n = some id ∧ b.Grounded body p id r
  named : ∀ cls w, b.wrapper? cls = some w → w.name = s.wrapperName cls

namespace Backed

/-- Where no node comes, nothing is referred to anew. -/
theorem of_still (h : s.Backed b body) (hkept : Kept b b') (hstill : Still b.tree b'.tree)
    (hwrappers : b'.wrappers = b.wrappers) : s.Backed b' body where
  grounded p n kind hn hkind r hr := by
    rw [hstill.children] at hn
    rw [hstill.decl]
    rcases hstill.kind n with hsame | ⟨-, new, -, hnew, -⟩
    · obtain ⟨id, hid, hgrounded⟩ := h.grounded p n kind hn (hsame ▸ hkind) r hr
      exact ⟨id, hid, hgrounded.kept hkept⟩
    · rw [hnew] at hkind
      cases hkind
      cases hr
  named cls w hw := by
    unfold Binder.wrapper? at hw
    rw [hwrappers] at hw
    exact h.named cls w hw

/-- A node that comes may refer to what is there. -/
theorem of_placed {kind : NodeKind} {decl : Option DeclId} {front back : List NodeId}
    (h : s.Backed b body) (hw : b.tree.WellFormed) (hkept : Kept b b')
    (hplaced : PlacedAs b.tree p kind decl front back t) (hstill : Still t b'.tree)
    (hnew : ∀ r ∈ kind.references, ∃ id, decl = some id ∧ b.Grounded body p id r)
    (hnamed : ∀ cls w, b'.wrapper? cls = some w → w.name = s.wrapperName cls) :
    s.Backed b' body where
  grounded q n kind' hn hkind r hr := by
    rw [hstill.children] at hn
    rw [hstill.decl, hplaced.decls]
    replace hkind : t.kind? n = some kind' := by
      rcases hstill.kind n with hsame | ⟨-, new, -, hcls, -⟩
      · exact hsame ▸ hkind
      · rw [hcls] at hkind
        cases hkind
        cases hr
    rw [hplaced.kinds] at hkind
    by_cases hsize : n = b.tree.size
    · -- the new node is the child of `p` alone
      rw [if_pos hsize] at hkind ⊢
      cases hkind
      obtain rfl : q = p := by
        by_contra hq
        rw [hplaced.children q hq, hsize] at hn
        exact Placed.not_mem_children hw q hn
      obtain ⟨id, hid, hgrounded⟩ := hnew r hr
      exact ⟨id, hid, hgrounded.kept hkept⟩
    · rw [if_neg hsize] at hkind ⊢
      have hold : n ∈ b.tree.children q := by
        by_cases hq : q = p
        · subst hq
          rw [hplaced.after, List.mem_append, List.mem_cons] at hn
          rw [hplaced.before, List.mem_append]
          exact hn.imp_right fun hn => hn.resolve_left hsize
        · rwa [hplaced.children q hq] at hn
      obtain ⟨id, hid, hgrounded⟩ := h.grounded q n kind' hold hkind r hr
      exact ⟨id, hid, hgrounded.kept hkept⟩
  named := hnamed

theorem step (h : s.Backed b body) (hw : b.tree.WellFormed) (hstep : s.LedgerStep ids body b b') :
    s.Backed b' body := by
  have hkept := kept_of_step hstep
  cases hstep with
  | aside haside => exact h.of_still hkept (haside.tree ▸ Still.refl _) haside.wrappers
  | alike hshape _ => exact h.of_still hkept (Still.of_shape hshape) rfl
  | noInit haltered => exact h.of_still hkept (haltered.still fun _ => rfl) rfl
  | place hplaced hkind _ _ =>
    refine h.of_placed hw hkept hplaced (Still.refl _) (fun r hr => ?_) h.named
    rw [hkind.silent] at hr
    cases hr
  | enter hplaced _ hgrounded _ _ =>
    exact h.of_placed hw hkept hplaced (Still.refl _) (fun r hr => ⟨_, rfl, hgrounded r hr⟩) h.named
  | adapter hplaced | header hplaced | container hplaced | register hplaced =>
    exact h.of_placed hw hkept hplaced (Still.refl _) (fun _ hr => nomatch hr) h.named
  | @wrap _ _ cls _ _ _ _ hplaced _ haltered =>
    refine h.of_placed hw hkept hplaced (haltered.still fun _ => rfl) (fun _ hr => nomatch hr)
      fun c w hc => ?_
    by_cases hcls : c = cls
    · subst hcls
      rw [wrapper?_cons_self] at hc
      rw [← Option.some.inj hc]
    · rw [wrapper?_cons_of_ne hcls] at hc
      exact h.named c w hc

/-- **A run leaves no reference without its function.** -/
theorem run (h : s.Backed b body) (haccounted : Accounted b body)
    (hrun : s.LedgerRun ids body b b') : s.Backed b' body := by
  induction hrun with
  | refl => exact h
  | tail hbefore hstep ih => exact ih.step (haccounted.run hbefore).wellFormed hstep

end Backed

/-! ### Nothing is written -/

theorem unwritten_of_step (hstep : s.LedgerStep ids body b b') (h : b.tree.Unwritten) :
    b'.tree.Unwritten := by
  cases hstep with
  | aside haside => exact haside.tree ▸ h
  | alike _ hunwritten => exact hunwritten h
  | noInit haltered => exact haltered.unwritten h
  | place hplaced | adapter hplaced | header hplaced | enter hplaced | container hplaced
  | register hplaced => exact hplaced.unwritten h
  | wrap _ _ hplaced _ haltered => exact haltered.unwritten (hplaced.unwritten h)

theorem unwritten_ofModule {name nspace : String} {license : Option String}
    (h : CodeTree.ofModule name license nspace = .ok t) : t.Unwritten := by
  have hempty : Unwritten {} := fun _ => rfl
  obtain ⟨t₀, ht₀, hlast⟩ := ofModule_ok (hempty.create (.module name) none)
    (fun _ ht happend => (append_ok happend).unwritten ht) h
  exact (append_ok hlast).unwritten ht₀

/-- **A binding writes no texts.** -/
theorem bind_unwritten (h : s.bind ids = .ok b) : b.tree.Unwritten := by
  obtain ⟨t, body, u, hmodule, -, hrun⟩ := bind_ok h
  have hsteps : s.LedgerRun ids body { tree := t } b := moves_bindAll_noted _ _ _ hrun
  clear h hrun
  induction hsteps with
  | refl => exact unwritten_ofModule hmodule
  | tail _ hstep ih => exact unwritten_of_step hstep ih

/-! ### The module -/

/-- In the tree of a module that nothing has been bound in, nothing is registered. -/
theorem backed_ofModule {name nspace : String} {license : Option String}
    (h : CodeTree.ofModule name license nspace = .ok t) : s.Backed { tree := t } body := by
  refine ⟨fun p n kind _ hkind r hr => ?_, fun cls w hw => (nomatch hw)⟩
  rcases kind?_ofModule h hkind with rfl | hpreamble | rfl
  · cases hr
  · cases kind with
    | license | «include» | namespaceAlias => cases hr
    | _ => cases hpreamble
  · cases hr

/-- What is registered in a module is there. -/
theorem bind_backed (h : s.bind ids = .ok b) : ∃ body, Accounted b body ∧ s.Backed b body := by
  obtain ⟨t, body, u, hmodule, hbody, hrun⟩ := bind_ok h
  have hledger : s.LedgerRun ids body { tree := t } b := moves_bindAll_noted _ _ _ hrun
  have haccounted := accounted_ofModule hmodule hbody
  exact ⟨body, haccounted.run hledger, (backed_ofModule hmodule).run haccounted hledger⟩

/-- **A wrapper class defines what is taken from it**: where a registration in a class refers to a
function of the wrapper class of that class, there is that wrapper class, and a member of it, for
the declaration of the registration, whose text consists of definitions of member functions, one of
them of that name. -/
theorem bind_defines (h : s.bind ids = .ok b) {p n : NodeId} {cls : DeclId} {kind : NodeKind}
    {name : String} (hp : b.tree.decl? p = some cls) (hn : n ∈ b.tree.children p)
    (hkind : b.tree.kind? n = some kind)
    (hname : s.wrapperName cls ++ "::" ++ name ∈ kind.references) :
    ∃ w ∈ b.tree.children root, b.tree.decl? w = some cls ∧
      b.tree.kind? w = some
        (.wrapper ⟨s.wrapperName cls, s.wrapperName cls, s.graph.fullName cls⟩) ∧
      ∃ q ∈ b.tree.children w, (b.tree.decl? n).isSome ∧ b.tree.decl? q = b.tree.decl? n ∧
        ∃ member, b.tree.kind? q = some member ∧ member.definesFunctions ∧
          contentLines (b.tree.render q).1.toList =
            (member.members (b.tree.libraryName q)).flatMap (·.lines) ∧
          ∃ f ∈ member.members (b.tree.libraryName q), f.name = name := by
  obtain ⟨body, haccounted, hbacked⟩ := bind_backed h
  have hrecorded := bind_recorded h
  generalize hr : s.wrapperName cls ++ "::" ++ name = r at hname
  obtain ⟨id, hid, hgrounded⟩ := hbacked.grounded p n kind hn hkind r hname
  cases hgrounded with
  | declared declared => exact absurd hr (s.wrapperName_append_ne cls name declared)
  | adapter hbody =>
    rw [hbody, haccounted.bodyNode.2] at hp
    cases hp
  | @member cls' w q member name' hnode hw hq hdecl hmember hdefines =>
    obtain rfl : cls' = cls := Option.some.inj ((hrecorded.node _ _ hnode).2.1.symm.trans hp)
    have hwname : w.name = s.wrapperName cls' := hbacked.named cls' w hw
    obtain rfl : name = name' := by
      rw [hwname] at hr
      exact String.append_right_inj _ |>.mp hr
    obtain ⟨-, -, hwdecl, hwkind⟩ := hrecorded.made cls' w hw
    rw [hwname] at hwkind
    refine ⟨w.node, (haccounted.wrapper cls' w hw).2, hwdecl, hwkind, q, hq, by rw [hid]; rfl,
      hdecl.trans hid.symm, member, hmember, hdefines.definesFunctions, ?_, hdefines _⟩
    rw [((bind_unwritten h).coherent.render haccounted.wellFormed q).1,
      haccounted.wellFormed.freshText_of_kind? hmember]
    exact contentLines_text_of_definesFunctions hdefines.definesFunctions _ _

/-- A class with a function that may be overridden. -/
def colored : DeclGraph :=
  ⟨#[{ name := "::", kind := .ns [1] },
    { name := "Shape", kind := .cls { members := [2] }, parent := some DeclGraph.root },
    { name := "color", parent := some 1, kind := .callable {
        kind := .memberFunction, returnType := some (.fundamental .int),
        virtuality := .overridable } }]⟩

/-- It is registered with its default implementation, which its stand-in defines. -/
theorem bind_defines_default : ∃ (s : BindingSetup) (b : Binder) (n : NodeId) (m : MakerNode),
    s.bind [1] = .ok b ∧ b.tree.kind? n = some (.maker m) ∧
      m.style = .overridable "Shape_wrapper::default_color" none ∧
      ∃ w ∈ b.tree.children root, b.tree.decl? w = some 1 ∧ ∃ q ∈ b.tree.children w,
        b.tree.decl? q = some 2 ∧ ∃ member, b.tree.kind? q = some member ∧
          contentLines (b.tree.render q).1.toList =
            (member.members (b.tree.libraryName q)).flatMap (·.lines) ∧
          ∃ f ∈ member.members (b.tree.libraryName q), f.name = "default_color" := by
  let s : BindingSetup := { graph := colored, options := {} }
  let maker : MakerNode := {
    style := .overridable "Shape_wrapper::default_color" none
    pythonName := "color", fullName := "::Shape::color", function := "::Shape::color" }
  obtain ⟨b, hb, hfound⟩ := Except.exists_eq_ok_of_any (x := s.bind [1])
    (p := fun b => 7 ∈ b.tree.children 4 ∧ b.tree.decl? 4 = some 1 ∧ b.tree.decl? 7 = some 2 ∧
      b.tree.kind? 7 = some (.maker maker)) (by decide +kernel)
  obtain ⟨hchild, hclass, hdecl, hmaker⟩ := of_decide_eq_true hfound
  have hrefers : s.wrapperName 1 ++ "::" ++ "default_color" ∈
      (NodeKind.maker maker).references := by decide +kernel
  obtain ⟨w, hw, hwdecl, -, q, hq, -, hqdecl, member, hmember, -, htext, hdefines⟩ :=
    bind_defines hb hclass hchild hmaker hrefers
  exact ⟨s, b, 7, maker, hb, hmaker, rfl, w, hw, hwdecl, q, hq, hqdecl.trans hdecl, member, hmember,
    htext, hdefines⟩

end BindingSetup

end Bindery
