import Bindery.Proofs.Binding.Backing
import Bindery.Proofs.Generation.Aliases

/-!
# The identifiers of registered classes

The variables of the registration of a class, and its wrapper class, are called after the full name
of the class, made an identifier.  Two different names with one identifier are noted.  The names
that are compared, though, are the full names without the colons in front, of which there are
several pairs where the outermost scope has no name; two classes whose names differ there only have
one identifier, and nothing is noted.

## Main definitions

* `BindingSetup.Exposers s t` — each registration has the identifier of its class.
* `Binder.Distinguishes` — two registrations have different identifiers, or a collision is noted.
* `DeclGraph.InNamedScope` — the outermost scope around a declaration has a name.

## Main results

* `Exposers.step`, `Exposers.run` — registrations keep the identifiers of their classes.
* `bind_distinguishes` — **identifiers are distinguished exactly if the names without colons are
  different**, or another name has become the identifier; so they are in named scopes.
-/

namespace Bindery

open Binding Binder CodeTree DeclGraph

namespace BindingSetup

variable {s : BindingSetup} {ids : List DeclId} {body : NodeId} {b b' : Binder} {t t' : CodeTree}

/-! ### Registrations -/

/-- The variables of each registration in the tree are called after the identifier of its class. -/
def Exposers (s : BindingSetup) (t : CodeTree) : Prop :=
  ∀ n r, t.kind? n = some (.cls r) → ∃ cls, t.decl? n = some cls ∧ r.exposer = s.exposerName cls

namespace Exposers

theorem of_shape (h : s.Exposers t) (hshape : SameShape t t') : s.Exposers t' := by
  intro n r hr
  rw [hshape.kind] at hr
  rw [hshape.decl]
  exact h n r hr

theorem of_placed {p : NodeId} {kind : NodeKind} {decl : Option DeclId} {front back : List NodeId}
    (h : s.Exposers t) (hplaced : PlacedAs t p kind decl front back t')
    (hnew : ∀ r, kind = .cls r → ∃ cls, decl = some cls ∧ r.exposer = s.exposerName cls) :
    s.Exposers t' := by
  intro n r hr
  rw [hplaced.kinds] at hr
  rw [hplaced.decls]
  split at hr
  · next hn =>
    rw [if_pos hn]
    exact hnew r (Option.some.inj hr)
  · next hn =>
    rw [if_neg hn]
    exact h n r hr

theorem of_altered {q : NodeId} {change : ClassNode → ClassNode} (h : s.Exposers t)
    (haltered : Altered t q change t') (hchange : ∀ r, (change r).exposer = r.exposer) :
    s.Exposers t' := by
  intro n r hr
  rw [haltered.kind] at hr
  rw [haltered.decl]
  split at hr
  · obtain ⟨kind, hkind, hr⟩ := Option.map_eq_some_iff.mp hr
    cases kind with
    | cls old =>
      cases hr
      rw [hchange]
      exact h n old hkind
    | _ => cases hr
  · exact h n r hr

/-- **A registration is placed with the identifier of its class and keeps it.** -/
theorem step (h : s.Exposers b.tree) (hstep : s.LedgerStep ids body b b') : s.Exposers b'.tree := by
  -- only a container and a class are placed with an identifier, and no change of a registration
  -- touches it
  cases hstep with
  | aside haside => exact haside.tree ▸ h
  | alike hshape _ => exact h.of_shape hshape
  | place hplaced hkind _ _ =>
    refine h.of_placed hplaced ?_
    rintro r rfl
    exact absurd rfl hkind.leaf
  | adapter hplaced | header hplaced => exact h.of_placed hplaced fun _ hr => nomatch hr
  | enter hplaced hkind _ _ _ =>
    refine h.of_placed hplaced ?_
    rintro r rfl
    exact absurd rfl hkind
  | container hplaced _ _ hexposer | register hplaced _ _ _ _ _ hexposer =>
    refine h.of_placed hplaced ?_
    rintro r ⟨⟩
    exact ⟨_, rfl, hexposer⟩
  | noInit haltered => exact h.of_altered haltered fun _ => rfl
  | wrap _ _ hplaced _ haltered =>
    exact (h.of_placed hplaced fun _ hr => nomatch hr).of_altered haltered fun _ => rfl

theorem run (h : s.Exposers b.tree) (hrun : s.LedgerRun ids body b b') : s.Exposers b'.tree := by
  induction hrun with
  | refl => exact h
  | tail _ hstep ih => exact ih.step hstep

end Exposers

/-- Each registration in a module has the identifier of its class. -/
theorem bind_exposers (h : s.bind ids = .ok b) : s.Exposers b.tree := by
  obtain ⟨t, body, u, hmodule, -, hrun⟩ := bind_ok h
  have hledger : s.LedgerRun ids body { tree := t } b := moves_bindAll_noted _ _ _ hrun
  refine Exposers.run (fun n r hr => ?_) hledger
  rcases kind?_ofModule hmodule hr with hmodule | hpreamble | hbody
  · cases hmodule
  · cases hpreamble
  · cases hbody

/-- The wrapper class of a class is called after the identifier of the class. -/
theorem bind_wrapper_name (h : s.bind ids = .ok b) {n : NodeId} {k : WrapperNode} {cls : DeclId}
    (hkind : b.tree.kind? n = some (.wrapper k)) (hdecl : b.tree.decl? n = some cls) :
    k.name = s.exposerName cls ++ "_wrapper" := by
  obtain ⟨_, -, hbacked⟩ := bind_backed h
  obtain ⟨cls', hdecl', hw⟩ := (bind_recorded h).wrapper n k hkind
  obtain rfl : cls = cls' := Option.some.inj (hdecl.symm.trans hdecl')
  exact hbacked.named cls _ hw

end BindingSetup

/-! ### Names without colons in front -/

namespace DeclGraph

variable {g : DeclGraph} {id id' : DeclId}

/-- The outermost scope around a declaration, or the declaration itself, has a name, which does not
begin with a colon. -/
def InNamedScope (g : DeclGraph) (id : DeclId) : Prop :=
  ∀ name ∈ (g.path id).head?, name.toList ≠ [] ∧ name.toList.head? ≠ some ':'

instance : Decidable (g.InNamedScope id) :=
  inferInstanceAs (Decidable (∀ name ∈ (g.path id).head?,
    name.toList ≠ [] ∧ name.toList.head? ≠ some ':'))

theorem dropColons_of_head? {l : List Char} (h : l.head? ≠ some ':') : dropColons l = l := by
  unfold dropColons
  split
  · exact absurd rfl h
  · rfl

theorem withoutRoot_append (name : String) : withoutRoot ("::" ++ name) = withoutRoot name := by
  unfold withoutRoot
  rw [String.toList_append]
  rfl

/-- The full name of what is in a named scope begins with one pair of colons. -/
theorem InNamedScope.fullName_eq (h : g.InNamedScope id) :
    g.fullName id = "::" ++ withoutRoot (g.fullName id) := by
  unfold fullName
  split
  · rfl
  · next names hne =>
    obtain ⟨name, rest, hpath⟩ := List.exists_cons_of_ne_nil hne
    obtain ⟨hnonempty, hcolon⟩ := h name (by rw [hpath]; rfl)
    obtain ⟨c, cs, hcs⟩ := List.exists_cons_of_ne_nil hnonempty
    have hhead : ("::".intercalate (g.path id)).toList.head? = name.toList.head? := by
      rw [String.toList_intercalate, hpath]
      cases rest with
      | nil => simp [List.intercalate, hcs]
      | cons a l => simp [List.intercalate_cons_cons, hcs]
    -- what stands behind the first pair of colons does not begin with one
    have hself : withoutRoot ("::".intercalate (g.path id)) = "::".intercalate (g.path id) := by
      unfold withoutRoot
      rw [dropColons_of_head? (hhead ▸ hcolon), String.ofList_toList]
    rw [withoutRoot_append, hself]

/-- In named scopes, different full names are different without their colons. -/
theorem InNamedScope.withoutRoot_ne (h : g.InNamedScope id) (h' : g.InNamedScope id')
    (hne : g.fullName id ≠ g.fullName id') :
    withoutRoot (g.fullName id) ≠ withoutRoot (g.fullName id') := by
  intro heq
  refine hne ?_
  rw [h.fullName_eq, h'.fullName_eq, heq]

end DeclGraph

/-! ### Distinguished registrations -/

namespace Binder

/-- The node is the registration `r` of the class. -/
structure Registers (b : Binder) (n : NodeId) (cls : DeclId) (r : ClassNode) : Prop where
  kind : b.tree.kind? n = some (.cls r)
  decl : b.tree.decl? n = some cls

/-- The identifiers of two registrations are different, or it is noted that names have become the
identifier. -/
def Distinguishes (b : Binder) (r r' : ClassNode) : Prop :=
  r.exposer ≠ r'.exposer ∨ ∃ c ∈ b.mangler.collisions, c.mangled = r.exposer

end Binder

namespace BindingSetup

variable {s : BindingSetup} {ids : List DeclId} {b : Binder} {n : NodeId} {cls : DeclId}
  {r : ClassNode}

/-- A registration has the identifier of its class, whose name has been met. -/
theorem exposer_of_registers (h : s.bind ids = .ok b) (hr : b.Registers n cls r) :
    r.exposer = s.exposerName cls ∧
      withoutRoot (s.graph.fullName cls) ∈ b.mangler.seen := by
  obtain ⟨cls₁, hdecl₁, hexposer⟩ := bind_exposers h n r hr.kind
  obtain rfl : cls = cls₁ := Option.some.inj (hr.decl.symm.trans hdecl₁)
  obtain ⟨cls₂, hdecl₂, -, hseen⟩ := (bind_informed h).known n _ hr.kind
  obtain rfl : cls = cls₂ := Option.some.inj (hr.decl.symm.trans hdecl₂)
  exact ⟨hexposer, hseen⟩

section

variable {n' : NodeId} {cls' : DeclId} {r' : ClassNode}

/-- Two registrations are distinguished exactly if the names of their classes differ without the
colons in front, or if another name that was met has become the identifier. -/
theorem distinguishes_iff (h : s.bind ids = .ok b) (hr : b.Registers n cls r)
    (hr' : b.Registers n' cls' r') : b.Distinguishes r r' ↔
      withoutRoot (s.graph.fullName cls) ≠ withoutRoot (s.graph.fullName cls') ∨
      ∃ other ∈ b.mangler.seen, other ≠ withoutRoot (s.graph.fullName cls) ∧
        Text.identifierOf other = r.exposer := by
  obtain ⟨hexposer, hseen⟩ := exposer_of_registers h hr
  obtain ⟨hexposer', hseen'⟩ := exposer_of_registers h hr'
  unfold Distinguishes
  rw [(bind_sound h).exists_collision_iff]
  constructor
  · rintro (hne | ⟨x, hx, y, hy, hxy, hxr, hyr⟩)
    · refine .inl fun heq => hne ?_
      rw [hexposer, hexposer', exposerName, heq, exposerName]
    · -- one of the two names is not that of the class
      by_cases hxc : x = withoutRoot (s.graph.fullName cls)
      · exact .inr ⟨y, hy, fun hyc => hxy (hxc.trans hyc.symm), hyr⟩
      · exact .inr ⟨x, hx, hxc, hxr⟩
  · rintro (hne | ⟨other, hother, hne, hor⟩)
    · by_cases heq : r.exposer = r'.exposer
      · exact .inr ⟨_, hseen, _, hseen', hne, hexposer.symm, hexposer'.symm.trans heq.symm⟩
      · exact .inl heq
    · exact .inr ⟨other, hother, _, hseen, hne, hor, hexposer.symm⟩

/-- **Two registrations are distinguished exactly if the names of their classes differ without the
colons in front, or if another name that was met has become the identifier.**  In named scopes it
suffices that the full names differ.  The wrapper classes have the identifiers in their names. -/
theorem bind_distinguishes (h : s.bind ids = .ok b) (hr : b.Registers n cls r)
    (hr' : b.Registers n' cls' r') :
    (b.Distinguishes r r' ↔
      withoutRoot (s.graph.fullName cls) ≠ withoutRoot (s.graph.fullName cls') ∨
      ∃ other ∈ b.mangler.seen, other ≠ withoutRoot (s.graph.fullName cls) ∧
        Text.identifierOf other = r.exposer) ∧
    (s.graph.InNamedScope cls → s.graph.InNamedScope cls' →
      s.graph.fullName cls ≠ s.graph.fullName cls' → b.Distinguishes r r') ∧
    ∀ w k, b.tree.kind? w = some (.wrapper k) → b.tree.decl? w = some cls →
      k.name = r.exposer ++ "_wrapper" := by
  have hiff := distinguishes_iff h hr hr'
  refine ⟨hiff, fun hscope hscope' hne => hiff.mpr (.inl (hscope.withoutRoot_ne hscope' hne)), ?_⟩
  intro w k hk hw
  rw [bind_wrapper_name h hk hw, (exposer_of_registers h hr).1]

end

/-- Two classes of these names, the first one in a namespace, with a function to be overridden. -/
def twoClasses (nspace first second : String) : DeclGraph :=
  let run : DeclKind := .callable { kind := .memberFunction, virtuality := .overridable }
  ⟨#[{ name := "::", kind := .ns [1, 3] },
    { name := nspace, kind := .ns [2], parent := some DeclGraph.root },
    { name := first, kind := .cls { members := [4] }, parent := some 1 },
    { name := second, kind := .cls { members := [5] }, parent := some DeclGraph.root },
    { name := "run", kind := run, parent := some 2 },
    { name := "run", kind := run, parent := some 3 }]⟩

/-- Two names become one identifier, which is noted. -/
theorem bind_distinguishes_noted : ∃ (s : BindingSetup) (b : Binder) (r r' : ClassNode),
    s.bind [2, 3] = .ok b ∧ b.Registers 4 2 r ∧ b.Registers 10 3 r' ∧ r.exposer = r'.exposer ∧
      b.Distinguishes r r' := by
  let s : BindingSetup := {
    graph := twoClasses "geo" "Box<int>" "geo_scope_Box_less_int_grate_", options := {} }
  let r : ClassNode := {
    fullName := "::geo::Box<int>", pythonName := "Box_less_int_grate_"
    exposer := "geo_scope_Box_less_int_grate_"
    wrapper := some "geo_scope_Box_less_int_grate__wrapper" }
  let r' : ClassNode := { r with
    fullName := "::geo_scope_Box_less_int_grate_", pythonName := "geo_scope_Box_less_int_grate_" }
  obtain ⟨b, hb, hfound⟩ := Except.exists_eq_ok_of_any (x := s.bind [2, 3])
    (p := fun b => b.tree.kind? 4 = some (.cls r) ∧ b.tree.decl? 4 = some 2 ∧
      b.tree.kind? 10 = some (.cls r') ∧ b.tree.decl? 10 = some 3) (by decide +kernel)
  obtain ⟨hkind, hdecl, hkind', hdecl'⟩ := of_decide_eq_true hfound
  have hr : b.Registers 4 2 r := ⟨hkind, hdecl⟩
  have hr' : b.Registers 10 3 r' := ⟨hkind', hdecl'⟩
  refine ⟨s, b, r, r', hb, hr, hr', rfl, (bind_distinguishes hb hr hr').2.1 ?_ ?_ ?_⟩ <;>
    decide +kernel

/-- A class of a namespace without a name and one of the global namespace have one identifier and
wrapper classes of one name, and nothing is noted. -/
theorem bind_not_distinguishes : ∃ (s : BindingSetup) (b : Binder) (r r' : ClassNode)
    (k k' : WrapperNode),
    s.graph.validate = .ok () ∧ s.graph.fullName 2 ≠ s.graph.fullName 3 ∧
      s.bind [2, 3] = .ok b ∧ b.Registers 4 2 r ∧ b.Registers 10 3 r' ∧
      b.tree.kind? 5 = some (.wrapper k) ∧ b.tree.kind? 11 = some (.wrapper k') ∧
      k.name = k'.name ∧ b.mangler.collisions = [] ∧ ¬ b.Distinguishes r r' := by
  let s : BindingSetup := { graph := twoClasses "" "Shape" "Shape", options := {} }
  let r : ClassNode := {
    fullName := "::::Shape", pythonName := "Shape", exposer := "Shape"
    wrapper := some "Shape_wrapper" }
  let r' : ClassNode := { r with fullName := "::Shape" }
  let k : WrapperNode := ⟨"Shape_wrapper", "Shape_wrapper", "::::Shape"⟩
  let k' : WrapperNode := { k with classFullName := "::Shape" }
  obtain ⟨b, hb, hfound⟩ := Except.exists_eq_ok_of_any (x := s.bind [2, 3])
    (p := fun b => (b.tree.kind? 4 = some (.cls r) ∧ b.tree.decl? 4 = some 2) ∧
      (b.tree.kind? 10 = some (.cls r') ∧ b.tree.decl? 10 = some 3) ∧
      b.tree.kind? 5 = some (.wrapper k) ∧ b.tree.kind? 11 = some (.wrapper k') ∧
      b.mangler.collisions = []) (by decide +kernel)
  obtain ⟨⟨hkind, hdecl⟩, ⟨hkind', hdecl'⟩, hk, hk', hnone⟩ := of_decide_eq_true hfound
  refine ⟨s, b, r, r', k, k', by decide +kernel, by decide +kernel, hb, ⟨hkind, hdecl⟩,
    ⟨hkind', hdecl'⟩, hk, hk', rfl, hnone, ?_⟩
  rintro (hne | ⟨c, hc, -⟩)
  · exact hne rfl
  · rw [hnone] at hc
    cases hc

end BindingSetup

end Bindery
