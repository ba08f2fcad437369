import Bindery.Decl.Validation
import Bindery.Proofs.Binding.Runs
import Bindery.Proofs.Generation.Run

/-!
# Warnings about equal aliases

Two declarations that are registered side by side need different names in Python.  A finished
module is checked for that in two ways: declarations of one scope are compared by the aliases they
were given, and names that were made identifiers are compared by the identifiers.  The aliases of
declarations of different scopes, though, are compared by neither check if they were identifiers
from the beginning.

## Main definitions

* `NodeKind.registeredAs?` — the alias under which a node registers a class, an enumeration or a
  variable.
* `DeclGraph.Clash` — two declarations of one scope with one alias.
* `Generation.WarnsOf` — an alias is reported.

## Main results

* `DeclGraph.exists_clash_reported` — the check of scopes reports clashes.
* `Generation.finish_warnsOf` — **an alias is reported if and only if two declarations of one scope
  have it, or two names that were met have become it.**
-/

namespace Bindery

/-- The alias under which a node registers a class, an enumeration or a variable. -/
def NodeKind.registeredAs? : NodeKind → Option String
  | .cls c => some c.pythonName
  | .enum e => some e.pythonName
  | .globalVariable name _ => some name
  | .memberVariable v => some v.pythonName
  | .property p => some p.pythonName
  | _ => none

/-- The two have one name in one scope. -/
def ScopedAlias.meets (second first : ScopedAlias) : Bool :=
  first.scope == second.scope && first.pythonName == second.pythonName

namespace DeclGraph

variable {g : DeclGraph} {ids : List DeclId} {ds : List Diagnostic} {a : ScopedAlias} {x y : DeclId}
  {name : String}

/-- Two declarations among the given ones that have to have names of their own are declared in one
scope and have one alias. -/
structure Clash (g : DeclGraph) (ids : List DeclId) (x y : DeclId) (name : String) : Prop where
  ne : x ≠ y
  mem : x ∈ ids ∧ y ∈ ids
  needs : g.needsOwnAlias x ∧ g.needsOwnAlias y
  scope : g.parent? x = g.parent? y
  alias_left : g.pythonName x = .ok name
  alias_right : g.pythonName y = .ok name

theorem mem_scopedAliases {named : List ScopedAlias} (h : g.scopedAliases ids = .ok named) :
    a ∈ named ↔ (a.id ∈ ids ∧ g.needsOwnAlias a.id) ∧ a.scope = g.parent? a.id ∧
      g.pythonName a.id = .ok a.pythonName := by
  have hmem : ∀ id, id ∈ ids.eraseDups.filter g.needsOwnAlias ↔ id ∈ ids ∧ g.needsOwnAlias id := by
    intro id
    rw [List.mem_filter, List.mem_eraseDups]
  unfold scopedAliases at h
  constructor
  · intro ha
    obtain ⟨id, hid, hok⟩ := Except.exists_of_mem_mapM h ha
    obtain ⟨name, hname, hok⟩ := Except.bind_eq_ok.mp hok
    obtain rfl := Except.pure_eq_ok.mp hok
    exact ⟨(hmem id).mp hid, rfl, hname⟩
  · rintro ⟨hid, hscope, hname⟩
    obtain ⟨c, hc, hok⟩ := Except.exists_mem_of_mapM h ((hmem a.id).mpr hid)
    obtain ⟨name, hname', hok⟩ := Except.bind_eq_ok.mp hok
    obtain rfl := Except.pure_eq_ok.mp hok
    obtain rfl : a.pythonName = name := Except.ok.inj (hname.symm.trans hname')
    rw [← hscope] at hc
    exact hc

/-- The message about a clash. -/
def clashMessage (g : DeclGraph) (x y : DeclId) (name : String) : Diagnostic :=
  g.aliasClash ⟨x, g.parent? x, name⟩ ⟨y, g.parent? y, name⟩

/-- What is reported about a declaration: the first that has its name in its scope. -/
def clashOf? (g : DeclGraph) (named : List ScopedAlias) (second : ScopedAlias) :
    Option Diagnostic :=
  match named.find? second.meets with
  | some first => if first.id = second.id then none else some (g.aliasClash first second)
  | none => none

theorem aliasClashes_eq (g : DeclGraph) (ids : List DeclId) : g.aliasClashes ids = (do
    let named ← g.scopedAliases ids
    return named.filterMap (g.clashOf? named)) := rfl

/-- **Where there is a clash, the check of scopes reports one with the same name.** -/
theorem exists_clash_reported (h : g.aliasClashes ids = .ok ds) (hclash : g.Clash ids x y name) :
    ∃ x y, g.Clash ids x y name ∧ g.clashMessage x y name ∈ ds := by
  rw [aliasClashes_eq] at h
  obtain ⟨named, hnamed, h⟩ := Except.bind_eq_ok.mp h
  obtain rfl := Except.pure_eq_ok.mp h
  let second : ScopedAlias := ⟨y, g.parent? y, name⟩
  have hsecond : second ∈ named :=
    (mem_scopedAliases hnamed).mpr ⟨⟨hclash.mem.2, hclash.needs.2⟩, rfl, hclash.alias_right⟩
  -- the first declaration that has the name in the scope is not both of the two
  obtain ⟨first, hfirst⟩ : ∃ first, named.find? second.meets = some first :=
    Option.isSome_iff_exists.mp
      (List.find?_isSome.mpr ⟨second, hsecond, by simp [ScopedAlias.meets]⟩)
  obtain ⟨hscope, hname⟩ : first.scope = g.parent? y ∧ first.pythonName = name := by
    simpa [second, ScopedAlias.meets] using List.find?_some hfirst
  obtain ⟨⟨hmem, hneeds⟩, hparent, hok⟩ :=
    (mem_scopedAliases hnamed).mp (List.mem_of_find?_eq_some hfirst)
  obtain ⟨z, hne, hz, hzneeds, hzscope, hzname⟩ : ∃ z, first.id ≠ z ∧ z ∈ ids ∧
      g.needsOwnAlias z ∧ g.parent? z = g.parent? y ∧ g.pythonName z = .ok name := by
    by_cases hne : first.id = y
    · exact ⟨x, fun hx => hclash.ne (hx.symm.trans hne), hclash.mem.1, hclash.needs.1, hclash.scope,
        hclash.alias_left⟩
    · exact ⟨y, hne, hclash.mem.2, hclash.needs.2, rfl, hclash.alias_right⟩
  refine ⟨first.id, z, ⟨hne, ⟨hmem, hz⟩, ⟨hneeds, hzneeds⟩, ?_, hname ▸ hok, hzname⟩, ?_⟩
  · rw [← hparent, hscope, hzscope]
  have hthird : (⟨z, g.parent? z, name⟩ : ScopedAlias) ∈ named :=
    (mem_scopedAliases hnamed).mpr ⟨⟨hz, hzneeds⟩, rfl, hzname⟩
  have hmeets : ScopedAlias.meets ⟨z, g.parent? z, name⟩ = second.meets := by
    rw [hzscope]
    rfl
  refine List.mem_filterMap.mpr ⟨_, hthird, ?_⟩
  have heq : first = ⟨first.id, g.parent? first.id, name⟩ := by rw [← hparent, ← hname]
  unfold clashOf? clashMessage
  rw [hmeets, hfirst, ← heq]
  exact if_neg hne

end DeclGraph

namespace BindingSetup

variable {s : BindingSetup} {b b' : Binder}

/-- A step of the binding of a module keeps what is remembered of names. -/
theorem ModuleStep.sound (h : s.ModuleStep b b') (hb : b.mangler.Sound) : b'.mangler.Sound := by
  cases h with
  | register => exact hb
  | bind h =>
    cases h with
    | quiet h => exact h.mangler ▸ hb
    | meet name => exact Text.Mangler.sound_add hb name
    | still | place | wrap => exact hb

theorem bind_sound {ids : List DeclId} (h : s.bind ids = .ok b) : b.mangler.Sound := by
  obtain ⟨t, -, hrun⟩ := bind_run h
  clear h
  induction hrun with
  | refl => exact Text.Mangler.sound_empty
  | tail _ hstep ih => exact hstep.sound ih

/-- A raw alias has been met, if it is no identifier or the identifier has been met that it becomes. -/
theorem Named.met {id : DeclId} {raw name : String} (h : s.Named b id name)
    (hraw : s.graph.pythonName id = .ok raw)
    (hmet : ¬ Text.isIdentifier raw ∨ name ∈ b.mangler.seen) :
    raw ∈ b.mangler.seen ∧ Text.identifierOf raw = name := by
  obtain ⟨raw', hraw', rfl, hseen⟩ := h
  obtain rfl : raw = raw' := Except.ok.inj (hraw.symm.trans hraw')
  refine ⟨?_, rfl⟩
  by_cases hidentifier : Text.isIdentifier raw
  · rw [Text.identifierOf_eq_self hidentifier] at hmet
    exact hmet.resolve_left (not_not_intro hidentifier)
  · exact hseen.resolve_left hidentifier

/-- A node that registers a declaration under an alias has the name of the declaration. -/
theorem Informed.named {n : NodeId} {kind : NodeKind} {name : String} (h : s.Informed b)
    (hkind : b.tree.kind? n = some kind) (halias : kind.registeredAs? = some name) :
    ∃ id, b.tree.decl? n = some id ∧ s.Named b id name := by
  have hknown := h.known n kind hkind
  cases kind with
  | cls c =>
    cases halias
    obtain ⟨id, hid, hnamed, -⟩ := hknown
    exact ⟨id, hid, hnamed⟩
  | enum | globalVariable | memberVariable | property =>
    cases halias
    exact hknown
  | _ => cases halias

end BindingSetup

namespace Generation

open DeclGraph

variable {s : Generation} {g : DeclGraph} {options : ModuleOptions} {rules : List PolicyRule}

/-- The diagnostics warn of the alias: two bound declarations of one scope have it, perhaps before
it was made an identifier, or two names have become it. -/
def WarnsOf (s : Generation) (name : String) : Prop :=
  (∃ x y raw, s.graph.Clash s.exported x y raw ∧ Text.identifierOf raw = name ∧
    s.graph.clashMessage x y raw ∈ s.diagnostics) ∨
  ∃ c ∈ s.collisions, c.mangled = name ∧ c.diagnostic ∈ s.diagnostics

/-- What makes two declarations with one alias noticed: they clash in one scope, or they have got
the alias from different names, both of which were made identifiers, or of which one was while the
identifier of a class is the alias, too. -/
def Noticed (g : DeclGraph) (exported : List DeclId) (t : CodeTree) (x y : DeclId) (name : String) :
    Prop :=
  ∃ rx ry, g.pythonName x = .ok rx ∧ g.pythonName y = .ok ry ∧
    (rx = ry ∧ g.Clash exported x y rx ∨
      rx ≠ ry ∧ ((¬ Text.isIdentifier rx ∧ ¬ Text.isIdentifier ry) ∨
        ∃ n c cls, t.kind? n = some (.cls c) ∧ t.decl? n = some cls ∧
          withoutRoot (g.fullName cls) = name))

/-- An alias is reported if and only if two bound declarations of one scope clash in it, or two
names that were met have become it. -/
theorem warnsOf_iff {setup : BindingSetup} {b : Binder} {ids : List DeclId} {name : String}
    (hbind : setup.bind ids = .ok b) (hexported : s.collisions = b.mangler.collisions)
    (hreports : ∀ check : Check, ∃ ds, check.diagnostics s = .ok ds ∧ ds ⊆ s.diagnostics) :
    s.WarnsOf name ↔
      (∃ x y raw, s.graph.Clash s.exported x y raw ∧ Text.identifierOf raw = name) ∨
      ∃ r₁ ∈ b.mangler.seen, ∃ r₂ ∈ b.mangler.seen, r₁ ≠ r₂ ∧
        Text.identifierOf r₁ = name ∧ Text.identifierOf r₂ = name := by
  rw [← (BindingSetup.bind_sound hbind).exists_collision_iff, ← hexported]
  constructor
  · rintro (⟨x, y, raw, hclash, hname, -⟩ | ⟨c, hc, hname, -⟩)
    · exact .inl ⟨x, y, raw, hclash, hname⟩
    · exact .inr ⟨c, hc, hname⟩
  · rintro (⟨x, y, raw, hclash, hname⟩ | ⟨c, hc, hname⟩)
    · obtain ⟨ds, hds, hsub⟩ := hreports .duplicateAlias
      obtain ⟨x, y, hclash, hmem⟩ := exists_clash_reported hds hclash
      exact .inl ⟨x, y, raw, hclash, hname, hsub hmem⟩
    · obtain ⟨ds, hds, hsub⟩ := hreports .nameCollision
      obtain rfl := Except.ok.inj hds
      exact .inr ⟨c, hc, hname, hsub (List.mem_map_of_mem hc)⟩

/-- Two different names with one identifier have both been met, if neither is an identifier itself
or the identifier is the one of a class. -/
theorem met_of_noticed {setup : BindingSetup} {b : Binder} (hinformed : setup.Informed b)
    {x y : DeclId} {rx ry name : String} (hx : setup.Named b x name) (hy : setup.Named b y name)
    (hrx : setup.graph.pythonName x = .ok rx) (hry : setup.graph.pythonName y = .ok ry)
    (hne : rx ≠ ry)
    (hnoticed : (¬ Text.isIdentifier rx ∧ ¬ Text.isIdentifier ry) ∨
      ∃ n c cls, b.tree.kind? n = some (.cls c) ∧ b.tree.decl? n = some cls ∧
        withoutRoot (setup.graph.fullName cls) = name) :
    ∃ r₁ ∈ b.mangler.seen, ∃ r₂ ∈ b.mangler.seen, r₁ ≠ r₂ ∧
      Text.identifierOf r₁ = name ∧ Text.identifierOf r₂ = name := by
  have hseen : (¬ Text.isIdentifier rx ∧ ¬ Text.isIdentifier ry) ∨ name ∈ b.mangler.seen := by
    refine hnoticed.imp_right fun ⟨n, c, cls, hkind, hdecl, hcls⟩ => ?_
    obtain ⟨cls', hcls', -, hseen⟩ := hinformed.known n _ hkind
    obtain rfl : cls = cls' := Option.some.inj (hdecl.symm.trans hcls')
    exact hcls ▸ hseen
  obtain ⟨hxmet, hxname⟩ := hx.met hrx (hseen.imp_left And.left)
  obtain ⟨hymet, hyname⟩ := hy.met hry (hseen.imp_left And.right)
  exact ⟨rx, hxmet, ry, hymet, hne, hxname, hyname⟩

/-- **An alias of a finished module is reported if and only if two declarations of one scope clash
in it, or two names that were met have become it; and so it is if two declarations that are
registered under it are noticed.** -/
theorem finish_warnsOf (h : finish g options rules = .ok s) :
    ∃ o b, s.order? = some o ∧
      ({ graph := g, options, verdicts := s.verdicts, rules } : BindingSetup).bind
        o.declarations = .ok b ∧ s.tree? = some b.tree ∧
      (∀ name, s.WarnsOf name ↔
        (∃ x y raw, g.Clash s.exported x y raw ∧ Text.identifierOf raw = name) ∨
        ∃ r₁ ∈ b.mangler.seen, ∃ r₂ ∈ b.mangler.seen, r₁ ≠ r₂ ∧
          Text.identifierOf r₁ = name ∧ Text.identifierOf r₂ = name) ∧
      ∀ n₁ n₂ kind₁ kind₂ x y name, b.tree.kind? n₁ = some kind₁ → b.tree.decl? n₁ = some x →
        kind₁.registeredAs? = some name → b.tree.kind? n₂ = some kind₂ →
        b.tree.decl? n₂ = some y → kind₂.registeredAs? = some name →
        Noticed g s.exported b.tree x y name → s.WarnsOf name := by
  obtain ⟨o, b, ho, hbind, rfl, htree, hcollisions, hreports⟩ := finish_reports h
  refine ⟨o, b, ho, hbind, htree, fun name => warnsOf_iff hbind hcollisions hreports, ?_⟩
  intro n₁ n₂ kind₁ kind₂ x y name hkind₁ hx hname₁ hkind₂ hy hname₂ ⟨rx, ry, hrx, hry, hnoticed⟩
  have hinformed := BindingSetup.bind_informed hbind
  obtain ⟨x', hx', hnamed₁⟩ := hinformed.named hkind₁ hname₁
  obtain rfl : x = x' := Option.some.inj (hx.symm.trans hx')
  obtain ⟨y', hy', hnamed₂⟩ := hinformed.named hkind₂ hname₂
  obtain rfl : y = y' := Option.some.inj (hy.symm.trans hy')
  rw [warnsOf_iff hbind hcollisions hreports]
  rcases hnoticed with ⟨rfl, hclash⟩ | ⟨hne, hnoticed⟩
  · obtain ⟨rx', hrx', hname, -⟩ := hnamed₁
    obtain rfl : rx = rx' := Except.ok.inj (hrx.symm.trans hrx')
    exact .inl ⟨x, y, rx, hclash, hname.symm⟩
  · exact .inr (met_of_noticed hinformed hnamed₁ hnamed₂ hrx hry hne hnoticed)

/-! ### Enumerations of one name -/

/-- Two namespaces with enumerations of one name, the second of which is in the given scope. -/
def colors (scope : DeclId) : DeclGraph :=
  ⟨#[{ name := "::", kind := .ns [1, 3] },
    { name := "a", kind := .ns (if scope = 1 then [2, 4] else [2]), parent := some DeclGraph.root },
    { name := "Color", kind := .enum [⟨"red", 0⟩], parent := some 1 },
    { name := "b", kind := .ns (if scope = 1 then [] else [4]), parent := some DeclGraph.root },
    { name := "Color", kind := .enum [⟨"blue", 0⟩], parent := some scope }]⟩

/-- In one namespace they clash, which is reported. -/
theorem finish_warnsOf_sameScope : ∃ s, finish (colors 1) {} = .ok s ∧ s.WarnsOf "Color" := by
  obtain ⟨s, hs, hexported⟩ := Except.exists_eq_ok_of_any (x := finish (colors 1) {})
    (p := fun s => s.exported = [2, 4]) (by decide +kernel)
  have hmem : s.exported = [2, 4] := of_decide_eq_true hexported
  obtain ⟨o, b, -, -, -, hiff, -⟩ := finish_warnsOf hs
  refine ⟨s, hs, (hiff "Color").mpr (.inl ⟨2, 4, "Color", ⟨by decide, ?_, ?_, ?_, ?_, ?_⟩, ?_⟩)⟩
  · rw [hmem]
    decide
  all_goals decide +kernel

/-- In two namespaces they are registered under one alias as well, and nothing is reported. -/
theorem finish_silent : ∃ (s : Generation) (t : CodeTree) (p n₁ n₂ : NodeId)
    (kind₁ kind₂ : NodeKind) (x y : DeclId) (name : String),
      (colors 3).validate = .ok () ∧ finish (colors 3) {} = .ok s ∧ s.tree? = some t ∧
      n₁ ∈ t.children p ∧ t.kind? n₁ = some kind₁ ∧ kind₁.registeredAs? = some name ∧
      t.decl? n₁ = some x ∧ n₂ ∈ t.children p ∧ t.kind? n₂ = some kind₂ ∧
      kind₂.registeredAs? = some name ∧ t.decl? n₂ = some y ∧
      x ≠ y ∧ x ∈ s.exported ∧ y ∈ s.exported ∧ s.diagnostics = [] := by
  let kind (scope value : String) : NodeKind := .enum {
    fullName := "::" ++ scope ++ "::Color", pythonName := "Color"
    values := [⟨value, "::" ++ scope ++ "::" ++ value⟩] }
  obtain ⟨s, hs, hall⟩ := Except.exists_eq_ok_of_any (x := finish (colors 3) {})
    (p := fun s => s.exported = [2, 4] ∧ s.diagnostics = [] ∧ s.tree?.any fun t =>
      4 ∈ t.children 3 ∧ t.kind? 4 = some (kind "a" "red") ∧ t.decl? 4 = some 2 ∧
      5 ∈ t.children 3 ∧ t.kind? 5 = some (kind "b" "blue") ∧ t.decl? 5 = some 4)
    (by decide +kernel)
  obtain ⟨hexported, hsilent, htree⟩ := of_decide_eq_true hall
  obtain ⟨t, ht, htree⟩ := (Option.any_eq_true _ _).mp htree
  obtain ⟨hchild₁, hkind₁, hdecl₁, hchild₂, hkind₂, hdecl₂⟩ := of_decide_eq_true htree
  refine ⟨s, t, 3, 4, 5, _, _, 2, 4, "Color", by decide +kernel, hs, ht, hchild₁, hkind₁, rfl,
    hdecl₁, hchild₂, hkind₂, rfl, hdecl₂, by decide, ?_, ?_, hsilent⟩ <;> rw [hexported] <;> decide

end Generation

end Bindery
