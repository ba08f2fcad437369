import Bindery.Decl.Samples
import Bindery.Proofs.Decl.Building
import Bindery.Proofs.Manifest.Decisions

/-!
# The declarations that a manifest decides about

Decisions change configurations only, so that every name still means the same declarations when
the next table is looked at.  The tables can therefore be dealt out to the declarations beforehand:
each declaration takes those that have its name, in their order.  The tables are applied one after
the other until one names no declaration; those in front of it have been applied by then.

## Main definitions

* `Declaration.decided` — a declaration behind some tables of decisions.
* `DeclGraph.tablesFor` — the tables that decide about a declaration.
* `DeclGraph.decided` — the graph in which each declaration is behind its tables.
* `DeclGraph.decisions` — the pairs of a table and a declaration that it decides about.

## Main results

* `findAll_applyOverride` — decisions leave the meaning of all names alone.
* `applyOverrides_append` — tables that name declarations are dealt out, and counted.
* `Manifest.ascending_of_read?` — the tables of a manifest stand in the order of their keys.
* `Manifest.applyTo_eq_ok_iff` — when a manifest can be applied, and what comes of it.
* `Manifest.applyTo_exact` — **each declaration takes exactly the tables with its name, in ascending
  order and field by field; nothing else changes; and the pairs of a table and a declaration are
  counted.**
* `Manifest.applyTo_stopped` — **a manifest that cannot be applied has been applied up to the first
  table that names no declaration.**
-/

namespace Bindery

/-- A declaration behind some tables of decisions, one after the other. -/
def Declaration.decided (d : Declaration) (tables : List (String × DeclOverride)) : Declaration :=
  { d with config := tables.foldl (fun c t => t.2.applyTo c) d.config }

theorem Declaration.layered_decided (d : Declaration) (tables : List (String × DeclOverride)) :
    d.config.Layered (tables.map (·.2)) (d.decided tables).config := by
  have hrun := d.config.layered_foldl (tables.map (·.2))
  rwa [List.foldl_map] at hrun

namespace DeclGraph

variable {g g' : DeclGraph} {id : DeclId} {ids : List DeclId} {o : DeclOverride} {name : String}
  {tables known rest : List (String × DeclOverride)} {t : String × DeclOverride}

/-! ### Names -/

theorem mem_findAll :
    id ∈ g.findAll name ↔ id ∈ g.properIds ∧ g.fullName id = qualified name := by
  unfold findAll
  rw [List.mem_filter, beq_iff_eq]

theorem nodup_findAll (g : DeclGraph) (name : String) : (g.findAll name).Nodup :=
  (List.nodup_range.sublist (List.drop_sublist 1 _)).filter _

/-- A full name is made of names and scopes alone. -/
theorem fullName_congr (hsize : g'.size = g.size)
    (hname : ∀ i, (g'.get? i).map (·.name) = (g.get? i).map (·.name))
    (hparent : ∀ i, g'.parent? i = g.parent? i) (id : DeclId) : g'.fullName id = g.fullName id := by
  have hwithin : ∀ fuel id, g'.enclosingWithin fuel id = g.enclosingWithin fuel id := by
    intro fuel
    induction fuel with
    | zero => exact fun _ => rfl
    | succ fuel ih =>
      intro id
      unfold enclosingWithin
      rw [hparent]
      cases g.parent? id with
      | none => rfl
      | some p => exact congrArg (p :: ·) (ih p)
  have hpath : g'.path id = g.path id := by
    unfold path enclosing
    rw [hsize, hwithin, funext hname]
  unfold fullName
  rw [hpath]

/-- Graphs that differ in other things than names and scopes have the same declarations of each
name. -/
theorem findAll_congr (hsize : g'.size = g.size)
    (hlinks : ∀ i, (g'.get? i).map (fun d => (d.name, d.parent)) =
      (g.get? i).map fun d => (d.name, d.parent)) : g'.findAll = g.findAll := by
  have hview {α : Type} (f : String × Option DeclId → α) (i : DeclId) :
      (g'.get? i).map (fun d => f (d.name, d.parent)) =
        (g.get? i).map fun d => f (d.name, d.parent) := by
    have h := congrArg (Option.map f) (hlinks i)
    rwa [Option.map_map, Option.map_map] at h
  have hfull : ∀ i, g'.fullName i = g.fullName i :=
    fullName_congr hsize (hview Prod.fst) fun i => by
      rw [parent?_eq, parent?_eq, hview Prod.snd]
  funext name
  unfold findAll properIds DeclGraph.ids
  rw [hsize]
  exact List.filter_congr fun i _ => by rw [hfull]

/-- Decisions leave the meaning of all names alone. -/
theorem findAll_applyOverride (g : DeclGraph) (o : DeclOverride) (id : DeclId) :
    (g.applyOverride o id).findAll = g.findAll := by
  have hlinks (i : DeclId) : ((g.applyOverride o id).get? i).map (fun d => (d.name, d.parent)) =
      (g.get? i).map fun d => (d.name, d.parent) := by
    have hkept (d : Declaration) :
        (fun d : Declaration => (d.name, d.parent)) { d with config := o.applyTo d.config } =
          (d.name, d.parent) := rfl
    exact map_get?_modify hkept id i
  exact findAll_congr (size_modify g id _) hlinks

/-! ### One table -/

theorem findAll_foldl_applyOverride (g : DeclGraph) (o : DeclOverride) (ids : List DeclId) :
    (ids.foldl (·.applyOverride o ·) g).findAll = g.findAll := by
  induction ids generalizing g with
  | nil => rfl
  | cons id ids ih => exact (ih (g.applyOverride o id)).trans (findAll_applyOverride g o id)

/-- Each of the declarations is behind the table once. -/
theorem get?_foldl_applyOverride (h : ids.Nodup) (name : String) (i : DeclId) :
    (ids.foldl (·.applyOverride o ·) g).get? i =
      (g.get? i).map (·.decided (if i ∈ ids then [(name, o)] else [])) := by
  induction ids generalizing g with
  | nil => exact Option.map_id'.symm
  | cons id ids ih =>
    obtain ⟨hid, hids⟩ := List.nodup_cons.mp h
    have hstep : (g.applyOverride o id).get? i =
        if id = i then (g.get? i).map (·.decided [(name, o)]) else g.get? i := get?_modify ..
    rw [List.foldl_cons, ih hids, hstep]
    by_cases hi : id = i
    · subst hi
      rw [if_pos rfl, if_neg hid, if_pos List.mem_cons_self]
      exact Option.map_id'
    · simp only [if_neg hi, List.mem_cons, Ne.symm hi, false_or]

/-! ### All tables -/

/-- The tables that decide about a declaration, in their order. -/
def tablesFor (g : DeclGraph) (tables : List (String × DeclOverride)) (id : DeclId) :
    List (String × DeclOverride) :=
  tables.filter fun t => id ∈ g.findAll t.1

/-- The graph in which each declaration is behind the tables that decide about it. -/
def decided (g : DeclGraph) (tables : List (String × DeclOverride)) : DeclGraph :=
  ⟨g.decls.mapIdx fun id d => d.decided (g.tablesFor tables id)⟩

/-- The pairs of a table and a declaration that it decides about. -/
def decisions (g : DeclGraph) (tables : List (String × DeclOverride)) :
    List ((String × DeclOverride) × DeclId) :=
  tables.flatMap fun t => (g.findAll t.1).map (t, ·)

theorem get?_decided (g : DeclGraph) (tables : List (String × DeclOverride)) (i : DeclId) :
    (g.decided tables).get? i = (g.get? i).map (·.decided (g.tablesFor tables i)) :=
  Array.getElem?_mapIdx

theorem mem_tablesFor : t ∈ g.tablesFor tables id ↔ t ∈ tables ∧ id ∈ g.findAll t.1 := by
  unfold tablesFor
  rw [List.mem_filter, decide_eq_true_iff]

theorem mem_decisions : (t, id) ∈ g.decisions tables ↔ t ∈ tables ∧ id ∈ g.findAll t.1 := by
  unfold decisions
  simp [List.mem_flatMap]

theorem nodup_decisions (h : tables.Nodup) : (g.decisions tables).Nodup := by
  refine List.nodup_flatMap.mpr ⟨fun t _ => ?_, h.imp fun hne => ?_⟩
  · exact (nodup_findAll g t.1).map fun _ _ h => (Prod.mk.inj h).2
  · intro p hp hq
    obtain ⟨_, -, rfl⟩ := List.mem_map.mp hp
    obtain ⟨_, -, hsame⟩ := List.mem_map.mp hq
    exact hne (Prod.mk.inj hsame).1.symm

theorem findAll_decided (g : DeclGraph) (tables : List (String × DeclOverride)) :
    (g.decided tables).findAll = g.findAll := by
  refine findAll_congr Array.size_mapIdx fun i => ?_
  rw [get?_decided, Option.map_map]
  rfl

/-- The first table can be applied before the others are dealt out. -/
theorem decided_cons (g : DeclGraph) (t : String × DeclOverride)
    (tables : List (String × DeclOverride)) :
    ((g.findAll t.1).foldl (·.applyOverride t.2 ·) g).decided tables = g.decided (t :: tables) := by
  refine congrArg DeclGraph.mk (Array.ext_getElem? fun i => ?_)
  have hfor : ((g.findAll t.1).foldl (·.applyOverride t.2 ·) g).tablesFor tables i =
      g.tablesFor tables i := by
    unfold tablesFor
    rw [findAll_foldl_applyOverride]
  show (decided _ tables).get? i = (g.decided (t :: tables)).get? i
  rw [get?_decided, get?_decided, hfor, get?_foldl_applyOverride (nodup_findAll g t.1) t.1,
    Option.map_map]
  congr 1
  funext d
  unfold tablesFor
  rw [List.filter_cons]
  by_cases hi : i ∈ g.findAll t.1
  · rw [if_pos hi, if_pos (decide_eq_true hi)]
    rfl
  · rw [if_neg hi, if_neg (by simpa using hi)]
    rfl

theorem decided_nil (g : DeclGraph) : g.decided [] = g := by
  refine congrArg DeclGraph.mk (Array.ext_getElem? fun i => ?_)
  show (g.decided []).get? i = g.get? i
  rw [get?_decided]
  exact Option.map_id'

/-- **Tables that name declarations are dealt out and counted, and the run goes on behind them.** -/
theorem applyOverrides_append {source : String} {touched : Nat}
    (h : ∀ t ∈ known, g.findAll t.1 ≠ []) :
    g.applyOverrides source touched (known ++ rest) =
      (g.decided known).applyOverrides source (touched + (g.decisions known).length) rest := by
  -- one table after the other; those still to come name what they named before
  induction known generalizing g touched with
  | nil => rw [decided_nil]; rfl
  | cons t known ih =>
    obtain ⟨ht, hknown⟩ := List.forall_mem_cons.mp h
    have hstep : g.applyOverrides source touched (t :: (known ++ rest)) =
        ((g.findAll t.1).foldl (·.applyOverride t.2 ·) g).applyOverrides source
          (touched + (g.findAll t.1).length) (known ++ rest) := by
      rw [applyOverrides]
      split
      · next hnil => exact absurd hnil ht
      · rfl
    have hmeaning := findAll_foldl_applyOverride g t.2 (g.findAll t.1)
    have hlater : decisions ((g.findAll t.1).foldl (·.applyOverride t.2 ·) g) known =
        g.decisions known := by
      unfold decisions
      rw [hmeaning]
    have hcount : (g.decisions (t :: known)).length =
        (g.findAll t.1).length + (g.decisions known).length := by
      simp [decisions]
    have hnamed : ∀ u ∈ known,
        findAll ((g.findAll t.1).foldl (·.applyOverride t.2 ·) g) u.1 ≠ [] := by
      rw [hmeaning]
      exact hknown
    rw [List.cons_append, hstep, ih hnamed, decided_cons, hlater, hcount, Nat.add_assoc]

/-- The run ends with the first table that names no declaration. -/
theorem applyOverrides_unknown {source : String} {touched : Nat}
    (h : ∀ t ∈ known, g.findAll t.1 ≠ []) (hname : g.findAll name = []) :
    g.applyOverrides source touched (known ++ (name, o) :: rest) =
      (.error (.unknownDecl name (Span.ofKey? source name)), g.decided known) := by
  rw [applyOverrides_append h, applyOverrides, findAll_decided, hname]

/-- Tables name declarations up to some place. -/
theorem known_or_exists_unknown (g : DeclGraph) (tables : List (String × DeclOverride)) :
    (∀ t ∈ tables, g.findAll t.1 ≠ []) ∨
      ∃ known name o rest, tables = known ++ (name, o) :: rest ∧
        (∀ t ∈ known, g.findAll t.1 ≠ []) ∧ g.findAll name = [] := by
  induction tables with
  | nil => exact .inl (by simp)
  | cons t tables ih =>
    by_cases ht : g.findAll t.1 = []
    · exact .inr ⟨[], t.1, t.2, tables, rfl, by simp, ht⟩
    · rcases ih with h | ⟨known, name, o, rest, rfl, hknown, hname⟩
      · exact .inl (List.forall_mem_cons.mpr ⟨ht, h⟩)
      · exact .inr ⟨t :: known, name, o, rest, rfl, List.forall_mem_cons.mpr ⟨ht, hknown⟩, hname⟩

end DeclGraph

namespace Manifest

open DeclGraph

variable {m : Manifest} {source : String} {g g' : DeclGraph} {n : Nat} {e : ManifestError}

/-- The tables of a manifest that is read stand in the order of their keys. -/
theorem ascending_of_read? {text : String} (h : read? text = some m) : m.decls.Ascending := by
  obtain ⟨j, -, hj⟩ := Option.bind_eq_some_iff.mp h
  obtain ⟨r, -, hr⟩ := Option.bind_eq_some_iff.mp hj
  obtain ⟨module, -, hmodule⟩ := Option.bind_eq_some_iff.mp hr
  obtain ⟨decls, hdecls, hm⟩ := Option.bind_eq_some_iff.mp hmodule
  obtain rfl := Option.some.inj hm
  unfold Json.Record.withDefault at hdecls
  cases hget : r.get? "decls" with
  | none =>
    rw [hget] at hdecls
    exact Option.some.inj hdecls ▸ List.Pairwise.nil
  | some tables =>
    rw [hget] at hdecls
    simp only at hdecls
    unfold overrides? at hdecls
    split at hdecls
    · obtain ⟨pairs, -, hpairs⟩ := Option.bind_eq_some_iff.mp hdecls
      exact Option.some.inj hpairs ▸ NameMap.ascending_ofList pairs
    · cases hdecls

/-- A manifest can be applied if each of its tables names a declaration.  Each declaration is behind
its tables then. -/
theorem applyTo_eq_ok_iff :
    m.applyTo source g = (.ok n, g') ↔
      (∀ t ∈ m.decls, g.findAll t.1 ≠ []) ∧ n = (g.decisions m.decls).length ∧
        g' = g.decided m.decls := by
  unfold applyTo
  rcases g.known_or_exists_unknown m.decls with h | ⟨known, name, o, rest, hsplit, hknown, hname⟩
  · have hrun : g.applyOverrides source 0 (m.decls ++ []) = _ := applyOverrides_append h
    rw [List.append_nil, Nat.zero_add, applyOverrides] at hrun
    rw [hrun, Prod.mk.injEq, Except.ok.injEq, and_iff_right h, eq_comm, eq_comm (a := g')]
  · have hunknown : ¬ ∀ t ∈ m.decls, g.findAll t.1 ≠ [] := fun h => by
      rw [hsplit] at h
      exact h (name, o) (by simp) hname
    rw [hsplit, applyOverrides_unknown hknown hname, ← hsplit]
    exact ⟨fun h => (nomatch (Prod.mk.inj h).1), fun h => absurd h.1 hunknown⟩

/-- **Each declaration but the global namespace takes exactly the tables with its full name, in
ascending order of their keys**: of each field that they mention the last of them decides, and
texts and the aliases of enumerators are added to those that are there.  Nothing else changes, and
the pairs of a table and a declaration with its name are counted. -/
theorem applyTo_exact (hm : m.decls.Ascending) (h : m.applyTo source g = (.ok n, g')) :
    g'.size = g.size ∧ g'.get? root = g.get? root ∧
      (∀ id ∈ g.properIds, ∃ tables : List (String × DeclOverride),
        tables.Pairwise (fun t u => t.1 < u.1) ∧
        (∀ t, t ∈ tables ↔ t ∈ m.decls ∧ qualified t.1 = g.fullName id) ∧
        (g'.get? id = (g.get? id).map fun d =>
          { d with config := tables.foldl (fun c t => t.2.applyTo c) d.config }) ∧
        ∀ d d', g.get? id = some d → g'.get? id = some d' →
          d.config.Layered (tables.map (·.2)) d'.config) ∧
      ∃ pairs : List ((String × DeclOverride) × DeclId), pairs.Nodup ∧
        (∀ t id, (t, id) ∈ pairs ↔
          t ∈ m.decls ∧ id ∈ g.properIds ∧ qualified t.1 = g.fullName id) ∧
        n = pairs.length := by
  obtain ⟨-, hn, rfl⟩ := applyTo_eq_ok_iff.mp h
  refine ⟨Array.size_mapIdx, ?_, fun id hid => ⟨g.tablesFor m.decls id, ?_, ?_, ?_, ?_⟩,
    g.decisions m.decls, ?_, ?_, hn⟩
  · have hnone : g.tablesFor m.decls root = [] := by
      refine List.filter_eq_nil_iff.mpr fun t _ hroot => ?_
      have hproper := (mem_findAll.mp (of_decide_eq_true hroot)).1
      exact (mem_properIds.mp hproper).1 rfl
    rw [get?_decided, hnone]
    exact Option.map_id'
  · exact hm.filter _
  · intro t
    rw [mem_tablesFor, mem_findAll, and_iff_right hid, eq_comm (a := g.fullName id)]
  · exact get?_decided g m.decls id
  · intro d d' hd hd'
    rw [get?_decided, hd, Option.map_some, Option.some.injEq] at hd'
    rw [← hd']
    exact d.layered_decided _
  · exact nodup_decisions hm.nodup
  · intro t id
    rw [mem_decisions, mem_findAll, eq_comm (a := g.fullName id)]

/-- A class and an enumeration about which something has been decided. -/
def drawing : DeclGraph :=
  ⟨#[{ name := "::", kind := .ns [1, 2] },
    { name := "Shape", kind := .cls {}, parent := some DeclGraph.root,
      config := { documentation := some "A shape.", code := ["first"] } },
    { name := "Hue", kind := .enum [⟨"red", 0⟩, ⟨"blue", 1⟩], parent := some DeclGraph.root,
      config := { valueAliases := [("blue", "b"), ("red", "r")] } }]⟩

/-- Two keys of the enumeration and two of the class. -/
def fourKeys : Manifest where
  module := { name := "drawing" }
  decls := [("::Hue", { valueAliases := some [("blue", "Blue"), ("green", "Green")] }),
    ("::Shape", { pythonName := some "Form", useKeywords := some false, code := some ["second"] }),
    ("Hue", { valueAliases := some [("blue", "Azure")], exportValues := some ["red"] }),
    ("Shape", { ignore := some true, pythonName := some "Figure", code := some ["third"] })]

theorem applyTo_exact_fourKeys : ∃ g', fourKeys.decls.Ascending ∧
    fourKeys.applyTo "" drawing = (.ok 4, g') ∧ g'.get? root = drawing.get? root ∧
      (g'.get? 1).map (·.config) = some {
        ignore := true, pythonName := some "Figure", useKeywords := false
        documentation := some "A shape.", code := ["first", "second", "third"] } ∧
      (g'.get? 2).map (·.config) = some {
        exportValues := ["red"]
        valueAliases := [("blue", "Azure"), ("green", "Green"), ("red", "r")] } ∧
      ∃ (d d' : Declaration) (tables : List (String × DeclOverride)),
        drawing.get? 1 = some d ∧ g'.get? 1 = some d' ∧
        tables.Pairwise (fun t u => t.1 < u.1) ∧
        (∀ t, t ∈ tables ↔ t ∈ fourKeys.decls ∧ qualified t.1 = "::Shape") ∧
        d.config.Layered (tables.map (·.2)) d'.config ∧ d'.name = d.name ∧ d'.kind = d.kind := by
  have hm : fourKeys.decls.Ascending := by unfold NameMap.Ascending; decide +kernel
  obtain ⟨g', h⟩ : ∃ g', fourKeys.applyTo "" drawing = (.ok 4, g') :=
    ⟨_, Prod.ext (by decide +kernel) rfl⟩
  have hg' : g' = (fourKeys.applyTo "" drawing).2 := by rw [h]
  obtain ⟨-, hroot, hall, -⟩ := applyTo_exact hm h
  obtain ⟨tables, hsorted, hmem, hconfig, hlayered⟩ := hall 1 (by decide +kernel)
  have hname : drawing.fullName 1 = "::Shape" := by decide +kernel
  obtain ⟨d, hd⟩ : ∃ d, drawing.get? 1 = some d := ⟨_, rfl⟩
  rw [hd, Option.map_some] at hconfig
  refine ⟨g', hm, h, hroot, ?_, ?_, d, _, tables, hd, hconfig, hsorted, fun t => hname ▸ hmem t,
    hlayered d _ hd hconfig, rfl, rfl⟩
  · rw [hg']
    decide +kernel
  · rw [hg']
    decide +kernel

/-! ### Manifests that cannot be applied -/

/-- In front of a table stand those with smaller keys. -/
theorem filter_lt_of_ascending {known rest : NameMap DeclOverride} {name : String}
    {o : DeclOverride} (h : NameMap.Ascending (known ++ (name, o) :: rest)) :
    (known ++ (name, o) :: rest).filter (fun t => t.1 < name) = known := by
  obtain ⟨-, hlater, hbefore⟩ := List.pairwise_append.mp h
  have hknown : known.filter (fun t => t.1 < name) = known :=
    List.filter_eq_self.mpr fun t ht => decide_eq_true (hbefore t ht _ List.mem_cons_self)
  have hrest : rest.filter (fun t => t.1 < name) = [] :=
    List.filter_eq_nil_iff.mpr fun t ht hlt => String.lt_irrefl name <|
      String.lt_trans ((List.pairwise_cons.mp hlater).1 t ht) (of_decide_eq_true hlt)
  rw [List.filter_append, List.filter_cons_of_neg (by simp), hknown, hrest, List.append_nil]

/-- **A manifest that cannot be applied has been applied up to the first table that names no
declaration**: the graph is as the tables with smaller keys leave it, which can be applied. -/
theorem applyTo_stopped (hm : m.decls.Ascending) (h : m.applyTo source g = (.error e, g')) :
    ∃ name ∈ m.decls.names, e = .unknownDecl name (Span.ofKey? source name) ∧
      g.findAll name = [] ∧ (∀ t ∈ m.decls, t.1 < name → g.findAll t.1 ≠ []) ∧
      (∃ n, { m with decls := m.decls.filter fun t => t.1 < name }.applyTo source g = (.ok n, g')) ∧
      ((∀ t ∈ m.decls, ¬ t.1 < name) → g' = g) := by
  rcases g.known_or_exists_unknown m.decls with hknown | ⟨known, name, o, rest, hs, hknown, hname⟩
  · have hok : m.applyTo source g = (.ok _, _) := applyTo_eq_ok_iff.mpr ⟨hknown, rfl, rfl⟩
    exact nomatch (Prod.mk.inj (h.symm.trans hok)).1
  · unfold applyTo at h
    rw [hs] at hm h ⊢
    rw [applyOverrides_unknown hknown hname] at h
    obtain ⟨he, hg⟩ := Prod.mk.inj h
    have hfront := filter_lt_of_ascending hm
    have hsmaller : ∀ t ∈ known ++ (name, o) :: rest, t.1 < name → t ∈ known := fun t ht hlt =>
      hfront ▸ List.mem_filter.mpr ⟨ht, decide_eq_true hlt⟩
    have hmem : name ∈ NameMap.names (known ++ (name, o) :: rest) :=
      List.mem_map.mpr ⟨(name, o), List.mem_append_right _ List.mem_cons_self, rfl⟩
    refine ⟨name, hmem, (Except.error.inj he).symm, hname,
      fun t ht hlt => hknown t (hsmaller t ht hlt), ⟨(g.decisions known).length, ?_⟩,
      fun hnone => ?_⟩
    · rw [hfront]
      exact applyTo_eq_ok_iff.mpr ⟨hknown, rfl, hg.symm⟩
    · have hempty : known = [] := by
        rw [← hfront]
        exact List.filter_eq_nil_iff.mpr fun t ht hlt => hnone t ht (of_decide_eq_true hlt)
      rw [← hg, hempty, decided_nil]

/-- A key of a class in front of a key that names nothing. -/
def halfKnown : Manifest where
  module := { name := "shapes" }
  decls := [("::Shape", { ignore := some true }), ("::missing", { ignore := some true })]

theorem ascending_halfKnown : halfKnown.decls.Ascending := by
  unfold NameMap.Ascending
  decide +kernel

theorem applyTo_halfKnown :
    (halfKnown.applyTo "" Samples.shape).1 = .error (.unknownDecl "::missing" none) := by
  decide +kernel

theorem applyTo_stopped_halfKnown : ∃ e g', halfKnown.decls.Ascending ∧
    halfKnown.applyTo "" Samples.shape = (.error e, g') ∧
      ∃ name ∈ halfKnown.decls.names, e = .unknownDecl name (Span.ofKey? "" name) ∧
        ∃ n, { halfKnown with decls := halfKnown.decls.filter fun t => t.1 < name }.applyTo ""
          Samples.shape = (.ok n, g') := by
  have h : halfKnown.applyTo "" Samples.shape =
      (.error (.unknownDecl "::missing" none), (halfKnown.applyTo "" Samples.shape).2) :=
    Prod.ext applyTo_halfKnown rfl
  obtain ⟨name, hmem, he, -, -, hfront, -⟩ := applyTo_stopped ascending_halfKnown h
  exact ⟨_, _, ascending_halfKnown, h, name, hmem, he, hfront⟩

/-- A manifest that cannot be applied may have left decisions in the graph. -/
theorem applyTo_not_atomic : ¬ ∀ (m : Manifest) (source : String) (g g' : DeclGraph)
    (e : ManifestError), m.decls.Ascending → m.applyTo source g = (.error e, g') → g' = g := by
  intro h
  have hchanged : (halfKnown.applyTo "" Samples.shape).2 ≠ Samples.shape := by decide +kernel
  exact hchanged (h halfKnown "" Samples.shape _ _ ascending_halfKnown
    (Prod.ext applyTo_halfKnown rfl))

end Manifest

end Bindery
