import Bindery.Decl.Build
import Bindery.Proofs.Decl.Bases
import Bindery.Proofs.Decl.Trees

/-!
# Graphs that are built step by step

A graph grows by declarations that go to its end, under a scope that is there already.  Later steps
make classes bases of others and change what is said about single declarations.  None of this can
give a declaration two scopes, or a scope that comes behind it, so that what is built is always
accepted.

## Main definitions

* `BuildStep`, `BuildStep.apply`, `DeclGraph.build` — the steps and their runs.
* `BuildStep.Allowed` — a step that adds to a scope, without members or bases that come from
  elsewhere, or names a base that exists.
* `DeclGraph.Built` — accepted, and every scope comes in front of what it lists.
* `DeclGraph.GrowsInto g g'` — what was declared in `g` keeps its name, its scope and its members.

## Main results

* `Built.add`, `Built.modify` — the two changes behind all steps keep a graph built.
* `Built.step`, `growsInto_step` — what one step keeps.
* `build_accepted` — **every run of allowed steps ends in an accepted graph**, and leaves alone what
  was there at any time before.
-/

namespace Bindery

/-! ### Steps -/

/-- The bases of a class; other declarations have none. -/
def DeclKind.bases : DeclKind → List DeclId
  | cls c => c.bases.map (·.base)
  | _ => []

/-- Adds a base to a class. -/
def DeclKind.addBase (b : BaseSpec) : DeclKind → DeclKind
  | cls c => cls { c with bases := c.bases ++ [b] }
  | k => k

theorem DeclKind.members_addMember {k : DeclKind} (hk : k.isScope) (id : DeclId) :
    (k.addMember id).members = k.members ++ [id] := by
  cases k <;> first | rfl | cases hk

theorem DeclKind.bases_addMember (k : DeclKind) (id : DeclId) :
    (k.addMember id).bases = k.bases := by
  cases k <;> rfl

/-- A change of what is said about a declaration, apart from its name, its kind and its scope. -/
inductive DeclEdit
  | access (access : Access)
  | location (location : Location)
  | isArtificial (isArtificial : Bool)
  | config (config : ExportConfig)
  deriving DecidableEq, Repr

/-- The declaration behind the change. -/
def DeclEdit.apply (d : Declaration) : DeclEdit → Declaration
  | access a => { d with access := a }
  | location l => { d with location := l }
  | isArtificial b => { d with isArtificial := b }
  | config c => { d with config := c }

/-- One step of building a graph. -/
inductive BuildStep
  | add (parent : DeclId) (name : String) (kind : DeclKind)
  | addNamespace (parent : DeclId) (name : String)
  | addClass (parent : DeclId) (name : String)
  | addCallable (parent : DeclId) (name : String) (c : Callable)
  | addVariable (parent : DeclId) (name : String) (type : CppType)
  | addEnum (parent : DeclId) (name : String) (values : List Enumerator)
  | addBase (id base : DeclId) (access : Access)
  | edit (id : DeclId) (change : DeclEdit)
  deriving DecidableEq, Repr

namespace BuildStep

/-- The graph behind a step. -/
def apply (g : DeclGraph) : BuildStep → DeclGraph
  | add parent name kind => (g.add parent name kind).2
  | addNamespace parent name => (g.addNamespace parent name).2
  | addClass parent name => (g.addClass parent name).2
  | addCallable parent name c => (g.addCallable parent name c).2
  | addVariable parent name type => (g.addVariable parent name type).2
  | addEnum parent name values => (g.addEnum parent name values).2
  | addBase id base access => g.addBase id base access
  | edit id change => g.modify id change.apply

/-- A step adds to a namespace or class, and what it adds has no members or bases yet; a base that
it names exists. -/
def Allowed (g : DeclGraph) : BuildStep → Prop
  | add parent _ kind => g.isScope parent ∧ kind.members = [] ∧ kind.bases = []
  | addNamespace parent _ | addClass parent _ | addCallable parent .. | addVariable parent ..
  | addEnum parent .. => g.isScope parent
  | addBase _ base _ => base < g.size
  | edit .. => True

instance (g : DeclGraph) : DecidablePred (Allowed g)
  | add parent _ kind =>
    inferInstanceAs (Decidable (g.isScope parent ∧ kind.members = [] ∧ kind.bases = []))
  | addNamespace parent _ | addClass parent _ | addCallable parent .. | addVariable parent ..
  | addEnum parent .. => inferInstanceAs (Decidable (g.isScope parent))
  | addBase _ base _ => inferInstanceAs (Decidable (base < g.size))
  | edit .. => isTrue trivial

end BuildStep

namespace DeclGraph

/-- The graph behind a run of steps. -/
def build (g : DeclGraph) (steps : List BuildStep) : DeclGraph := steps.foldl BuildStep.apply g

/-- Every step of a run is allowed where it is made. -/
def AllAllowed : DeclGraph → List BuildStep → Prop
  | _, [] => True
  | g, step :: steps => step.Allowed g ∧ AllAllowed (step.apply g) steps

instance decidableAllAllowed : ∀ (g : DeclGraph) (steps : List BuildStep),
    Decidable (g.AllAllowed steps)
  | _, [] => isTrue trivial
  | g, step :: steps =>
    have := decidableAllAllowed (step.apply g) steps
    inferInstanceAs (Decidable (step.Allowed g ∧ AllAllowed (step.apply g) steps))

/-- An accepted graph in which every scope comes in front of the declarations it lists. -/
structure Built (g : DeclGraph) : Prop where
  accepted : g.Accepted
  ascending : ∀ id p, g.parent? id = some p → p < id

/-- What is declared in `g` has the same name and the same scope in `g'`, and lists the same members
there in front of new ones. -/
structure GrowsInto (g g' : DeclGraph) : Prop where
  size : g.size ≤ g'.size
  name : ∀ id < g.size, g'.name id = g.name id
  parent : ∀ id < g.size, g'.parent? id = g.parent? id
  members : ∀ id < g.size, g.members id <+: g'.members id

variable {g g' g'' : DeclGraph} {id i p : DeclId} {kind : DeclKind} {name : String}

theorem GrowsInto.refl (g : DeclGraph) : g.GrowsInto g where
  size := Nat.le_refl _
  name _ _ := rfl
  parent _ _ := rfl
  members _ _ := List.prefix_refl _

theorem GrowsInto.trans (h : g.GrowsInto g') (h' : g'.GrowsInto g'') : g.GrowsInto g'' := by
  have hlt : ∀ {id}, id < g.size → id < g'.size := fun hid => Nat.lt_of_lt_of_le hid h.size
  exact {
    size := Nat.le_trans h.size h'.size
    name := fun id hid => (h'.name id (hlt hid)).trans (h.name id hid)
    parent := fun id hid => (h'.parent id (hlt hid)).trans (h.parent id hid)
    members := fun id hid => (h.members id hid).trans (h'.members id (hlt hid)) }

/-! ### Looking things up -/

theorem name_eq (g : DeclGraph) (id : DeclId) :
    g.name id = ((g.get? id).map (·.name)).getD "" := by
  unfold name
  cases g.get? id <;> rfl

theorem parent?_eq (g : DeclGraph) (id : DeclId) :
    g.parent? id = ((g.get? id).map (·.parent)).join := by
  unfold parent?
  cases g.get? id <;> rfl

theorem members_eq (g : DeclGraph) (id : DeclId) :
    g.members id = ((g.get? id).map (·.kind.members)).getD [] := by
  unfold members kind?
  cases g.get? id <;> rfl

theorem bases_eq (g : DeclGraph) (id : DeclId) :
    g.bases id = ((g.get? id).map (·.kind.bases)).getD [] := by
  unfold bases class? kind?
  rcases g.get? id with _ | ⟨_, kind, _⟩
  · rfl
  · cases kind <;> rfl

theorem lt_size_of_isScope (h : g.isScope id) : id < g.size := by
  unfold isScope at h
  split at h
  · next k hk =>
    obtain ⟨d, hd, -⟩ := Option.map_eq_some_iff.mp hk
    exact (Array.getElem?_eq_some_iff.mp hd).1
  · cases h

theorem get?_size (g : DeclGraph) : g.get? g.size = none :=
  Array.getElem?_eq_none (Nat.le_refl _)

theorem checkRoot_eq_ok : g.checkRoot = .ok () ↔
    (∃ ms, g.kind? root = some (.ns ms)) ∧ g.parent? root = none := by
  unfold checkRoot kind? parent?
  rcases g.get? root with _ | ⟨name, kind, access, parent, _⟩
  · simp
  · cases kind <;> cases parent <;> simp

theorem checkBases_eq_ok : g.checkBases id = .ok () ↔ ∀ b ∈ g.bases id, b < g.size := by
  have hall : ∀ bs : List BaseSpec, (bs.forM fun b => g.checkKnown b.base) = .ok () ↔
      ∀ b ∈ bs.map (·.base), b < g.size := by
    intro bs
    induction bs with
    | nil => simp [pure, Except.pure]
    | cons b bs ih =>
      rw [List.map_cons, List.forall_mem_cons, ← ih]
      exact Except.bind_eq_ok.trans (by simp [checkKnown_eq_ok])
  unfold checkBases bases
  cases g.class? id with
  | none => simp
  | some c => exact hall c.bases

/-! ### Changed declarations -/

@[simp] theorem size_modify (g : DeclGraph) (id : DeclId) (f : Declaration → Declaration) :
    (g.modify id f).size = g.size := Array.size_modify

theorem get?_modify (g : DeclGraph) (id : DeclId) (f : Declaration → Declaration) (i : DeclId) :
    (g.modify id f).get? i = if id = i then (g.get? i).map f else g.get? i := Array.getElem?_modify

/-- What is not changed in the declaration is not changed in the graph. -/
theorem map_get?_modify {α : Type} {view : Declaration → α} {f : Declaration → Declaration}
    (hf : ∀ d, view (f d) = view d) (id i : DeclId) :
    ((g.modify id f).get? i).map view = (g.get? i).map view := by
  rw [get?_modify]
  split
  · rw [Option.map_map]
    exact congrArg (Option.map · (g.get? i)) (funext hf)
  · rfl

/-- A change of a declaration that leaves its name, its scope and its members alone, and names no
bases that do not exist. -/
structure KeepsLinks (g : DeclGraph) (f : Declaration → Declaration) : Prop where
  name : ∀ d, (f d).name = d.name
  parent : ∀ d, (f d).parent = d.parent
  members : ∀ d, (f d).kind.members = d.kind.members
  isNamespace : ∀ d ms, d.kind = .ns ms → (f d).kind = .ns ms
  bases : ∀ d, ∀ b ∈ (f d).kind.bases, b ∈ d.kind.bases ∨ b < g.size

namespace KeepsLinks

variable {f : Declaration → Declaration}

theorem name_modify (hf : g.KeepsLinks f) (id i : DeclId) :
    (g.modify id f).name i = g.name i := by
  rw [name_eq, name_eq, map_get?_modify hf.name]

theorem parent?_modify (hf : g.KeepsLinks f) (id i : DeclId) :
    (g.modify id f).parent? i = g.parent? i := by
  rw [parent?_eq, parent?_eq, map_get?_modify hf.parent]

theorem members_modify (hf : g.KeepsLinks f) (id i : DeclId) :
    (g.modify id f).members i = g.members i := by
  have hview : ∀ d, (fun d : Declaration => d.kind.members) (f d) = d.kind.members := hf.members
  rw [members_eq, members_eq, map_get?_modify hview]

theorem kind?_modify_root (hf : g.KeepsLinks f) (id : DeclId) {ms : List DeclId}
    (h : g.kind? root = some (.ns ms)) : (g.modify id f).kind? root = some (.ns ms) := by
  obtain ⟨d, hd, hkind⟩ := Option.map_eq_some_iff.mp h
  unfold kind?
  rw [get?_modify, hd]
  split
  · exact congrArg some (hf.isNamespace d ms hkind)
  · exact congrArg some hkind

theorem mem_bases_modify (hf : g.KeepsLinks f) (id i : DeclId) {b : DeclId}
    (h : b ∈ (g.modify id f).bases i) : b ∈ g.bases i ∨ b < g.size := by
  rw [bases_eq, get?_modify] at h
  rw [bases_eq]
  split at h
  · cases hd : g.get? i with
    | none =>
      rw [hd] at h
      cases h
    | some d =>
      rw [hd] at h
      exact hf.bases d b h
  · exact .inl h

end KeepsLinks

theorem Built.lt_size_of_mem_bases (h : g.Built) {b : DeclId} (hb : b ∈ g.bases id) :
    b < g.size :=
  checkBases_eq_ok.mp (h.accepted.base id (lt_size_of_bases hb)) b hb

/-- **A change that keeps the links keeps a graph built.** -/
theorem Built.modify {f : Declaration → Declaration} (h : g.Built) (hf : g.KeepsLinks f)
    (id : DeclId) : (g.modify id f).Built where
  accepted := by
    obtain ⟨⟨ms, hns⟩, hparent⟩ := checkRoot_eq_ok.mp h.accepted.root
    refine ⟨checkRoot_eq_ok.mpr ⟨⟨ms, hf.kind?_modify_root id hns⟩, ?_⟩, ?_, ?_, ?_, ?_, ?_⟩
    · rw [hf.parent?_modify, hparent]
    · intro i m hm
      rw [hf.members_modify] at hm
      rw [hf.parent?_modify]
      exact h.accepted.agree i m hm
    · intro i
      rw [hf.members_modify]
      exact h.accepted.nodup i
    · intro i hi hnone
      rw [hf.parent?_modify] at hnone
      exact h.accepted.parent i (size_modify g id f ▸ hi) hnone
    · intro i p hp
      rw [hf.parent?_modify] at hp
      rw [hf.members_modify]
      exact h.accepted.listed i p hp
    · intro i hi
      refine checkBases_eq_ok.mpr fun b hb => ?_
      rw [size_modify] at hi ⊢
      exact (hf.mem_bases_modify id i hb).elim h.lt_size_of_mem_bases fun hb => hb
  ascending i p hp := h.ascending i p (hf.parent?_modify id i ▸ hp)

theorem KeepsLinks.growsInto {f : Declaration → Declaration} (hf : g.KeepsLinks f) (id : DeclId) :
    g.GrowsInto (g.modify id f) where
  size := (size_modify g id f).ge
  name i _ := hf.name_modify id i
  parent i _ := hf.parent?_modify id i
  members i _ := (hf.members_modify id i).symm ▸ List.prefix_refl _

theorem keepsLinks_edit (g : DeclGraph) (change : DeclEdit) : g.KeepsLinks change.apply := by
  constructor <;> cases change <;> simp +contextual [DeclEdit.apply]

theorem addBase_eq_modify (g : DeclGraph) (id base : DeclId) (access : Access) :
    g.addBase id base access =
      g.modify id fun d => { d with kind := d.kind.addBase ⟨base, access⟩ } := by
  unfold addBase
  congr 1
  funext d
  rcases d with ⟨_, kind, _⟩
  cases kind <;> rfl

theorem keepsLinks_addBase {base : DeclId} (hbase : base < g.size) (access : Access) :
    g.KeepsLinks fun d => { d with kind := d.kind.addBase ⟨base, access⟩ } where
  name _ := rfl
  parent _ := rfl
  members := by
    rintro ⟨_, kind, _⟩
    cases kind <;> rfl
  isNamespace := by
    rintro ⟨_, kind, _⟩ ms rfl
    rfl
  bases := by
    rintro ⟨_, kind, _⟩ b hb
    cases kind with
    | cls c =>
      rw [DeclKind.addBase, DeclKind.bases, List.map_append, List.mem_append] at hb
      refine hb.imp id fun hb => ?_
      rw [List.mem_singleton.mp hb]
      exact hbase
    | _ => exact .inl hb

/-! ### New declarations -/

/-- A new declaration stands at the end, and its scope lists it. -/
theorem get?_add (hp : p < g.size) (name : String) (kind : DeclKind) (i : DeclId) :
    (g.add p name kind).2.get? i =
      if i = g.size then some { name, kind, parent := some p }
      else if p = i then (g.get? i).map fun d => { d with kind := d.kind.addMember g.size }
      else g.get? i := by
  have hpush : (⟨g.decls.push { name, kind, parent := some p }⟩ : DeclGraph).get? i =
      if i = g.size then some { name, kind, parent := some p } else g.get? i :=
    Array.getElem?_push
  unfold add
  rw [get?_modify, hpush]
  by_cases hi : i = g.size
  · rw [if_pos hi, if_pos hi, if_neg (hi ▸ Nat.ne_of_lt hp)]
  · rw [if_neg hi, if_neg hi]

theorem size_add (g : DeclGraph) (p : DeclId) (name : String) (kind : DeclKind) :
    (g.add p name kind).2.size = g.size + 1 :=
  (size_modify _ _ _).trans (Array.size_push ..)

theorem name_add (hp : p < g.size) (name : String) (kind : DeclKind) (i : DeclId) :
    (g.add p name kind).2.name i = if i = g.size then name else g.name i := by
  rw [name_eq, get?_add hp, name_eq]
  split
  · rfl
  · split <;> simp [Function.comp_def]

theorem parent?_add (hp : p < g.size) (name : String) (kind : DeclKind) (i : DeclId) :
    (g.add p name kind).2.parent? i = if i = g.size then some p else g.parent? i := by
  rw [parent?_eq, get?_add hp, parent?_eq]
  split
  · rfl
  · split <;> simp [Function.comp_def]

theorem members_add (hp : g.isScope p) (name : String) (hkind : kind.members = []) (i : DeclId) :
    (g.add p name kind).2.members i = g.members i ++ if i = p then [g.size] else [] := by
  have hlt := lt_size_of_isScope hp
  rw [members_eq, get?_add hlt, members_eq]
  by_cases hi : i = g.size
  · rw [if_pos hi, if_neg (hi ▸ (Nat.ne_of_lt hlt).symm), hi, get?_size]
    exact hkind
  · rw [if_neg hi]
    by_cases hip : p = i
    · subst hip
      obtain ⟨d, hd, hscope⟩ : ∃ d, g.get? p = some d ∧ d.kind.isScope := by
        unfold isScope kind? at hp
        cases hd : g.get? p with
        | none => simp [hd] at hp
        | some d => exact ⟨d, rfl, by simpa [hd] using hp⟩
      rw [if_pos rfl, if_pos rfl, hd]
      exact DeclKind.members_addMember hscope g.size
    · rw [if_neg hip, if_neg (Ne.symm hip), List.append_nil]

theorem bases_add (hp : p < g.size) (name : String) (hkind : kind.bases = []) (i : DeclId) :
    (g.add p name kind).2.bases i = g.bases i := by
  rw [bases_eq, get?_add hp, bases_eq]
  by_cases hi : i = g.size
  · rw [if_pos hi, hi, get?_size]
    exact hkind
  · rw [if_neg hi]
    split <;> simp [Function.comp_def, DeclKind.bases_addMember]

/-- **A new declaration without members or bases keeps a graph built.** -/
theorem Built.add (h : g.Built) (hp : g.isScope p) (name : String) (hmembers : kind.members = [])
    (hbases : kind.bases = []) : (g.add p name kind).2.Built := by
  have hlt := lt_size_of_isScope hp
  have hparent := parent?_add hlt name kind
  have hmember := members_add hp name hmembers
  -- nothing has named the new number before
  have hfresh : g.parent? g.size = none := by rw [parent?_eq, get?_size]; rfl
  have hne : ∀ {i q}, g.parent? i = some q → i ≠ g.size := fun hq =>
    Nat.ne_of_lt (lt_size_of_parent? hq)
  obtain ⟨⟨ms, hns⟩, hroot⟩ := checkRoot_eq_ok.mp h.accepted.root
  refine ⟨⟨checkRoot_eq_ok.mpr ⟨?_, ?_⟩, ?_, ?_, ?_, ?_, ?_⟩, ?_⟩
  · obtain ⟨d, hd, hkind⟩ := Option.map_eq_some_iff.mp hns
    have hpos : root ≠ g.size := Nat.ne_of_lt (Array.getElem?_eq_some_iff.mp hd).1
    unfold kind?
    rw [get?_add hlt, if_neg hpos, hd]
    split
    · exact ⟨ms ++ [g.size], by simp [hkind, DeclKind.addMember]⟩
    · exact ⟨ms, by simp [hkind]⟩
  · -- the global namespace comes in front of every other scope
    rw [hparent, if_neg, hroot]
    exact Nat.ne_of_lt (Nat.lt_of_le_of_lt (Nat.zero_le p) hlt)
  · intro i m hm
    rw [hmember, List.mem_append] at hm
    rw [hparent]
    rcases hm with hm | hm
    · have hi := h.accepted.agree i m hm
      rw [if_neg (hne hi), hi]
    · split at hm
      · next hip => rw [if_pos (List.mem_singleton.mp hm), hip]
      · cases hm
  · intro i
    rw [hmember]
    refine List.nodup_append.mpr ⟨h.accepted.nodup i, by split <;> simp, ?_⟩
    rintro m hm n hn rfl
    split at hn
    · exact hne (h.accepted.agree i m hm) (List.mem_singleton.mp hn)
    · cases hn
  · intro i hi hnone
    rw [size_add] at hi
    rw [hparent] at hnone
    split at hnone
    · cases hnone
    · next hne => exact h.accepted.parent i (Nat.lt_of_le_of_ne (Nat.le_of_lt_succ hi) hne) hnone
  · intro i q hq
    rw [hparent] at hq
    rw [hmember, List.mem_append]
    split at hq
    · next hi =>
      rw [if_pos (Option.some.inj hq).symm, hi]
      exact .inr (List.mem_singleton_self _)
    · exact .inl (h.accepted.listed i q hq)
  · intro i _
    refine checkBases_eq_ok.mpr fun b hb => ?_
    rw [bases_add hlt name hbases] at hb
    rw [size_add]
    exact Nat.lt_succ_of_lt (h.lt_size_of_mem_bases hb)
  · intro i q hq
    rw [hparent] at hq
    split at hq
    · next hi => exact hi ▸ Option.some.inj hq ▸ hlt
    · exact h.ascending i q hq

theorem growsInto_add (hp : g.isScope p) (name : String) (hmembers : kind.members = []) :
    g.GrowsInto (g.add p name kind).2 := by
  have hlt := lt_size_of_isScope hp
  refine ⟨(size_add g p name kind).ge.trans' (Nat.le_succ _), fun i hi => ?_, fun i hi => ?_,
    fun i hi => ?_⟩
  · rw [name_add hlt, if_neg (Nat.ne_of_lt hi)]
  · rw [parent?_add hlt, if_neg (Nat.ne_of_lt hi)]
  · rw [members_add hp name hmembers]
    exact List.prefix_append _ _

/-! ### Runs -/

/-- **A step that is allowed keeps a graph built.** -/
theorem Built.step {step : BuildStep} (h : g.Built) (hs : step.Allowed g) :
    (step.apply g).Built := by
  cases step with
  | add p name kind => exact h.add hs.1 name hs.2.1 hs.2.2
  | addBase id base access =>
    change (g.addBase id base access).Built
    rw [addBase_eq_modify]
    exact h.modify (keepsLinks_addBase hs access) id
  | edit id change => exact h.modify (keepsLinks_edit g change) id
  -- the short forms add declarations without members or bases
  | _ => exact h.add hs _ rfl rfl

/-- **A step that is allowed leaves alone what is there.** -/
theorem growsInto_step {step : BuildStep} (hs : step.Allowed g) :
    g.GrowsInto (step.apply g) := by
  cases step with
  | add p name kind => exact growsInto_add hs.1 name hs.2.1
  | addBase id base access =>
    change g.GrowsInto (g.addBase id base access)
    rw [addBase_eq_modify]
    exact (keepsLinks_addBase hs access).growsInto id
  | edit id change => exact (keepsLinks_edit g change).growsInto id
  | _ => exact growsInto_add hs _ rfl

theorem allAllowed_append : ∀ {front back : List BuildStep} {g : DeclGraph},
    g.AllAllowed (front ++ back) ↔ g.AllAllowed front ∧ (g.build front).AllAllowed back
  | [], _, _ => (and_iff_right trivial).symm
  | step :: front, back, g => by
    rw [List.cons_append, AllAllowed, allAllowed_append, AllAllowed, and_assoc]
    rfl

theorem built_build : ∀ (steps : List BuildStep) {g : DeclGraph}, g.Built →
    g.AllAllowed steps → (g.build steps).Built
  | [], _, h, _ => h
  | _ :: steps, _, h, hs => built_build steps (Built.step h hs.1) hs.2

theorem growsInto_build : ∀ {steps : List BuildStep} {g : DeclGraph}, g.AllAllowed steps →
    g.GrowsInto (g.build steps)
  | [], g, _ => .refl g
  | _ :: _, _, hs => (growsInto_step hs.1).trans (growsInto_build hs.2)

theorem built_initial : initial.Built where
  accepted := validate_eq_ok_iff.mp (by decide)
  ascending i p hp := by
    have hi : i < 1 := lt_size_of_parent? hp
    rw [Nat.lt_one_iff.mp hi] at hp
    cases hp

/-- **Every run of allowed steps ends in an accepted graph.**  Scopes come in front of what they
list, and whatever had been declared at any time before has its name and its scope still, and lists
the same members in front of new ones. -/
theorem build_accepted {steps : List BuildStep} (h : initial.AllAllowed steps) :
    (initial.build steps).validate = .ok () ∧
      (∀ id p, (initial.build steps).parent? id = some p → p < id) ∧
      ∀ front back, steps = front ++ back →
        (initial.build front).GrowsInto (initial.build steps) := by
  have hbuilt := built_build steps built_initial h
  refine ⟨validate_eq_ok_iff.mpr hbuilt.accepted, hbuilt.ascending, ?_⟩
  rintro front back rfl
  have hback := growsInto_build (allAllowed_append.mp h).2
  rwa [build, build, ← List.foldl_append] at hback

/-- Two classes, one inside the other, that are bases of each other. -/
def entangledSteps : List BuildStep :=
  [.addClass DeclGraph.root "Outer", .addClass 1 "Inner", .addBase 1 2 .pub, .addBase 2 1 .priv,
    .addBase 2 1 .pub, .add 2 "Alias" (.typedef (.declared 1)), .edit 2 (.access .prot),
    .addNamespace DeclGraph.root "late", .addVariable 1 "first" (.fundamental .int)]

/-- Bases in a circle, a repeated base and members that come late do no harm. -/
theorem build_accepted_entangled : initial.AllAllowed entangledSteps ∧
    (initial.build entangledSteps).validate = .ok () ∧
    (initial.build entangledSteps).bases 2 = [1, 1] ∧
    ((initial.build (entangledSteps.take 2)).members 1 <+:
      (initial.build entangledSteps).members 1) := by
  have h : initial.AllAllowed entangledSteps := by decide
  obtain ⟨haccepted, -, hgrows⟩ := build_accepted h
  exact ⟨h, haccepted, by decide,
    (hgrows _ _ (List.take_append_drop 2 entangledSteps).symm).members 1 (by decide)⟩

end DeclGraph

end Bindery
