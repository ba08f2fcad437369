import Bindery.Decl.Validation
import Bindery.Proofs.Decl.Closed

/-!
# Dependencies and the types they come from

A callable, a variable and a typedef depend on the declarations that their types name.  A type is
looked through down to the signatures of its function pointers, but not into the function pointers
of these signatures.

## Main definitions

* `CppType.Names` — a type names a declaration, inside a number of function pointers.
* `DeclKind.types`, `DeclKind.defaultTypes` — the types that a declaration depends on.

## Main results

* `CppType.mem_mentioned_iff` — what is named at any depth.
* `CppType.mem_requirements_iff` — what is named inside one function pointer at most.
* `DeclGraph.dependencies_complete_iff` — **a declaration depends on what its types name inside one
  function pointer at most; so its dependencies are complete exactly if each declaration that its
  types name at any depth is named there, too.**
-/

namespace Bindery

/-! ### Types -/

namespace CppType

/-- The type names the declaration, inside as many function pointers as the depth says.  Pointers,
references, arrays and qualifiers do not count. -/
inductive Names (id : DeclId) : CppType → Nat → Prop
  /-- The type is built on the declaration. -/
  | direct {t : CppType} : t.baseType = .declared id → Names id t 0
  /-- The type is built on a function pointer, whose result or parameter names it. -/
  | inside {t u result : CppType} {args : List CppType} {depth : Nat} :
    t.baseType = .functionPointer result args → u ∈ result :: args → Names id u depth →
    Names id t (depth + 1)

variable {t u : CppType} {id : DeclId} {depth : Nat}

/-- Pointers, references, arrays and qualifiers around a type change nothing. -/
theorem Names.of_baseType (h : t.Names id depth) (hbase : u.baseType = t.baseType) :
    u.Names id depth := by
  cases h with
  | direct ht => exact .direct (hbase.trans ht)
  | inside ht hmem hnames => exact .inside (hbase.trans ht) hmem hnames

theorem names_zero_iff : t.Names id 0 ↔ t.declared? = some id := by
  unfold declared?
  constructor
  · intro h
    cases h with
    | direct ht => rw [ht]
  · intro h
    split at h
    · next heq => exact .direct (Option.some.inj h ▸ heq)
    · cases h

/-- A list of types names what one of its types names. -/
theorem mem_mentionedAll_iff {ts : List CppType} :
    id ∈ mentionedAll ts ↔ ∃ t ∈ ts, id ∈ t.mentioned := by
  induction ts with
  | nil => simp [mentionedAll]
  | cons t ts ih => simp [mentionedAll, ih]

/-- What is named inside function pointers is named. -/
theorem Names.mem_mentioned (h : t.Names id depth) : id ∈ t.mentioned := by
  induction h with
  | direct ht =>
    rw [← mentioned_baseType, ht, mentioned]
    exact List.mem_singleton_self id
  | inside ht hmem _ ih =>
    rw [← mentioned_baseType, ht, mentioned]
    exact mem_mentionedAll_iff.mpr ⟨_, hmem, ih⟩

mutual

theorem exists_names : ∀ {t : CppType}, id ∈ t.mentioned → ∃ depth, t.Names id depth
  | fundamental _, h | named _, h => by
    rw [mentioned] at h
    cases h
  | declared i, h => by
    rw [mentioned, List.mem_singleton] at h
    exact ⟨0, .direct (h ▸ rfl)⟩
  | pointer base, h | reference base, h | const base, h | volatile base, h | array base _, h => by
    rw [mentioned] at h
    obtain ⟨depth, hnames⟩ := exists_names h
    exact ⟨depth, hnames.of_baseType (by rw [baseType])⟩
  | functionPointer result args, h => by
    rw [mentioned, List.mem_append] at h
    obtain ⟨u, hu, depth, hnames⟩ :
        ∃ u ∈ result :: args, ∃ depth, u.Names id depth := by
      rcases h with h | h
      · exact ⟨result, List.mem_cons_self, exists_names h⟩
      · obtain ⟨u, hu, hnames⟩ := exists_names_all h
        exact ⟨u, List.mem_cons_of_mem result hu, hnames⟩
    exact ⟨depth + 1, .inside rfl hu hnames⟩

theorem exists_names_all : ∀ {ts : List CppType}, id ∈ mentionedAll ts →
    ∃ t ∈ ts, ∃ depth, t.Names id depth
  | t :: ts, h => by
    rw [mentionedAll, List.mem_append] at h
    rcases h with h | h
    · exact ⟨t, List.mem_cons_self, exists_names h⟩
    · obtain ⟨u, hu, hnames⟩ := exists_names_all h
      exact ⟨u, List.mem_cons_of_mem t hu, hnames⟩

end

/-- What is named at any depth. -/
theorem mem_mentioned_iff : id ∈ t.mentioned ↔ ∃ depth, t.Names id depth :=
  ⟨exists_names, fun ⟨_, h⟩ => h.mem_mentioned⟩

/-- A type needs what it names inside one function pointer at most. -/
theorem mem_requirements_iff : id ∈ t.requirements ↔ ∃ depth ≤ 1, t.Names id depth := by
  unfold requirements
  constructor
  · intro h
    split at h
    · next heq =>
      rw [List.mem_singleton] at h
      exact ⟨0, Nat.zero_le 1, .direct (h ▸ heq)⟩
    · next heq =>
      obtain ⟨u, hu, hid⟩ := List.mem_filterMap.mp h
      exact ⟨1, Nat.le_refl 1, .inside heq hu (names_zero_iff.mpr hid)⟩
    · cases h
  · rintro ⟨depth, hdepth, hnames⟩
    cases hnames with
    | direct heq =>
      rw [heq]
      exact List.mem_singleton_self id
    | inside heq hmem hinner =>
      obtain rfl := Nat.le_zero.mp (Nat.le_of_succ_le_succ hdepth)
      rw [heq]
      exact List.mem_filterMap.mpr ⟨_, hmem, names_zero_iff.mp hinner⟩

end CppType

/-! ### Declarations -/

/-- A parameter has a default value that is no null pointer. -/
def Argument.hasValueDefault (a : Argument) : Bool :=
  a.default?.isSome && !a.hasNullPointerDefault

namespace DeclKind

/-- The types of a declaration: of the result and the parameters of a callable, of a variable, and
the type that a typedef stands for. -/
def types : DeclKind → List CppType
  | callable c => c.returnType.toList ++ c.args.map (·.type)
  | .variable v => [v.type]
  | typedef t => [t]
  | _ => []

/-- The types of the parameters with a default value that is no null pointer. -/
def defaultTypes : DeclKind → List CppType
  | callable c => (c.args.filter Argument.hasValueDefault).map (·.type)
  | _ => []

/-- A callable, a variable or a typedef. -/
def isTyped : DeclKind → Bool
  | callable _ | .variable _ | typedef _ => true
  | _ => false

variable {k : DeclKind} {target : DeclId} {reason : DependencyReason}

theorem mem_argumentRequirements {a : Argument} : (target, reason) ∈ a.requirements ↔
    target ∈ a.type.requirements ∧
      (reason = .argumentType ∨ reason = .defaultArgumentType ∧ a.hasValueDefault = true) := by
  unfold Argument.requirements Argument.hasValueDefault
  rw [List.mem_append]
  split
  · next hdefault => simp [hdefault, eq_comm, and_or_left]
  · next hdefault => simp [hdefault, eq_comm]

theorem mem_callableRequirements {c : Callable} :
    (target, reason) ∈ (callable c).requirements ↔
      (∃ t ∈ c.returnType.toList, target ∈ t.requirements ∧ reason = .returnType) ∨
        ∃ a ∈ c.args, (target, reason) ∈ a.requirements := by
  unfold requirements
  rw [List.mem_append, List.mem_flatMap]
  cases c.returnType with
  | none => simp
  | some t => simp [eq_comm]

/-- A declaration with types needs what these need. -/
theorem exists_mem_requirements (hk : k.isTyped) :
    (∃ reason, (target, reason) ∈ k.requirements) ↔ ∃ t ∈ k.types, target ∈ t.requirements := by
  cases k with
  | callable c =>
    unfold types
    constructor
    · rintro ⟨reason, h⟩
      rcases mem_callableRequirements.mp h with ⟨t, ht, htarget, -⟩ | ⟨a, ha, h⟩
      · exact ⟨t, List.mem_append_left _ ht, htarget⟩
      · exact ⟨a.type, List.mem_append_right _ (List.mem_map_of_mem ha),
          (mem_argumentRequirements.mp h).1⟩
    · rintro ⟨t, ht, htarget⟩
      rcases List.mem_append.mp ht with ht | ht
      · exact ⟨.returnType, mem_callableRequirements.mpr (.inl ⟨t, ht, htarget, rfl⟩)⟩
      · obtain ⟨a, ha, rfl⟩ := List.mem_map.mp ht
        exact ⟨.argumentType, mem_callableRequirements.mpr
          (.inr ⟨a, ha, mem_argumentRequirements.mpr ⟨htarget, .inl rfl⟩⟩)⟩
  | «variable» v => simp [requirements, types]
  | typedef t => simp [requirements, types]
  | _ => cases hk

/-- A default value that is no null pointer needs the type of its parameter. -/
theorem mem_requirements_default (hk : k.isTyped) :
    (target, .defaultArgumentType) ∈ k.requirements ↔
      ∃ t ∈ k.defaultTypes, target ∈ t.requirements := by
  cases k with
  | callable c =>
    unfold defaultTypes
    constructor
    · intro h
      obtain ⟨t, -, -, hreason⟩ | ⟨a, ha, h⟩ := mem_callableRequirements.mp h
      · cases hreason
      · obtain ⟨htarget, hreason⟩ := mem_argumentRequirements.mp h
        have hdefault : a.hasValueDefault = true := by simpa using hreason
        exact ⟨a.type, List.mem_map_of_mem (List.mem_filter.mpr ⟨ha, hdefault⟩), htarget⟩
    · rintro ⟨t, ht, htarget⟩
      obtain ⟨a, ha, rfl⟩ := List.mem_map.mp ht
      obtain ⟨ha, hdefault⟩ := List.mem_filter.mp ha
      exact mem_callableRequirements.mpr
        (.inr ⟨a, ha, mem_argumentRequirements.mpr ⟨htarget, .inr ⟨rfl, hdefault⟩⟩⟩)
  | «variable» v => simp [requirements, defaultTypes]
  | typedef t => simp [requirements, defaultTypes]
  | _ => cases hk

end DeclKind

/-- Some of the types name the declaration, inside as many function pointers as the depth says. -/
def NamedIn (ts : List CppType) (id : DeclId) (depth : Nat) : Prop := ∃ t ∈ ts, t.Names id depth

theorem exists_mentioned_iff {ts : List CppType} {id : DeclId} :
    (∃ t ∈ ts, id ∈ t.mentioned) ↔ ∃ depth, NamedIn ts id depth := by
  simp only [CppType.mem_mentioned_iff, NamedIn]
  exact ⟨fun ⟨t, ht, depth, h⟩ => ⟨depth, t, ht, h⟩, fun ⟨depth, t, ht, h⟩ => ⟨t, ht, depth, h⟩⟩

theorem exists_requirement_iff {ts : List CppType} {id : DeclId} :
    (∃ t ∈ ts, id ∈ t.requirements) ↔ ∃ depth ≤ 1, NamedIn ts id depth := by
  simp only [CppType.mem_requirements_iff, NamedIn]
  exact ⟨fun ⟨t, ht, depth, hle, h⟩ => ⟨depth, hle, t, ht, h⟩,
    fun ⟨depth, hle, t, ht, h⟩ => ⟨t, ht, depth, hle, h⟩⟩

/-- What is named inside one function pointer at most is all that is mentioned exactly if nothing
is named only further inside. -/
theorem shallow_eq_mentioned_iff {ts : List CppType} :
    (∀ id, (∃ depth ≤ 1, NamedIn ts id depth) ↔ ∃ t ∈ ts, id ∈ t.mentioned) ↔
      ∀ id depth, NamedIn ts id depth → ∃ shallow ≤ 1, NamedIn ts id shallow := by
  simp only [exists_mentioned_iff]
  constructor
  · exact fun h id depth hnamed => (h id).mpr ⟨depth, hnamed⟩
  · exact fun h id => ⟨fun ⟨depth, _, hnamed⟩ => ⟨depth, hnamed⟩,
      fun ⟨depth, hnamed⟩ => h id depth hnamed⟩

namespace DeclGraph

variable {g : DeclGraph} {id target : DeclId} {reason : DependencyReason} {k : DeclKind}

theorem mem_dependencies_iff (hk : g.kind? id = some k) :
    ⟨id, target, reason⟩ ∈ g.dependencies id ↔ (target, reason) ∈ k.requirements := by
  unfold dependencies
  rw [hk]
  constructor
  · intro h
    obtain ⟨r, hr, heq⟩ := List.mem_map.mp h
    cases heq
    exact hr
  · exact fun h => List.mem_map.mpr ⟨_, h, rfl⟩

theorem mem_targets_iff (hk : g.kind? id = some k) :
    target ∈ (g.dependencies id).map (·.target) ↔ ∃ reason, (target, reason) ∈ k.requirements := by
  unfold dependencies
  rw [hk]
  simp

/-- **A declaration depends on what its types name inside one function pointer at most; so its
dependencies are complete exactly if each declaration that its types name at any depth is named
there, too.**  The same holds for the types of the parameters with a default value that is no null
pointer and the dependencies for the sake of these values. -/
theorem dependencies_complete_iff (hk : g.kind? id = some k) (htyped : k.isTyped) :
    (∀ target, target ∈ (g.dependencies id).map (·.target) ↔
      ∃ depth ≤ 1, NamedIn k.types target depth) ∧
    (∀ target, ⟨id, target, .defaultArgumentType⟩ ∈ g.dependencies id ↔
      ∃ depth ≤ 1, NamedIn k.defaultTypes target depth) ∧
    ((∀ target, target ∈ (g.dependencies id).map (·.target) ↔
        ∃ t ∈ k.types, target ∈ t.mentioned) ↔
      ∀ target depth, NamedIn k.types target depth →
        ∃ shallow ≤ 1, NamedIn k.types target shallow) ∧
    ((∀ target, ⟨id, target, .defaultArgumentType⟩ ∈ g.dependencies id ↔
        ∃ t ∈ k.defaultTypes, target ∈ t.mentioned) ↔
      ∀ target depth, NamedIn k.defaultTypes target depth →
        ∃ shallow ≤ 1, NamedIn k.defaultTypes target shallow) := by
  have htargets : ∀ target, target ∈ (g.dependencies id).map (·.target) ↔
      ∃ depth ≤ 1, NamedIn k.types target depth := fun target => by
    rw [mem_targets_iff hk, DeclKind.exists_mem_requirements htyped, exists_requirement_iff]
  have hdefaults : ∀ target, ⟨id, target, .defaultArgumentType⟩ ∈ g.dependencies id ↔
      ∃ depth ≤ 1, NamedIn k.defaultTypes target depth := fun target => by
    rw [mem_dependencies_iff hk, DeclKind.mem_requirements_default htyped, exists_requirement_iff]
  refine ⟨htargets, hdefaults, ?_, ?_⟩
  · simp only [htargets]
    exact shallow_eq_mentioned_iff
  · simp only [hdefaults]
    exact shallow_eq_mentioned_iff

/-- A class of events and a function to register a handler, which has a default value. -/
def registersHandler (handler : CppType) : DeclGraph :=
  let register : Callable := {
    kind := .freeFunction
    args := [{ name := "handler", type := handler, default? := some "&ignore" }] }
  ⟨#[{ name := "::", kind := .ns [1, 2] },
    { name := "Event", kind := .cls {}, parent := some root },
    { name := "register_handler", kind := .callable register, parent := some root }]⟩

/-- A handler of events. -/
def eventHandler : CppType := .functionPointer .void [.reference (.declared 1)]

/-- A function that is called with a handler of events. -/
def handlerHandler : CppType := .functionPointer .void [eventHandler]

/-- The class of events is needed for a handler of events. -/
theorem dependencies_complete_iff_handler : ∃ k, (registersHandler eventHandler).kind? 2 = some k ∧
    k.isTyped ∧
    (∀ target, target ∈ ((registersHandler eventHandler).dependencies 2).map (·.target) ↔
      ∃ t ∈ k.types, target ∈ t.mentioned) ∧
    ∀ target, ⟨2, target, .defaultArgumentType⟩ ∈ (registersHandler eventHandler).dependencies 2 ↔
      ∃ t ∈ k.defaultTypes, target ∈ t.mentioned := by
  obtain ⟨k, hk, htyped, htypes, hdefaults⟩ : ∃ k,
      (registersHandler eventHandler).kind? 2 = some k ∧ k.isTyped = true ∧
        k.types = [eventHandler] ∧ k.defaultTypes = [eventHandler] := ⟨_, rfl, rfl, rfl, rfl⟩
  have hshallow : ∀ target depth, NamedIn [eventHandler] target depth →
      ∃ shallow ≤ 1, NamedIn [eventHandler] target shallow := by
    rintro target depth ⟨t, ht, hnames⟩
    obtain rfl := List.mem_singleton.mp ht
    refine ⟨depth, ?_, eventHandler, ht, hnames⟩
    cases hnames with
    | direct heq => cases heq
    | inside heq hmem hnames =>
      cases heq
      -- neither the result nor the parameter is a function pointer
      rcases List.mem_pair.mp hmem with rfl | rfl <;> cases hnames with
      | direct => exact Nat.le_refl 1
      | inside heq => cases heq
  obtain ⟨-, -, htargets, hvalues⟩ := dependencies_complete_iff hk htyped
  refine ⟨k, hk, htyped, htargets.mpr ?_, hvalues.mpr ?_⟩
  · rw [htypes]
    exact hshallow
  · rw [hdefaults]
    exact hshallow

/-- For a function that is called with a handler of events nothing is needed, although its type
names the class of events. -/
theorem dependencies_incomplete : (registersHandler handlerHandler).validate = .ok () ∧
    ∃ k, (registersHandler handlerHandler).kind? 2 = some k ∧ k.isTyped ∧
      (∃ t ∈ k.types, 1 ∈ t.mentioned) ∧ (∃ t ∈ k.defaultTypes, 1 ∈ t.mentioned) ∧
      (registersHandler handlerHandler).dependencies 2 = [] := by
  refine ⟨by decide +kernel, _, rfl, rfl, ?_⟩
  decide

end DeclGraph

end Bindery
