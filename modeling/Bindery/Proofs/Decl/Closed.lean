import Bindery.Decl.Dependency
import Bindery.Decl.Hierarchy
import Bindery.Proofs.Computation
import Bindery.Proofs.Decl.Scopes

/-!
# Graphs whose ids exist

In a graph where the ids in types, bases and member lists exist, whatever is asked of the graph is
answered.

## Main definitions

* `DeclKind.mentioned` — the declarations that a declaration names.
* `DeclGraph.Closed` — all of them exist.

## Main results

* `Closed.member`, `Closed.base`, `Closed.dependency` — where ids are followed.
* `Closed.exists_isNoncopyable` — the walk along bases is answered.
-/

namespace Bindery

/-! ### What is named -/

namespace CppType

theorem subset_mentionedAll {a : CppType} : ∀ {as : List CppType}, a ∈ as →
    a.mentioned ⊆ mentionedAll as
  | b :: as, h => by
    rw [mentionedAll]
    rcases List.mem_cons.mp h with rfl | h
    · exact List.subset_append_left _ _
    · exact List.Subset.trans (subset_mentionedAll h) (List.subset_append_right _ _)

theorem mentioned_baseType : ∀ t : CppType, t.baseType.mentioned = t.mentioned
  | pointer base | reference base | const base | volatile base | array base _ => by
    rw [baseType, mentioned_baseType base, mentioned]
  | fundamental _ | declared _ | named _ | functionPointer _ _ => rfl

theorem mem_mentioned_of_declared? {t : CppType} {id : DeclId} (h : t.declared? = some id) :
    id ∈ t.mentioned := by
  rw [← mentioned_baseType]
  unfold declared? at h
  split at h
  · next heq =>
    rw [heq, mentioned, Option.some.inj h]
    exact List.mem_singleton_self id
  · cases h

/-- What makes a type usable is named in it. -/
theorem requirements_subset (t : CppType) : t.requirements ⊆ t.mentioned := by
  rw [← mentioned_baseType]
  unfold requirements
  split
  · next id heq => exact fun x hx => by rw [heq, mentioned]; exact hx
  · next result args heq =>
    intro x hx
    rw [heq, mentioned]
    obtain ⟨t, ht, hx⟩ := List.mem_filterMap.mp hx
    have hmentioned := mem_mentioned_of_declared? hx
    rcases List.mem_cons.mp ht with rfl | ht
    · exact List.mem_append_left _ hmentioned
    · exact List.mem_append_right _ (subset_mentionedAll ht hmentioned)
  · exact List.nil_subset _

end CppType

/-- All declarations that a declaration names: its members, its bases and those in its types. -/
def DeclKind.mentioned : DeclKind → List DeclId
  | ns members => members
  | cls c => c.bases.map (·.base) ++ c.members
  | callable c =>
    (c.returnType.map CppType.mentioned).getD [] ++ c.args.flatMap fun a => a.type.mentioned
  | .variable v => v.type.mentioned
  | enum _ => []
  | typedef t => t.mentioned

theorem DeclKind.members_subset (k : DeclKind) : k.members ⊆ k.mentioned := by
  cases k with
  | ns members => exact List.Subset.refl _
  | cls c => exact List.subset_append_right _ _
  | _ => exact List.nil_subset _

theorem Argument.mem_mentioned {a : Argument} {r : DeclId × DependencyReason}
    (h : r ∈ a.requirements) : r.1 ∈ a.type.mentioned := by
  unfold requirements at h
  rcases List.mem_append.mp h with h | h
  · obtain ⟨x, hx, rfl⟩ := List.mem_map.mp h
    exact a.type.requirements_subset hx
  · split at h
    · obtain ⟨x, hx, rfl⟩ := List.mem_map.mp h
      exact a.type.requirements_subset hx
    · cases h

/-- What a declaration needs is named in it. -/
theorem DeclKind.mem_mentioned {k : DeclKind} {r : DeclId × DependencyReason}
    (h : r ∈ k.requirements) : r.1 ∈ k.mentioned := by
  cases k with
  | cls c =>
    obtain ⟨b, hb, rfl⟩ := List.mem_map.mp h
    exact List.mem_append_left _ (List.mem_map_of_mem hb)
  | callable c =>
    rcases List.mem_append.mp h with h | h
    · obtain ⟨x, hx, rfl⟩ := List.mem_map.mp h
      refine List.mem_append_left _ ?_
      cases hresult : c.returnType with
      | none =>
        rw [hresult] at hx
        cases hx
      | some t =>
        rw [hresult] at hx
        exact t.requirements_subset hx
    · obtain ⟨a, ha, hr⟩ := List.mem_flatMap.mp h
      exact List.mem_append_right _ (List.mem_flatMap.mpr ⟨a, ha, a.mem_mentioned hr⟩)
  | «variable» v =>
    obtain ⟨x, hx, rfl⟩ := List.mem_map.mp h
    exact v.type.requirements_subset hx
  | typedef t =>
    obtain ⟨x, hx, rfl⟩ := List.mem_map.mp h
    exact t.requirements_subset hx
  | ns | enum => cases h

namespace DeclGraph

variable {g : DeclGraph} {id : DeclId}

/-- Every declaration that is named in another one, as a member, as a base or in a type, exists. -/
def Closed (g : DeclGraph) : Prop := ∀ d ∈ g.decls.toList, ∀ m ∈ d.kind.mentioned, m < g.size

instance (g : DeclGraph) : Decidable g.Closed :=
  inferInstanceAs (Decidable (∀ d ∈ g.decls.toList, ∀ m ∈ d.kind.mentioned, m < g.size))

theorem exists_decl (h : id < g.size) : ∃ d, g.decl id = .ok d :=
  ⟨_, decl_eq_ok.mpr (Array.getElem?_eq_getElem h)⟩

theorem lt_size_of_kind? {k : DeclKind} (h : g.kind? id = some k) : id < g.size := by
  obtain ⟨d, hd, -⟩ := Option.map_eq_some_iff.mp h
  exact (Array.getElem?_eq_some_iff.mp hd).1

theorem lt_size_of_callable? {c : Callable} (h : g.callable? id = some c) : id < g.size :=
  lt_size_of_kind? (callable?_eq_some_iff.mp h)

theorem class?_eq_some_iff {c : ClassDecl} :
    g.class? id = some c ↔ g.kind? id = some (.cls c) := by
  unfold class?
  constructor
  · intro h
    split at h
    · next hkind => rw [hkind, Option.some.inj h]
    · cases h
  · intro h
    rw [h]

theorem Closed.lt_size (hg : g.Closed) {k : DeclKind} (hk : g.kind? id = some k) {m : DeclId}
    (hm : m ∈ k.mentioned) : m < g.size := by
  obtain ⟨d, hd, rfl⟩ := Option.map_eq_some_iff.mp hk
  exact hg d (Array.mem_toList_iff.mpr (Array.mem_of_getElem? hd)) m hm

theorem Closed.member (hg : g.Closed) {m : DeclId} (hm : m ∈ g.members id) : m < g.size := by
  unfold members at hm
  split at hm
  · next k hk => exact hg.lt_size hk (k.members_subset hm)
  · cases hm

theorem Closed.base (hg : g.Closed) {b : DeclId} (hb : b ∈ g.bases id) : b < g.size := by
  unfold bases at hb
  split at hb
  · next c hc => exact hg.lt_size (class?_eq_some_iff.mp hc) (List.mem_append_left _ hb)
  · cases hb

theorem Closed.dependency (hg : g.Closed) {d : Dependency} (hd : d ∈ g.dependencies id) :
    d.target < g.size := by
  unfold dependencies at hd
  split at hd
  · next k hk =>
    obtain ⟨r, hr, rfl⟩ := List.mem_map.mp hd
    exact hg.lt_size hk (DeclKind.mem_mentioned hr)
  · cases hd

/-! ### Answers -/

theorem exists_pythonName (h : id < g.size) : ∃ name, g.pythonName id = .ok name :=
  Except.exists_bind (exists_decl h) fun _ _ => ⟨_, rfl⟩

theorem Closed.exists_noncopyableFrom (hg : g.Closed) : ∀ (fuel : Nat) (seen : List DeclId)
    {id : DeclId}, id < g.size → ∃ r, g.noncopyableFrom fuel seen id = .ok r
  | 0, seen, _, _ => ⟨(false, seen), rfl⟩
  | fuel + 1, seen, id, hid => by
    unfold noncopyableFrom
    split
    · exact ⟨_, rfl⟩
    · refine Except.exists_bind (exists_decl hid) fun d _ => ?_
      dsimp only
      split
      · exact ⟨_, rfl⟩
      · split
        · exact ⟨_, rfl⟩
        · refine (Except.exists_foldlM (P := fun _ => True) trivial fun acc b hb _ => ?_).imp
            fun _ h => h.1
          split
          · exact ⟨acc, rfl, trivial⟩
          · obtain ⟨r, hr⟩ := exists_noncopyableFrom hg fuel acc.2 (hg.base hb)
            exact ⟨r, hr, trivial⟩
      · exact ⟨_, rfl⟩

theorem Closed.exists_isNoncopyable (hg : g.Closed) (hid : id < g.size) :
    ∃ b, g.isNoncopyable id = .ok b :=
  Except.exists_bind (hg.exists_noncopyableFrom _ [] hid) fun _ _ => ⟨_, rfl⟩

end DeclGraph

end Bindery
