import Bindery.Proofs.Code.Changes

/-!
# What shortened names mean

A name is shortened by the nearest alias whose namespace it is in, and read by the nearest alias
that has the name it begins with.  These are two searches along the same aliases.  Where a nearer
alias of the same name stands for another namespace, they end at different aliases, and the
shortened name means something else.

## Main definitions

* `CodeTree.Nearest` — the nearest alias in front of a node that passes a test.
* `Covers`, `IsPart` — namespaces that a name is in, and names of one part.
* `CodeTree.resolve` — the full name that a name means at a node.

## Main results

* `WellFormed.nearest_iff` — both searches are for nearest aliases.
* `resolve_append` — the part behind two colons is kept by reading.
* `resolve_shorten_iff` — **a shortened name means the name it came from exactly if no nearer alias
  hides the one that was used.**
-/

namespace Bindery

/-! ### Names and namespaces -/

/-- The alias covers a full name: the name is in its namespace. -/
def Covers (n : String) (a : NamespaceAlias) : Prop := ∃ rest, n = a.nspace ++ "::" ++ rest

/-- A name of one part, without colons. -/
def IsPart (name : String) : Prop := name ≠ "" ∧ ':' ∉ name.toList

/-- What a name begins with, up to the first two colons. -/
def leadingPart : List Char → List Char
  | [] => []
  | c :: rest => if [':', ':'].isPrefixOf (c :: rest) then [] else c :: leadingPart rest

theorem toList_append_colons (s : String) : (s ++ "::").toList = s.toList ++ [':', ':'] :=
  String.toList_append

theorem covers_iff {n : String} {a : NamespaceAlias} :
    Covers n a ↔ (a.nspace ++ "::").toList <+: n.toList := by
  constructor
  · rintro ⟨rest, rfl⟩
    exact ⟨rest.toList, String.toList_append.symm⟩
  · rintro ⟨rest, hrest⟩
    refine ⟨String.ofList rest, ?_⟩
    rw [← String.toList_inj, String.toList_append, String.toList_ofList, hrest]

instance (n : String) : DecidablePred (Covers n) := fun _ => decidable_of_iff _ covers_iff.symm

/-- The last entry of a list that stands for something with a property. -/
theorem find?_reverse_filterMap_eq_some_iff {α β : Type} {f : α → Option β} {p : β → Prop}
    [DecidablePred p] {l : List α} {b : β} : (l.filterMap f).reverse.find? p = some b ↔
      ∃ front x between, l = front ++ x :: between ∧ f x = some b ∧ p b ∧
        ∀ y ∈ between, ∀ c, f y = some c → ¬ p c := by
  rw [← List.filterMap_reverse, List.find?_filterMap, Option.bind_eq_some_iff]
  simp only [List.find?_eq_some_iff_append, Option.any_eq_true, Bool.not_eq_true',
    Option.any_eq_false, decide_eq_true_eq, decide_eq_false_iff_not]
  constructor
  · rintro ⟨x, ⟨⟨c, hc, hpc⟩, back, front, hl, hnone⟩, hb⟩
    obtain rfl : c = b := Option.some.inj (hc.symm.trans hb)
    refine ⟨front.reverse, x, back.reverse, ?_, hc, hpc,
      fun y hy => hnone y (List.mem_reverse.mp hy)⟩
    rw [← List.reverse_reverse l, hl, List.reverse_append, List.reverse_cons, List.append_assoc,
      List.singleton_append]
  · rintro ⟨front, x, between, rfl, hb, hpb, hnone⟩
    refine ⟨x, ⟨⟨b, hb, hpb⟩, between.reverse, front.reverse, by simp, fun y hy => ?_⟩, hb⟩
    exact hnone y (List.mem_reverse.mp hy)

namespace CodeTree

/-- The alias is the nearest one in front of a node that passes a test.  It stands to the left of
the node, or to the left of the nearest node above for which there is one. -/
inductive Nearest (t : CodeTree) (p : NamespaceAlias → Prop) : NodeId → NamespaceAlias → Prop
  | beside {id q c : NodeId} {a : NamespaceAlias} {front between back : List NodeId} :
    t.children q = front ++ c :: between ++ id :: back → t.kind? c = some (.namespaceAlias a) →
    p a → (∀ x ∈ between, ∀ b, t.kind? x = some (.namespaceAlias b) → ¬ p b) → Nearest t p id a
  | above {id q : NodeId} {a : NamespaceAlias} {front back : List NodeId} :
    t.children q = front ++ id :: back →
    (∀ x ∈ front, ∀ b, t.kind? x = some (.namespaceAlias b) → ¬ p b) →
    Nearest t p q a → Nearest t p id a

/-- The full name that a name means at a node.  A name that begins with two colons is full, and any
other begins with the name of an alias, which stands for the namespace of the nearest one. -/
def resolve (t : CodeTree) (id : NodeId) (name : String) : String :=
  let part := leadingPart name.toList
  if part = [] then name
  else
    match (t.aliasesInScope id).find? (·.name.toList = part) with
    | some a => a.nspace ++ String.ofList (name.toList.drop part.length)
    | none => name

variable {t : CodeTree} {id q : NodeId} {a b : NamespaceAlias} {n name : String}
  {p : NamespaceAlias → Prop}

/-! ### The nearest alias -/

theorem alias?_eq_some_iff {c : NodeId} :
    (t.kind? c).bind (·.alias?) = some a ↔ t.kind? c = some (.namespaceAlias a) := by
  cases hk : t.kind? c with
  | none => simp
  | some kind => cases kind <;> simp [NodeKind.alias?]

/-- The nodes in front of a child are what its place in the list says. -/
theorem WellFormed.takeWhile_children (hw : t.WellFormed) {front back : List NodeId}
    (h : t.children q = front ++ id :: back) : (t.children q).takeWhile (· ≠ id) = front := by
  have hnot : id ∉ front := fun hmem => by
    have hnodup := hw.nodup q
    rw [h, List.nodup_middle, List.nodup_cons] at hnodup
    exact hnodup.1 (List.mem_append_left back hmem)
  have hfront : ∀ x ∈ front, decide (x ≠ id) = true :=
    fun x hx => decide_eq_true fun hxid => hnot (hxid ▸ hx)
  rw [h, List.takeWhile_append_of_pos hfront, List.takeWhile_cons_of_neg (by simp), List.append_nil]

section

variable [DecidablePred p]

/-- The search among the nodes in front of a child finds the last alias that passes the test. -/
theorem WellFormed.find?_aliasesBefore_eq_some_iff (hw : t.WellFormed) {front back : List NodeId}
    (h : t.children q = front ++ id :: back) : (t.aliasesBefore q id).find? p = some a ↔
      ∃ rest c between, front = rest ++ c :: between ∧ t.kind? c = some (.namespaceAlias a) ∧ p a ∧
        ∀ x ∈ between, ∀ b, t.kind? x = some (.namespaceAlias b) → ¬ p b := by
  rw [aliasesBefore_eq, hw.takeWhile_children h, find?_reverse_filterMap_eq_some_iff]
  simp only [alias?_eq_some_iff]

/-- The search fails where no alias in front of the child passes the test. -/
theorem WellFormed.find?_aliasesBefore_eq_none_iff (hw : t.WellFormed) {front back : List NodeId}
    (h : t.children q = front ++ id :: back) : (t.aliasesBefore q id).find? p = none ↔
      ∀ x ∈ front, ∀ b, t.kind? x = some (.namespaceAlias b) → ¬ p b := by
  rw [aliasesBefore_eq, hw.takeWhile_children h, List.find?_eq_none]
  simp only [List.mem_reverse, List.mem_filterMap, alias?_eq_some_iff, decide_eq_true_eq]
  exact ⟨fun hnone x hx b hb => hnone b ⟨x, hx, hb⟩, fun hnone b ⟨x, hx, hb⟩ => hnone x hx b hb⟩

/-- **The first alias in scope that passes a test is the nearest one.** -/
theorem WellFormed.nearest_iff (hw : t.WellFormed) :
    t.Nearest p id a ↔ (t.aliasesInScope id).find? p = some a := by
  constructor
  · intro h
    induction h with
    | @beside id q c a front between back hchildren hkind hp hnone =>
      have hmem : id ∈ t.children q := by simp [hchildren]
      have hfound : (t.aliasesBefore q id).find? p = some a :=
        (hw.find?_aliasesBefore_eq_some_iff hchildren).mpr
          ⟨front, c, between, rfl, hkind, hp, hnone⟩
      rw [aliasesInScope, hw.ancestors_child hmem, aliasesInScopeFrom, List.find?_append, hfound,
        Option.some_or]
    | @above id q a front back hchildren hnone _ ih =>
      have hmem : id ∈ t.children q := by simp [hchildren]
      rw [aliasesInScope, hw.ancestors_child hmem, aliasesInScopeFrom, List.find?_append,
        (hw.find?_aliasesBefore_eq_none_iff hchildren).mpr hnone, Option.none_or]
      exact ih
  · -- by induction on the chain above the node
    have hchain : ∀ (l : List NodeId) (id : NodeId), Climbs t.parent? id l →
        (t.aliasesInScopeFrom id l).find? p = some a → t.Nearest p id a := by
      intro l
      induction l with
      | nil => exact fun id _ h => by simp [aliasesInScopeFrom] at h
      | cons q l ih =>
        intro id hclimbs h
        obtain ⟨front, back, hchildren⟩ := List.append_of_mem ((hw.child q id).mpr hclimbs.1)
        rw [aliasesInScopeFrom, List.find?_append, Option.or_eq_some_iff,
          hw.find?_aliasesBefore_eq_some_iff hchildren,
          hw.find?_aliasesBefore_eq_none_iff hchildren] at h
        rcases h with ⟨rest, c, between, rfl, hkind, hp, hnone⟩ | ⟨hnone, h⟩
        · exact .beside hchildren hkind hp hnone
        · exact .above hchildren hnone (ih q hclimbs.2 h)
    exact hchain _ id (hw.climbs_ancestors id)

end

/-! ### Shortening -/

theorem applyAlias_append (a : NamespaceAlias) (rest : String) :
    applyAlias a (a.nspace ++ "::" ++ rest) = some (a.name ++ "::" ++ rest) := by
  unfold applyAlias
  rw [← toList_append_colons, String.toList_append (s := a.nspace ++ "::"),
    if_pos (List.isPrefixOf_iff_prefix.mpr (List.prefix_append _ _)), List.drop_left,
    String.ofList_toList]

theorem applyAlias_of_not_covers (h : ¬ Covers n a) : applyAlias a n = none := by
  unfold applyAlias
  rw [← toList_append_colons, if_neg]
  rwa [List.isPrefixOf_iff_prefix, ← covers_iff]

/-- A name is shortened by the first alias in scope that covers it. -/
theorem shorten_eq (t : CodeTree) (id : NodeId) (n : String) : t.shorten id n =
    (((t.aliasesInScope id).find? (Covers n)).bind (applyAlias · n)).getD n := by
  unfold shorten
  congr 1
  induction t.aliasesInScope id with
  | nil => rfl
  | cons a l ih =>
    by_cases h : Covers n a
    · have ⟨rest, hn⟩ := h
      have happly : applyAlias a n = some (a.name ++ "::" ++ rest) := hn ▸ applyAlias_append a rest
      simp [h, happly]
    · simpa [h, applyAlias_of_not_covers h] using ih

theorem WellFormed.shorten_of_nearest (hw : t.WellFormed) (h : t.Nearest (Covers n) id a) :
    ∃ rest, n = a.nspace ++ "::" ++ rest ∧ t.shorten id n = a.name ++ "::" ++ rest := by
  have hfind := hw.nearest_iff.mp h
  obtain ⟨rest, rfl⟩ : Covers n a := by simpa using List.find?_some hfind
  refine ⟨rest, rfl, ?_⟩
  rw [shorten_eq, hfind, Option.bind_some, applyAlias_append, Option.getD_some]

theorem WellFormed.shorten_of_not_nearest (hw : t.WellFormed)
    (h : ∀ a, ¬ t.Nearest (Covers n) id a) : t.shorten id n = n := by
  have hfind : (t.aliasesInScope id).find? (Covers n) = none :=
    Option.eq_none_iff_forall_ne_some.mpr fun a ha => h a (hw.nearest_iff.mpr ha)
  rw [shorten_eq, hfind]
  rfl

/-! ### Reading -/

theorem leadingPart_append (rest : List Char) : ∀ s : List Char,
    leadingPart (s ++ ':' :: ':' :: rest) = leadingPart (s ++ [':', ':'])
  | [] => rfl
  | [c] => by simp [leadingPart]
  | c :: d :: s => by
    have ih := leadingPart_append rest (d :: s)
    show (if [':', ':'].isPrefixOf (c :: d :: (s ++ ':' :: ':' :: rest)) then []
      else c :: leadingPart (d :: s ++ ':' :: ':' :: rest)) = _
    rw [ih]
    rfl

theorem length_leadingPart_le : ∀ s : List Char, (leadingPart s).length ≤ s.length
  | [] => Nat.le_refl 0
  | c :: s => by
    rw [leadingPart]
    split
    · exact Nat.zero_le _
    · exact Nat.succ_le_succ (length_leadingPart_le s)

theorem leadingPart_of_notMem : ∀ {s : List Char}, ':' ∉ s → leadingPart (s ++ [':', ':']) = s
  | [], _ => rfl
  | c :: s, h => by
    rw [List.mem_cons, not_or] at h
    rw [List.cons_append, leadingPart, leadingPart_of_notMem h.2, if_neg]
    simp [List.isPrefixOf, h.1]

/-- What stands behind two colons is kept by reading. -/
theorem resolve_append (t : CodeTree) (id : NodeId) (s rest : String) :
    t.resolve id (s ++ "::" ++ rest) = t.resolve id (s ++ "::") ++ rest := by
  have hpart : leadingPart (s ++ "::" ++ rest).toList = leadingPart (s ++ "::").toList := by
    rw [String.toList_append, toList_append_colons, List.append_assoc]
    exact leadingPart_append rest.toList s.toList
  unfold resolve
  rw [hpart]
  simp only
  split
  · rfl
  · split
    · rw [String.toList_append (s := s ++ "::"),
        List.drop_append_of_le_length (length_leadingPart_le _), String.ofList_append,
        String.ofList_toList, String.append_assoc]
    · rfl

/-- Full names mean themselves. -/
theorem resolve_full (t : CodeTree) (id : NodeId) (h : "::".toList <+: n.toList) :
    t.resolve id n = n := by
  obtain ⟨rest, hrest⟩ := h
  have hpart : leadingPart n.toList = [] := by
    rw [← hrest]
    rfl
  unfold resolve
  rw [hpart]
  rfl

/-- A name of one part stands for the namespace of the nearest alias of that name. -/
theorem WellFormed.resolve_of_isPart (hw : t.WellFormed) (hname : IsPart name)
    (h : t.Nearest (·.name = name) id b) : t.resolve id (name ++ "::") = b.nspace ++ "::" := by
  have hne : name.toList ≠ [] := fun hnil => hname.1 (String.toList_inj.mp hnil)
  have hpart : leadingPart (name ++ "::").toList = name.toList := by
    rw [toList_append_colons, leadingPart_of_notMem hname.2]
  have hfind := hw.nearest_iff.mp h
  unfold resolve
  rw [hpart]
  simp only [if_neg hne, String.toList_inj, hfind]
  rw [String.toList_append, List.drop_left, String.ofList_toList]

/-- A name of one part that belongs to an alias in scope means the namespace of the alias exactly if
no nearer alias hides it. -/
theorem WellFormed.resolve_name_iff (hw : t.WellFormed) (ha : t.Nearest p id a)
    [DecidablePred p] (hpart : IsPart a.name) : t.resolve id (a.name ++ "::") = a.nspace ++ "::" ↔
      ∀ b, t.Nearest (·.name = a.name) id b → b.nspace = a.nspace := by
  constructor
  · intro h b hb
    rw [hw.resolve_of_isPart hpart hb] at h
    exact (String.append_left_inj "::").mp h
  · intro h
    have hmem : a ∈ t.aliasesInScope id := List.mem_of_find?_eq_some (hw.nearest_iff.mp ha)
    obtain ⟨b, hb⟩ : ∃ b, (t.aliasesInScope id).find? (·.name = a.name) = some b :=
      Option.isSome_iff_exists.mp (List.find?_isSome.mpr ⟨a, hmem, decide_eq_true rfl⟩)
    have hnearest := hw.nearest_iff.mpr hb
    rw [hw.resolve_of_isPart hpart hnearest, h b hnearest]

/-- **What a shortened name means.**  A full name is shortened by the nearest alias in whose
namespace it is, and means the same as before exactly if the name of this alias means its namespace.
For a name of one part this is to say that no nearer alias of that name stands for another
namespace.  A name that no alias covers always means the same. -/
theorem resolve_shorten_iff (kind : NodeKind) (changes : List Change) (id : NodeId) {n : String}
    (hn : "::".toList <+: n.toList) :
    let t := (ofKind kind).changed changes
    (t.resolve id (t.shorten id n) = n ↔
      ∀ a, t.Nearest (Covers n) id a → t.resolve id (a.name ++ "::") = a.nspace ++ "::") ∧
    ∀ a, t.Nearest (Covers n) id a → IsPart a.name →
      (t.resolve id (t.shorten id n) = n ↔
        ∀ b, t.Nearest (·.name = a.name) id b → b.nspace = a.nspace) := by
  intro t
  have hw : t.WellFormed := (wellFormed_empty.create kind none).changed changes
  -- where an alias is used, all depends on what its name means
  have hused : ∀ a, t.Nearest (Covers n) id a → (t.resolve id (t.shorten id n) = n ↔
      t.resolve id (a.name ++ "::") = a.nspace ++ "::") := by
    intro a ha
    obtain ⟨rest, hrest, hshorten⟩ := hw.shorten_of_nearest ha
    rw [hshorten, resolve_append, hrest]
    exact String.append_left_inj rest
  refine ⟨⟨fun h a ha => (hused a ha).mp h, fun h => ?_⟩, fun a ha hpart => ?_⟩
  · by_cases hany : ∃ a, t.Nearest (Covers n) id a
    · obtain ⟨a, ha⟩ := hany
      exact (hused a ha).mpr (h a ha)
    · rw [hw.shorten_of_not_nearest (not_exists.mp hany), resolve_full t id hn]
  · exact (hused a ha).trans (hw.resolve_name_iff ha hpart)

/-! ### An alias that hides another -/

/-- A module with an alias, and a body with another alias of the same name and a text behind it. -/
def aliasTwice : List Change :=
  [.edit (.create (.namespaceAlias ⟨"bp", "::a"⟩) none), .edit (.adopt root 1),
    .edit (.create (.moduleBody "b") none), .edit (.adopt root 2),
    .edit (.create (.namespaceAlias ⟨"bp", "::b"⟩) none), .edit (.adopt 2 3),
    .edit (.create (.globalVariable "c" "::c") none), .edit (.adopt 2 4)]

/-- Behind the inner alias the names of its own namespace keep their meaning.  Those of the outer one
do not: they are shortened to a name that the inner alias hides. -/
theorem resolve_shorten_iff_aliasTwice :
    let t := (ofKind (.module "m")).changed aliasTwice
    "::".toList <+: "::b::f".toList ∧ "::".toList <+: "::a::f".toList ∧
      t.Nearest (Covers "::b::f") 4 ⟨"bp", "::b"⟩ ∧ t.Nearest (Covers "::a::f") 4 ⟨"bp", "::a"⟩ ∧
      t.Nearest (·.name = "bp") 4 ⟨"bp", "::b"⟩ ∧ IsPart "bp" ∧
      t.resolve 4 (t.shorten 4 "::b::f") = "::b::f" ∧
      t.resolve 4 (t.shorten 4 "::a::f") ≠ "::a::f" := by
  intro t
  have hw : t.WellFormed := (wellFormed_empty.create (.module "m") none).changed aliasTwice
  have hinner : t.Nearest (Covers "::b::f") 4 ⟨"bp", "::b"⟩ := hw.nearest_iff.mpr (by decide +kernel)
  have houter : t.Nearest (Covers "::a::f") 4 ⟨"bp", "::a"⟩ := hw.nearest_iff.mpr (by decide +kernel)
  have hfind : (t.aliasesInScope 4).find? (·.name = "bp") = some ⟨"bp", "::b"⟩ := by
    decide +kernel
  have hname : t.Nearest (·.name = "bp") 4 ⟨"bp", "::b"⟩ := hw.nearest_iff.mpr hfind
  have hpart : IsPart "bp" := ⟨by decide, by decide⟩
  have hb : "::".toList <+: "::b::f".toList := by decide +kernel
  have ha : "::".toList <+: "::a::f".toList := by decide +kernel
  refine ⟨hb, ha, hinner, houter, hname, hpart, ?_, fun h => ?_⟩
  · refine ((resolve_shorten_iff _ aliasTwice 4 hb).2 _ hinner hpart).mpr fun b hnearest => ?_
    rw [← Option.some.inj (hfind.symm.trans (hw.nearest_iff.mp hnearest))]
  · exact absurd (((resolve_shorten_iff _ aliasTwice 4 ha).2 _ houter hpart).mp h _ hname) (by decide)

/-- **A shortened name may mean something else**: behind the inner alias the outer one is used, and
its name means the namespace of the inner one. -/
theorem shorten_captured :
    let t := (ofKind (.module "m")).changed aliasTwice
    t.shorten 4 "::a::f" = "bp::f" ∧ t.resolve 4 (t.shorten 4 "::a::f") = "::b::f" := by
  decide +kernel

end CodeTree

end Bindery
