import Bindery.Proofs.ListOrder
import Bindery.Text.Identifier
import Mathlib.Data.Finset.Card
import Mathlib.Data.Finset.Dedup
import Mathlib.Data.List.Basic

/-!
# Names that become the same identifier

A mangler remembers for each identifier the first name that had it, and notes a collision when
another name comes to have it.

## Main definitions

* `Mangler.collisionOf?` — the collision that one of many names makes with the names before it.
* `Mangler.Met` — what a mangler remembers of the names that it has met, in their order.
* `Mangler.Sound` — the mangler has met some names.
* `Mangler.mangleAll` — the identifiers of many names.

## Main results

* `Met.add` — meeting a name, whether it is new or not.
* `Sound.exists_collision_iff` — an identifier is noted exactly if two names that were met have it.
* `mangleAll_exact` — **each name is given its identifier; the collisions are as many as there are
  names more than identifiers; each name that was not the first with its identifier is noted once,
  with the first; and names that were met are not noted again.**
-/

namespace Bindery.Text

/-- An identifier is its own identifier. -/
theorem identifierOf_eq_self {name : String} (h : isIdentifier name) :
    identifierOf name = name := by
  have hname : isName name.toList := h
  unfold identifierOf identifierChars
  rw [if_pos hname, String.ofList_toList]

namespace Mangler

variable {m : Mangler} {name mangled first : String} {names : List String}

/-! ### Meeting one name -/

theorem lookup_cache (h : name ∈ m.seen) : m.cache.lookup name = some (identifierOf name) := by
  cases hlookup : m.cache.lookup name with
  | none =>
    obtain ⟨entry, hentry, rfl⟩ := List.mem_map.mp h
    exact absurd (List.lookup_eq_none_iff.mp hlookup entry hentry) (by simp)
  | some mangled =>
    obtain ⟨before, after, hcache, -⟩ := List.lookup_eq_some_iff.mp hlookup
    have hentry : (name, mangled) ∈ m.cache := by simp [hcache]
    rw [show mangled = identifierOf name from m.cached _ hentry]

theorem lookup_cache_of_notMem (h : name ∉ m.seen) : m.cache.lookup name = none := by
  refine List.lookup_eq_none_iff.mpr fun entry hentry => ?_
  have hne : name ≠ entry.1 := fun he => h (List.mem_map.mpr ⟨entry, hentry, he.symm⟩)
  simpa using hne

/-- A name that has been met changes nothing. -/
theorem mangle_of_mem (h : name ∈ m.seen) : m.mangle name = (identifierOf name, m) := by
  unfold mangle
  rw [lookup_cache h]

theorem add_of_mem (h : name ∈ m.seen) : m.add name = m :=
  congrArg Prod.snd (mangle_of_mem h)

theorem add_of_notMem (h : name ∉ m.seen) :
    m.add name = (m.claim (identifierOf name) name).remember name := by
  unfold add mangle
  rw [lookup_cache_of_notMem h]

/-- A name is given its identifier, be it new or not. -/
theorem mangle_eq (m : Mangler) (name : String) :
    m.mangle name = (identifierOf name, m.add name) := by
  by_cases h : name ∈ m.seen
  · rw [add_of_mem h, mangle_of_mem h]
  · rw [add_of_notMem h, mangle, lookup_cache_of_notMem h]

@[simp]
theorem seen_claim (m : Mangler) (mangled name : String) :
    (m.claim mangled name).seen = m.seen := by
  unfold claim
  split
  · split <;> rfl
  · rfl

@[simp]
theorem seen_remember (m : Mangler) (name : String) :
    (m.remember name).seen = name :: m.seen := rfl

theorem mem_seen_add (m : Mangler) (name : String) : name ∈ (m.add name).seen := by
  by_cases h : name ∈ m.seen
  · rwa [add_of_mem h]
  · simp [add_of_notMem h]

theorem seen_subset_add (m : Mangler) (name : String) : m.seen ⊆ (m.add name).seen := by
  by_cases h : name ∈ m.seen
  · rw [add_of_mem h]
    exact List.Subset.refl _
  · rw [add_of_notMem h, seen_remember, seen_claim]
    exact List.subset_cons_self name m.seen

/-! ### Meeting many names -/

/-- The first of the names that has the identifier. -/
def first? (names : List String) (mangled : String) : Option String :=
  names.find? (identifierOf · == mangled)

/-- The collision of a name with the first of the names that has its identifier. -/
def collisionOf? (names : List String) (name : String) : Option NameCollision :=
  (first? names (identifierOf name)).bind fun first =>
    if first = name then none else some ⟨identifierOf name, first, name⟩

/-- The mangler has met the names, in this order. -/
structure Met (m : Mangler) (names : List String) : Prop where
  seen : ∀ {name}, name ∈ m.seen ↔ name ∈ names
  owner : ∀ mangled, m.owners.lookup mangled = first? names mangled
  collisions : m.collisions = names.eraseDups.filterMap (collisionOf? names)
  count : m.collisions.length + (names.map identifierOf).toFinset.card = names.toFinset.card

theorem mem_of_first? (h : first? names mangled = some first) :
    first ∈ names ∧ identifierOf first = mangled :=
  ⟨List.mem_of_find?_eq_some h, by simpa using List.find?_some h⟩

theorem exists_first? (h : name ∈ names) : ∃ first, first? names (identifierOf name) = some first :=
  Option.isSome_iff_exists.mp (List.find?_isSome.mpr ⟨name, h, beq_self_eq_true _⟩)

theorem first?_concat (names : List String) (name mangled : String) :
    first? (names ++ [name]) mangled =
      (first? names mangled).or (if identifierOf name = mangled then some name else none) := by
  unfold first?
  rw [List.find?_append, List.find?_singleton]
  simp

/-- The names behind a name do not change with what it collides. -/
theorem collisionOf?_concat (h : name ∈ names) (new : String) :
    collisionOf? (names ++ [new]) name = collisionOf? names name := by
  obtain ⟨first, hfirst⟩ := exists_first? h
  unfold collisionOf?
  rw [first?_concat, hfirst, Option.some_or]

/-- The names without repetitions, when one is added. -/
theorem eraseDups_concat (names : List String) (name : String) :
    (names ++ [name]).eraseDups =
      if name ∈ names then names.eraseDups else names.eraseDups ++ [name] := by
  rw [List.eraseDups_append]
  split
  · next h => simp [List.removeAll, h]
  · next h => simp [List.removeAll, h, List.eraseDups_cons]

/-- The collisions are those from before and that of the added name, if it is new. -/
theorem collisions_concat (names : List String) (name : String) :
    (names ++ [name]).eraseDups.filterMap (collisionOf? (names ++ [name])) =
      names.eraseDups.filterMap (collisionOf? names) ++
        if name ∈ names then [] else (collisionOf? (names ++ [name]) name).toList := by
  have hold : names.eraseDups.filterMap (collisionOf? (names ++ [name])) =
      names.eraseDups.filterMap (collisionOf? names) :=
    List.filterMap_congr fun x hx => collisionOf?_concat (List.mem_eraseDups.mp hx) name
  rw [eraseDups_concat]
  split
  · rw [hold, List.append_nil]
  · rw [List.filterMap_append, hold]
    cases hnew : collisionOf? (names ++ [name]) name <;> simp [hnew]

theorem card_concat (h : name ∉ names) :
    (names ++ [name]).toFinset.card = names.toFinset.card + 1 := by
  rw [List.toFinset_append, Finset.card_union_of_disjoint (by simpa using h)]
  rfl

theorem toFinset_map_concat (names : List String) (name : String) :
    ((names ++ [name]).map identifierOf).toFinset =
      insert (identifierOf name) (names.map identifierOf).toFinset := by
  rw [List.map_append, List.toFinset_append, ← Finset.union_singleton]
  rfl

theorem met_empty : Met empty [] where
  seen := Iff.rfl
  owner _ := rfl
  collisions := rfl
  count := rfl

/-- A name that has been met is met again. -/
theorem Met.again (h : m.Met names) (hname : name ∈ names) : m.Met (names ++ [name]) where
  seen {x} := by
    rw [h.seen, List.mem_append, List.mem_singleton]
    exact ⟨.inl, fun hx => hx.elim id fun he => he ▸ hname⟩
  owner mangled := by
    rw [h.owner, first?_concat]
    split
    · next he =>
      obtain ⟨first, hfirst⟩ := exists_first? hname
      rw [← he, hfirst, Option.some_or]
    · rw [Option.or_none]
  collisions := by rw [collisions_concat, if_pos hname, List.append_nil, h.collisions]
  count := by
    have hinputs : (names ++ [name]).toFinset = names.toFinset := by
      simpa [List.toFinset_append] using hname
    have houtput : identifierOf name ∈ (names.map identifierOf).toFinset :=
      List.mem_toFinset.mpr (List.mem_map_of_mem hname)
    rw [hinputs, toFinset_map_concat, Finset.insert_eq_of_mem houtput, h.count]

theorem Met.seen_remember (h : m.Met names) {m' : Mangler} (hseen : m'.seen = m.seen) {x : String} :
    x ∈ (m'.remember name).seen ↔ x ∈ names ++ [name] := by
  rw [Mangler.seen_remember, hseen, List.mem_cons, h.seen, List.mem_append, List.mem_singleton,
    or_comm]

/-- A new name that has the identifier of another one is a collision. -/
theorem Met.collide (h : m.Met names) (hname : name ∉ names)
    (hfirst : first? names (identifierOf name) = some first) :
    ((m.claim (identifierOf name) name).remember name).Met (names ++ [name]) := by
  obtain ⟨hmem, hmangled⟩ := mem_of_first? hfirst
  have hne : first ≠ name := fun he => hname (he ▸ hmem)
  have hclaim : m.claim (identifierOf name) name =
      { m with collisions := m.collisions ++ [⟨identifierOf name, first, name⟩] } := by
    unfold Mangler.claim
    rw [h.owner, hfirst]
    exact if_neg hne
  have hcollision : collisionOf? (names ++ [name]) name =
      some ⟨identifierOf name, first, name⟩ := by
    unfold collisionOf?
    rw [first?_concat, hfirst]
    exact if_neg hne
  have hold : identifierOf name ∈ (names.map identifierOf).toFinset :=
    List.mem_toFinset.mpr (List.mem_map.mpr ⟨first, hmem, hmangled⟩)
  refine ⟨h.seen_remember (seen_claim ..), fun mangled => ?_, ?_, ?_⟩
  · rw [hclaim, first?_concat]
    refine (h.owner mangled).trans ?_
    split
    · next he => rw [← he, hfirst, Option.some_or]
    · rw [Option.or_none]
  · rw [hclaim, collisions_concat, if_neg hname, hcollision, ← h.collisions]
    rfl
  · have hcount := h.count
    rw [hclaim, card_concat hname, toFinset_map_concat, Finset.insert_eq_of_mem hold]
    simp only [remember, List.length_append, List.length_singleton]
    omega

/-- A name whose identifier is new owns it. -/
theorem Met.own (h : m.Met names) (hnone : first? names (identifierOf name) = none) :
    ((m.claim (identifierOf name) name).remember name).Met (names ++ [name]) := by
  have hnew : ∀ x ∈ names, identifierOf x ≠ identifierOf name := by
    intro x hx hmangled
    obtain ⟨first, hfirst⟩ := exists_first? hx
    rw [hmangled, hnone] at hfirst
    cases hfirst
  have hname : name ∉ names := fun hmem => hnew name hmem rfl
  have hclaim : m.claim (identifierOf name) name =
      { m with owners := m.owners ++ [(identifierOf name, name)] } := by
    unfold Mangler.claim
    rw [h.owner, hnone]
  have hcollision : collisionOf? (names ++ [name]) name = none := by
    unfold collisionOf?
    rw [first?_concat, hnone, if_pos rfl]
    exact if_pos rfl
  refine ⟨h.seen_remember (seen_claim ..), fun mangled => ?_, ?_, ?_⟩
  · rw [hclaim, first?_concat, ← h.owner]
    simp only [remember, List.lookup_append, List.lookup_cons, List.lookup_nil]
    congr 1
    by_cases he : identifierOf name = mangled
    · simp [he]
    · simp [he, beq_false_of_ne (Ne.symm he)]
  · rw [hclaim, collisions_concat, if_neg hname, hcollision, ← h.collisions]
    exact (List.append_nil _).symm
  · have hcount := h.count
    rw [hclaim, card_concat hname, toFinset_map_concat,
      Finset.card_insert_of_notMem (by simpa using hnew)]
    simp only [remember]
    omega

/-- Meeting a name, whether it is new or not. -/
theorem Met.add (h : m.Met names) (name : String) : (m.add name).Met (names ++ [name]) := by
  by_cases hname : name ∈ names
  · rw [add_of_mem (h.seen.mpr hname)]
    exact h.again hname
  · rw [add_of_notMem (mt h.seen.mp hname)]
    cases hfirst : first? names (identifierOf name) with
    | some first => exact h.collide hname hfirst
    | none => exact h.own hfirst

/-- Meeting one name after another. -/
theorem Met.foldl_add (h : m.Met names) (more : List String) :
    (more.foldl Mangler.add m).Met (names ++ more) := by
  induction more generalizing m names with
  | nil => simpa using h
  | cons name more ih => simpa using ih (h.add name)

/-! ### A mangler that has met some names -/

/-- The mangler has met some names. -/
def Sound (m : Mangler) : Prop := ∃ names, m.Met names

theorem sound_empty : Sound empty := ⟨[], met_empty⟩

theorem sound_add (h : m.Sound) (name : String) : (m.add name).Sound := by
  obtain ⟨names, hmet⟩ := h
  exact ⟨names ++ [name], hmet.add name⟩

/-- A collision is of a name that was met with the first that has its identifier, another name. -/
theorem Met.mem_collisions (h : m.Met names) {c : NameCollision} : c ∈ m.collisions ↔
    c.second ∈ names ∧ first? names (identifierOf c.second) = some c.first ∧
      c.first ≠ c.second ∧ identifierOf c.second = c.mangled := by
  rw [h.collisions, List.mem_filterMap]
  constructor
  · rintro ⟨name, hname, hcollision⟩
    unfold collisionOf? at hcollision
    obtain ⟨first, hfirst, hcollision⟩ := Option.bind_eq_some_iff.mp hcollision
    split at hcollision
    · cases hcollision
    · next hne =>
      obtain rfl := Option.some.inj hcollision
      exact ⟨List.mem_eraseDups.mp hname, hfirst, hne, rfl⟩
  · rintro ⟨hmem, hfirst, hne, hmangled⟩
    refine ⟨c.second, List.mem_eraseDups.mpr hmem, ?_⟩
    unfold collisionOf?
    rw [hfirst, Option.bind_some, if_neg hne, hmangled]

/-- An identifier is noted exactly if two names that were met have it. -/
theorem Sound.exists_collision_iff (h : m.Sound) : (∃ c ∈ m.collisions, c.mangled = mangled) ↔
    ∃ x ∈ m.seen, ∃ y ∈ m.seen, x ≠ y ∧ identifierOf x = mangled ∧ identifierOf y = mangled := by
  obtain ⟨names, hmet⟩ := h
  constructor
  · rintro ⟨c, hc, rfl⟩
    obtain ⟨hsecond, hfirst, hne, hmangled⟩ := hmet.mem_collisions.mp hc
    obtain ⟨hmem, hsame⟩ := mem_of_first? hfirst
    exact ⟨c.first, hmet.seen.mpr hmem, c.second, hmet.seen.mpr hsecond, hne,
      hsame.trans hmangled, hmangled⟩
  · rintro ⟨x, hx, y, hy, hne, hxm, hym⟩
    -- one of the two names is not the first that has the identifier
    obtain ⟨first, hfirst⟩ := exists_first? (hmet.seen.mp hx)
    have hnoted : ∀ z ∈ m.seen, identifierOf z = mangled → first ≠ z →
        ∃ c ∈ m.collisions, c.mangled = mangled := fun z hz hzm hzf =>
      ⟨⟨mangled, first, z⟩,
        hmet.mem_collisions.mpr ⟨hmet.seen.mp hz, by rw [hzm, ← hxm, hfirst], hzf, hzm⟩, rfl⟩
    by_cases hxf : first = x
    · exact hnoted y hy hym (hxf ▸ hne)
    · exact hnoted x hx hxm hxf

/-! ### The identifiers of many names -/

/-- The identifiers of the names in turn, and the mangler that has met the names. -/
def mangleAll (m : Mangler) : List String → List String × Mangler
  | [] => ([], m)
  | name :: names =>
    let (mangled, m) := m.mangle name
    let (rest, m) := m.mangleAll names
    (mangled :: rest, m)

theorem mangleAll_eq (m : Mangler) (names : List String) :
    m.mangleAll names = (names.map identifierOf, names.foldl add m) := by
  induction names generalizing m with
  | nil => rfl
  | cons name names ih =>
    unfold mangleAll
    rw [mangle_eq]
    dsimp only
    rw [ih]
    rfl

/-- A name is noted at most once. -/
theorem Met.nodup_collisions (h : m.Met names) : m.collisions.Nodup := by
  rw [h.collisions]
  refine (nodup_eraseDups names).filterMap fun x y c hx hy => ?_
  have hsecond : ∀ z, c ∈ collisionOf? names z → c.second = z := by
    intro z hz
    obtain ⟨first, -, hcollision⟩ := Option.bind_eq_some_iff.mp hz
    split at hcollision
    · cases hcollision
    · rw [← Option.some.inj hcollision]
  rw [← hsecond x hx, hsecond y hy]

/-- The collisions of a name: none if it is the first with its identifier, and one otherwise. -/
theorem Met.filter_collisions (h : m.Met names) (hname : name ∈ names)
    (hfirst : first? names (identifierOf name) = some first) :
    m.collisions.filter (·.second == name) =
      if first = name then [] else [⟨identifierOf name, first, name⟩] := by
  have honly : ∀ c, c ∈ m.collisions.filter (·.second == name) ↔
      first ≠ name ∧ c = ⟨identifierOf name, first, name⟩ := by
    intro c
    rw [List.mem_filter, beq_iff_eq, h.mem_collisions]
    constructor
    · rintro ⟨⟨-, hsome, hne, hmangled⟩, rfl⟩
      obtain rfl := Option.some.inj (hfirst.symm.trans hsome)
      exact ⟨hne, by rw [hmangled]⟩
    · rintro ⟨hne, rfl⟩
      exact ⟨⟨hname, hfirst, hne, rfl⟩, rfl⟩
  split
  · next he => exact List.eq_nil_iff_forall_not_mem.mpr fun c hc => ((honly c).mp hc).1 he
  · next hne =>
    refine List.perm_singleton.mp
      ((List.perm_ext_iff_of_nodup (h.nodup_collisions.filter _) (List.nodup_singleton _)).mpr ?_)
    intro c
    rw [honly, List.mem_singleton]
    exact and_iff_right hne

/-- **Each name is given its identifier; the collisions are as many as there are names more than
identifiers; each name that was not the first with its identifier is noted once, with the first;
and names that were met are not noted again.** -/
theorem mangleAll_exact (names : List String) :
    let (mangled, m) := mangleAll empty names
    mangled = names.map identifierOf ∧
      m.collisions.length + mangled.toFinset.card = names.toFinset.card ∧
      (∀ name ∈ names, ∃ first, names.find? (identifierOf · == identifierOf name) = some first ∧
        m.collisions.filter (·.second == name) =
          if first = name then [] else [⟨identifierOf name, first, name⟩]) ∧
      (∀ c ∈ m.collisions, c.second ∈ names) ∧
      ∀ name ∈ names, m.mangle name = (identifierOf name, m) := by
  rw [mangleAll_eq]
  have hmet : (names.foldl add empty).Met names := met_empty.foldl_add names
  refine ⟨rfl, hmet.count, fun name hname => ?_, fun c hc => (hmet.mem_collisions.mp hc).1,
    fun name hname => mangle_of_mem (hmet.seen.mpr hname)⟩
  obtain ⟨first, hfirst⟩ := exists_first? hname
  exact ⟨first, hfirst, hmet.filter_collisions hname hfirst⟩

end Mangler

end Bindery.Text
