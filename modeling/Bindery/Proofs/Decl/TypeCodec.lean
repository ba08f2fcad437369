import Bindery.Decl.Codec
import Bindery.Proofs.Json.Recoding

/-!
# The JSON form of types

Types are read and written layer by layer.

## Main results

* `CppType.recodes` — a type is read again from what is written of it, which is no deeper than what
  it was read from.
-/

namespace Bindery

open Json

variable {n : Nat} {j : Json} {setting : Setting}

theorem Fundamental.recodes : Recodes n (Fundamental.ofJson? setting) fun f => .str f.tag :=
  recodes_variant fun f => by cases f <;> decide

namespace CppType

variable {t : CppType} {name : String} {fields : List (String × Json)}

theorem toJson_ne_null (t : CppType) : t.toJson ≠ .null := by
  cases t <;> exact fun h => by simp [toJson] at h

theorem toJsons_eq_map (ts : List CppType) : toJsons ts = ts.map toJson := by
  induction ts with
  | nil => rfl
  | cons t ts ih => rw [toJsons, ih, List.map_cons]

theorem ofJsons?_eq_mapM : ∀ items : List Json,
    ofJsons? setting items = items.mapM (ofJson? setting)
  | [] => by simp [ofJsons?]
  | j :: items => by
    rw [ofJsons?, ofJsons?_eq_mapM items, List.mapM_cons]

theorem exists_of_typeAt? : ∀ {fields : List (String × Json)},
    typeAt? setting name fields = some t → ∃ f ∈ fields, ofJson? setting f.2 = some t
  | [], h => by simp [typeAt?] at h
  | f :: rest, h => by
    rw [typeAt?] at h
    split at h
    · exact ⟨f, List.mem_cons_self, h⟩
    · obtain ⟨g, hg, h⟩ := exists_of_typeAt? h
      exact ⟨g, List.mem_cons_of_mem f hg, h⟩

theorem exists_of_typesAt? {ts : List CppType} : ∀ {fields : List (String × Json)},
    typesAt? setting name fields = some ts →
      ∃ f ∈ fields, ∃ items, f.2 = .arr items ∧ items.mapM (ofJson? setting) = some ts
  | [], h => by simp [typesAt?] at h
  | (key, j) :: rest, h => by
    by_cases hkey : key == name
    · cases j with
      | arr items =>
        rw [typesAt?, if_pos hkey, ofJsons?_eq_mapM] at h
        exact ⟨_, List.mem_cons_self, items, rfl, h⟩
      | _ => simp [typesAt?, hkey] at h
    · have hrest : typesAt? setting name rest = some ts := by
        cases j <;> simpa [typesAt?, hkey] using h
      obtain ⟨f, hf, h⟩ := exists_of_typesAt? hrest
      exact ⟨f, List.mem_cons_of_mem _ hf, h⟩

theorem typesAt?_behind {other : String} (hne : (other == name) = false) (items : List Json) :
    typesAt? setting name [(other, j), (name, .arr items)] = items.mapM (ofJson? setting) := by
  rw [← ofJsons?_eq_mapM]
  cases j <;> simp [typesAt?, hne]

/-- What the array layer was read from. -/
theorem exists_of_arrayOfJson? (h : arrayOfJson? setting j = some t) (hj : j.depth ≤ n) :
    ∃ m base size, n = m + 1 ∧ t = array base size ∧
      (∃ j : Json, j.depth ≤ m ∧ ofJson? setting j = some base) ∧
      Written m (nullable? word64?) (.ofOption .nat) size := by
  have hsize {m : Nat} : Recodes m (nullable? word64?) (.ofOption .nat) :=
    recodes_nullable recodes_word64 fun _ h => nomatch h
  cases j with
  | obj fields =>
    obtain ⟨hpos, hfields⟩ := depth_obj_le.mp hj
    obtain ⟨m, rfl⟩ : ∃ m, n = m + 1 := ⟨n - 1, by omega⟩
    rw [arrayOfJson?] at h
    simp only [Option.bind_eq_bind, Option.bind_eq_some_iff] at h
    obtain ⟨r, hr, base, hbase, size, hs, h⟩ := h
    obtain ⟨f, hf, hbase⟩ := exists_of_typeAt? hbase
    exact ⟨m, base, size, rfl, (Option.some.inj h).symm, ⟨f.2, hfields f hf, hbase⟩,
      written_of_withDefault (atMost_of_record? hr hj) hsize ⟨rfl, .null⟩ hs⟩
  | arr items =>
    obtain ⟨hpos, hitems⟩ := depth_arr_le.mp hj
    obtain ⟨m, rfl⟩ : ∃ m, n = m + 1 := ⟨n - 1, by omega⟩
    unfold arrayOfJson? at h
    split at h
    · next heq => cases heq
    · next jbase jsize heq =>
      obtain rfl := Json.arr.inj heq
      simp only [Option.bind_eq_bind, Option.bind_eq_some_iff] at h
      obtain ⟨base, hbase, size, hs, h⟩ := h
      exact ⟨m, base, size, rfl, (Option.some.inj h).symm,
        ⟨jbase, hitems jbase (by simp), hbase⟩, hsize (hitems jsize (by simp)) hs⟩
    · cases h
  | _ => simp [arrayOfJson?] at h

/-- What the function pointer layer was read from. -/
theorem exists_of_functionPointerOfJson? (h : functionPointerOfJson? setting j = some t)
    (hj : j.depth ≤ n) : ∃ m result args, n = m + 1 ∧ t = functionPointer result args ∧
      (∃ j : Json, j.depth ≤ m ∧ ofJson? setting j = some result) ∧
      ∃ items, (arr items).depth ≤ m ∧ items.mapM (ofJson? setting) = some args := by
  cases j with
  | obj fields =>
    obtain ⟨hpos, hfields⟩ := depth_obj_le.mp hj
    obtain ⟨m, rfl⟩ : ∃ m, n = m + 1 := ⟨n - 1, by omega⟩
    rw [functionPointerOfJson?] at h
    simp only [Option.bind_eq_bind, Option.bind_eq_some_iff] at h
    obtain ⟨r, hr, result, hresult, args, hargs, h⟩ := h
    obtain ⟨f, hf, hresult⟩ := exists_of_typeAt? hresult
    obtain ⟨g, hg, items, hitems, hargs⟩ := exists_of_typesAt? hargs
    exact ⟨m, result, args, rfl, (Option.some.inj h).symm, ⟨f.2, hfields f hf, hresult⟩, items,
      hitems ▸ hfields g hg, hargs⟩
  | arr items =>
    obtain ⟨hpos, hitems⟩ := depth_arr_le.mp hj
    obtain ⟨m, rfl⟩ : ∃ m, n = m + 1 := ⟨n - 1, by omega⟩
    unfold functionPointerOfJson? at h
    split at h
    · next heq => cases heq
    · next jresult jargs heq =>
      obtain rfl := Json.arr.inj heq
      simp only [Option.bind_eq_bind, Option.bind_eq_some_iff, ofJsons?_eq_mapM] at h
      obtain ⟨result, hresult, args, hargs, h⟩ := h
      exact ⟨m, result, args, rfl, (Option.some.inj h).symm,
        ⟨jresult, hitems jresult (by simp), hresult⟩, jargs, hitems (arr jargs) (by simp), hargs⟩
    · cases h
  | _ => simp [functionPointerOfJson?] at h

/-! ### Layers -/

section layers

variable {result base : CppType} {args : List CppType} {size : Option Nat}

/-- A type of one layer around something that is read and written by itself. -/
theorem written_layer {α : Type} {read : Decoder α} {write : α → Json} {a : α} {layer : String}
    (h : Written n read write a) (htext : toJson t = .obj [(layer, write a)])
    (hread : ∀ j, read j = some a → ofJson? setting (.obj [(layer, j)]) = some t) :
    Written (n + 1) (ofJson? setting) toJson t where
  read_write := htext ▸ hread _ h.read_write
  writable := htext ▸ .obj (List.forall_mem_singleton.mpr h.writable)

theorem written_array (h : Written n (ofJson? setting) toJson base)
    (hs : Written n (nullable? word64?) (.ofOption .nat) size) :
    Written (n + 2) (ofJson? setting) toJson (array base size) where
  read_write := by
    simp [toJson, ofJson?, arrayOfJson?, typeAt?, h.read_write, record?, Record.optional,
      Record.withDefault, Record.get?, List.lookup_cons, hs.read_write]
  writable := by
    rw [toJson]
    refine .obj (List.forall_mem_singleton.mpr (.obj (List.forall_mem_cons.mpr ⟨h.writable, ?_⟩)))
    exact List.forall_mem_singleton.mpr hs.writable

theorem written_functionPointer (h : Written (n + 1) (ofJson? setting) toJson result)
    (hargs : ∀ t ∈ args, Written n (ofJson? setting) toJson t) :
    Written (n + 3) (ofJson? setting) toJson (functionPointer result args) where
  read_write := by
    simp [toJson, ofJson?, functionPointerOfJson?, typeAt?, typesAt?_behind, h.read_write, record?,
      toJsons_eq_map, mapM_map_eq_some fun t ht => (hargs t ht).read_write]
  writable := by
    rw [toJson, toJsons_eq_map]
    refine .obj (List.forall_mem_singleton.mpr (.obj (List.forall_mem_cons.mpr ⟨h.writable, ?_⟩)))
    exact List.forall_mem_singleton.mpr (written_listOf hargs).writable

end layers

/-- **A type is read again from what is written of it**, by induction on the depth of what it was
read from. -/
theorem recodes : ∀ n, Recodes n (ofJson? setting) toJson := by
  intro n
  induction n using Nat.strong_induction_on with
  | _ n ih =>
  intro j t hj h
  unfold ofJson? at h
  split at h
  · next layer j =>
    obtain ⟨hpos, hfield⟩ := depth_obj_le.mp hj
    obtain ⟨n, rfl⟩ : ∃ m, n = m + 1 := ⟨n - 1, by omega⟩
    have hj : j.depth ≤ n := hfield (layer, j) List.mem_cons_self
    have hbase : ∀ {t}, ofJson? setting j = some t → Written n (ofJson? setting) toJson t :=
      fun ht => ih n (Nat.lt_succ_self n) hj ht
    split at h
    · obtain ⟨f, hf, rfl⟩ := Option.map_eq_some_iff.mp h
      exact written_layer (Fundamental.recodes hj hf) (by rw [toJson]) fun j hj => by
        simp [ofJson?, hj]
    split at h
    · obtain ⟨id, hid, rfl⟩ := Option.map_eq_some_iff.mp h
      exact written_layer (recodes_word32 hj hid) (by rw [toJson]) fun j hj => by simp [ofJson?, hj]
    split at h
    · obtain ⟨text, htext, rfl⟩ := Option.map_eq_some_iff.mp h
      exact written_layer (recodes_str hj htext) (by rw [toJson]) fun j hj => by simp [ofJson?, hj]
    split at h
    · obtain ⟨base, hb, rfl⟩ := Option.map_eq_some_iff.mp h
      exact written_layer (hbase hb) (by rw [toJson]) fun j hj => by simp [ofJson?, hj]
    split at h
    · obtain ⟨base, hb, rfl⟩ := Option.map_eq_some_iff.mp h
      exact written_layer (hbase hb) (by rw [toJson]) fun j hj => by simp [ofJson?, hj]
    split at h
    · obtain ⟨base, hb, rfl⟩ := Option.map_eq_some_iff.mp h
      exact written_layer (hbase hb) (by rw [toJson]) fun j hj => by simp [ofJson?, hj]
    split at h
    · obtain ⟨base, hb, rfl⟩ := Option.map_eq_some_iff.mp h
      exact written_layer (hbase hb) (by rw [toJson]) fun j hj => by simp [ofJson?, hj]
    split at h
    · obtain ⟨m, base, size, rfl, rfl, ⟨jbase, hjbase, hb⟩, hs⟩ := exists_of_arrayOfJson? h hj
      exact written_array (ih m (by omega) hjbase hb) hs
    split at h
    · obtain ⟨m, result, args, rfl, rfl, ⟨jresult, hjresult, hr⟩, items, hitems, hargs⟩ :=
        exists_of_functionPointerOfJson? h hj
      obtain ⟨hpos, hitems⟩ := depth_arr_le.mp hitems
      obtain ⟨m, rfl⟩ : ∃ k, m = k + 1 := ⟨m - 1, by omega⟩
      refine written_functionPointer (ih _ (by omega) hjresult hr) ?_
      exact forall_of_mapM_eq_some hargs fun j hj t ht => ih m (by omega) (hitems j hj) ht
    cases h
  · cases h

end CppType

end Bindery
