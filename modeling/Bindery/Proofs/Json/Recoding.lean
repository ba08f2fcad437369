import Bindery.Json.Decode
import Bindery.Proofs.Json.Nesting
import Bindery.Proofs.Json.ReadBack

/-!
# Writing what was decoded

A decoder may take several trees for one value, but the value is written in one way.  Whatever tree
of a certain depth a value was decoded from, what is written is no deeper, and is decoded as the
same value again.

## Main definitions

* `Json.Written n read write a` — what is written of `a` is decoded as `a` and at most `n` deep.
* `Json.Recodes n read write` — so it is for all values decoded from trees that are at most `n` deep.

## Main results

* `recodes_str`, `recodes_natBelow`, `recodes_listOf`, `recodes_nullable` and their neighbours —
  plain values.
* `record?_eq_some`, `Record.AtMost` — the fields of a record on the way out and in.
-/

namespace Bindery.Json

variable {α : Type} {n : Nat} {j : Json} {read : Decoder α} {write : α → Json} {a default : α}
  {name : String} {names : List String} {r : Record}

/-- What is written of a value is decoded as the value, and is nested at most `n` deep. -/
structure Written (n : Nat) (read : Decoder α) (write : α → Json) (a : α) : Prop where
  read_write : read (write a) = some a
  writable : Writable n (write a)

/-- Values decoded from trees that are nested at most `n` deep are written in such trees. -/
def Recodes (n : Nat) (read : Decoder α) (write : α → Json) : Prop :=
  ∀ {j : Json} {a : α}, j.depth ≤ n → read j = some a → Written n read write a

/-- What can be read back has no invalid part. -/
theorem Writable.isValid (h : Writable n j) : j.isValid := by
  have hitems : ∀ {items : List Json}, (∀ j ∈ items, j.isValid) → areValid items := by
    intro items h
    induction items with
    | nil => rfl
    | cons j items ih =>
      obtain ⟨hj, hitems⟩ := List.forall_mem_cons.mp h
      simp [areValid, hj, ih hitems]
  have hfields : ∀ {fields : List (String × Json)}, (∀ f ∈ fields, f.2.isValid) →
      areValidFields fields := by
    intro fields h
    induction fields with
    | nil => rfl
    | cons f fields ih =>
      obtain ⟨hf, hfields⟩ := List.forall_mem_cons.mp h
      simp [areValidFields, hf, ih hfields]
  induction h with
  | null => rfl
  | bool => rfl
  | int => rfl
  | str => rfl
  | arr _ ih => exact hitems ih
  | obj _ ih => exact hfields ih

/-! ### Plain values -/

theorem recodes_bool : Recodes n bool? .bool := fun _ h => by
  unfold bool? at h
  split at h
  · obtain rfl := Option.some.inj h
    exact ⟨rfl, .bool⟩
  · cases h

theorem recodes_str : Recodes n str? .str := fun _ h => by
  unfold str? at h
  split at h
  · obtain rfl := Option.some.inj h
    exact ⟨rfl, .str⟩
  · cases h

theorem recodes_natBelow {bound : Nat} (hbound : bound ≤ UInt64.size) :
    Recodes n (natBelow? bound) .nat := fun _ h => by
  unfold natBelow? at h
  split at h
  · next m =>
    split at h
    · next hlt =>
      obtain rfl := Option.some.inj h
      exact ⟨if_pos hlt, .int (hlt.trans_le hbound)⟩
    · cases h
  · cases h

theorem recodes_word32 : Recodes n word32? .nat := recodes_natBelow (by decide)

theorem recodes_word64 : Recodes n word64? .nat := recodes_natBelow (Nat.le_refl _)

theorem recodes_int64 : Recodes n int64? .int := fun _ h => by
  unfold int64? intBetween? at h
  split at h
  · split at h
    · next hbetween =>
      obtain rfl := Option.some.inj h
      refine ⟨if_pos hbetween, .int ?_⟩
      show _ < 18446744073709551616
      omega
    · cases h
  · cases h

/-- A name that tells a value from all others is written for it. -/
theorem recodes_variant {setting : Setting} {text : α → String} {all : List α}
    (hall : ∀ a, all.find? (fun b => text b == text a) = some a) :
    Recodes n (fun j => (variant? setting j).bind fun s => all.find? fun a => text a == s)
      fun a => .str (text a) :=
  fun _ _ => ⟨hall _, .str⟩

theorem mapM_map_eq_some : ∀ {l : List α}, (∀ a ∈ l, read (write a) = some a) →
    (l.map write).mapM read = some l
  | [], _ => rfl
  | a :: l, h => by
    obtain ⟨ha, hl⟩ := List.forall_mem_cons.mp h
    rw [List.map_cons, List.mapM_cons, ha, mapM_map_eq_some hl]
    rfl

theorem forall_of_mapM_eq_some {f : Json → Option α} {p : α → Prop} :
    ∀ {items : List Json} {l : List α}, items.mapM f = some l →
      (∀ j ∈ items, ∀ a, f j = some a → p a) → ∀ a ∈ l, p a
  | [], l, h, _ => by
    rw [List.mapM_nil] at h
    obtain rfl := Option.some.inj h
    exact fun a ha => nomatch ha
  | j :: items, l, h, hp => by
    rw [List.mapM_cons] at h
    obtain ⟨a, ha, h⟩ := Option.bind_eq_some_iff.mp h
    obtain ⟨l', hl', h⟩ := Option.bind_eq_some_iff.mp h
    obtain rfl := Option.some.inj h
    obtain ⟨hj, hitems⟩ := List.forall_mem_cons.mp hp
    exact List.forall_mem_cons.mpr ⟨hj a ha, forall_of_mapM_eq_some hl' hitems⟩

theorem written_listOf {l : List α} (h : ∀ a ∈ l, Written n read write a) :
    Written (n + 1) (listOf? read) (ofList write) l := by
  refine ⟨mapM_map_eq_some fun a ha => (h a ha).read_write, .arr fun j hj => ?_⟩
  obtain ⟨a, ha, rfl⟩ := List.mem_map.mp hj
  exact (h a ha).writable

theorem recodes_listOf (h : Recodes n read write) :
    Recodes (n + 1) (listOf? read) (ofList write) := fun {j l} hj hl => by
  unfold listOf? at hl
  split at hl
  · next items =>
    obtain ⟨-, hitems⟩ := depth_arr_le.mp hj
    exact written_listOf (forall_of_mapM_eq_some hl fun j hj a ha => h (hitems j hj) ha)
  · cases hl

/-- What is not written as `null` may as well be left out. -/
theorem recodes_nullable (h : Recodes n read write) (hnull : ∀ a, write a ≠ .null) :
    Recodes n (nullable? read) (ofOption write) := fun {j a} hj ha => by
  unfold nullable? at ha
  split at ha
  · obtain rfl := Option.some.inj ha
    exact ⟨rfl, .null⟩
  · obtain ⟨b, hb, rfl⟩ := Option.map_eq_some_iff.mp ha
    have hwritten := h hj hb
    refine ⟨?_, hwritten.writable⟩
    show nullable? read (write b) = _
    unfold nullable?
    split
    · next heq => exact absurd heq (hnull b)
    · rw [hwritten.read_write]
      rfl

/-! ### Records -/

/-- The fields of a record are nested at most `n` deep. -/
def Record.AtMost (r : Record) (n : Nat) : Prop := ∀ f ∈ r.fields, f.2.depth ≤ n

theorem atMost_of_record? (h : record? names j = some r) (hj : j.depth ≤ n + 1) : r.AtMost n := by
  unfold record? at h
  split at h
  · dsimp only at h
    split at h
    · obtain rfl := Option.some.inj h
      obtain ⟨-, hfields⟩ := depth_obj_le.mp hj
      exact fun f hf => hfields f (List.mem_of_mem_filter hf)
    · cases h
  · split at h
    · obtain rfl := Option.some.inj h
      obtain ⟨-, hitems⟩ := depth_arr_le.mp hj
      exact fun f hf => hitems f.2 (List.of_mem_zip hf).2
    · cases h
  · cases h

theorem Record.AtMost.get? (h : r.AtMost n) (hj : r.get? name = some j) : j.depth ≤ n := by
  obtain ⟨front, back, heq, -⟩ := List.lookup_eq_some_iff.mp hj
  exact h (name, j) (heq ▸ List.mem_append_right front List.mem_cons_self)

section fields

variable (hr : r.AtMost n) (h : Recodes n read write)
include hr h

theorem written_of_required (ha : r.required name read = some a) : Written n read write a := by
  obtain ⟨j, hj, ha⟩ := Option.bind_eq_some_iff.mp ha
  exact h (hr.get? hj) ha

/-- A value that is left out is written as its default, which is to be decoded again. -/
theorem written_of_withDefault (hdefault : Written n read write default)
    (ha : r.withDefault name read default = some a) : Written n read write a := by
  unfold Record.withDefault at ha
  split at ha
  · next hj => exact h (hr.get? hj) ha
  · exact Option.some.inj ha ▸ hdefault

theorem written_of_optional {o : Option α} (hnull : ∀ a, write a ≠ .null)
    (ho : r.optional name read = some o) : Written n (nullable? read) (ofOption write) o :=
  written_of_withDefault hr (recodes_nullable h hnull) ⟨rfl, .null⟩ ho

end fields

theorem written_of_list {l : List α} (hr : r.AtMost (n + 1)) (h : Recodes n read write)
    (hl : r.list name read = some l) : Written (n + 1) (listOf? read) (ofList write) l :=
  written_of_withDefault hr (recodes_listOf h)
    (written_listOf (l := []) fun _ ha => absurd ha List.not_mem_nil) hl

theorem written_of_flag {b : Bool} (hr : r.AtMost n) (hb : r.flag name = some b) :
    Written n bool? .bool b :=
  written_of_withDefault hr recodes_bool ⟨rfl, .bool⟩ hb

/-- An object whose fields include those that the decoder knows, in their order. -/
theorem record?_obj {fields known : List (String × Json)}
    (hknown : fields.filter (fun f => names.contains f.1) = known) (hnames : known.map (·.1) = names)
    (hnodup : names.Nodup) : record? names (.obj fields) = some ⟨known⟩ := by
  unfold record?
  dsimp only
  rw [hknown, if_pos (hnames ▸ hnodup)]

/-- An object with just the fields that the decoder knows, in their order. -/
theorem record?_self {fields : List (String × Json)} (hnames : fields.map (·.1) = names)
    (hnodup : names.Nodup) : record? names (.obj fields) = some ⟨fields⟩ := by
  refine record?_obj (List.filter_eq_self.mpr fun f hf => ?_) hnames hnodup
  rw [List.contains_iff_mem, ← hnames]
  exact List.mem_map_of_mem hf

section written

variable (hget : r.get? name = some (write a)) (h : Written n read write a)
include hget h

theorem required_eq_some : r.required name read = some a := by
  rw [Record.required, hget, Option.bind_some, h.read_write]

theorem withDefault_eq_some : r.withDefault name read default = some a := by
  rw [Record.withDefault, hget]
  exact h.read_write

end written

theorem optional_eq_some {o : Option α} (hget : r.get? name = some (ofOption write o))
    (h : Written n (nullable? read) (ofOption write) o) : r.optional name read = some o :=
  withDefault_eq_some hget h

theorem list_eq_some {l : List α} (hget : r.get? name = some (ofList write l))
    (h : Written n (listOf? read) (ofList write) l) : r.list name read = some l :=
  withDefault_eq_some hget h

theorem flag_eq_some {b : Bool} (hget : r.get? name = some (.bool b)) : r.flag name = some b := by
  rw [Record.flag, Record.withDefault, hget]
  rfl

/-- A record of one field. -/
theorem written_single {get : Record → Option α} (hw : Writable n (write a))
    (hget : ∀ r : Record, r.get? name = some (write a) → get r = some a) :
    Written (n + 1) (fun j => (record? [name] j).bind get) (fun a => .obj [(name, write a)]) a where
  read_write := by
    have hrecord : record? [name] (.obj [(name, write a)]) = some ⟨[(name, write a)]⟩ :=
      record?_self rfl (by simp)
    rw [hrecord, Option.bind_some]
    exact hget _ List.lookup_cons_self
  writable := .obj (List.forall_mem_singleton.mpr hw)

/-- The fields of an object, and one that tells what the object is. -/
theorem tagged?_eq_some {tag : String} {t rest : Json} (h : tagged? tag j = some (t, rest))
    (hj : j.depth ≤ n + 1) : t.depth ≤ n ∧ rest.depth ≤ n + 1 := by
  unfold tagged? at h
  split at h
  · next fields =>
    obtain ⟨-, hfields⟩ := depth_obj_le.mp hj
    split at h
    · next f hf =>
      obtain ⟨rfl, rfl⟩ := Prod.mk.inj (Option.some.inj h)
      have hmem : f ∈ fields := List.mem_of_mem_filter (hf ▸ List.mem_singleton.mpr rfl)
      exact ⟨hfields f hmem,
        depth_obj_le.mpr ⟨Nat.succ_pos n, fun g hg => hfields g (List.mem_of_mem_filter hg)⟩⟩
    · cases h
  · obtain ⟨rfl, rfl⟩ := Prod.mk.inj (Option.some.inj h)
    obtain ⟨-, hitems⟩ := depth_arr_le.mp hj
    obtain ⟨ht, hitems⟩ := List.forall_mem_cons.mp hitems
    exact ⟨ht, depth_arr_le.mpr ⟨Nat.succ_pos n, hitems⟩⟩
  · cases h

/-- The field that tells what an object is stands in front of the others. -/
theorem tagged?_cons {tag : String} {t : Json} {fields : List (String × Json)}
    (h : ∀ f ∈ fields, f.1 ≠ tag) :
    tagged? tag (.obj ((tag, t) :: fields)) = some (t, .obj fields) := by
  have htag : fields.filter (·.1 == tag) = [] :=
    List.filter_eq_nil_iff.mpr fun f hf => by simp [h f hf]
  have hrest : fields.filter (·.1 != tag) = fields :=
    List.filter_eq_self.mpr fun f hf => by simp [h f hf]
  simp [tagged?, htag, hrest]

end Bindery.Json
