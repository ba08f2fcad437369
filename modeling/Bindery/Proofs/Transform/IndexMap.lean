import Bindery.Proofs.Transform.Ranges
import Mathlib.Data.List.Induction

/-!
# Edits in place

An edit changes a state in several steps, and each step that goes to a place of a list needs that
place to be there.  In every state that calls of edits lead to, whatever their arguments are and
whether they succeed or not, the index map leads each native parameter that has a place to its own
name among what the override passes, and in ascending order.  So no step goes to a place that is not
there, and a call that is refused is refused before its first change.

## Main definitions

* `InPlace` — steps that change a state in place and may stop halfway.
* `Call` — a call of an edit; `Call.inPlace` are its steps and `Call.apply` is what it does.
* `Indexed c s` — the index map of a state of the function `c` is right.

## Main results

* `Indexed.removeArg`, `Indexed.insertArg`, `Indexed.apply` — edits keep the index map right.
* `InRange.run_inPlace` — where all places are in range, the steps of a call do what it does.
* `indexed_calls` — **behind any calls the index map is right, and the next call finds all places
  and changes nothing if it is refused.**
-/

namespace Bindery.TransformState

/-! ### Steps -/

/-- Why the steps of an edit stop. -/
inductive Stop
  /-- The edit is not possible. -/
  | refused (e : TransformError)
  /-- A list has no such place. -/
  | outOfBounds
  deriving DecidableEq, Repr

/-- Steps that change a state in place.  Where they stop, the changes made by then remain. -/
abbrev InPlace (α : Type) := EStateM Stop TransformState α

namespace InPlace

variable {α : Type}

/-- The entry at a place. -/
def entry (l : List α) (place : Nat) : InPlace α :=
  match l[place]? with
  | some a => pure a
  | none => throw .outOfBounds

/-- The list with another entry at a place. -/
def replaced (l : List α) (place : Nat) (a : α) : InPlace (List α) :=
  if place < l.length then pure (l.set place a) else throw .outOfBounds

/-- The list without the entry at a place. -/
def erased (l : List α) (place : Nat) : InPlace (List α) :=
  if place < l.length then pure (l.eraseIdx place) else throw .outOfBounds

/-- The list with one more entry at a place, which may be the one behind the last. -/
def inserted (l : List α) (place : Nat) (a : α) : InPlace (List α) :=
  if place ≤ l.length then pure (l.insertIdx place a) else throw .outOfBounds

/-- The list from a place on. -/
def following (l : List α) (place : Nat) : InPlace (List α) :=
  if place ≤ l.length then pure (l.drop place) else throw .outOfBounds

/-- Edits are still possible. -/
def checkOpen : InPlace Unit := do
  let s ← get
  if s.isFrozen then throw (.refused (.frozen s.function))

/-- The native parameter of the given number. -/
def arg (index : Nat) : InPlace Param := do
  let s ← get
  if index = 0 ∨ s.nativeArgs.length < index then
    throw (.refused (.outOfRange s.function index s.nativeArgs.length))
  else entry s.nativeArgs (index - 1)

/-- Takes the native result out of the exposed results. -/
def dropResult : InPlace Unit := do
  let s ← get
  match s.resultVar with
  | none => pure ()
  | some name =>
    modify fun s => { s with resultVar := none }
    modify fun s => { s with results := s.results.filter (·.expr ≠ name) }

/-- Takes a native parameter out of both lists, at its place in the index map. -/
def removePlaced (native place : Nat) : InPlace Unit := do
  modify fun s => { s with exposed := s.exposed.filter (·.1 ≠ native) }
  let params ← erased (← get).overrideParams place
  modify fun s => { s with overrideParams := params }
  let map ← replaced (← get).argIndexMap native none
  modify fun s => { s with argIndexMap := map.map (closeGap place) }

/-- Takes a native parameter, or the native result, out of both lists. -/
def removeArg (index : Nat) : InPlace Unit := do
  checkOpen
  if index = 0 then dropResult
  else
    let _ ← arg index
    match ← entry (← get).argIndexMap (index - 1) with
    | none => throw (.refused (.alreadyRemoved (← get).function index))
    | some place => removePlaced (index - 1) place

/-- Puts a parameter in front of the first exposed one of a later native parameter, and an
expression at the least place that the index map has for a later one. -/
def insertPlaced (native : Nat) (param : Param) (expr : String) : InPlace Unit := do
  let s ← get
  let exposed ← inserted s.exposed (s.exposed.findIdx (native < ·.1)) (native, param)
  modify fun s => { s with exposed }
  let later ← following (← get).argIndexMap (native + 1)
  let place := (later.filterMap id).min?.getD (← get).overrideParams.length
  let params ← inserted (← get).overrideParams place expr
  modify fun s => { s with overrideParams := params }
  modify fun s => { s with argIndexMap := s.argIndexMap.map (openGap place) }

/-- Puts a parameter and an expression into both lists where a native parameter belongs. -/
def insertArg (index : Nat) (param : Param) (expr : String) : InPlace Unit := do
  checkOpen
  let _ ← arg index
  insertPlaced (index - 1) param expr

/-- Replaces what the exposed function passes for a native parameter. -/
def setCallParam (index : Nat) (expr : String) : InPlace Unit := do
  checkOpen
  let _ ← arg index
  let params ← replaced (← get).callParams (index - 1) expr
  modify fun s => { s with callParams := params }

/-- Adds a value to the result of the exposed function. -/
def addResult (expr : String) (type : CppType) : InPlace Unit := do
  checkOpen
  modify fun s => { s with results := s.results ++ [{ expr, type }] }

/-- Notes that a Python override returns a value for a native parameter. -/
def addVirtualResult (index : Nat) : InPlace Unit := do
  checkOpen
  let p ← arg index
  modify fun s => { s with virtualResults := s.virtualResults ++ [.arg p.name] }

end InPlace

/-- A call of an edit. -/
inductive Call
  | removeArg (index : Nat)
  | insertArg (index : Nat) (param : Param) (expr : String)
  | setCallParam (index : Nat) (expr : String)
  | addResult (expr : String) (type : CppType)
  | addVirtualResult (index : Nat)
  | declareLocal (side : Side) (name : String) (type : CppType) (size : Option Nat)
      (initializer : Option String)
  deriving DecidableEq, Repr

namespace Call

/-- What the call does with a state. -/
def apply (s : TransformState) : Call → Except TransformError TransformState
  | removeArg index => s.removeArg index
  | insertArg index param expr => s.insertArg index param expr
  | setCallParam index expr => s.setCallParam index expr
  | addResult expr type => s.addResult expr type
  | addVirtualResult index => s.addVirtualResult index
  | declareLocal side name type size initializer =>
    .ok (s.declareLocal side name type size initializer).2

/-- The steps of the call. -/
def inPlace : Call → InPlace Unit
  | removeArg index => InPlace.removeArg index
  | insertArg index param expr => InPlace.insertArg index param expr
  | setCallParam index expr => InPlace.setCallParam index expr
  | addResult expr type => InPlace.addResult expr type
  | addVirtualResult index => InPlace.addVirtualResult index
  | declareLocal side name type size initializer =>
    modify fun s => (s.declareLocal side name type size initializer).2

/-- The state that the steps of the call leave behind, also where they stop. -/
def after (s : TransformState) (call : Call) : TransformState :=
  match call.inPlace.run s with
  | .ok _ t | .error _ t => t

end Call

/-! ### Steps that find their places -/

/-- A call that succeeds leaves its state behind, and a call that is refused the state that it
found. -/
def outcome (s : TransformState) : Except TransformError TransformState →
    EStateM.Result Stop TransformState Unit
  | .ok t => .ok () t
  | .error e => .error (.refused e) s

variable {s t : TransformState} {c : Callable} {k index : Nat}

namespace InPlace

@[simp] theorem run_throw (stop : Stop) (s : TransformState) {α : Type} :
    (throw stop : InPlace α).run s = .error stop s := rfl

theorem run_checkOpen (s : TransformState) : checkOpen.run s =
    match s.checkOpen with
    | .ok _ => .ok () s
    | .error e => .error (.refused e) s := by
  unfold checkOpen TransformState.checkOpen
  cases hfrozen : s.isFrozen <;> simp [hfrozen]

theorem run_arg (s : TransformState) (index : Nat) : (arg index).run s =
    match s.arg index with
    | .ok p => .ok p s
    | .error e => .error (.refused e) s := by
  unfold arg TransformState.arg
  cases index with
  | zero => simp
  | succ native =>
    change (if native + 1 = 0 ∨ s.nativeArgs.length < native + 1 then throw _
      else entry s.nativeArgs native : InPlace Param).run s = _
    by_cases hlt : native < s.nativeArgs.length
    · rw [if_neg (by omega)]
      simp [entry, hlt]
    · rw [if_pos (by omega)]
      simp [hlt]

theorem run_dropResult (s : TransformState) : dropResult.run s = .ok () s.dropResult := by
  unfold dropResult TransformState.dropResult
  cases hresult : s.resultVar <;> simp [hresult]

/-- The place of a native parameter is found, and so is all that is taken out. -/
theorem run_removePlaced {place : Nat} (hplace : place < s.overrideParams.length)
    (hnative : k < s.argIndexMap.length) : (removePlaced k place).run s =
      .ok () { s with
        exposed := s.exposed.filter (·.1 ≠ k)
        overrideParams := s.overrideParams.eraseIdx place
        argIndexMap := (s.argIndexMap.set k none).map (closeGap place) } := by
  simp [removePlaced, erased, replaced, hplace, hnative]

theorem insertIdx_findIdx {α : Type} (p : α → Bool) (l : List α) (a : α) :
    l.insertIdx (l.findIdx p) a = l.takeWhile (!p ·) ++ a :: l.dropWhile (!p ·) := by
  have hsplit : l.take (l.findIdx p) ++ l.drop (l.findIdx p) = l := List.take_append_drop ..
  have hins := insertIdx_append a (l.take (l.findIdx p)) (l.drop (l.findIdx p))
  rw [hsplit, List.length_take_of_le List.findIdx_le_length] at hins
  rw [hins, List.takeWhile_eq_take_findIdx_not, List.dropWhile_eq_drop_findIdx_not]
  simp

/-- The place for an expression is found, and so is that for a parameter. -/
theorem run_insertPlaced (param : Param) (expr : String) (hnative : k < s.argIndexMap.length)
    (hplace : s.overridePlace k ≤ s.overrideParams.length) : (insertPlaced k param expr).run s =
      .ok () { s with
        exposed := s.exposed.takeWhile (·.1 ≤ k) ++ (k, param) :: s.exposed.dropWhile (·.1 ≤ k)
        overrideParams := s.overrideParams.insertIdx (s.overridePlace k) expr
        argIndexMap := s.argIndexMap.map (openGap (s.overridePlace k)) } := by
  have hexposed : inserted s.exposed (s.exposed.findIdx (k < ·.1)) (k, param) =
      pure (s.exposed.takeWhile (·.1 ≤ k) ++ (k, param) :: s.exposed.dropWhile (·.1 ≤ k)) := by
    have hnot : (fun e : Nat × Param => !decide (k < e.1)) = fun e => decide (e.1 ≤ k) := by
      simp [← decide_not]
    rw [inserted, if_pos List.findIdx_le_length, insertIdx_findIdx, hnot]
  have hlater : following s.argIndexMap (k + 1) = pure (s.argIndexMap.drop (k + 1)) :=
    if_pos (Nat.succ_le_of_lt hnative)
  have hparams : inserted s.overrideParams (s.overridePlace k) expr =
      pure (s.overrideParams.insertIdx (s.overridePlace k) expr) := if_pos hplace
  simp only [insertPlaced, EStateM.run_bind, EStateM.run_get, EStateM.run_modify, EStateM.run_pure,
    hexposed, hlater]
  rw [← overridePlace, hparams]
  rfl

end InPlace

/-- A native parameter that is there has an entry in the index map. -/
theorem InRange.exists_entry (h : s.InRange) {p : Param} (harg : s.arg (k + 1) = .ok p) :
    k < s.argIndexMap.length ∧ k < s.callParams.length := by
  obtain ⟨native, hk, hp⟩ := arg_eq_ok.mp harg
  obtain rfl : k = native := Nat.succ.inj hk
  have hlt := (List.getElem?_eq_some_iff.mp hp).1
  exact ⟨h.places ▸ hlt, h.callParams ▸ hlt⟩

theorem InRange.run_removeArg (h : s.InRange) (index : Nat) :
    (InPlace.removeArg index).run s = outcome s (s.removeArg index) := by
  unfold InPlace.removeArg TransformState.removeArg
  rw [EStateM.run_bind, InPlace.run_checkOpen]
  cases s.checkOpen with
  | error e => rfl
  | ok =>
    cases index with
    | zero => exact InPlace.run_dropResult s
    | succ k =>
      dsimp only
      rw [if_neg (Nat.succ_ne_zero k), EStateM.run_bind, InPlace.run_arg]
      cases harg : s.arg (k + 1) with
      | error e => rfl
      | ok p =>
        obtain ⟨hk, -⟩ := h.exists_entry harg
        have hentry : s.argIndexMap[k]? = some s.argIndexMap[k] := List.getElem?_eq_getElem hk
        dsimp only
        rw [EStateM.run_bind, EStateM.run_get]
        dsimp only
        rw [EStateM.run_bind, InPlace.entry, Nat.add_sub_cancel, hentry]
        cases hplace : s.argIndexMap[k] with
        | none => rfl
        | some place =>
          have hlt := h.removal place (hplace ▸ List.getElem_mem hk)
          exact InPlace.run_removePlaced hlt hk

theorem InRange.run_insertArg (h : s.InRange) (index : Nat) (param : Param) (expr : String) :
    (InPlace.insertArg index param expr).run s = outcome s (s.insertArg index param expr) := by
  unfold InPlace.insertArg TransformState.insertArg
  rw [EStateM.run_bind, InPlace.run_checkOpen]
  cases s.checkOpen with
  | error e => rfl
  | ok =>
    dsimp only
    rw [EStateM.run_bind, InPlace.run_arg]
    cases harg : s.arg index with
    | error e => rfl
    | ok p =>
      obtain ⟨k, rfl, -⟩ := arg_eq_ok.mp harg
      refine (InPlace.run_insertPlaced param expr (h.exists_entry harg).1 (h.insertion k)).trans ?_
      simp only [List.span_eq_takeWhile_dropWhile]
      rfl

theorem InRange.run_setCallParam (h : s.InRange) (index : Nat) (expr : String) :
    (InPlace.setCallParam index expr).run s = outcome s (s.setCallParam index expr) := by
  unfold InPlace.setCallParam TransformState.setCallParam
  rw [EStateM.run_bind, InPlace.run_checkOpen]
  cases s.checkOpen with
  | error e => rfl
  | ok =>
    dsimp only
    rw [EStateM.run_bind, InPlace.run_arg]
    cases harg : s.arg index with
    | error e => rfl
    | ok p =>
      obtain ⟨k, rfl, -⟩ := arg_eq_ok.mp harg
      have hreplaced : InPlace.replaced s.callParams k expr = pure (s.callParams.set k expr) :=
        if_pos (h.exists_entry harg).2
      simp only [EStateM.run_bind, EStateM.run_get, Nat.add_sub_cancel, hreplaced]
      rfl

theorem run_addResult (s : TransformState) (expr : String) (type : CppType) :
    (InPlace.addResult expr type).run s = outcome s (s.addResult expr type) := by
  unfold InPlace.addResult TransformState.addResult
  rw [EStateM.run_bind, InPlace.run_checkOpen]
  cases s.checkOpen <;> rfl

theorem run_addVirtualResult (s : TransformState) (index : Nat) :
    (InPlace.addVirtualResult index).run s = outcome s (s.addVirtualResult index) := by
  unfold InPlace.addVirtualResult TransformState.addVirtualResult
  rw [EStateM.run_bind, InPlace.run_checkOpen]
  cases s.checkOpen with
  | error e => rfl
  | ok =>
    dsimp only
    rw [EStateM.run_bind, InPlace.run_arg]
    cases s.arg index <;> rfl

/-- **Where all places are in range, the steps of a call do what the call does.** -/
theorem InRange.run_inPlace (h : s.InRange) (call : Call) :
    call.inPlace.run s = outcome s (call.apply s) := by
  cases call with
  | removeArg index => exact h.run_removeArg index
  | insertArg index param expr => exact h.run_insertArg index param expr
  | setCallParam index expr => exact h.run_setCallParam index expr
  | addResult expr type => exact run_addResult s expr type
  | addVirtualResult index => exact run_addVirtualResult s index
  | declareLocal => rfl

/-! ### The index map -/

/-- The index map of a state of the function leads native parameters to their own names, in
ascending order. -/
structure Indexed (c : Callable) (s : TransformState) : Prop where
  nativeArgs : s.nativeArgs = paramsOf c
  callParams : s.callParams.length = s.nativeArgs.length
  places : s.argIndexMap.length = s.nativeArgs.length
  ascending : ∀ i j p q : Nat, i < j → s.argIndexMap[i]? = some (some p) →
    s.argIndexMap[j]? = some (some q) → p < q
  lt : ∀ i p : Nat, s.argIndexMap[i]? = some (some p) → p < s.overrideParams.length
  named : ∀ i p : Nat, s.argIndexMap[i]? = some (some p) →
    ∃ a, s.nativeArgs[i]? = some a ∧ s.overrideParams[p]? = some a.name

theorem sameParams_removeArg_zero (h : s.removeArg 0 = .ok t) : SameParams s t := by
  simp only [TransformState.removeArg, Except.bind_eq_ok, Except.pure_eq_ok] at h
  obtain ⟨-, -, rfl⟩ := h
  unfold dropResult
  split <;> exact ⟨rfl, rfl, rfl, rfl, rfl⟩

theorem insertArg_zero (param : Param) (expr : String) : s.insertArg 0 param expr ≠ .ok t := by
  intro h
  simp only [TransformState.insertArg, Except.bind_eq_ok] at h
  obtain ⟨-, -, p, hp, -⟩ := h
  cases hp

namespace Indexed

theorem inRange (h : Indexed c s) : s.InRange := by
  have hremoval : ∀ place, some place ∈ s.argIndexMap → place < s.overrideParams.length := by
    intro place hplace
    obtain ⟨i, hi⟩ := List.mem_iff_getElem?.mp hplace
    exact h.lt i place hi
  exact ⟨h.places, h.callParams, hremoval, overridePlace_le hremoval⟩

/-- Two native parameters do not have the same place. -/
theorem ne_place (h : Indexed c s) {i j p q : Nat} (hij : i ≠ j)
    (hp : s.argIndexMap[i]? = some (some p)) (hq : s.argIndexMap[j]? = some (some q)) : p ≠ q := by
  rcases Nat.lt_or_gt_of_ne hij with hlt | hlt
  · exact Nat.ne_of_lt (h.ascending i j p q hlt hp hq)
  · exact Nat.ne_of_gt (h.ascending j i q p hlt hq hp)

theorem congr (h : Indexed c s) (hst : SameParams s t) : Indexed c t where
  nativeArgs := hst.nativeArgs.trans h.nativeArgs
  callParams := by rw [hst.callParams, hst.nativeArgs, h.callParams]
  places := hst.places h.places
  ascending := hst.argIndexMap ▸ h.ascending
  lt := by
    rw [hst.argIndexMap, hst.overrideParams]
    exact h.lt
  named := by
    rw [hst.argIndexMap, hst.overrideParams, hst.nativeArgs]
    exact h.named

/-- The places behind a removed one move up, and so do the names that they lead to. -/
theorem removeArg (h : Indexed c s) (hr : s.removeArg (k + 1) = .ok t) : Indexed c t := by
  have hplaces := places_removeArg h.places hr
  obtain ⟨place, hplace, rfl⟩ := removeArg_ok hr
  have hlt := h.lt k place hplace
  have hname : ∀ i p : Nat, ((s.argIndexMap.set k none).map (closeGap place))[i]? = some (some p) →
      ∃ a, s.nativeArgs[i]? = some a ∧ (s.overrideParams.eraseIdx place)[p]? = some a.name := by
    intro i p hp
    obtain ⟨hi, e, he, rfl⟩ := getElem?_closeGap.mp hp
    have hne := h.ne_place hi he hplace
    obtain ⟨a, ha, hname⟩ := h.named i e he
    refine ⟨a, ha, ?_⟩
    rw [List.getElem?_eraseIdx]
    by_cases hbehind : place < e
    · rw [if_pos hbehind, if_neg (by omega), Nat.sub_add_cancel (by omega), hname]
    · rw [if_neg hbehind, if_pos (by omega), hname]
  refine ⟨h.nativeArgs, h.callParams, hplaces, fun i j p q hij hp hq => ?_, fun i p hp => ?_, hname⟩
  · obtain ⟨hi, e, he, rfl⟩ := getElem?_closeGap.mp hp
    obtain ⟨hj, f, hf, rfl⟩ := getElem?_closeGap.mp hq
    have hef := h.ascending i j e f hij he hf
    -- neither of the two is at the place that closes
    have hne := h.ne_place hi he hplace
    have hne' := h.ne_place hj hf hplace
    split <;> split <;> omega
  · obtain ⟨a, -, hp⟩ := hname i p hp
    exact (List.getElem?_eq_some_iff.mp hp).1

/-- The places from an inserted one on move down, and so do the names that they lead to, wherever
the place is. -/
theorem insertArg (h : Indexed c s) {param : Param} {expr : String}
    (hi : s.insertArg (k + 1) param expr = .ok t) : Indexed c t := by
  have hplaces := places_insertArg h.places hi
  rw [insertArg_ok hi] at hplaces ⊢
  generalize s.overridePlace k = place
  have hname : ∀ i p : Nat, (s.argIndexMap.map (openGap place))[i]? = some (some p) →
      ∃ a, s.nativeArgs[i]? = some a ∧
        (s.overrideParams.insertIdx place expr)[p]? = some a.name := by
    intro i p hp
    obtain ⟨e, he, rfl⟩ := getElem?_openGap.mp hp
    obtain ⟨a, ha, hname⟩ := h.named i e he
    refine ⟨a, ha, ?_⟩
    rw [List.getElem?_insertIdx]
    by_cases hbehind : place ≤ e
    · rw [if_pos hbehind, if_neg (by omega), if_neg (by omega), Nat.add_sub_cancel, hname]
    · rw [if_neg hbehind, if_pos (by omega), hname]
  refine ⟨h.nativeArgs, h.callParams, ?_, fun i j p q hij hp hq => ?_, fun i p hp => ?_, hname⟩
  · simpa using hplaces
  · obtain ⟨e, he, rfl⟩ := getElem?_openGap.mp hp
    obtain ⟨f, hf, rfl⟩ := getElem?_openGap.mp hq
    have hef := h.ascending i j e f hij he hf
    split <;> split <;> omega
  · obtain ⟨a, -, hp⟩ := hname i p hp
    exact (List.getElem?_eq_some_iff.mp hp).1

/-- **An edit keeps the index map right.** -/
theorem apply (h : Indexed c s) {call : Call} (hok : call.apply s = .ok t) : Indexed c t := by
  cases call with
  | removeArg index =>
    cases index with
    | zero => exact h.congr (sameParams_removeArg_zero hok)
    | succ k => exact h.removeArg hok
  | insertArg index param expr =>
    cases index with
    | zero => exact absurd hok (insertArg_zero param expr)
    | succ k => exact h.insertArg hok
  | setCallParam index expr => exact h.congr (sameParams_setCallParam hok)
  | addResult expr type => exact h.congr (sameParams_addResult hok)
  | addVirtualResult index => exact h.congr (sameParams_addVirtualResult hok)
  | declareLocal side name type size initializer =>
    cases hok
    exact h.congr (sameParams_declareLocal s side name type size initializer)

theorem ofCallable (function : String) (c : Callable) : Indexed c (ofCallable function c) := by
  have hplace : ∀ i p : Nat, (signatureOf function c).argIndexMap[i]? = some (some p) →
      p = i ∧ i < (paramsOf c).length := by
    intro i p h
    have h : ((paramsOf c).mapIdx fun i _ => some i)[i]? = some (some p) := h
    rw [List.getElem?_mapIdx] at h
    obtain ⟨a, ha, heq⟩ := Option.map_eq_some_iff.mp h
    exact ⟨(Option.some.inj heq).symm, (List.getElem?_eq_some_iff.mp ha).1⟩
  have hsignature : Indexed c (signatureOf function c) := by
    refine ⟨rfl, List.length_map .., List.length_mapIdx, fun i j p q hij hp hq => ?_,
      fun i p hp => ?_, fun i p hp => ?_⟩
    · rwa [(hplace i p hp).1, (hplace j q hq).1]
    · obtain ⟨rfl, hlt⟩ := hplace i p hp
      rwa [signatureOf, List.length_map]
    · obtain ⟨rfl, hlt⟩ := hplace i p hp
      exact ⟨(paramsOf c)[p], List.getElem?_eq_getElem hlt, by simp [signatureOf, hlt]⟩
  exact hsignature.congr (sameParams_ofCallable function c)

/-- As long as edits are possible, a removal of a native parameter that is there is refused only if
it has lost its place. -/
theorem getElem?_of_refused (h : Indexed c s) (hopen : s.isFrozen = false)
    (hk : k < c.args.length) {e : TransformError} (hr : s.removeArg (k + 1) = .error e) :
    s.argIndexMap[k]? = some none := by
  have hcheck : s.checkOpen = .ok () := by simp [checkOpen, hopen]
  have hlt : k < s.nativeArgs.length := by rwa [h.nativeArgs, length_paramsOf]
  have harg : s.arg (k + 1) = .ok s.nativeArgs[k] :=
    arg_eq_ok.mpr ⟨k, rfl, List.getElem?_eq_getElem hlt⟩
  have hplaces : k < s.argIndexMap.length := h.places ▸ hlt
  have hentry : s.argIndexMap[k]? = some s.argIndexMap[k] := List.getElem?_eq_getElem hplaces
  rw [hentry]
  cases hplace : s.argIndexMap[k] with
  | none => rfl
  | some place =>
    rw [hplace] at hentry
    simp only [TransformState.removeArg, hcheck, harg, hentry] at hr
    cases hr

end Indexed

/-! ### Runs of calls -/

/-- A call that succeeds takes the place of a native parameter away exactly if it removes it. -/
theorem getElem?_apply {call : Call} (hok : call.apply s = .ok t) (i : Nat) :
    t.argIndexMap[i]? = some none ↔
      s.argIndexMap[i]? = some none ∨ call = .removeArg (i + 1) := by
  cases call with
  | removeArg index =>
    cases index with
    | zero => simp [(sameParams_removeArg_zero hok).argIndexMap]
    | succ k =>
      obtain ⟨place, hplace, rfl⟩ := removeArg_ok hok
      have hlt := (List.getElem?_eq_some_iff.mp hplace).1
      by_cases hik : i = k
      · subst hik
        simp [hlt, closeGap]
      · rw [List.getElem?_map, List.getElem?_set_ne (Ne.symm hik)]
        simp [closeGap, Ne.symm hik]
  | insertArg index param expr =>
    cases index with
    | zero => exact absurd hok (insertArg_zero param expr)
    | succ k => simp [insertArg_ok hok, openGap]
  | setCallParam index expr => simp [(sameParams_setCallParam hok).argIndexMap]
  | addResult expr type => simp [(sameParams_addResult hok).argIndexMap]
  | addVirtualResult index => simp [(sameParams_addVirtualResult hok).argIndexMap]
  | declareLocal side name type size initializer =>
    cases hok
    simp [(sameParams_declareLocal s side name type size initializer).argIndexMap]

theorem isFrozen_apply {call : Call} (hok : call.apply s = .ok t) : t.isFrozen = s.isFrozen := by
  cases call with
  | removeArg index =>
    cases index with
    | zero =>
      simp only [Call.apply, removeArg, Except.bind_eq_ok, Except.pure_eq_ok] at hok
      obtain ⟨-, -, rfl⟩ := hok
      unfold dropResult
      split <;> rfl
    | succ k =>
      obtain ⟨place, -, rfl⟩ := removeArg_ok hok
      rfl
  | insertArg index param expr =>
    simp only [Call.apply, insertArg, Except.bind_eq_ok, Except.pure_eq_ok] at hok
    obtain ⟨-, -, p, -, rfl⟩ := hok
    rfl
  | setCallParam index expr =>
    simp only [Call.apply, setCallParam, Except.bind_eq_ok, Except.pure_eq_ok] at hok
    obtain ⟨-, -, p, -, rfl⟩ := hok
    rfl
  | addResult expr type =>
    simp only [Call.apply, addResult, Except.bind_eq_ok, Except.pure_eq_ok] at hok
    obtain ⟨-, -, rfl⟩ := hok
    rfl
  | addVirtualResult index =>
    simp only [Call.apply, addVirtualResult, Except.bind_eq_ok, Except.pure_eq_ok] at hok
    obtain ⟨-, -, p, -, rfl⟩ := hok
    rfl
  | declareLocal side =>
    cases hok
    cases side <;> rfl

theorem InRange.after_eq (h : s.InRange) (call : Call) :
    call.after s = (call.apply s).toOption.getD s := by
  unfold Call.after
  rw [h.run_inPlace]
  cases call.apply s <;> rfl

/-- The state behind some calls: its index map is right, and the native parameters without a place
are those that a call has removed. -/
structure Behind (c : Callable) (calls : List Call) (s : TransformState) : Prop where
  indexed : Indexed c s
  unfrozen : s.isFrozen = false
  removed : ∀ i : Nat, s.argIndexMap[i]? = some none ↔
    i < c.args.length ∧ .removeArg (i + 1) ∈ calls

theorem behind_ofCallable (function : String) (c : Callable) :
    Behind c [] (ofCallable function c) where
  indexed := .ofCallable function c
  unfrozen := by
    unfold ofCallable
    dsimp only
    split <;> rfl
  removed i := by
    rw [(sameParams_ofCallable function c).argIndexMap]
    simp [signatureOf]

/-- One more call, which may be refused. -/
theorem Behind.after {calls : List Call} (h : Behind c calls s) (call : Call) :
    Behind c (calls ++ [call]) (call.after s) := by
  rw [h.indexed.inRange.after_eq]
  cases hcall : call.apply s with
  | ok t =>
    refine ⟨h.indexed.apply hcall, (isFrozen_apply hcall).trans h.unfrozen, fun i => ?_⟩
    show t.argIndexMap[i]? = some none ↔ _
    rw [getElem?_apply hcall, h.removed, List.mem_append, List.mem_singleton]
    have hlt : call = .removeArg (i + 1) → i < c.args.length := by
      rintro rfl
      obtain ⟨place, hplace, -⟩ := removeArg_ok hcall
      have hi := (List.getElem?_eq_some_iff.mp hplace).1
      rwa [h.indexed.places, h.indexed.nativeArgs, length_paramsOf] at hi
    rw [eq_comm (b := call)]
    tauto
  | error e =>
    refine ⟨h.indexed, h.unfrozen, fun i => ?_⟩
    show s.argIndexMap[i]? = some none ↔ _
    rw [h.removed, List.mem_append, List.mem_singleton]
    refine ⟨fun ⟨hi, hmem⟩ => ⟨hi, .inl hmem⟩, ?_⟩
    rintro ⟨hi, hmem | rfl⟩
    · exact ⟨hi, hmem⟩
    · exact (h.removed i).mp (h.indexed.getElem?_of_refused h.unfrozen hi hcall)

/-- **Behind any calls, with any arguments and whether they succeed or not, the index map is
right:** it leads each native parameter that no call has removed to its own name among what the
override passes, in ascending order.  The next call finds all places that its steps go to; if it is
refused, it leaves the state as it was. -/
theorem indexed_calls (function : String) (c : Callable) (calls : List Call) :
    let s := calls.foldl Call.after (ofCallable function c)
    Indexed c s ∧
      (∀ i : Nat, s.argIndexMap[i]? = some none ↔
        i < c.args.length ∧ .removeArg (i + 1) ∈ calls) ∧
      ∀ call : Call, call.inPlace.run s =
        match call.apply s with
        | .ok t => .ok () t
        | .error e => .error (.refused e) s := by
  have hrun : Behind c calls (calls.foldl Call.after (ofCallable function c)) := by
    -- the last call comes behind the others
    induction calls using List.reverseRecOn with
    | nil => exact behind_ofCallable function c
    | append_singleton calls call ih =>
      rw [List.foldl_append]
      exact ih.after call
  refine ⟨hrun.indexed, hrun.removed, fun call => ?_⟩
  rw [hrun.indexed.inRange.run_inPlace]
  cases call.apply _ <;> rfl

/-- A parameter that is put in though nothing has been taken out comes behind the one that it
belongs to. -/
example :
    let c : Callable :=
      { kind := .freeFunction,
        args := [{ name := "a", type := .fundamental .int },
          { name := "b", type := .fundamental .int }] }
    let s := (Call.insertArg 1 ⟨"x", .fundamental .int, none⟩ "x").after (ofCallable "::f" c)
    s.overrideParams = ["a", "x", "b"] ∧ s.argIndexMap = [some 0, some 2] := by decide

end Bindery.TransformState
