import Bindery.Decl.Graph

/-!
# Types under qualifiers

A type may be `const` and `volatile` several times over, in any order.  The functions that look
through these layers take them off one by one; what they find is said here without that walk.

A type is called `const` if its outermost layer is: `volatile` over `const` is not.

## Main definitions

* `CppType.IsCv core t` — `t` is `core` under `const` and `volatile`.
* `CppType.PointsToConst`, `CppType.PointsToVoid`, `CppType.Refers`, `CppType.RefersToConst` — the
  pointers and references that are told apart.

## Main results

* `CppType.isCv_iff` — taking off the layers leads to the core.
-/

namespace Bindery

namespace CppType

variable {core t u : CppType} {f : Fundamental}

/-- Neither `const` nor `volatile`. -/
def Unqualified : CppType → Prop
  | const _ | volatile _ => False
  | _ => True

/-- The type `t` is the unqualified type `core` under `const` and `volatile` layers. -/
inductive IsCv (core : CppType) : CppType → Prop
  | plain : Unqualified core → IsCv core core
  | const {t : CppType} : IsCv core t → IsCv core (const t)
  | volatile {t : CppType} : IsCv core t → IsCv core (volatile t)

theorem isCv_removeCv : ∀ t : CppType, IsCv t.removeCv t
  | const t => (isCv_removeCv t).const
  | volatile t => (isCv_removeCv t).volatile
  | fundamental _ | declared _ | named _ | pointer _ | reference _ | array _ _
  | functionPointer _ _ => .plain trivial

theorem isCv_iff : IsCv core t ↔ t.removeCv = core := by
  refine ⟨fun h => ?_, fun h => h ▸ isCv_removeCv t⟩
  induction h with
  | plain hcore => cases core <;> first | rfl | exact hcore.elim
  | const _ ih => exact ih
  | volatile _ ih => exact ih

/-- A type has one core. -/
theorem IsCv.core_eq (h : IsCv core t) (hu : IsCv u t) : core = u :=
  (isCv_iff.mp h).symm.trans (isCv_iff.mp hu)

theorem unqualified_removeCv : ∀ t : CppType, Unqualified t.removeCv
  | const t | volatile t => unqualified_removeCv t
  | fundamental _ | declared _ | named _ | pointer _ | reference _ | array _ _
  | functionPointer _ _ => trivial

theorem removeCv_removeCv (t : CppType) : t.removeCv.removeCv = t.removeCv :=
  isCv_iff.mp (.plain (unqualified_removeCv t))

/-! ### Pointers and references -/

/-- A pointer to the given fundamental type, which is `const` itself. -/
def PointsToConst (f : Fundamental) (t : CppType) : Prop :=
  ∃ u, IsCv (pointer (const u)) t ∧ IsCv (fundamental f) u

/-- A pointer to `void`, however qualified. -/
def PointsToVoid (t : CppType) : Prop := ∃ u, IsCv (pointer u) t ∧ IsCv void u

/-- A reference. -/
def Refers (t : CppType) : Prop := ∃ u, IsCv (reference u) t

/-- A reference to a type that is `const` itself. -/
def RefersToConst (t : CppType) : Prop := ∃ u, IsCv (reference (const u)) t

theorem isReference_iff : t.isReference ↔ t.Refers := by
  simp only [Refers, isCv_iff, isReference]
  cases t.removeCv <;> simp

theorem isFundamental_iff : t.isFundamental ↔ ∃ f, IsCv (fundamental f) t := by
  simp only [isCv_iff, isFundamental, fundamental?]
  cases t.removeCv <;> simp

theorem isConst_iff : t.isConst ↔ ∃ u, t = const u := by
  cases t <;> simp [isConst]

theorem isConstReference_iff : t.isConstReference ↔ t.RefersToConst := by
  simp only [RefersToConst, isCv_iff, isConstReference]
  cases t.removeCv <;> simp [isConst_iff]

theorem fundamental?_eq_some_iff : t.fundamental? = some f ↔ IsCv (fundamental f) t := by
  simp only [isCv_iff, fundamental?]
  cases t.removeCv <;> simp

theorem isPointerToConst_iff : t.isPointerToConst f ↔ t.PointsToConst f := by
  simp only [PointsToConst, isCv_iff (t := t), isPointerToConst]
  cases t.removeCv with
  | pointer base =>
    simp only [Bool.and_eq_true, isConst_iff, beq_iff_eq, fundamental?_eq_some_iff,
      pointer.injEq]
    constructor
    · rintro ⟨⟨u, rfl⟩, hu⟩
      cases hu with
      | const hu => exact ⟨u, rfl, hu⟩
    · rintro ⟨u, rfl, hu⟩
      exact ⟨⟨u, rfl⟩, hu.const⟩
  | _ => simp

theorem isVoid_iff : t.isVoid ↔ IsCv void t := by
  simp only [isCv_iff, isVoid, void]
  split
  · next h => simp [h]
  · next h => simpa using h

theorem isVoidPointer_iff : t.isVoidPointer ↔ t.PointsToVoid := by
  simp only [PointsToVoid, isCv_iff (t := t), isVoidPointer, ← isVoid_iff]
  cases t.removeCv <;> simp

theorem removeReference_eq (h : IsCv (reference u) t) : t.removeReference = u := by
  rw [removeReference, isCv_iff.mp h]

theorem removeReference_eq_removeCv (h : ¬ t.Refers) : t.removeReference = t.removeCv := by
  unfold removeReference
  split
  · next hu => exact absurd ⟨_, isCv_iff.mpr hu⟩ h
  · rfl

instance : Decidable t.Refers := decidable_of_iff _ isReference_iff

instance : Decidable t.RefersToConst := decidable_of_iff _ isConstReference_iff

instance : Decidable (t.PointsToConst f) := decidable_of_iff _ isPointerToConst_iff

instance : Decidable t.PointsToVoid := decidable_of_iff _ isVoidPointer_iff

end CppType

theorem DeclGraph.isEnumType_iff {g : DeclGraph} {t : CppType} :
    g.isEnumType t ↔ ∃ id, CppType.IsCv (.declared id) t ∧ g.isEnum id := by
  simp only [CppType.isCv_iff, isEnumType]
  cases t.removeCv <;> simp

end Bindery
