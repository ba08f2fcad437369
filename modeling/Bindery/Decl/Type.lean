/-!
# C++ types

The types of arguments, results and variables, as the front end reports them.  A type refers to
a class or enumeration of the graph by its number, so its spelling needs the graph only through
the full names of declarations; the functions of this module that spell a type take them as an
argument.

## Main definitions

* `Fundamental`, `CppType` — the types.
* `CppType.spelling` — the C++ text of a type.
* `CppType.removeCv`, `CppType.removeReference`, `CppType.pointee?`, `CppType.baseType` — the
  layers of a type.
* `CppType.mentioned` — the declarations a type names, at any depth.
-/

namespace Bindery

/-- The number of a declaration: its place in the graph.  The global namespace is number 0. -/
abbrev DeclId := Nat

/-- The arithmetic types and `void`. -/
inductive Fundamental
  | void | bool | char | signedChar | unsignedChar | wChar | short | unsignedShort
  | int | unsignedInt | long | unsignedLong | longLong | unsignedLongLong
  | float | double | longDouble
  deriving DecidableEq, Repr, Inhabited

namespace Fundamental

/-- The C++ spelling. -/
def spelling : Fundamental → String
  | void => "void"
  | bool => "bool"
  | char => "char"
  | signedChar => "signed char"
  | unsignedChar => "unsigned char"
  | wChar => "wchar_t"
  | short => "short int"
  | unsignedShort => "short unsigned int"
  | int => "int"
  | unsignedInt => "unsigned int"
  | long => "long int"
  | unsignedLong => "long unsigned int"
  | longLong => "long long int"
  | unsignedLongLong => "long long unsigned int"
  | float => "float"
  | double => "double"
  | longDouble => "long double"

/-- Whether the type holds whole numbers: all but `void` and the floating-point types. -/
def isIntegral : Fundamental → Bool
  | void | float | double | longDouble => false
  | _ => true

end Fundamental

/-- A C++ type. -/
inductive CppType
  | fundamental (f : Fundamental)
  /-- A class or enumeration of the graph. -/
  | declared (id : DeclId)
  /-- A type known by its text alone. -/
  | named (name : String)
  | pointer (base : CppType)
  | reference (base : CppType)
  | const (base : CppType)
  | volatile (base : CppType)
  | array (base : CppType) (size : Option Nat)
  | functionPointer (result : CppType) (args : List CppType)
  deriving Repr, Inhabited

namespace CppType

/-! ### Equality -/

mutual

/-- Structural equality of types. -/
def same : CppType → CppType → Bool
  | fundamental f, fundamental g => f == g
  | declared i, declared j => i == j
  | named s, named t => s == t
  | pointer a, pointer b => same a b
  | reference a, reference b => same a b
  | const a, const b => same a b
  | volatile a, volatile b => same a b
  | array a m, array b n => same a b && m == n
  | functionPointer r as, functionPointer s bs => same r s && sameAll as bs
  | _, _ => false

/-- Structural equality of lists of types. -/
def sameAll : List CppType → List CppType → Bool
  | [], [] => true
  | a :: as, b :: bs => same a b && sameAll as bs
  | _, _ => false

end

mutual

theorem same_self : ∀ a : CppType, same a a = true
  | fundamental _ | declared _ | named _ => by simp [same]
  | pointer a | reference a | const a | volatile a => by simp [same, same_self a]
  | array a _ => by simp [same, same_self a]
  | functionPointer r as => by simp [same, same_self r, sameAll_self as]

theorem sameAll_self : ∀ as : List CppType, sameAll as as = true
  | [] => rfl
  | a :: as => by simp [sameAll, same_self a, sameAll_self as]

end

mutual

theorem eq_of_same : ∀ {a b : CppType}, same a b = true → a = b
  | fundamental _, b, h => by cases b <;> simp_all [same]
  | declared _, b, h => by cases b <;> simp_all [same]
  | named _, b, h => by cases b <;> simp_all [same]
  | pointer a, b, h => by
    cases b <;> simp only [same, Bool.false_eq_true] at h
    rw [eq_of_same h]
  | reference a, b, h => by
    cases b <;> simp only [same, Bool.false_eq_true] at h
    rw [eq_of_same h]
  | const a, b, h => by
    cases b <;> simp only [same, Bool.false_eq_true] at h
    rw [eq_of_same h]
  | volatile a, b, h => by
    cases b <;> simp only [same, Bool.false_eq_true] at h
    rw [eq_of_same h]
  | array a m, b, h => by
    cases b <;> simp only [same, Bool.false_eq_true, Bool.and_eq_true, beq_iff_eq] at h
    rw [eq_of_same h.1, h.2]
  | functionPointer r as, b, h => by
    cases b <;> simp only [same, Bool.false_eq_true, Bool.and_eq_true] at h
    rw [eq_of_same h.1, eq_of_sameAll h.2]

theorem eq_of_sameAll : ∀ {as bs : List CppType}, sameAll as bs = true → as = bs
  | [], bs, h => by cases bs <;> simp_all [sameAll]
  | a :: as, bs, h => by
    cases bs <;> simp only [sameAll, Bool.false_eq_true, Bool.and_eq_true] at h
    rw [eq_of_same h.1, eq_of_sameAll h.2]

end

theorem same_iff {a b : CppType} : same a b = true ↔ a = b :=
  ⟨eq_of_same, fun h => h ▸ same_self a⟩

instance : DecidableEq CppType := fun _ _ => decidable_of_iff _ same_iff

/-! ### Spelling -/

/-- The type `void`. -/
def void : CppType := fundamental .void

mutual

/-- The C++ text of a type, given the full names of declarations. -/
def spelling (nameOf : DeclId → String) : CppType → String
  | fundamental f => f.spelling
  | declared id => nameOf id
  | named name => name
  | pointer base => spelling nameOf base ++ " *"
  | reference base => spelling nameOf base ++ " &"
  | const base => spelling nameOf base ++ " const"
  | volatile base => spelling nameOf base ++ " volatile"
  | array base (some n) => spelling nameOf base ++ "[" ++ toString n ++ "]"
  | array base none => spelling nameOf base ++ "[]"
  | functionPointer result args =>
    spelling nameOf result ++ " (*)( " ++ ", ".intercalate (spellings nameOf args) ++ " )"

/-- The C++ texts of a list of types. -/
def spellings (nameOf : DeclId → String) : List CppType → List String
  | [] => []
  | a :: as => spelling nameOf a :: spellings nameOf as

end

/-! ### Layers -/

/-- The type under its outer `const` and `volatile` layers. -/
def removeCv : CppType → CppType
  | const base | volatile base => removeCv base
  | t => t

/-- The type under its outer `const` and `volatile` layers and one reference. -/
def removeReference (t : CppType) : CppType :=
  match t.removeCv with
  | reference base => base
  | other => other

/-- The type under its outer `const` layers. -/
def removeConst : CppType → CppType
  | const base => removeConst base
  | t => t

/-- What a pointer or reference refers to, or an array holds. -/
def pointee? (t : CppType) : Option CppType :=
  match t.removeCv with
  | pointer base | reference base | array base _ => some base
  | _ => none

/-- The innermost type: fundamental, declared, named or a function pointer. -/
def baseType : CppType → CppType
  | pointer base | reference base | const base | volatile base | array base _ => base.baseType
  | t => t

/-- The type and all types under its layers, outermost first. -/
def decompose : CppType → List CppType
  | t@(pointer base) | t@(reference base) | t@(const base) | t@(volatile base)
  | t@(array base _) => t :: base.decompose
  | t => [t]

/-! ### Traits -/

/-- A pointer, under `const` and `volatile`. -/
def isPointer (t : CppType) : Bool := t.removeCv matches pointer _

/-- A reference, under `const` and `volatile`. -/
def isReference (t : CppType) : Bool := t.removeCv matches reference _

/-- An array, under `const` and `volatile`. -/
def isArray (t : CppType) : Bool := t.removeCv matches array _ _

/-- A type whose outermost layer is `const`. -/
def isConst (t : CppType) : Bool := t matches const _

/-- A reference to a type whose outermost layer is `const`. -/
def isConstReference (t : CppType) : Bool :=
  match t.removeCv with
  | reference base => base.isConst
  | _ => false

/-- `void`, under `const` and `volatile`. -/
def isVoid (t : CppType) : Bool := t.removeCv matches fundamental .void

/-- The fundamental type under `const` and `volatile`. -/
def fundamental? (t : CppType) : Option Fundamental :=
  match t.removeCv with
  | fundamental f => some f
  | _ => none

/-- A fundamental type, under `const` and `volatile`. -/
def isFundamental (t : CppType) : Bool := t.fundamental?.isSome

/-- A type with a function pointer under its layers. -/
def hasFunctionPointer (t : CppType) : Bool := t.baseType matches functionPointer _ _

/-- The declaration the type is built on. -/
def declared? (t : CppType) : Option DeclId :=
  match t.baseType with
  | declared id => some id
  | _ => none

/-- A pointer to `void`, both under `const` and `volatile`. -/
def isVoidPointer (t : CppType) : Bool :=
  match t.removeCv with
  | pointer base => base.isVoid
  | _ => false

/-- A pointer to the given fundamental type, which is `const` itself. -/
def isPointerToConst (f : Fundamental) (t : CppType) : Bool :=
  match t.removeCv with
  | pointer base => base.isConst && base.fundamental? == some f
  | _ => false

mutual

/-- The declarations a type names at any depth, the signatures of function pointers included. -/
def mentioned : CppType → List DeclId
  | fundamental _ | named _ => []
  | declared id => [id]
  | pointer base | reference base | const base | volatile base | array base _ => base.mentioned
  | functionPointer result args => result.mentioned ++ mentionedAll args

/-- The declarations a list of types names. -/
def mentionedAll : List CppType → List DeclId
  | [] => []
  | a :: as => a.mentioned ++ mentionedAll as

end

end CppType

end Bindery
