import Bindery.NameMap

/-!
# Export configuration

What a user may decide about a declaration before code is generated: its alias, whether it is
left out, the call policy of a function, the transformations of its arguments, and so on.

## Main definitions

* `CallPolicy` — the ownership rule of a bound function.
* `TransformerSpec` — one requested change of a function's arguments.
* `Exportability` — whether a declaration can be bound at all.
* `ExportConfig` — all decisions about one declaration.
-/

namespace Bindery

/-- The ownership and lifetime rule of a bound function. -/
inductive CallPolicy
  /-- No special handling. -/
  | default
  | returnOpaquePointer
  | copyConstReference
  | copyNonConstReference
  | returnByValue
  | manageNewObject
  | referenceExistingObject
  /-- The result lives as long as the object the function is called on. -/
  | returnInternalReference
  deriving DecidableEq, Repr, Inhabited

namespace CallPolicy

/-- The name under which the binding library knows the policy. -/
def name : CallPolicy → String
  | default => "default_call_policies"
  | returnOpaquePointer => "return_opaque_pointer"
  | copyConstReference => "copy_const_reference"
  | copyNonConstReference => "copy_non_const_reference"
  | returnByValue => "return_by_value"
  | manageNewObject => "manage_new_object"
  | referenceExistingObject => "reference_existing_object"
  | returnInternalReference => "return_internal_reference"

/-- Policies written as the argument of `return_value_policy`. -/
def isReturnValuePolicy : CallPolicy → Bool
  | default | returnInternalReference => false
  | _ => true

/-- The policy that a binding statement may leave out. -/
def isDefault (p : CallPolicy) : Bool := p == default

end CallPolicy

/-- What a transformer does with its argument. -/
inductive TransformerKind
  | output
  | input
  | inout
  | inputArray (size : Nat)
  | outputArray (size : Nat)
  deriving DecidableEq, Repr, Inhabited

/-- A requested change of one argument of a function.  Arguments are counted from 1. -/
structure TransformerSpec where
  kind : TransformerKind
  arg : Nat
  deriving DecidableEq, Repr, Inhabited

/-- The text of a transformer in messages. -/
def TransformerSpec.text : TransformerSpec → String
  | ⟨.output, arg⟩ => s!"output({arg})"
  | ⟨.input, arg⟩ => s!"input({arg})"
  | ⟨.inout, arg⟩ => s!"inout({arg})"
  | ⟨.inputArray size, arg⟩ => s!"input_array({arg}, {size})"
  | ⟨.outputArray size, arg⟩ => s!"output_array({arg}, {size})"

/-- Whether a declaration can be bound at all. -/
inductive Exportability
  | unknown
  | yes
  | no (reason : String)
  deriving DecidableEq, Repr, Inhabited

/-- The declaration can be bound. -/
def Exportability.isExportable : Exportability → Bool
  | yes => true
  | _ => false

/-- The decisions of a user about one declaration. -/
structure ExportConfig where
  /-- Leave the declaration out of the module. -/
  ignore : Bool := false
  /-- The name under which Python sees the declaration. -/
  pythonName : Option String := none
  /-- Takes the place of the policy that the resolver would choose. -/
  callPolicy : Option CallPolicy := none
  /-- Write the type of the function into the binding statement. -/
  createWithSignature : Bool := false
  /-- Register the class in a scope of its own. -/
  alwaysExposeUsingScope : Bool := false
  useKeywords : Bool := true
  useDefaultArguments : Bool := true
  documentation : Option String := none
  transformers : List TransformerSpec := []
  /-- The enumerators that are visible in the scope around the enumeration. -/
  exportValues : List String := []
  /-- Aliases of enumerators. -/
  valueAliases : NameMap String := []
  /-- Takes the place of the computed copyability of a class. -/
  noncopyable : Option Bool := none
  /-- Text appended to the registration of a class. -/
  code : List String := []
  /-- Text appended to the body of a wrapper class. -/
  wrapperCode : List String := []
  deriving DecidableEq, Repr, Inhabited

end Bindery
