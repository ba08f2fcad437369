import Bindery.Decl.Config
import Bindery.Decl.Graph
import Bindery.Options

/-!
# Manifests

A manifest names a module, says where its declarations are, and decides about single declarations.

## Main definitions

* `DeclOverride` — the decisions about the declarations of one name.
* `Manifest` — the options of the module with all these decisions.
* `Manifest.hasOverride` — there are decisions about a name.
-/

namespace Bindery

/-- The decisions about the declarations of one name; what is absent stays as it is. -/
structure DeclOverride where
  ignore : Option Bool := none
  pythonName : Option String := none
  callPolicy : Option CallPolicy := none
  createWithSignature : Option Bool := none
  alwaysExposeUsingScope : Option Bool := none
  useKeywords : Option Bool := none
  useDefaultArguments : Option Bool := none
  documentation : Option String := none
  transformers : Option (List TransformerSpec) := none
  exportValues : Option (List String) := none
  /-- Added to the aliases of enumerators that the declaration has. -/
  valueAliases : Option (NameMap String) := none
  noncopyable : Option Bool := none
  /-- Added behind the text that the declaration has. -/
  code : Option (List String) := none
  /-- Added behind the text that the declaration has. -/
  wrapperCode : Option (List String) := none
  deriving DecidableEq, Repr, Inhabited

/-- The decisions of a user about a module and its declarations. -/
structure Manifest where
  module : ModuleOptions
  /-- The decisions about declarations by full name; the leading colons may be missing. -/
  decls : NameMap DeclOverride := []
  deriving Repr, Inhabited

namespace Manifest

/-- There are decisions about a name, which may be written with the leading colons or without. -/
def hasOverride (m : Manifest) (name : String) : Bool :=
  let names := m.decls.names
  let other :=
    if name.startsWith "::" then String.ofList (name.toList.drop 2) else "::" ++ name
  names.contains name || names.contains other

end Manifest

end Bindery
