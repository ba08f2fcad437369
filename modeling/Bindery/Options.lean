import Bindery.Json.Decode

/-!
# Options of a module

## Main definitions

* `ModuleOptions` — what a user decides about a module as a whole.
* `ModuleOptions.toJson`, `ModuleOptions.ofJson?` — the JSON form.
-/

namespace Bindery

/-- The decisions of a user about the module as a whole. -/
structure ModuleOptions where
  /-- The name of the extension module. -/
  name : String := ""
  /-- The file with the declaration graph, relative to the manifest. -/
  declarations : Option String := none
  /-- The file the module is written to. -/
  output : Option String := none
  /-- The alias of the namespace of the binding library; no alias if it is empty. -/
  bindingNamespace : String := "bp"
  /-- The largest number of arguments a bound function can have. -/
  maxArity : Nat := 10
  indexingSuiteVersion : Nat := 1
  alwaysExposeUsingScope : Bool := false
  /-- Let constructors with one argument convert values silently. -/
  createCastingConstructor : Bool := false
  license : Option String := none
  /-- The headers to include; if there are none, those that hold the declarations. -/
  includes : List String := []
  deriving DecidableEq, Repr, Inhabited

namespace ModuleOptions

/-- The file the module is written to: by default it is named for the module. -/
def outputFile (o : ModuleOptions) : String := o.output.getD (o.name ++ ".cpp")

/-- The JSON form of the options. -/
def toJson (o : ModuleOptions) : Json :=
  .obj
    [("name", .str o.name),
     ("declarations", .ofOption .str o.declarations),
     ("output", .ofOption .str o.output),
     ("boost_python_ns", .str o.bindingNamespace),
     ("max_arity", .nat o.maxArity),
     ("indexing_suite_version", .nat o.indexingSuiteVersion),
     ("always_expose_using_scope", .bool o.alwaysExposeUsingScope),
     ("create_casting_constructor", .bool o.createCastingConstructor),
     ("license", .ofOption .str o.license),
     ("includes", .strs o.includes)]

/-- The names of the options, in their order. -/
def fieldNames : List String :=
  ["name", "declarations", "output", "boost_python_ns", "max_arity", "indexing_suite_version",
   "always_expose_using_scope", "create_casting_constructor", "license", "includes"]

/-- Reads options from their fields. -/
def ofRecord? (r : Json.Record) : Option ModuleOptions := do
  return {
    name := ← r.withDefault "name" Json.str? ""
    declarations := ← r.optional "declarations" Json.str?
    output := ← r.optional "output" Json.str?
    bindingNamespace := ← r.withDefault "boost_python_ns" Json.str? "bp"
    maxArity := ← r.withDefault "max_arity" Json.word64? 10
    indexingSuiteVersion := ← r.withDefault "indexing_suite_version" (Json.natBelow? 256) 1
    alwaysExposeUsingScope := ← r.flag "always_expose_using_scope"
    createCastingConstructor := ← r.flag "create_casting_constructor"
    license := ← r.optional "license" Json.str?
    includes := ← r.list "includes" Json.str? }

/-- Reads options; unknown ones are refused. -/
def ofJson? : Json.Decoder ModuleOptions := fun j =>
  (Json.strictRecord? fieldNames j).bind ofRecord?

end ModuleOptions

end Bindery
