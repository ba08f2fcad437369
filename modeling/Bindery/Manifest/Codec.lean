import Bindery.Decl.Codec
import Bindery.Manifest.Basic
import Bindery.Toml.Reader

/-!
# The written form of manifests

A manifest is a TOML document.  Unknown keys are refused.

## Main definitions

* `Manifest.read?` — the manifest that a text holds.
* `DeclOverride.toJson` — the value of a table with the same decisions.
-/

namespace Bindery

/-- The fields of a table in which no other fields may stand.  An array holds the values of the
fields in their order, and what stands behind them does not count. -/
def tableRecord? (names : List String) : Json → Option Json.Record
  | .arr items => some ⟨names.zip items⟩
  | j => Json.strictRecord? names j

/-- The value of a field, if it is there. -/
def Json.Record.present {α : Type} (r : Json.Record) (name : String) (value : Json.Decoder α) :
    Option (Option α) :=
  match r.get? name with
  | some j => (value j).map some
  | none => some none

/-- Reads a call policy: its name, or a table with the name as its only key and nothing under it. -/
def CallPolicy.ofToml? : Json.Decoder CallPolicy
  | .str name | .obj [(name, .obj [])] | .obj [(name, .arr [])] => ofTag? name
  | _ => none

namespace DeclOverride

/-- Reads decisions from their fields. -/
def ofRecord? (r : Json.Record) : Option DeclOverride := do
  return {
    ignore := ← r.present "ignore" Json.bool?
    pythonName := ← r.present "alias" Json.str?
    callPolicy := ← r.present "call_policy" CallPolicy.ofToml?
    createWithSignature := ← r.present "create_with_signature" Json.bool?
    alwaysExposeUsingScope := ← r.present "always_expose_using_scope" Json.bool?
    useKeywords := ← r.present "use_keywords" Json.bool?
    useDefaultArguments := ← r.present "use_default_arguments" Json.bool?
    documentation := ← r.present "documentation" Json.str?
    transformers := ← r.present "transformers" (Json.listOf? TransformerSpec.ofJson?)
    exportValues := ← r.present "export_values" (Json.listOf? Json.str?)
    valueAliases := (← r.present "value_aliases" Json.pairs?).map NameMap.ofList
    noncopyable := ← r.present "noncopyable" Json.bool?
    code := ← r.present "code" (Json.listOf? Json.str?)
    wrapperCode := ← r.present "wrapper_code" (Json.listOf? Json.str?) }

/-- A field with a value, if there is one. -/
def presentField {α : Type} (name : String) (f : α → Json) (v : Option α) : List (String × Json) :=
  (v.map fun a => (name, f a)).toList

/-- The value of a table with the decisions, without what is absent. -/
def toJson (o : DeclOverride) : Json :=
  .obj <| List.flatten [
    presentField "ignore" .bool o.ignore,
    presentField "alias" .str o.pythonName,
    presentField "call_policy" (fun p => .str p.tag) o.callPolicy,
    presentField "create_with_signature" .bool o.createWithSignature,
    presentField "always_expose_using_scope" .bool o.alwaysExposeUsingScope,
    presentField "use_keywords" .bool o.useKeywords,
    presentField "use_default_arguments" .bool o.useDefaultArguments,
    presentField "documentation" .str o.documentation,
    presentField "transformers" (Json.ofList TransformerSpec.toJson) o.transformers,
    presentField "export_values" .strs o.exportValues,
    presentField "value_aliases" (fun m => .obj (m.map fun a => (a.1, .str a.2))) o.valueAliases,
    presentField "noncopyable" .bool o.noncopyable,
    presentField "code" .strs o.code,
    presentField "wrapper_code" .strs o.wrapperCode]

/-- Reads decisions; an array has to hold all of them. -/
def ofToml? : Json.Decoder DeclOverride := fun j => do
  let r ← tableRecord? ExportConfig.fieldNames j
  match j with
  | .arr items => if items.length < ExportConfig.fieldNames.length then none else ofRecord? r
  | _ => ofRecord? r

end DeclOverride

namespace Manifest

/-- Reads the decisions about all declarations. -/
def overrides? : Json.Decoder (NameMap DeclOverride)
  | .obj fields => do
    return NameMap.ofList (← fields.mapM fun f => (DeclOverride.ofToml? f.2).map (f.1, ·))
  | _ => none

/-- Reads a manifest from the value of a document. -/
def ofToml? : Json.Decoder Manifest := fun j => do
  let r ← Json.strictRecord? ["module", "decls"] j
  let module ← r.required "module" fun j =>
    (tableRecord? ModuleOptions.fieldNames j).bind ModuleOptions.ofRecord?
  return { module, decls := ← r.withDefault "decls" overrides? [] }

/-- The manifest that a text holds. -/
def read? (text : String) : Option Manifest := (Toml.read? text).bind ofToml?

end Manifest

end Bindery
