import Bindery.Manifest.Override
import Bindery.Proofs.NameMap

/-!
# Configurations under several tables of decisions

A table says something about some fields of a configuration and nothing about the others.  Of what
several tables say about a field the last word counts, and a field that none of them mentions keeps
what it says.  Texts are added instead, one behind the other, and so are the aliases of enumerators,
where the last word about each name counts.

## Main definitions

* `lastDecision` — the last word of some tables about a field.
* `addedBy` — what some tables add to a field.
* `ExportConfig.Layered` — what each field of a configuration says under some tables.

## Main results

* `Layered.applyTo` — one more table.
* `layered_foldl` — **tables that are applied one after the other decide field by field.**
-/

namespace Bindery

variable {α : Type} {tables : List DeclOverride} {c c' : ExportConfig} {o : DeclOverride}

/-- The last word of the tables about a field; there is none if no table mentions the field. -/
def lastDecision (tables : List DeclOverride) (field : DeclOverride → Option α) : Option α :=
  (tables.filterMap field).getLast?

/-- What the tables add to a field, one behind the other. -/
def addedBy (tables : List DeclOverride) (field : DeclOverride → Option (List α)) : List α :=
  tables.flatMap fun o => (field o).getD []

/-- A further table has the last word about the fields that it mentions. -/
theorem lastDecision_concat (tables : List DeclOverride) (o : DeclOverride)
    (field : DeclOverride → Option α) :
    lastDecision (tables ++ [o]) field = (field o).or (lastDecision tables field) := by
  unfold lastDecision
  rw [List.filterMap_append, List.getLast?_append]
  cases h : field o with
  | none => rw [List.filterMap_cons_none h, List.filterMap_nil, List.getLast?_nil]
  | some a => rw [List.filterMap_cons_some h, List.filterMap_nil, List.getLast?_singleton]

theorem addedBy_concat (tables : List DeclOverride) (o : DeclOverride)
    (field : DeclOverride → Option (List α)) :
    addedBy (tables ++ [o]) field = addedBy tables field ++ (field o).getD [] := by
  unfold addedBy
  rw [List.flatMap_append, List.flatMap_singleton]

namespace ExportConfig

/-- Under the decisions of the tables, from the first to the last, the configuration `c` becomes
`c'`. -/
structure Layered (c : ExportConfig) (tables : List DeclOverride) (c' : ExportConfig) : Prop where
  ignore : c'.ignore = (lastDecision tables (·.ignore)).getD c.ignore
  pythonName : c'.pythonName = (lastDecision tables (·.pythonName)).or c.pythonName
  callPolicy : c'.callPolicy = (lastDecision tables (·.callPolicy)).or c.callPolicy
  createWithSignature : c'.createWithSignature =
    (lastDecision tables (·.createWithSignature)).getD c.createWithSignature
  alwaysExposeUsingScope : c'.alwaysExposeUsingScope =
    (lastDecision tables (·.alwaysExposeUsingScope)).getD c.alwaysExposeUsingScope
  useKeywords : c'.useKeywords = (lastDecision tables (·.useKeywords)).getD c.useKeywords
  useDefaultArguments : c'.useDefaultArguments =
    (lastDecision tables (·.useDefaultArguments)).getD c.useDefaultArguments
  documentation : c'.documentation = (lastDecision tables (·.documentation)).or c.documentation
  transformers : c'.transformers = (lastDecision tables (·.transformers)).getD c.transformers
  exportValues : c'.exportValues = (lastDecision tables (·.exportValues)).getD c.exportValues
  /-- The last alias that the tables give an enumerator counts. -/
  valueAlias : ∀ name, c'.valueAliases.find? name =
    (NameMap.find? (addedBy tables (·.valueAliases)).reverse name).or (c.valueAliases.find? name)
  ascending : c.valueAliases.Ascending → c'.valueAliases.Ascending
  noncopyable : c'.noncopyable = (lastDecision tables (·.noncopyable)).or c.noncopyable
  code : c'.code = c.code ++ addedBy tables (·.code)
  wrapperCode : c'.wrapperCode = c.wrapperCode ++ addedBy tables (·.wrapperCode)

namespace Layered

/-- Without a table everything stays as it is. -/
theorem nil (c : ExportConfig) : c.Layered [] c where
  ignore := rfl
  pythonName := rfl
  callPolicy := rfl
  createWithSignature := rfl
  alwaysExposeUsingScope := rfl
  useKeywords := rfl
  useDefaultArguments := rfl
  documentation := rfl
  transformers := rfl
  exportValues := rfl
  valueAlias _ := rfl
  ascending := id
  noncopyable := rfl
  code := (List.append_nil c.code).symm
  wrapperCode := (List.append_nil c.wrapperCode).symm

/-- A field that says something in any case keeps what it says unless the table mentions it. -/
private theorem getD_concat {old now : α} {field : DeclOverride → Option α}
    (h : now = (lastDecision tables field).getD old) (o : DeclOverride) :
    (field o).getD now = (lastDecision (tables ++ [o]) field).getD old := by
  rw [lastDecision_concat, h]
  cases field o <;> rfl

/-- So does a field that may say nothing. -/
private theorem or_concat {old now : Option α} {field : DeclOverride → Option α}
    (h : now = (lastDecision tables field).or old) (o : DeclOverride) :
    (field o <|> now) = (lastDecision (tables ++ [o]) field).or old := by
  rw [lastDecision_concat, h]
  cases field o <;> rfl

/-- A text is added behind the others. -/
private theorem append_concat {old now : List α} {field : DeclOverride → Option (List α)}
    (h : now = old ++ addedBy tables field) (o : DeclOverride) :
    now ++ (field o).getD [] = old ++ addedBy (tables ++ [o]) field := by
  rw [addedBy_concat, h, List.append_assoc]

/-- **One more table replaces the fields that it mentions, adds its texts behind those that are
there and its aliases to those that are there, and leaves everything else alone.** -/
theorem applyTo (h : c.Layered tables c') (o : DeclOverride) :
    c.Layered (tables ++ [o]) (o.applyTo c') where
  ignore := getD_concat h.ignore o
  pythonName := or_concat h.pythonName o
  callPolicy := or_concat h.callPolicy o
  createWithSignature := getD_concat h.createWithSignature o
  alwaysExposeUsingScope := getD_concat h.alwaysExposeUsingScope o
  useKeywords := getD_concat h.useKeywords o
  useDefaultArguments := getD_concat h.useDefaultArguments o
  documentation := or_concat h.documentation o
  transformers := getD_concat h.transformers o
  exportValues := getD_concat h.exportValues o
  valueAlias name := by
    have hbehind : NameMap.find? (addedBy (tables ++ [o]) (·.valueAliases)).reverse name =
        (NameMap.find? (o.valueAliases.getD []).reverse name).or
          (NameMap.find? (addedBy tables (·.valueAliases)).reverse name) := by
      rw [addedBy_concat, List.reverse_append]
      exact List.lookup_append
    rw [hbehind, Option.or_assoc, ← h.valueAlias name]
    exact NameMap.find?_foldl_insert _ _ _
  ascending hc := NameMap.ascending_foldl_insert _ (h.ascending hc)
  noncopyable := or_concat h.noncopyable o
  code := append_concat h.code o
  wrapperCode := append_concat h.wrapperCode o

end Layered

/-- **Tables that are applied one after the other decide field by field.** -/
theorem layered_foldl (c : ExportConfig) (tables : List DeclOverride) :
    c.Layered tables (tables.foldl (fun c o => o.applyTo c) c) := by
  -- the tables in front have been applied when those behind them come
  have hrun : ∀ (back front : List DeclOverride) (now : ExportConfig), c.Layered front now →
      c.Layered (front ++ back) (back.foldl (fun c o => o.applyTo c) now) := by
    intro back
    induction back with
    | nil => exact fun front now h => (List.append_nil front).symm ▸ h
    | cons o back ih =>
      intro front now h
      rw [List.append_cons]
      exact ih (front ++ [o]) (o.applyTo now) (h.applyTo o)
  exact hrun tables [] c (.nil c)

end ExportConfig

end Bindery
