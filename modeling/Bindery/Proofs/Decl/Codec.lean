import Bindery.Proofs.Decl.TypeCodec
import Bindery.Proofs.NameMap

/-!
# The JSON form of declaration graphs

A graph may be read from many texts: fields may be left out, stand in any order or be given by their
places, and names may be given as objects.  It is written in one way, with all fields, and the text
that is written is read as the same graph.

## Main results

* `ExportConfig.recodes`, `Callable.recodes`, `DeclKind.recodes`, `Declaration.recodes` — the parts
  of a graph are read again from what is written of them.
* `DeclGraph.ofText_toText` — **what is written of an accepted graph is accepted as the same
  graph.**
-/

namespace Bindery

open Json

variable {n : Nat} {setting : Setting}

/-! ### Decisions of the user -/

theorem CallPolicy.recodes : Recodes n CallPolicy.ofJson? fun p => .str p.tag :=
  recodes_variant fun p => by cases p <;> decide

namespace TransformerSpec

/-- What a transformer was read from has an argument, and a size for arrays. -/
theorem written_of_ofTag? {r : Record} {tag : String} {spec : TransformerSpec} (hr : r.AtMost n)
    (h : ofTag? tag (r.required "arg" word64?) (r.required "size" word64?) = some spec) :
    Written n word64? .nat spec.arg ∧ ∀ size, spec.kind = .inputArray size ∨
      spec.kind = .outputArray size → Written n word64? .nat size := by
  have harg : ∀ {arg}, r.required "arg" word64? = some arg → Written n word64? .nat arg :=
    written_of_required hr recodes_word64
  have hsize : ∀ {size}, r.required "size" word64? = some size → Written n word64? .nat size :=
    written_of_required hr recodes_word64
  unfold ofTag? at h
  split at h
  · obtain ⟨arg, ha, rfl⟩ := Option.map_eq_some_iff.mp h
    exact ⟨harg ha, fun size h => by simp at h⟩
  split at h
  · obtain ⟨arg, ha, rfl⟩ := Option.map_eq_some_iff.mp h
    exact ⟨harg ha, fun size h => by simp at h⟩
  split at h
  · obtain ⟨arg, ha, rfl⟩ := Option.map_eq_some_iff.mp h
    exact ⟨harg ha, fun size h => by simp at h⟩
  split at h
  · obtain ⟨size, hs, h⟩ := Option.bind_eq_some_iff.mp h
    obtain ⟨arg, ha, h⟩ := Option.bind_eq_some_iff.mp h
    obtain rfl := Option.some.inj h
    exact ⟨harg ha, fun m hm => by simp at hm; exact hm ▸ hsize hs⟩
  split at h
  · obtain ⟨size, hs, h⟩ := Option.bind_eq_some_iff.mp h
    obtain ⟨arg, ha, h⟩ := Option.bind_eq_some_iff.mp h
    obtain rfl := Option.some.inj h
    exact ⟨harg ha, fun m hm => by simp at hm; exact hm ▸ hsize hs⟩
  · cases h

/-- What is read of an object with its name in front. -/
theorem ofJson?_obj {tag : String} {fields : List (String × Json)} {r : Record}
    (hfields : ∀ f ∈ fields, f.1 ≠ "kind") (hvalid : areValidFields fields)
    (hr : record? (if isSized tag then ["arg", "size"] else ["arg"]) (.obj fields) = some r) :
    ofJson? (.obj (("kind", .str tag) :: fields)) =
      ofTag? tag (r.required "arg" word64?) (r.required "size" word64?) := by
  unfold ofJson?
  rw [tagged?_cons hfields]
  simp only [Option.bind_eq_bind, Option.bind_some, str?, isValid, hvalid, hr]
  rfl

theorem recodes : Recodes (n + 1) ofJson? toJson := by
  intro j spec hj h
  unfold ofJson? at h
  simp only [Option.bind_eq_bind, Option.bind_eq_some_iff] at h
  obtain ⟨⟨_, rest⟩, htagged, tag, htag, h⟩ := h
  obtain ⟨-, hrest⟩ := tagged?_eq_some htagged hj
  split at h
  · cases h
  · obtain ⟨r, hr, h⟩ := Option.bind_eq_some_iff.mp h
    obtain ⟨harg, hsize⟩ := written_of_ofTag? (atMost_of_record? hr hrest) h
    obtain ⟨kind, arg⟩ := spec
    constructor
    · cases kind with
      | output | input | inout =>
        refine (ofJson?_obj (by simp) rfl (record?_self rfl (by decide))).trans ?_
        rw [required_eq_some rfl harg]
        rfl
      | inputArray size =>
        refine (ofJson?_obj (by simp) rfl (record?_self rfl (by decide))).trans ?_
        rw [required_eq_some rfl harg, required_eq_some rfl (hsize size (.inl rfl))]
        rfl
      | outputArray size =>
        refine (ofJson?_obj (by simp) rfl (record?_self rfl (by decide))).trans ?_
        rw [required_eq_some rfl harg, required_eq_some rfl (hsize size (.inr rfl))]
        rfl
    · cases kind with
      | output | input | inout =>
        exact .obj (List.forall_mem_cons.mpr ⟨.str, List.forall_mem_singleton.mpr harg.writable⟩)
      | inputArray size =>
        exact .obj (List.forall_mem_cons.mpr ⟨.str, List.forall_mem_cons.mpr ⟨harg.writable,
          List.forall_mem_singleton.mpr (hsize size (.inl rfl)).writable⟩⟩)
      | outputArray size =>
        exact .obj (List.forall_mem_cons.mpr ⟨.str, List.forall_mem_cons.mpr ⟨harg.writable,
          List.forall_mem_singleton.mpr (hsize size (.inr rfl)).writable⟩⟩)

end TransformerSpec

theorem pairs?_map : ∀ m : List (String × String),
    pairs? (.obj (m.map fun a => (a.1, .str a.2))) = some m := by
  intro m
  have hmap : (m.map fun a => (a.1, Json.str a.2)).mapM
      (fun f => (str? f.2).map (f.1, ·)) = some m := by
    induction m with
    | nil => rfl
    | cons a m ih =>
      rw [List.map_cons, List.mapM_cons, ih]
      rfl
  exact hmap

theorem writable_pairs (m : List (String × String)) :
    Writable (n + 1) (.obj (m.map fun a => (a.1, .str a.2))) := by
  refine .obj fun f hf => ?_
  obtain ⟨a, -, rfl⟩ := List.mem_map.mp hf
  exact .str

theorem ExportConfig.recodes : Recodes (n + 3) ExportConfig.ofJson? ExportConfig.toJson := by
  intro j c hj h
  unfold ofJson? at h
  obtain ⟨r, hr, h⟩ := Option.bind_eq_some_iff.mp h
  obtain ⟨ignore, hignore, h⟩ := Option.bind_eq_some_iff.mp h
  obtain ⟨pythonName, hpythonName, h⟩ := Option.bind_eq_some_iff.mp h
  obtain ⟨callPolicy, hcallPolicy, h⟩ := Option.bind_eq_some_iff.mp h
  obtain ⟨createWithSignature, hcreateWithSignature, h⟩ := Option.bind_eq_some_iff.mp h
  obtain ⟨alwaysExposeUsingScope, halwaysExposeUsingScope, h⟩ := Option.bind_eq_some_iff.mp h
  obtain ⟨useKeywords, huseKeywords, h⟩ := Option.bind_eq_some_iff.mp h
  obtain ⟨useDefaultArguments, huseDefaultArguments, h⟩ := Option.bind_eq_some_iff.mp h
  obtain ⟨documentation, hdocumentation, h⟩ := Option.bind_eq_some_iff.mp h
  obtain ⟨transformers, htransformers, h⟩ := Option.bind_eq_some_iff.mp h
  obtain ⟨exportValues, hexportValues, h⟩ := Option.bind_eq_some_iff.mp h
  obtain ⟨valueAliases, hvalueAliases, h⟩ := Option.bind_eq_some_iff.mp h
  obtain ⟨noncopyable, hnoncopyable, h⟩ := Option.bind_eq_some_iff.mp h
  obtain ⟨code, hcode, h⟩ := Option.bind_eq_some_iff.mp h
  obtain ⟨wrapperCode, hwrapperCode, h⟩ := Option.bind_eq_some_iff.mp h
  obtain rfl := Option.some.inj h
  have hr := atMost_of_record? hr hj
  have hignore := written_of_flag hr hignore
  have hpythonName := written_of_optional hr recodes_str (fun _ h => nomatch h) hpythonName
  have hcallPolicy := written_of_optional hr CallPolicy.recodes (fun _ h => nomatch h) hcallPolicy
  have hcreateWithSignature := written_of_flag hr hcreateWithSignature
  have halwaysExposeUsingScope := written_of_flag hr halwaysExposeUsingScope
  have huseKeywords := written_of_withDefault hr recodes_bool ⟨rfl, .bool⟩ huseKeywords
  have huseDefaultArguments :=
    written_of_withDefault hr recodes_bool ⟨rfl, .bool⟩ huseDefaultArguments
  have hdocumentation := written_of_optional hr recodes_str (fun _ h => nomatch h) hdocumentation
  have htransformers := written_of_list hr TransformerSpec.recodes htransformers
  have hexportValues := written_of_list hr recodes_str hexportValues
  have hnoncopyable := written_of_optional hr recodes_bool (fun _ h => nomatch h) hnoncopyable
  have hcode := written_of_list hr recodes_str hcode
  have hwrapperCode := written_of_list hr recodes_str hwrapperCode
  constructor
  · unfold ofJson?
    refine Option.bind_eq_some_iff.mpr ⟨_, record?_self rfl (by decide), ?_⟩
    refine Option.bind_eq_some_iff.mpr ⟨_, flag_eq_some rfl, ?_⟩
    refine Option.bind_eq_some_iff.mpr ⟨_, optional_eq_some rfl hpythonName, ?_⟩
    refine Option.bind_eq_some_iff.mpr ⟨_, optional_eq_some rfl hcallPolicy, ?_⟩
    refine Option.bind_eq_some_iff.mpr ⟨_, flag_eq_some rfl, ?_⟩
    refine Option.bind_eq_some_iff.mpr ⟨_, flag_eq_some rfl, ?_⟩
    refine Option.bind_eq_some_iff.mpr ⟨_, withDefault_eq_some rfl huseKeywords, ?_⟩
    refine Option.bind_eq_some_iff.mpr ⟨_, withDefault_eq_some rfl huseDefaultArguments, ?_⟩
    refine Option.bind_eq_some_iff.mpr ⟨_, optional_eq_some rfl hdocumentation, ?_⟩
    refine Option.bind_eq_some_iff.mpr ⟨_, list_eq_some rfl htransformers, ?_⟩
    refine Option.bind_eq_some_iff.mpr ⟨_, list_eq_some rfl hexportValues, ?_⟩
    refine Option.bind_eq_some_iff.mpr ⟨_, pairs?_map _, ?_⟩
    refine Option.bind_eq_some_iff.mpr ⟨_, optional_eq_some rfl hnoncopyable, ?_⟩
    refine Option.bind_eq_some_iff.mpr ⟨_, list_eq_some rfl hcode, ?_⟩
    refine Option.bind_eq_some_iff.mpr ⟨_, list_eq_some rfl hwrapperCode, ?_⟩
    rw [NameMap.ofList_ofList]
    rfl
  · unfold toJson
    refine .obj ?_
    simp only [List.forall_mem_cons]
    exact ⟨hignore.writable, hpythonName.writable, hcallPolicy.writable,
      hcreateWithSignature.writable, halwaysExposeUsingScope.writable, huseKeywords.writable,
      huseDefaultArguments.writable, hdocumentation.writable, htransformers.writable,
      hexportValues.writable, writable_pairs _, hnoncopyable.writable, hcode.writable,
      hwrapperCode.writable, fun _ h => nomatch h⟩

/-! ### Functions -/

theorem Virtuality.recodes : Recodes n (Virtuality.ofJson? setting) fun v => .str v.tag :=
  recodes_variant fun v => by cases v <;> decide

namespace CallableKind

/-- Every sort of function is told by its fields. -/
theorem ofFields?_toFields (kind : CallableKind) : ofFields? kind.toFields = some kind := by
  cases kind <;> rfl

theorem writable_toFields (kind : CallableKind) : ∀ f ∈ kind.toFields, Writable n f.2 := by
  cases kind with
  | constructor isCopy isExplicit =>
    exact List.forall_mem_cons.mpr ⟨.str, List.forall_mem_cons.mpr ⟨.bool,
      List.forall_mem_singleton.mpr .bool⟩⟩
  | memberOperator symbol =>
    exact List.forall_mem_cons.mpr ⟨.str, List.forall_mem_singleton.mpr .str⟩
  | freeOperator symbol =>
    exact List.forall_mem_cons.mpr ⟨.str, List.forall_mem_singleton.mpr .str⟩
  | _ => exact List.forall_mem_singleton.mpr .str

end CallableKind

theorem Argument.recodes : Recodes (n + 1) (Argument.ofJson? setting) Argument.toJson := by
  intro j a hj h
  unfold ofJson? at h
  simp only [Option.bind_eq_bind, Option.bind_eq_some_iff] at h
  obtain ⟨r, hr, name, hname, type, htype, default?, hdefault, h⟩ := h
  obtain rfl := Option.some.inj h
  have hr := atMost_of_record? hr hj
  have hname := written_of_withDefault hr recodes_str ⟨rfl, .str⟩ hname
  have htype := written_of_required hr (CppType.recodes _) htype
  have hdefault := written_of_optional hr recodes_str (fun _ h => nomatch h) hdefault
  constructor
  · unfold ofJson?
    simp only [Option.bind_eq_bind, Option.bind_eq_some_iff]
    exact ⟨_, record?_self rfl (by decide), _, withDefault_eq_some rfl hname, _,
      required_eq_some rfl htype, _, optional_eq_some rfl hdefault, rfl⟩
  · unfold toJson
    refine .obj ?_
    simp only [List.forall_mem_cons]
    exact ⟨hname.writable, htype.writable, hdefault.writable, fun _ h => nomatch h⟩

theorem Callable.recodes : Recodes (n + 3) (Callable.ofJson? setting) Callable.toJson := by
  intro j c hj h
  unfold ofJson? at h
  split at h
  · next fields =>
    simp only [Option.bind_eq_bind, Option.bind_eq_some_iff] at h
    obtain ⟨r, hr, kind, -, returnType, hreturnType, args, hargs, virtuality, hvirtuality, isStatic,
      hisStatic, isConst, hisConst, h⟩ := h
    obtain rfl := Option.some.inj h
    have hr := atMost_of_record? hr hj
    have hreturnType :=
      written_of_optional hr (CppType.recodes _) CppType.toJson_ne_null hreturnType
    have hargs := written_of_list hr Argument.recodes hargs
    have hvirtuality := written_of_withDefault hr Virtuality.recodes ⟨rfl, .str⟩ hvirtuality
    have hisStatic := written_of_flag hr hisStatic
    have hisConst := written_of_flag hr hisConst
    constructor
    · unfold toJson ofJson?
      simp only [Option.bind_eq_bind, Option.bind_eq_some_iff]
      refine ⟨_, record?_obj (by unfold toFields; cases kind <;> rfl) rfl (by decide), kind, ?_, _,
        optional_eq_some rfl hreturnType, _, list_eq_some rfl hargs, _,
        withDefault_eq_some rfl hvirtuality, _, flag_eq_some rfl, _, flag_eq_some rfl, rfl⟩
      -- the fields that only this sort of function has are those in front
      refine Eq.trans (congrArg CallableKind.ofFields? ?_) kind.ofFields?_toFields
      unfold toFields
      cases kind <;> rfl
    · unfold toJson toFields
      refine .obj (List.forall_mem_append.mpr ⟨kind.writable_toFields, ?_⟩)
      simp only [List.forall_mem_cons]
      exact ⟨hreturnType.writable, hargs.writable, hvirtuality.writable, hisStatic.writable,
        hisConst.writable, fun _ h => nomatch h⟩
  · cases h

/-- The tag of a declaration is no field of a function. -/
theorem Callable.toFields_ne_type (c : Callable) : ∀ f ∈ c.toFields, f.1 ≠ "type" := by
  unfold toFields
  cases c.kind <;> simp [CallableKind.toFields]

/-! ### Declarations -/

theorem Access.recodes : Recodes n (Access.ofJson? setting) fun a => .str a.tag :=
  recodes_variant fun a => by cases a <;> decide

theorem ClassKey.recodes : Recodes n ClassKey.ofJson? fun k => .str k.tag :=
  recodes_variant fun k => by cases k <;> decide

theorem BaseSpec.recodes : Recodes (n + 1) BaseSpec.ofJson? BaseSpec.toJson := by
  intro j b hj h
  unfold ofJson? at h
  simp only [Option.bind_eq_bind, Option.bind_eq_some_iff] at h
  obtain ⟨r, hr, base, hbase, access, haccess, h⟩ := h
  obtain rfl := Option.some.inj h
  have hr := atMost_of_record? hr hj
  have hbase := written_of_required hr recodes_word32 hbase
  have haccess := written_of_withDefault hr Access.recodes ⟨rfl, .str⟩ haccess
  constructor
  · unfold ofJson?
    simp only [Option.bind_eq_bind, Option.bind_eq_some_iff]
    exact ⟨_, record?_self rfl (by decide), _, required_eq_some rfl hbase, _,
      withDefault_eq_some rfl haccess, rfl⟩
  · unfold toJson
    refine .obj ?_
    simp only [List.forall_mem_cons]
    exact ⟨hbase.writable, haccess.writable, fun _ h => nomatch h⟩

theorem ClassDecl.recodes : Recodes (n + 3) ClassDecl.ofJson? fun c => .obj c.toFields := by
  intro j c hj h
  unfold ofJson? at h
  simp only [Option.bind_eq_bind, Option.bind_eq_some_iff] at h
  obtain ⟨r, hr, key, hkey, bases, hbases, members, hmembers, isOpaque, hisOpaque, h⟩ := h
  obtain rfl := Option.some.inj h
  have hr := atMost_of_record? hr hj
  have hkey := written_of_withDefault hr ClassKey.recodes ⟨rfl, .str⟩ hkey
  have hbases := written_of_list hr BaseSpec.recodes hbases
  have hmembers := written_of_list hr recodes_word32 hmembers
  have hisOpaque := written_of_flag hr hisOpaque
  constructor
  · unfold ofJson?
    simp only [Option.bind_eq_bind, Option.bind_eq_some_iff]
    exact ⟨_, record?_self rfl (by decide), _, withDefault_eq_some rfl hkey, _,
      list_eq_some rfl hbases, _, list_eq_some rfl hmembers, _, flag_eq_some rfl, rfl⟩
  · unfold toFields
    refine .obj ?_
    simp only [List.forall_mem_cons]
    exact ⟨hkey.writable, hbases.writable, hmembers.writable, hisOpaque.writable,
      fun _ h => nomatch h⟩

theorem VariableDecl.recodes : Recodes (n + 1) VariableDecl.ofJson? fun v => .obj v.toFields := by
  intro j v hj h
  unfold ofJson? at h
  simp only [Option.bind_eq_bind, Option.bind_eq_some_iff] at h
  obtain ⟨r, hr, type, htype, isStatic, hisStatic, bits, hbits, h⟩ := h
  obtain rfl := Option.some.inj h
  have hr := atMost_of_record? hr hj
  have htype := written_of_required hr (CppType.recodes _) htype
  have hisStatic := written_of_flag hr hisStatic
  have hbits := written_of_optional hr recodes_word32 (fun _ h => nomatch h) hbits
  constructor
  · unfold ofJson?
    simp only [Option.bind_eq_bind, Option.bind_eq_some_iff]
    exact ⟨_, record?_self rfl (by decide), _, required_eq_some rfl htype, _, flag_eq_some rfl, _,
      optional_eq_some rfl hbits, rfl⟩
  · unfold toFields
    refine .obj ?_
    simp only [List.forall_mem_cons]
    exact ⟨htype.writable, hisStatic.writable, hbits.writable, fun _ h => nomatch h⟩

theorem Enumerator.recodes : Recodes (n + 1) Enumerator.ofJson? Enumerator.toJson := by
  intro j e hj h
  unfold ofJson? at h
  split at h
  · next jname jvalue =>
    obtain ⟨-, hitems⟩ := depth_arr_le.mp hj
    simp only [Option.bind_eq_bind, Option.bind_eq_some_iff] at h
    obtain ⟨name, hname, value, hvalue, h⟩ := h
    obtain rfl := Option.some.inj h
    have hname : Written n str? .str name := recodes_str (hitems jname (by simp)) hname
    have hvalue : Written n int64? .int value := recodes_int64 (hitems jvalue (by simp)) hvalue
    constructor
    · unfold ofJson? toJson
      simp only [Option.bind_eq_bind, Option.bind_eq_some_iff]
      exact ⟨_, hname.read_write, _, hvalue.read_write, rfl⟩
    · exact .arr (List.forall_mem_cons.mpr ⟨hname.writable,
        List.forall_mem_singleton.mpr hvalue.writable⟩)
  · cases h

namespace DeclKind

/-- A declaration is written as what it declares, with its sort in front. -/
theorem written_of_fields {α : Type} {read : Decoder α} {fieldsOf : α → List (String × Json)}
    {a : α} {tag : String} {kind : DeclKind} (h : Written (n + 1) read (.obj <| fieldsOf ·) a)
    (htag : ∀ f ∈ fieldsOf a, f.1 ≠ "type")
    (htext : kind.toJson = .obj (("type", .str tag) :: fieldsOf a))
    (hread : ∀ j rest, tagged? "type" j = some (.str tag, rest) → rest.isValid →
      read rest = some a → ofJson? j = some kind) : Written (n + 1) ofJson? toJson kind where
  read_write := by
    rw [htext]
    exact hread _ _ (tagged?_cons htag) h.writable.isValid h.read_write
  writable := by
    rw [htext]
    cases h.writable with
    | obj hfields => exact .obj (List.forall_mem_cons.mpr ⟨.str, hfields⟩)

theorem recodes : Recodes (n + 3) ofJson? toJson := by
  intro j kind hj h
  unfold ofJson? at h
  simp only [Option.bind_eq_bind, Option.bind_eq_some_iff] at h
  obtain ⟨⟨_, rest⟩, htagged, tag, -, h⟩ := h
  obtain ⟨-, hrest⟩ := tagged?_eq_some htagged hj
  split at h
  · cases h
  -- one case for each sort of declaration
  split at h
  · simp only [Option.bind_eq_some_iff] at h
    obtain ⟨r, hr, members, hmembers, h⟩ := h
    obtain rfl := Option.some.inj h
    have hmembers := written_of_list (atMost_of_record? hr hrest) recodes_word32 hmembers
    have hfields : Written (n + 3) (fun j => (record? ["members"] j).bind (·.list "members" word32?))
        (fun members => .obj [("members", .ofList .nat members)]) members :=
      written_single hmembers.writable fun r hr => list_eq_some hr hmembers
    refine written_of_fields hfields (by simp) rfl fun j rest ht hv hr => ?_
    obtain ⟨r, hrecord, hlist⟩ := Option.bind_eq_some_iff.mp hr
    simp [ofJson?, ht, str?, hv, hrecord, hlist]
  split at h
  · obtain ⟨c, hc, h⟩ := Option.bind_eq_some_iff.mp h
    obtain rfl := Option.some.inj h
    exact written_of_fields (ClassDecl.recodes hrest hc) (by simp [ClassDecl.toFields]) rfl
      fun j rest ht hv hr => by simp [ofJson?, ht, str?, hv, hr]
  split at h
  · obtain ⟨c, hc, h⟩ := Option.bind_eq_some_iff.mp h
    obtain rfl := Option.some.inj h
    exact written_of_fields (Callable.recodes hrest hc) c.toFields_ne_type rfl
      fun j rest ht hv hr => by simp [ofJson?, ht, str?, hv, hr]
  split at h
  · obtain ⟨v, hv, h⟩ := Option.bind_eq_some_iff.mp h
    obtain rfl := Option.some.inj h
    exact written_of_fields (VariableDecl.recodes hrest hv) (by simp [VariableDecl.toFields]) rfl
      fun j rest ht hv hr => by simp [ofJson?, ht, str?, hv, hr]
  split at h
  · simp only [Option.bind_eq_some_iff] at h
    obtain ⟨r, hr, values, hvalues, h⟩ := h
    obtain rfl := Option.some.inj h
    have hvalues := written_of_list (atMost_of_record? hr hrest) Enumerator.recodes hvalues
    have hfields : Written (n + 3)
        (fun j => (record? ["values"] j).bind (·.list "values" Enumerator.ofJson?))
        (fun values => .obj [("values", .ofList Enumerator.toJson values)]) values :=
      written_single hvalues.writable fun r hr => list_eq_some hr hvalues
    refine written_of_fields hfields (by simp) rfl fun j rest ht hv hr => ?_
    obtain ⟨r, hrecord, hlist⟩ := Option.bind_eq_some_iff.mp hr
    simp [ofJson?, ht, str?, hv, hrecord, hlist]
  split at h
  · simp only [Option.bind_eq_some_iff] at h
    obtain ⟨r, hr, type, htype, h⟩ := h
    obtain rfl := Option.some.inj h
    have htype := written_of_required (atMost_of_record? hr hrest) (CppType.recodes _) htype
    have hfields : Written (n + 3)
        (fun j => (record? ["ty"] j).bind (·.required "ty" (CppType.ofJson? .tagged)))
        (fun type => .obj [("ty", type.toJson)]) type :=
      written_single htype.writable fun r hr => required_eq_some hr htype
    refine written_of_fields hfields (by simp) rfl fun j rest ht hv hr => ?_
    obtain ⟨r, hrecord, htype⟩ := Option.bind_eq_some_iff.mp hr
    simp [ofJson?, ht, str?, hv, hrecord, htype]
  · cases h

end DeclKind

theorem Location.recodes : Recodes (n + 1) Location.ofJson? Location.toJson := by
  intro j l hj h
  unfold ofJson? at h
  simp only [Option.bind_eq_bind, Option.bind_eq_some_iff] at h
  obtain ⟨r, hr, file, hfile, line, hline, h⟩ := h
  obtain rfl := Option.some.inj h
  have hr := atMost_of_record? hr hj
  have hfile := written_of_required hr recodes_str hfile
  have hline := written_of_required hr recodes_word32 hline
  constructor
  · unfold ofJson?
    simp only [Option.bind_eq_bind, Option.bind_eq_some_iff]
    exact ⟨_, record?_self rfl (by decide), _, required_eq_some rfl hfile, _,
      required_eq_some rfl hline, rfl⟩
  · unfold toJson
    refine .obj ?_
    simp only [List.forall_mem_cons]
    exact ⟨hfile.writable, hline.writable, fun _ h => nomatch h⟩

/-- The place that is written for a declaration that was read without one. -/
theorem Location.written_default : Written (n + 1) Location.ofJson? Location.toJson {} :=
  ⟨rfl, .obj (List.forall_mem_cons.mpr ⟨.str, List.forall_mem_singleton.mpr (.int (by decide))⟩)⟩

/-- The decisions that are written for a declaration that was read without any. -/
theorem ExportConfig.written_default :
    Written (n + 3) ExportConfig.ofJson? ExportConfig.toJson {} :=
  ExportConfig.recodes (j := .obj []) (depth_obj_le.mpr ⟨Nat.succ_pos _, by simp⟩) rfl

theorem Declaration.recodes : Recodes (n + 4) Declaration.ofJson? Declaration.toJson := by
  intro j d hj h
  unfold ofJson? at h
  simp only [Option.bind_eq_bind, Option.bind_eq_some_iff] at h
  obtain ⟨r, hr, name, hname, kind, hkind, access, haccess, parent, hparent, location, hlocation,
    isArtificial, hisArtificial, config, hconfig, h⟩ := h
  obtain rfl := Option.some.inj h
  have hr := atMost_of_record? hr hj
  have hname := written_of_required hr recodes_str hname
  have hkind := written_of_required hr DeclKind.recodes hkind
  have haccess := written_of_withDefault hr Access.recodes ⟨rfl, .str⟩ haccess
  have hparent := written_of_optional hr recodes_word32 (fun _ h => nomatch h) hparent
  have hlocation := written_of_withDefault hr Location.recodes Location.written_default hlocation
  have hisArtificial := written_of_flag hr hisArtificial
  have hconfig :=
    written_of_withDefault hr ExportConfig.recodes ExportConfig.written_default hconfig
  constructor
  · unfold ofJson?
    simp only [Option.bind_eq_bind, Option.bind_eq_some_iff]
    exact ⟨_, record?_self rfl (by decide), _, required_eq_some rfl hname, _,
      required_eq_some rfl hkind, _, withDefault_eq_some rfl haccess, _,
      optional_eq_some rfl hparent, _, withDefault_eq_some rfl hlocation, _, flag_eq_some rfl, _,
      withDefault_eq_some rfl hconfig, rfl⟩
  · unfold toJson
    refine .obj ?_
    simp only [List.forall_mem_cons]
    exact ⟨hname.writable, hkind.writable, haccess.writable, hparent.writable, hlocation.writable,
      hisArtificial.writable, hconfig.writable, fun _ h => nomatch h⟩

/-! ### Graphs -/

namespace DeclGraph

theorem recodes : Recodes (n + 6) ofJson? toJson := by
  intro j g hj h
  unfold ofJson? at h
  simp only [Option.bind_eq_bind, Option.bind_eq_some_iff] at h
  obtain ⟨r, hr, decls, hdecls, h⟩ := h
  obtain rfl := Option.some.inj h
  have hdecls :=
    written_of_required (atMost_of_record? hr hj) (recodes_listOf Declaration.recodes) hdecls
  constructor
  · unfold ofJson?
    simp only [Option.bind_eq_bind, Option.bind_eq_some_iff]
    exact ⟨_, record?_self rfl (by decide), decls, required_eq_some rfl hdecls, rfl⟩
  · exact .obj (List.forall_mem_singleton.mpr hdecls.writable)

/-- What a text was read as has passed the check. -/
theorem ofText_eq_ok_iff {text : String} {g : DeclGraph} :
    ofText text = .ok g ↔
      (∃ j, read? nestingLimit text = some j ∧ ofJson? j = some g) ∧ g.validate = .ok () := by
  unfold ofText
  constructor
  · intro h
    split at h
    · cases h
    · next g' hread =>
      split at h
      · next hvalid =>
        obtain rfl := Except.ok.inj h
        exact ⟨Option.bind_eq_some_iff.mp hread, hvalid⟩
      · cases h
  · rintro ⟨hread, hvalid⟩
    rw [Option.bind_eq_some_iff.mpr hread]
    dsimp only
    rw [hvalid]

/-- **What is written of an accepted graph is accepted as the same graph**, and is therefore written
again letter by letter. -/
theorem ofText_toText {text : String} {g : DeclGraph} (h : ofText text = .ok g) :
    ofText g.toText = .ok g ∧ (ofText g.toText).map toText = .ok g.toText := by
  obtain ⟨⟨j, hread, hj⟩, hvalid⟩ := ofText_eq_ok_iff.mp h
  have hwritten : Written nestingLimit ofJson? toJson g := recodes (depth_read? hread) hj
  have hsame : ofText g.toText = .ok g :=
    ofText_eq_ok_iff.mpr ⟨⟨_, read?_pretty hwritten.writable, hwritten.read_write⟩, hvalid⟩
  exact ⟨hsame, by rw [hsame]; rfl⟩

/-- A graph of one enumeration, given by places and with an escaped letter. -/
def hueText : String :=
  r#"[[["::", ["namespace", [1]]],
       ["Hue", ["enum", [["r\u00e9d", -9223372036854775808]]], "private", 0]]]"#

/-- What `hueText` stands for. -/
def hue : DeclGraph :=
  ⟨#[{ name := "::", kind := .ns [1] },
     { name := "Hue", kind := .enum [⟨"réd", -9223372036854775808⟩], access := .priv,
       parent := some root }]⟩

/-- A class that is derived from an opaque one, with a constructor, an operator and a bit-field,
beside an enumeration and a type of another name.  Fields stand in any order, are left out, or go by
their places, and one is not known. -/
def matrixTree : Json :=
  .obj [("declarations", .arr
    [.arr [.str "::", .arr [.str "namespace", .arr [.nat 1, .nat 2, .nat 6, .nat 7]]],
     .obj [("parent", .nat 0), ("name", .str "Table"),
       ("kind", .obj [("type", .str "class"), ("opaque", .bool true)])],
     .obj [("name", .str "Mätrix"), ("parent", .nat 0), ("since", .str "2.0"),
       ("location", .arr [.str "mätrix.h", .nat 12]),
       ("kind", .obj [("class_type", .str "struct"), ("type", .str "class"),
         ("bases", .arr [.obj [("class", .nat 1), ("access", .str "protected")]]),
         ("members", .arr [.nat 3, .nat 4, .nat 5])]),
       ("config", .obj [("alias", .str "Matrix"), ("noncopyable", .bool true),
         ("code", .arr [.str "say(\"😀\")\n"])])],
     .obj [("name", .str "Mätrix"), ("parent", .nat 2), ("access", .str "protected"),
       ("kind", .obj [("type", .str "callable"), ("callable", .str "constructor"),
         ("is_explicit", .bool true),
         ("arguments", .arr [.obj [("ty", .obj [("fundamental", .str "unsigned_long_long")]),
           ("default_value", .str "1")]])])],
     .obj [("name", .str "operator()"), ("parent", .nat 2),
       ("kind", .obj [("type", .str "callable"), ("symbol", .str "()"),
         ("callable", .str "member_operator"), ("is_const", .bool true),
         ("virtuality", .str "pure_virtual"),
         ("return_type", .obj [("reference", .obj [("const", .obj [("declared", .nat 2)])])]),
         ("arguments", .arr
           [.arr [.str "row", .obj [("pointer", .obj [("array",
              .arr [.obj [("fundamental", .str "double")], .nat 18446744073709551615])])]],
            .obj [("name", .str "seek"), ("default_value", .str "nullptr"),
              ("ty", .obj [("function_pointer", .obj
                [("arguments", .arr [.obj [("named", .str "Key<\"a\">")],
                   .obj [("volatile", .obj [("fundamental", .str "char")])]]),
                 ("return_type", .obj [("array",
                   .obj [("base", .obj [("fundamental", .str "void")])])])])])]])]),
       ("config", .obj [("call_policy", .str "copy_const_reference"), ("use_keywords", .bool false),
         ("transformers", .arr [.obj [("size", .nat 3), ("arg", .nat 1),
           ("kind", .str "input_array")]])])],
     .obj [("name", .str "bits"), ("parent", .nat 2), ("access", .str "private"),
       ("is_artificial", .bool true),
       ("kind", .obj [("type", .str "variable"), ("bits", .nat 4294967295),
         ("ty", .obj [("fundamental", .str "int")])])],
     .obj [("name", .str "Hue"), ("parent", .nat 0),
       ("kind", .arr [.str "enum", .arr [.arr [.str "réd", .int (-9223372036854775808)],
         .arr [.str "blue", .int 9223372036854775807]]]),
       ("config", .obj [("value_aliases", .obj [("réd", .str "RED"), ("blue", .str "BLUE"),
         ("réd", .str "Red")])])],
     .arr [.str "Row", .arr [.str "typedef", .obj [("declared", .nat 2)]], .str "public", .nat 0]])]

/-- What `matrixTree` stands for. -/
def matrix : DeclGraph :=
  ⟨#[{ name := "::", kind := .ns [1, 2, 6, 7] },
    { name := "Table", parent := some root, kind := .cls { isOpaque := true } },
    { name := "Mätrix", parent := some root, location := ⟨"mätrix.h", 12⟩,
      kind := .cls { key := .struct, bases := [⟨1, .prot⟩], members := [3, 4, 5] },
      config := { pythonName := some "Matrix", noncopyable := some true,
                  code := ["say(\"😀\")\n"] } },
    { name := "Mätrix", parent := some 2, access := .prot,
      kind := .callable
        { kind := .constructor false true,
          args := [{ type := .fundamental .unsignedLongLong, default? := some "1" }] } },
    { name := "operator()", parent := some 2,
      kind := .callable
        { kind := .memberOperator "()", isConst := true, virtuality := .pure,
          returnType := some (.reference (.const (.declared 2))),
          args :=
            [{ name := "row",
               type := .pointer (.array (.fundamental .double) (some 18446744073709551615)) },
             { name := "seek", default? := some "nullptr",
               type := .functionPointer (.array .void none)
                 [.named "Key<\"a\">", .volatile (.fundamental .char)] }] },
      config := { callPolicy := some .copyConstReference, useKeywords := false,
                  transformers := [⟨.inputArray 3, 1⟩] } },
    { name := "bits", parent := some 2, access := .priv, isArtificial := true,
      kind := .variable { type := .fundamental .int, bits := some 4294967295 } },
    { name := "Hue", parent := some root,
      kind := .enum [⟨"réd", -9223372036854775808⟩, ⟨"blue", 9223372036854775807⟩],
      config := { valueAliases := [("blue", "BLUE"), ("réd", "Red")] } },
    { name := "Row", parent := some root, kind := .typedef (.declared 2) }]⟩

/-- Both graphs are written and read again, letter by letter. -/
theorem hue_matrix_written_again :
    (ofText hueText = .ok hue ∧ ofText hue.toText = .ok hue ∧
      (ofText hue.toText).map toText = .ok hue.toText) ∧
    (ofText matrixTree.pretty = .ok matrix ∧ ofText matrix.toText = .ok matrix ∧
      (ofText matrix.toText).map toText = .ok matrix.toText) := by
  have hhue : ofText hueText = .ok hue := by decide +kernel
  -- the tree is decoded as it stands: its text need not be read letter by letter
  have hwritable : Writable nestingLimit matrixTree := by
    simp [matrixTree, nestingLimit, nat, writable_arr_iff, writable_obj_iff, writable_int_iff,
      Writable.str, Writable.bool, UInt64.size]
  have hdecoded : ofJson? matrixTree = some matrix := by decide +kernel
  have hvalid : matrix.validate = .ok () := by decide +kernel
  have hmatrix : ofText matrixTree.pretty = .ok matrix :=
    ofText_eq_ok_iff.mpr ⟨⟨_, read?_pretty hwritable, hdecoded⟩, hvalid⟩
  exact ⟨⟨hhue, ofText_toText hhue⟩, hmatrix, ofText_toText hmatrix⟩

end DeclGraph

end Bindery
