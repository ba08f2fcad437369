import Bindery.Proofs.Code.ShownText
import Bindery.Proofs.Text.ContentLines

/-!
# Nodes that frame the texts of their children

A module, its body and a wrapper class are written around the texts of their children and change
nothing about them.  What is not blank of such a text is an opening of the node, what is not blank
of the children's texts, child by child, and an end of the node.

## Main definitions

* `NodeKind.frame?` — what a framing node writes itself, before its children and behind them.

## Main results

* `contentLines_text_of_frame?` — the text of a framing node, around any texts of its children.
* `contentLines_render_changed` — **rendering loses nothing**: the content of a framing node is its
  frame and the content of all its children, behind any run of changes.
-/

namespace Bindery

open Text (scalar block contentLines)

/-- What a node that frames its children writes itself, before them and behind them. -/
def NodeKind.frame? : NodeKind → Option (LibraryName → String × String)
  | .module _ => some fun _ => ("", "")
  | .moduleBody name => some fun _ => ("BOOST_PYTHON_MODULE(" ++ name ++ ")\x7b", "\x7d")
  | .wrapper w => some fun lib =>
    ("struct " ++ w.name ++ " : " ++ w.classFullName ++ ", " ++ lib "wrapper" ++ "< " ++
      w.classFullName ++ " > \x7b", "\x7d;")
  | _ => none

/-! ### Texts of framing nodes -/

/-- The content of a text behind which the texts of children are put. -/
theorem contentLines_joinChildren (before : ChildText) (children : List ChildText)
    (text : List Char) : contentLines (text ++ (joinChildren before children).toList) =
      contentLines text ++ children.flatMap (contentLines ·.text.toList) := by
  induction children generalizing before text with
  | nil => simp [joinChildren]
  | cons c rest ih =>
    rw [joinChildren, String.toList_append, String.toList_append, List.flatMap_cons,
      List.append_assoc]
    split
    · show contentLines (text ++ '\n' :: (c.text.toList ++ (joinChildren c rest).toList)) = _
      rw [Text.contentLines_append, ih]
    · show contentLines
        (text ++ '\n' :: ([] ++ '\n' :: (c.text.toList ++ (joinChildren c rest).toList))) = _
      rw [Text.contentLines_append, Text.contentLines_append, ih]
      rfl

theorem contentLines_moduleText (children : List ChildText) :
    contentLines (moduleText children).toList =
      children.flatMap (contentLines ·.text.toList) := by
  have hblock : ∀ code : String, contentLines
      (Text.Vars.fill [block "CODE" code] "$CODE").toList = contentLines code.toList := by
    intro code
    rw [Text.Vars.fill, String.toList_ofList, Text.contentLines_substitute]
    show (Text.expandLine [block "CODE" code] "$CODE".toList).flatMap contentLines ++ [] = _
    rw [List.append_nil]
    have hsole : Text.soleReference? (Text.trim "$CODE".toList) = some "CODE".toList := rfl
    exact Text.contentLines_expandLine_block (by decide) hsole rfl
  unfold moduleText
  rw [hblock]
  cases children with
  | nil => rfl
  | cons c rest => rw [String.toList_append, contentLines_joinChildren, List.flatMap_cons]

theorem contentLines_moduleBodyText (name : String) (children : List ChildText) :
    contentLines (moduleBodyText name children).toList =
      contentLines ("BOOST_PYTHON_MODULE(" ++ name ++ ")\x7b").toList ++
        children.flatMap (contentLines ·.text.toList) ++ contentLines "\x7d".toList := by
  let vars : Text.Vars :=
    [scalar "NAME" name, block "BODY" ("\n\n".intercalate (children.map (·.text)))]
  have hsplit : Text.splitLines "BOOST_PYTHON_MODULE($NAME)\x7b\n    $BODY\n\x7d".toList =
      ["BOOST_PYTHON_MODULE($NAME)\x7b".toList, "    $BODY".toList, "\x7d".toList] := by decide
  have hopen : Text.expandLine vars "BOOST_PYTHON_MODULE($NAME)\x7b".toList =
      [("BOOST_PYTHON_MODULE(" ++ name ++ ")\x7b").toList] := by
    rw [String.toList_append, String.toList_append]
    rfl
  have hbody : (Text.expandLine vars "    $BODY".toList).flatMap contentLines =
      children.flatMap (contentLines ·.text.toList) := by
    have hsole : Text.soleReference? (Text.trim "    $BODY".toList) = some "BODY".toList := rfl
    refine (Text.contentLines_expandLine_block (by decide) hsole rfl).trans ?_
    rw [Text.contentLines_intercalate, List.flatMap_map]
  have hclose : Text.expandLine vars "\x7d".toList = ["\x7d".toList] := rfl
  rw [moduleBodyText, Text.Vars.fill, String.toList_ofList, Text.contentLines_substitute, hsplit]
  simp only [List.flatMap_cons, List.flatMap_nil, List.append_nil]
  rw [hopen, hbody, hclose]
  simp

theorem contentLines_wrapperText (w : WrapperNode) (lib : LibraryName)
    (children : List ChildText) : contentLines (w.text lib children).toList =
      contentLines ("struct " ++ w.name ++ " : " ++ w.classFullName ++ ", " ++ lib "wrapper" ++
          "< " ++ w.classFullName ++ " > \x7b").toList ++
        children.flatMap (contentLines ·.text.toList) ++ contentLines "\x7d;".toList := by
  let vars : Text.Vars :=
    [scalar "ALIAS" w.name, scalar "CLASS" w.classFullName, scalar "WRAPPER" (lib "wrapper"),
     block "MEMBERS" ("\n\n".intercalate (children.map (·.text)))]
  have hsplit :
      Text.splitLines
          "struct $ALIAS : $CLASS, $WRAPPER< $CLASS > \x7b\n\n    $MEMBERS\n\n\x7d;".toList =
        ["struct $ALIAS : $CLASS, $WRAPPER< $CLASS > \x7b".toList, [], "    $MEMBERS".toList, [],
          "\x7d;".toList] := by decide
  have hopen : Text.expandLine vars "struct $ALIAS : $CLASS, $WRAPPER< $CLASS > \x7b".toList =
      [("struct " ++ w.name ++ " : " ++ w.classFullName ++ ", " ++ lib "wrapper" ++ "< " ++
        w.classFullName ++ " > \x7b").toList] := by
    simp only [String.toList_append, List.append_assoc]
    rfl
  have hblank : Text.expandLine vars [] = [[]] := rfl
  have hmembers : (Text.expandLine vars "    $MEMBERS".toList).flatMap contentLines =
      children.flatMap (contentLines ·.text.toList) := by
    have hsole : Text.soleReference? (Text.trim "    $MEMBERS".toList) =
        some "MEMBERS".toList := rfl
    refine (Text.contentLines_expandLine_block (by decide) hsole rfl).trans ?_
    rw [Text.contentLines_intercalate, List.flatMap_map]
  have hclose : Text.expandLine vars "\x7d;".toList = ["\x7d;".toList] := rfl
  rw [WrapperNode.text, Text.Vars.fill, String.toList_ofList, Text.contentLines_substitute, hsplit]
  simp only [List.flatMap_cons, List.flatMap_nil, List.append_nil]
  rw [hopen, hblank, hmembers, hclose]
  simp

/-- **A framing node writes the content of its children between its own lines**, in their order and
unchanged. -/
theorem contentLines_text_of_frame? {kind : NodeKind} {frame : LibraryName → String × String}
    (h : kind.frame? = some frame) (lib : LibraryName) (children : List ChildText) :
    contentLines (kind.text lib children).toList =
      contentLines (frame lib).1.toList ++ children.flatMap (contentLines ·.text.toList) ++
        contentLines (frame lib).2.toList := by
  cases kind with
  | module name =>
    cases h
    exact (contentLines_moduleText children).trans (List.append_nil _).symm
  | moduleBody name =>
    cases h
    exact contentLines_moduleBodyText name children
  | wrapper w =>
    cases h
    exact contentLines_wrapperText w lib children
  | _ => cases h

/-! ### Framing nodes of a tree -/

namespace CodeTree

/-- A child without text has no content either. -/
theorem flatMap_childText? (t : CodeTree) (cs : List NodeId) (texts : NodeId → String)
    (hmissing : ∀ c, t.kind? c = none → texts c = "") :
    (cs.filterMap fun c => t.childText? c (texts c)).flatMap (contentLines ·.text.toList) =
      cs.flatMap fun c => contentLines (texts c).toList := by
  induction cs with
  | nil => rfl
  | cons c cs ih =>
    rw [List.filterMap_cons, List.flatMap_cons, ← ih]
    have hempty : texts c = "" → contentLines (texts c).toList = [] := fun h => by rw [h]; rfl
    unfold childText?
    cases hk : t.kind? c with
    | none => rw [hempty (hmissing c hk), List.nil_append]
    | some kind =>
      by_cases htext : (texts c).isEmpty
      · simp only [htext, if_true]
        rw [hempty (String.isEmpty_iff.mp htext), List.nil_append]
      · simp only [htext, Bool.false_eq_true, if_false, List.flatMap_cons]

/-- **Rendering loses nothing.**  Behind any run of changes, the content of a module, a module body
or a wrapper class is its own opening, the content of its children, child by child, and its own end.
The names of the library in the opening are written as at some time of the run, and as they are now
unless the text of the node is remembered. -/
theorem contentLines_render_changed (start : NodeKind) (changes : List Change) (id : NodeId)
    (kind : NodeKind) (frame : LibraryName → String × String)
    (hkind : ((ofKind start).changed changes).kind? id = some kind)
    (hframe : kind.frame? = some frame) :
    let t := (ofKind start).changed changes
    ∃ lib, SpelledDuring start changes id lib ∧
      (t.remembered? id = none → lib = t.libraryName id) ∧
      contentLines (t.render id).1.toList =
        contentLines (frame lib).1.toList ++
          ((t.children id).flatMap fun c => contentLines (t.render c).1.toList) ++
          contentLines (frame lib).2.toList := by
  intro t
  obtain ⟨lib, hlib, hnow, htext⟩ := render_changed_eq hkind
  have hcompound : t.writtenChildren id kind = t.children id := by
    cases kind with
    | module | moduleBody | wrapper => rfl
    | _ => cases hframe
  refine ⟨lib, hlib, hnow, ?_⟩
  rw [htext, contentLines_text_of_frame? hframe, flatMap_childText?]
  · rw [hcompound]
  · intro c hc
    have hnone : t.get? c = none := Option.map_eq_none_iff.mp hc
    rw [CodeTree.render, run_renderWithin_of_none hnone]

/-- A wrapper class around a text with a reference, braces and blank lines, of which the text is
remembered. -/
def wrapperAroundText : List Change :=
  [.edit (.create (.wrapper ⟨"A_wrapper", "A_wrapper", "::A"⟩) none),
   .edit (.create (.customText ⟨"void f()\x7b\n\n  $MEMBERS\n\n\x7d", false⟩) none),
   .edit (.adopt 1 2), .edit (.render 2), .edit (.adopt root 1)]

theorem contentLines_render_wrapperAroundText :
    let t := (ofKind (.module "m")).changed wrapperAroundText
    t.kind? 1 = some (.wrapper ⟨"A_wrapper", "A_wrapper", "::A"⟩) ∧ t.children 1 = [2] ∧
      ∃ lib, SpelledDuring (.module "m") wrapperAroundText 1 lib ∧
        contentLines (t.render 1).1.toList =
          contentLines ("struct " ++ "A_wrapper" ++ " : " ++ "::A" ++ ", " ++ lib "wrapper" ++
              "< " ++ "::A" ++ " > \x7b").toList ++
            ((t.children 1).flatMap fun c => contentLines (t.render c).1.toList) ++
            contentLines "\x7d;".toList := by
  intro t
  have hkind : t.kind? 1 = some (.wrapper ⟨"A_wrapper", "A_wrapper", "::A"⟩) := by decide +kernel
  refine ⟨hkind, by decide +kernel, ?_⟩
  obtain ⟨lib, hlib, -, hlines⟩ :=
    contentLines_render_changed (.module "m") wrapperAroundText 1 _ _ hkind rfl
  exact ⟨lib, hlib, hlines⟩

end CodeTree

end Bindery
