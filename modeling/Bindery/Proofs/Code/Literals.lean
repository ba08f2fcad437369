import Bindery.Proofs.Code.ShownText
import Bindery.Proofs.Text.ContentLines
import Mathlib.Logic.Relation

/-!
# String literals

Names and documentation go into the registrations as string literals.  A literal is written with
escapes for what would end it or its line, and from then on it is one stretch of one line, with
quotes at its ends: however often it is indented and trimmed on the way to the module, it stays as
it is.

## Main definitions

* `unescaped` — the characters between the quotes of a literal that are not part of an escape.
* `literalValue?` — the text that the characters between the quotes stand for.
* `IsLiteralBody` — what may stand between the quotes: one line, and no quote without an escape.
* `NodeKind.documentation?` — the documentation that a node writes as a literal.
* `CodeTree.WritesAround` — the texts that the text of a node is put into.

## Main results

* `literalValue?_quotedBody` — a literal stands for the text it was made of.
* `infix_fill` — a template keeps whatever is on one line with quotes at its ends.
* `quoted_faithful_iff` — **the literal of a documentation stands for it, goes into all texts
  around it, and is one line if and only if there is no carriage return in the documentation.**
-/

namespace Bindery

open Text (scalar block)

/-! ### Literals -/

/-- What an escape stands for. -/
def escapeValue? : Char → Option Char
  | '\\' => some '\\'
  | '"' => some '"'
  | 'n' => some '\n'
  | 'r' => some '\r'
  | _ => none

/-- The text that the characters between the quotes of a literal stand for, if no quote and no
backslash is without its escape. -/
def literalValue? : List Char → Option (List Char)
  | [] => some []
  | '\\' :: rest =>
    match rest with
    | [] => none
    | e :: rest => do return (← escapeValue? e) :: (← literalValue? rest)
  | '"' :: _ => none
  | c :: rest => do return c :: (← literalValue? rest)

/-- The characters between the quotes of a literal that are not part of an escape. -/
def unescaped : List Char → List Char
  | [] => []
  | '\\' :: _ :: rest => unescaped rest
  | c :: rest => c :: unescaped rest

/-- Characters that may stand between the quotes of a literal: they are on one line, and every
quote and every backslash is part of an escape. -/
def IsLiteralBody (body : List Char) : Prop :=
  '\n' ∉ body ∧ '\r' ∉ body ∧ '"' ∉ unescaped body ∧ '\\' ∉ unescaped body

/-- The characters between the quotes. -/
def quotedBody (text : String) : List Char := text.toList.flatMap quotedChar

theorem toList_quoted (text : String) : (quoted text).toList = '"' :: quotedBody text ++ ['"'] :=
  String.toList_ofList

/-- A character as it is written in a literal. -/
theorem quotedChar_cases (c : Char) :
    (∃ e, quotedChar c = ['\\', e] ∧ escapeValue? e = some c ∧ e ≠ '\n' ∧ e ≠ '\r' ∧ c ≠ '\r') ∨
    (quotedChar c = [c] ∧ c ≠ '\\' ∧ c ≠ '"' ∧ c ≠ '\n') := by
  by_cases hslash : c = '\\'
  · subst hslash; exact .inl ⟨'\\', by decide⟩
  by_cases hquote : c = '"'
  · subst hquote; exact .inl ⟨'"', by decide⟩
  by_cases hnewline : c = '\n'
  · subst hnewline; exact .inl ⟨'n', by decide⟩
  · refine .inr ⟨?_, hslash, hquote, hnewline⟩
    unfold quotedChar
    split <;> first | contradiction | rfl

/-- **A literal stands for the text it was made of.** -/
theorem literalValue?_quotedBody (text : String) :
    literalValue? (quotedBody text) = some text.toList := by
  unfold quotedBody
  induction text.toList with
  | nil => rfl
  | cons c rest ih =>
    rw [List.flatMap_cons]
    obtain ⟨e, hquoted, hvalue, -⟩ | ⟨hquoted, hslash, hquote, -⟩ := quotedChar_cases c
    · rw [hquoted, List.cons_append, List.cons_append, List.nil_append, literalValue?, hvalue, ih]
      rfl
    · rw [hquoted, List.singleton_append, literalValue?, ih]
      · rfl
      · exact hslash
      · exact hquote

/-- What is left without an escape needs none. -/
theorem unescaped_quotedBody (text : String) :
    '"' ∉ unescaped (quotedBody text) ∧ '\\' ∉ unescaped (quotedBody text) := by
  unfold quotedBody
  induction text.toList with
  | nil => exact ⟨List.not_mem_nil, List.not_mem_nil⟩
  | cons c rest ih =>
    rw [List.flatMap_cons]
    obtain ⟨e, hquoted, -⟩ | ⟨hquoted, hslash, hquote, -⟩ := quotedChar_cases c
    · rwa [hquoted]
    · have hcons : unescaped (c :: rest.flatMap quotedChar) =
          c :: unescaped (rest.flatMap quotedChar) := by
        rw [unescaped]
        exact fun _ _ h => absurd h hslash
      rw [hquoted, List.singleton_append, hcons, List.mem_cons, List.mem_cons, not_or, not_or]
      exact ⟨⟨Ne.symm hquote, ih.1⟩, Ne.symm hslash, ih.2⟩

theorem newline_notMem_quotedBody (text : String) : '\n' ∉ quotedBody text := by
  intro hmem
  obtain ⟨c, -, hc⟩ := List.mem_flatMap.mp hmem
  obtain ⟨e, hquoted, -, hne, -⟩ | ⟨hquoted, -, -, hne⟩ := quotedChar_cases c
  · simp [hquoted, hne.symm] at hc
  · simp [hquoted, hne.symm] at hc

/-- Carriage returns are written as they are. -/
theorem return_mem_quotedBody_iff (text : String) :
    '\r' ∈ quotedBody text ↔ '\r' ∈ text.toList := by
  constructor
  · intro hmem
    obtain ⟨c, hc, hquoted⟩ := List.mem_flatMap.mp hmem
    obtain ⟨e, heq, -, -, hne, -⟩ | ⟨heq, -⟩ := quotedChar_cases c
    · simp [heq, hne.symm] at hquoted
    · rw [heq, List.mem_singleton] at hquoted
      exact hquoted ▸ hc
  · exact fun h => List.mem_flatMap.mpr ⟨'\r', h, by decide⟩

/-- The literal of a text is one line exactly if the text has no carriage return. -/
theorem isLiteralBody_quotedBody_iff (text : String) :
    IsLiteralBody (quotedBody text) ↔ '\r' ∉ text.toList := by
  unfold IsLiteralBody
  rw [return_mem_quotedBody_iff]
  exact ⟨fun h => h.2.1, fun h => ⟨newline_notMem_quotedBody text, h, unescaped_quotedBody text⟩⟩

/-! ### One line with quotes at its ends -/

section Template

open Text (splitLines contentLines expandLine substitute trim trimStart trimEnd isBlank)

variable {body s line name out : List Char} {vars : Text.Vars}

theorem exists_prefix_splitLines {l : List Char} (hl : '\n' ∉ l) (h : l <+: s) :
    ∃ first rest, splitLines s = first :: rest ∧ l <+: first := by
  induction l generalizing s with
  | nil =>
    obtain ⟨first, rest, hs⟩ := List.exists_cons_of_ne_nil (Text.splitLines_ne_nil s)
    exact ⟨first, rest, hs, List.nil_prefix⟩
  | cons c l ih =>
    rw [List.mem_cons, not_or] at hl
    obtain ⟨b, rfl⟩ := h
    obtain ⟨first, rest, hs, hfirst⟩ := ih hl.2 (List.prefix_append l b)
    obtain ⟨line, lines, hline, hcons⟩ := Text.splitLines_cons_of_ne (Ne.symm hl.1) (l ++ b)
    obtain ⟨rfl, rfl⟩ := List.cons.inj (hs.symm.trans hline)
    exact ⟨c :: first, rest, hcons, List.cons_prefix_cons.mpr ⟨rfl, hfirst⟩⟩

/-- What has no line feed is in one line. -/
theorem exists_infix_splitLines {l : List Char} (hl : '\n' ∉ l) (h : l <:+: s) :
    ∃ line ∈ splitLines s, l <:+: line := by
  induction s with
  | nil => exact ⟨[], List.mem_singleton_self [], h⟩
  | cons c s ih =>
    rcases List.infix_cons_iff.mp h with hprefix | hinfix
    · obtain ⟨first, rest, hs, hfirst⟩ := exists_prefix_splitLines hl hprefix
      exact ⟨first, hs ▸ List.mem_cons_self, hfirst.isInfix⟩
    · obtain ⟨line, hline, hin⟩ := ih hinfix
      by_cases hc : c = '\n'
      · exact ⟨line, by rw [splitLines, if_pos hc]; exact List.mem_cons_of_mem _ hline, hin⟩
      · obtain ⟨first, lines, hs, hcons⟩ := Text.splitLines_cons_of_ne hc s
        rw [hs, List.mem_cons] at hline
        rw [hcons]
        rcases hline with rfl | hline
        · exact ⟨c :: line, List.mem_cons_self, List.infix_cons hin⟩
        · exact ⟨line, List.mem_cons_of_mem _ hline, hin⟩

theorem infix_intercalate {α : Type} (separator : List α) {l : List α} {ls : List (List α)}
    (h : l ∈ ls) : l <:+: separator.intercalate ls := by
  induction ls with
  | nil => exact absurd h List.not_mem_nil
  | cons first rest ih =>
    cases rest with
    | nil =>
      rw [List.mem_singleton.mp h]
      simp [List.intercalate]
    | cons next rest =>
      rw [List.intercalate_cons_cons]
      rcases List.mem_cons.mp h with rfl | h
      · exact ⟨[], separator ++ separator.intercalate (next :: rest), by simp⟩
      · exact (ih h).trans (List.suffix_append _ _).isInfix

theorem joinLines_eq_intercalate : ∀ lines : List (List Char),
    Text.joinLines lines = ['\n'].intercalate lines
  | [] => rfl
  | [line] => by simp [Text.joinLines, List.intercalate]
  | line :: next :: rest => by
    rw [Text.joinLines_cons (List.cons_ne_nil _ _), joinLines_eq_intercalate (next :: rest),
      List.intercalate_cons_cons, List.append_assoc]
    rfl

theorem infix_trimStart (h : '"' :: body <:+: line) : '"' :: body <:+: trimStart line := by
  obtain ⟨a, b, rfl⟩ := h
  rw [trimStart, List.append_assoc, List.dropWhile_append]
  split
  · exact (List.prefix_append _ b).isInfix
  · exact (List.prefix_append _ b).isInfix.trans (List.suffix_append _ _).isInfix

theorem infix_trimEnd (h : body ++ ['"'] <:+: line) : body ++ ['"'] <:+: trimEnd line := by
  rw [← List.reverse_infix, List.reverse_append] at h ⊢
  rw [trimEnd, List.reverse_reverse]
  exact infix_trimStart h

/-- Blanks at the ends of a line are not part of what has quotes at its ends. -/
theorem infix_trim (h : '"' :: body ++ ['"'] <:+: line) : '"' :: body ++ ['"'] <:+: trim line :=
  infix_trimEnd (infix_trimStart h)

/-- What is on one line with quotes at its ends is in the content of a text as it is in the
text. -/
theorem infix_iff_contentLines (hbody : '\n' ∉ body) : '"' :: body ++ ['"'] <:+: s ↔
    ∃ line ∈ contentLines s, '"' :: body ++ ['"'] <:+: line := by
  constructor
  · intro h
    have hliteral : '\n' ∉ '"' :: body ++ ['"'] := by simpa using hbody
    obtain ⟨line, hline, hin⟩ := exists_infix_splitLines hliteral h
    have htrim := infix_trim hin
    refine ⟨trim line, List.mem_filter.mpr ⟨List.mem_map_of_mem hline, ?_⟩, htrim⟩
    exact decide_eq_true (htrim.ne_nil (List.cons_ne_nil _ _))
  · rintro ⟨trimmed, htrimmed, hin⟩
    obtain ⟨line, hline, rfl⟩ := List.mem_map.mp (List.mem_of_mem_filter htrimmed)
    have hsuffix : trimStart line <:+ line := List.dropWhile_suffix _
    have hprefix : trim line <+: trimStart line := by
      obtain ⟨b, -, hb⟩ := Text.exists_trimEnd_append (trimStart line)
      exact ⟨b, hb.symm⟩
    have hjoin : line <:+: ['\n'].intercalate (splitLines s) := infix_intercalate _ hline
    rw [← joinLines_eq_intercalate, Text.joinLines_splitLines] at hjoin
    exact (hin.trans hprefix.isInfix).trans (hsuffix.isInfix.trans hjoin)

/-- **A template keeps whatever is on one line with quotes at its ends.** -/
theorem infix_fill {template : String} (hbody : '\n' ∉ body)
    (hline : line ∈ splitLines template.toList) (hout : out ∈ expandLine vars line)
    (h : '"' :: body ++ ['"'] <:+: out) :
    '"' :: body ++ ['"'] <:+: (vars.fill template).toList := by
  obtain ⟨written, hwritten, hin⟩ := (infix_iff_contentLines hbody).mp h
  refine (infix_iff_contentLines hbody).mpr ⟨written, ?_, hin⟩
  rw [Text.Vars.fill, String.toList_ofList, Text.contentLines_substitute]
  exact List.mem_flatMap.mpr ⟨line, hline, List.mem_flatMap.mpr ⟨out, hout, hwritten⟩⟩

/-- A block comes into its template as it is, line by line. -/
theorem infix_fill_block {template text : String} (hbody : '\n' ∉ body)
    (hline : line ∈ splitLines template.toList)
    (hsole : Text.soleReference? (trim line) = some name)
    (hvar : vars.lookup name = some (.block text.toList))
    (h : '"' :: body ++ ['"'] <:+: text.toList) :
    '"' :: body ++ ['"'] <:+: (vars.fill template).toList := by
  have hliteral : '\n' ∉ '"' :: body ++ ['"'] := by simpa using hbody
  obtain ⟨written, hwritten, hin⟩ := exists_infix_splitLines hliteral h
  have hout : Text.indentation line ++ written ∈ expandLine vars line := by
    unfold expandLine
    rw [hsole]
    simp only [hvar]
    cases htext : text.toList with
    | nil => exact absurd (List.infix_nil.mp (htext ▸ h)) (List.cons_ne_nil _ _)
    | cons c rest => exact List.mem_map_of_mem (htext ▸ hwritten)
  exact infix_fill hbody hline hout (hin.trans (List.suffix_append _ _).isInfix)

end Template

/-! ### Texts of nodes -/

/-- The documentation that a node writes as a literal. -/
def NodeKind.documentation? : NodeKind → Option String
  | maker m => m.documentation
  | cls c => c.documentation
  | constructor c => c.documentation
  | memberVariable v => v.documentation
  | _ => none

section Texts

variable {body : List Char} {children : List ChildText} {c : ChildText} {lib : LibraryName}

theorem infix_toList_intercalate {s : String} {l : List String} (separator : String)
    (h : s ∈ l) : s.toList <:+: (separator.intercalate l).toList := by
  rw [String.toList_intercalate]
  exact infix_intercalate _ (List.mem_map_of_mem h)

theorem infix_joinChildren (before : ChildText) (h : c ∈ children) :
    c.text.toList <:+: (joinChildren before children).toList := by
  induction children generalizing before with
  | nil => exact absurd h List.not_mem_nil
  | cons first rest ih =>
    rw [joinChildren, String.toList_append, String.toList_append]
    rcases List.mem_cons.mp h with rfl | h
    · exact List.infix_append _ _ _
    · exact (ih first h).trans (List.suffix_append _ _).isInfix

theorem infix_moduleText (hbody : '\n' ∉ body) (hc : c ∈ children)
    (h : '"' :: body ++ ['"'] <:+: c.text.toList) :
    '"' :: body ++ ['"'] <:+: (moduleText children).toList := by
  have hline : "$CODE".toList ∈ Text.splitLines "$CODE".toList := by decide
  refine infix_fill_block hbody hline rfl rfl ?_
  cases children with
  | nil => exact absurd hc List.not_mem_nil
  | cons first rest =>
    rw [String.toList_append]
    rcases List.mem_cons.mp hc with rfl | hc
    · exact h.trans (List.prefix_append _ _).isInfix
    · exact (h.trans (infix_joinChildren first hc)).trans (List.suffix_append _ _).isInfix

theorem infix_moduleBodyText (name : String) (hbody : '\n' ∉ body) (hc : c ∈ children)
    (h : '"' :: body ++ ['"'] <:+: c.text.toList) :
    '"' :: body ++ ['"'] <:+: (moduleBodyText name children).toList := by
  have hline : "    $BODY".toList ∈
      Text.splitLines "BOOST_PYTHON_MODULE($NAME)\x7b\n    $BODY\n\x7d".toList := by decide
  exact infix_fill_block hbody hline rfl rfl
    (h.trans (infix_toList_intercalate _ (List.mem_map_of_mem hc)))

theorem infix_wrapperText (w : WrapperNode) (hbody : '\n' ∉ body) (hc : c ∈ children)
    (h : '"' :: body ++ ['"'] <:+: c.text.toList) :
    '"' :: body ++ ['"'] <:+: (w.text lib children).toList := by
  have hline : "    $MEMBERS".toList ∈ Text.splitLines
      "struct $ALIAS : $CLASS, $WRAPPER< $CLASS > \x7b\n\n    $MEMBERS\n\n\x7d;".toList := by
    decide
  exact infix_fill_block hbody hline rfl rfl
    (h.trans (infix_toList_intercalate _ (List.mem_map_of_mem hc)))

theorem infix_classText (d : ClassNode) (hbody : '\n' ∉ body) (hc : c ∈ children)
    (h : '"' :: body ++ ['"'] <:+: c.text.toList) :
    '"' :: body ++ ['"'] <:+: (d.text lib children).toList := by
  unfold ClassNode.text
  split
  · unfold ClassNode.scopedText
    have hstatement : c.text.toList <:+: (d.memberStatement c).toList := by
      unfold ClassNode.memberStatement
      split
      · rw [String.toList_append, String.toList_append]
        exact List.infix_append _ _ _
      · exact List.infix_rfl
    refine infix_fill_block hbody (?_ : "    $MEMBERS".toList ∈ Text.splitLines _) rfl rfl
      (h.trans (hstatement.trans (infix_toList_intercalate _ (List.mem_map_of_mem hc))))
    rw [Text.splitLines_unlines (by decide) (by decide)]
    decide
  · unfold ClassNode.chainedText
    have hline : "    $MEMBERS".toList ∈
      Text.splitLines "$CLASS_TYPE( $CTOR_ARGS )\n    $MEMBERS".toList := by decide
    rw [if_neg]
    · refine infix_fill_block hbody hline rfl rfl ?_
      have hcall : "." ++ c.text ∈ children.map ("." ++ ·.text) := List.mem_map_of_mem hc
      rw [String.toList_append]
      refine (h.trans ?_).trans ((infix_toList_intercalate "\n" hcall).trans
        (List.prefix_append _ _).isInfix)
      rw [String.toList_append]
      exact (List.suffix_append _ _).isInfix
    · rw [List.isEmpty_iff]
      exact List.ne_nil_of_mem hc

/-- **A node that is written around its children has their literals in its text.** -/
theorem infix_text_of_mem {kind : NodeKind} (hkind : kind.isCompound) (hbody : '\n' ∉ body)
    (hc : c ∈ children) (h : '"' :: body ++ ['"'] <:+: c.text.toList) :
    '"' :: body ++ ['"'] <:+: (kind.text lib children).toList := by
  cases kind with
  | module name => exact infix_moduleText hbody hc h
  | moduleBody name => exact infix_moduleBodyText name hbody hc h
  | cls d => exact infix_classText d hbody hc h
  | wrapper w => exact infix_wrapperText w hbody hc h
  | _ => cases hkind

theorem quoted_infix_fill {vars : Text.Vars} {template text args : String}
    (line front back : List Char) (hline : line ∈ Text.splitLines template.toList)
    (hout : Text.expandLine vars line = [front ++ args.toList ++ back])
    (h : (quoted text).toList <:+: args.toList) :
    (quoted text).toList <:+: (vars.fill template).toList := by
  rw [toList_quoted] at h ⊢
  exact infix_fill (newline_notMem_quotedBody text) hline (hout ▸ List.mem_singleton_self _)
    (h.trans (List.infix_append _ _ _))

theorem quoted_infix_makerText (m : MakerNode) {text : String} (h : m.documentation = some text) :
    (quoted text).toList <:+: (m.text lib).toList := by
  have hparam : quoted text ∈ m.params lib := by
    unfold MakerNode.params
    rw [h]
    exact List.mem_append_right _ (List.mem_singleton_self _)
  have hstatement : (quoted text).toList <:+: (m.statement lib).toList := by
    unfold MakerNode.statement
    refine quoted_infix_fill "    $PARAMS )".toList "    ".toList " )".toList (by decide) ?_
      (infix_toList_intercalate "\n    , " hparam)
    rfl
  unfold MakerNode.text
  split
  · have hline : "    $STATEMENT".toList ∈ Text.splitLines
        "\x7b //$FULL_NAME\n\n    $STATEMENT\n\x7d".toList := by decide
    rw [toList_quoted] at hstatement ⊢
    refine infix_fill_block (newline_notMem_quotedBody text) hline rfl rfl ?_
    rw [String.toList_append]
    exact hstatement.trans (List.prefix_append _ _).isInfix
  · exact hstatement

theorem quoted_infix_constructorText (n : ConstructorNode) {text : String}
    (h : n.documentation = some text) : (quoted text).toList <:+: (n.text lib).toList := by
  unfold ConstructorNode.text
  extract_lets args policy
  have harg : quoted text ∈ args := by
    refine List.mem_append_right _ ?_
    rw [h]
    exact List.mem_singleton_self _
  refine quoted_infix_fill "def( $INIT($INIT_ARGS)$POLICY )".toList
    ("def( ".toList ++ ((n.initType lib).toList ++ "(".toList))
    (")".toList ++ (policy.toList ++ " )".toList)) (by decide) ?_
    (infix_toList_intercalate ", " harg)
  simp only [List.append_assoc]
  rfl

theorem quoted_infix_classText (n : ClassNode) {text : String} (h : n.documentation = some text) :
    (quoted text).toList <:+: (n.text lib children).toList := by
  have harg : (quoted text).toList <:+: (n.constructorArgs lib).toList := by
    refine infix_toList_intercalate ", " (List.mem_append_left _ ?_)
    rw [h]
    exact List.mem_append_right _ (List.mem_singleton_self _)
  unfold ClassNode.text
  split
  · unfold ClassNode.scopedText
    refine quoted_infix_fill
      "    $\x7bEXPOSER\x7d_t $EXPOSER = $\x7bEXPOSER\x7d_t( $CTOR_ARGS );".toList
      ("    ".toList ++ (n.variableName.toList ++ ("_t ".toList ++
        (n.variableName.toList ++ (" = ".toList ++ (n.variableName.toList ++ "_t( ".toList))))))
      " );".toList ?_ ?_ harg
    · rw [Text.splitLines_unlines (by decide) (by decide)]
      decide
    · simp only [List.append_assoc]
      rfl
  · unfold ClassNode.chainedText
    split
    · refine quoted_infix_fill "$CLASS_TYPE( $CTOR_ARGS );".toList
        ((n.classType lib).toList ++ "( ".toList) " );".toList (by decide) ?_ harg
      simp only [List.append_assoc]
      rfl
    · refine quoted_infix_fill "$CLASS_TYPE( $CTOR_ARGS )".toList
        ((n.classType lib).toList ++ "( ".toList) " )".toList (by decide) ?_ harg
      simp only [List.append_assoc]
      rfl

theorem quoted_infix_memberVariableText (v : MemberVariableNode) {text : String}
    (h : v.documentation = some text) : (quoted text).toList <:+: v.text.toList := by
  unfold MemberVariableNode.text
  extract_lets params
  have hparam : quoted text ∈ params := by
    refine List.mem_append_right _ ?_
    rw [h]
    exact List.mem_singleton_self _
  generalize (if v.readonly then "def_readonly" else "def_readwrite") = definition
  refine quoted_infix_fill "$DEF( $PARAMS )".toList
    (definition.toList ++ "( ".toList) " )".toList (by decide) ?_
    (infix_toList_intercalate ", " hparam)
  simp only [List.append_assoc]
  rfl

/-- A node has the literal of its documentation in its text. -/
theorem quoted_infix_text {kind : NodeKind} {text : String} (h : kind.documentation? = some text) :
    (quoted text).toList <:+: (kind.text lib children).toList := by
  cases kind with
  | maker m => exact quoted_infix_makerText m h
  | cls c => exact quoted_infix_classText c h
  | constructor c => exact quoted_infix_constructorText c h
  | memberVariable v => exact quoted_infix_memberVariableText v h
  | _ => cases h

end Texts

namespace CodeTree

/-- The text of a node is put into the text of another, directly or by way of others. -/
def WritesAround (t : CodeTree) : NodeId → NodeId → Prop :=
  Relation.ReflTransGen fun q c => ∃ kind, t.kind? q = some kind ∧ c ∈ t.writtenChildren q kind

/-- A literal on one line goes into every text around it. -/
theorem WritesAround.infix_render {start : NodeKind} {changes : List Change} {body : List Char}
    {q n : NodeId} (h : ((ofKind start).changed changes).WritesAround q n) (hbody : '\n' ∉ body)
    (hn : '"' :: body ++ ['"'] <:+: (((ofKind start).changed changes).render n).1.toList) :
    '"' :: body ++ ['"'] <:+: (((ofKind start).changed changes).render q).1.toList := by
  induction h using Relation.ReflTransGen.head_induction_on with
  | refl => exact hn
  | @head q c hstep _ ih =>
    obtain ⟨kind, hkind, hc⟩ := hstep
    obtain ⟨lib, -, -, htext⟩ := render_changed_eq hkind
    rw [htext]
    have hcompound : kind.isCompound := by
      by_contra hnot
      simp [writtenChildren, hnot] at hc
    have hne : (((ofKind start).changed changes).render c).1 ≠ "" := by
      intro hempty
      rw [hempty] at ih
      exact absurd (List.infix_nil.mp ih) (List.cons_ne_nil _ _)
    have hchild : ∃ k, ((ofKind start).changed changes).kind? c = some k := by
      rw [← Option.ne_none_iff_exists']
      intro hnone
      have hget : ((ofKind start).changed changes).get? c = none := Option.map_eq_none_iff.mp hnone
      refine hne ?_
      rw [CodeTree.render, run_renderWithin_of_none hget]
    obtain ⟨k, hk⟩ := hchild
    refine infix_text_of_mem hcompound hbody (List.mem_filterMap.mpr ⟨c, hc, ?_⟩) ih
      (c := ⟨k, (((ofKind start).changed changes).render c).1⟩)
    unfold childText?
    rw [hk]
    simp [String.isEmpty_iff, hne]

/-- **A literal on its way to the module.**  The literal of a text stands for the text, without a
line feed and without a quote that has no escape; it is on one line exactly if the text has no
carriage return.  As the documentation of a node it is found, unchanged, in the text of the node and
in all texts around it, behind any run of changes. -/
theorem quoted_faithful_iff (text : String) :
    ∃ body, (quoted text).toList = '"' :: body ++ ['"'] ∧
      (IsLiteralBody body ↔ '\r' ∉ text.toList) ∧
      ('\n' ∉ body ∧ '"' ∉ unescaped body ∧ '\\' ∉ unescaped body) ∧
      literalValue? body = some text.toList ∧
      ∀ (start : NodeKind) (changes : List Change) (n q : NodeId) (kind : NodeKind),
        ((ofKind start).changed changes).kind? n = some kind →
        kind.documentation? = some text →
        ((ofKind start).changed changes).WritesAround q n →
          (quoted text).toList <:+: (((ofKind start).changed changes).render q).1.toList := by
  have hnewline := newline_notMem_quotedBody text
  refine ⟨quotedBody text, toList_quoted text, isLiteralBody_quotedBody_iff text,
    ⟨hnewline, unescaped_quotedBody text⟩, literalValue?_quotedBody text, ?_⟩
  intro start changes n q kind hkind hdoc haround
  obtain ⟨lib, -, -, htext⟩ := render_changed_eq hkind
  have hn : (quoted text).toList <:+: (((ofKind start).changed changes).render n).1.toList :=
    htext ▸ quoted_infix_text hdoc
  rw [toList_quoted] at hn ⊢
  exact haround.infix_render hnewline hn

/-- A documentation with a quote, a backslash and a line feed, in a class of a module; the text of
the class is remembered before the class comes into the module. -/
def documentedClass : List Change :=
  [.edit (.create (.cls ⟨"::A", "A", "A", none, [], false, false, none, false⟩) none),
   .edit (.create (.maker ⟨.member, "f", "::A::f", "&::A::f", none, [], .default,
     some "a \"b\" \\\n"⟩) none),
   .edit (.adopt 1 2), .edit (.render 1), .edit (.adopt root 1)]

theorem quoted_faithful_documentedClass :
    let t := (ofKind (.module "m")).changed documentedClass
    (∃ kind, t.kind? 2 = some kind ∧ kind.documentation? = some "a \"b\" \\\n" ∧
        t.WritesAround root 2) ∧
      "\"a \\\"b\\\" \\\\\\n\"".toList <:+: (t.render root).1.toList := by
  intro t
  obtain ⟨kind, hkind, hdoc⟩ : ∃ kind, t.kind? 2 = some kind ∧
      kind.documentation? = some "a \"b\" \\\n" := ⟨_, rfl, rfl⟩
  have haround : t.WritesAround root 2 :=
    .head ⟨_, rfl, List.mem_singleton_self 1⟩ (.single ⟨_, rfl, List.mem_singleton_self 2⟩)
  refine ⟨⟨kind, hkind, hdoc, haround⟩, ?_⟩
  obtain ⟨-, -, -, -, -, hall⟩ := quoted_faithful_iff "a \"b\" \\\n"
  exact hall (.module "m") documentedClass 2 root kind hkind hdoc haround

/-- A carriage return breaks the line of its literal. -/
theorem quoted_not_one_line :
    ¬ ∃ body, (quoted "a\rb").toList = '"' :: body ++ ['"'] ∧ IsLiteralBody body := by
  rintro ⟨body, hbody, hliteral⟩
  have heq : body = "a\rb".toList := by
    have hlist : '"' :: "a\rb".toList ++ ['"'] = '"' :: body ++ ['"'] := hbody
    exact (List.append_cancel_right (List.cons.inj hlist).2).symm
  exact hliteral.2.1 (heq ▸ by decide)

end CodeTree

end Bindery
