import Bindery.Proofs.Text.ContentLines
import Mathlib.Data.List.Chain
import Mathlib.Data.List.DropRight

/-!
# White space in order

The white space rules look at one line after the other and may take back a blank line that they
have let pass.  Still, what they leave is in order everywhere, and they leave alone what is in order
already: texts in order are exactly the texts that the rules do not change.

## Main definitions

* `MayFollow` — what the rules say about two lines, one below the other.
* `IsTidy` — a text with white space in order.
* `Ordered` — the lines of such a text.

## Main results

* `Ordered.tidyStep` — one more line keeps the lines in order, also where a blank line is taken back.
* `tidy_eq_self_iff` — the rules change exactly the texts that are not in order.
* `substitute_isTidy` — **a template with its variables replaced is in order**, and without a dollar
  sign it is its own replacement.
-/

namespace Bindery.Text

/-! ### Texts in order -/

/-- A blank line stands neither below another nor below a line that ends in an opening brace, nor
above a line that begins with a closing one. -/
def MayFollow (above below : List Char) : Prop :=
  (isAllBlank below → ¬ isAllBlank above ∧ ¬ endsOpen above) ∧
    (isAllBlank above → ¬ startsClosed below)

/-- A text with white space in order. -/
structure IsTidy (text : List Char) : Prop where
  /-- No line ends in a blank character. -/
  trimmed : ∀ line ∈ splitLines text, ∀ c ∈ line.getLast?, ¬ isBlank c
  /-- No text but the empty one begins with a blank line. -/
  first : text ≠ [] → ∀ line ∈ (splitLines text).head?, ¬ isAllBlank line
  adjacent : (splitLines text).IsChain MayFollow

/-- Lines with white space in order.  There may be none at all. -/
structure Ordered (lines : List (List Char)) : Prop where
  unbroken : ∀ line ∈ lines, '\n' ∉ line
  trimmed : ∀ line ∈ lines, trimEnd line = line
  first : lines.head? ≠ some []
  adjacent : lines.IsChain MayFollow

variable {vars : Vars} {text line prev : List Char} {lines before : List (List Char)}

/-! ### Lines and their ends -/

theorem splitLines_joinLines (hne : lines ≠ []) (h : ∀ line ∈ lines, '\n' ∉ line) :
    splitLines (joinLines lines) = lines := by
  induction lines with
  | nil => exact absurd rfl hne
  | cons line lines ih =>
    have hline := splitLines_of_notMem (h line List.mem_cons_self)
    by_cases hnil : lines = []
    · rw [hnil]
      exact hline
    · rw [joinLines_cons hnil, splitLines_append, hline,
        ih hnil fun l hl => h l (List.mem_cons_of_mem line hl)]
      rfl

theorem subset_joinLines (h : line ∈ lines) : line ⊆ joinLines lines := by
  induction lines with
  | nil => cases h
  | cons first lines ih =>
    by_cases hnil : lines = []
    · rw [hnil, List.mem_singleton] at h
      rw [hnil, h]
      exact List.Subset.refl first
    · rw [joinLines_cons hnil]
      intro c hc
      rcases List.mem_cons.mp h with rfl | h
      · exact List.mem_append_left _ hc
      · exact List.mem_append_right first (List.mem_cons_of_mem _ (ih h hc))

theorem trimEnd_subset (line : List Char) : trimEnd line ⊆ line :=
  (List.rdropWhile_prefix (p := isBlank) (l := line)).subset

theorem trimEnd_trimEnd (line : List Char) : trimEnd (trimEnd line) = trimEnd line :=
  List.rdropWhile_idempotent isBlank line

theorem trimEnd_eq_self_iff : trimEnd line = line ↔ ∀ c ∈ line.getLast?, ¬ isBlank c := by
  refine List.rdropWhile_eq_self_iff.trans ⟨fun h c hc => ?_, fun h hne => ?_⟩
  · have hne : line ≠ [] := fun hnil => by simp [hnil] at hc
    rw [List.getLast?_eq_some_getLast hne] at hc
    exact Option.some.inj hc ▸ h hne
  · exact h _ (List.getLast?_eq_some_getLast hne)

/-- The blanks of a blank line all stand at its end. -/
theorem isAllBlank_iff (h : trimEnd line = line) : isAllBlank line ↔ line = [] := by
  rw [isAllBlank, List.all_eq_true, ← List.rdropWhile_eq_nil_iff]
  exact ⟨fun hnil => h.symm.trans hnil, fun hnil => h.trans hnil⟩

/-- A line that begins with a closing brace is not blank. -/
theorem not_isAllBlank_of_startsClosed (h : startsClosed line) : ¬ isAllBlank line := by
  intro hblank
  have hnil : trimStart line = [] := by
    rw [trimStart, List.dropWhile_eq_nil_iff]
    exact List.all_eq_true.mp hblank
  rw [startsClosed, hnil] at h
  cases h

/-! ### One more line -/

theorem ordered_nil : Ordered [] where
  unbroken := nofun
  trimmed := nofun
  first := nofun
  adjacent := .nil

theorem Ordered.of_append_left {rest : List (List Char)} (h : Ordered (lines ++ rest)) :
    Ordered lines where
  unbroken l hl := h.unbroken l (List.mem_append_left rest hl)
  trimmed l hl := h.trimmed l (List.mem_append_left rest hl)
  first := by
    have hfirst := h.first
    cases lines with
    | nil => nofun
    | cons => exact hfirst
  adjacent := h.adjacent.left_of_append

/-- Lines in order, and one that may follow the last of them. -/
theorem Ordered.concat (h : Ordered lines) (hline : '\n' ∉ line) (htrimmed : trimEnd line = line)
    (hfirst : lines = [] → line ≠ []) (hlast : ∀ last ∈ lines.getLast?, MayFollow last line) :
    Ordered (lines ++ [line]) where
  unbroken l hl := (List.mem_append.mp hl).elim (h.unbroken l)
    fun hl => List.mem_singleton.mp hl ▸ hline
  trimmed l hl := (List.mem_append.mp hl).elim (h.trimmed l)
    fun hl => (List.mem_singleton.mp hl).symm ▸ htrimmed
  first := by
    cases hlines : lines with
    | nil => simpa using hfirst hlines
    | cons first rest => simpa [hlines] using h.first
  adjacent := by
    refine List.isChain_append.mpr ⟨h.adjacent, .singleton line, fun last hl next hnext => ?_⟩
    obtain rfl : line = next := by simpa using hnext
    exact hlast last hl

/-- **One more line keeps the lines in order.** -/
theorem Ordered.tidyStep (h : Ordered before.reverse) (hline : '\n' ∉ line) :
    Ordered (tidyStep before line).reverse := by
  have hunbroken : '\n' ∉ trimEnd line := fun hmem => hline (trimEnd_subset line hmem)
  have htrimmed := trimEnd_trimEnd line
  unfold Text.tidyStep
  cases before with
  | nil =>
    simp only
    split
    · exact ordered_nil
    · next hempty =>
      rw [List.isEmpty_iff] at hempty
      exact ordered_nil.concat hunbroken htrimmed (fun _ => hempty) nofun
  | cons prev rest =>
    rw [List.reverse_cons] at h
    have hprev : trimEnd prev = prev := h.trimmed prev (by simp)
    simp only
    split
    · -- a blank line is left out
      rw [List.reverse_cons]
      exact h
    · next hkept =>
      rw [Bool.and_eq_true, Bool.or_eq_true, List.isEmpty_iff, List.isEmpty_iff] at hkept
      split
      · -- a blank line is taken back: the line in front of it is not blank, for the two were in order
        next hclosed =>
        rw [Bool.and_eq_true, List.isEmpty_iff] at hclosed
        obtain ⟨hclosed, rfl⟩ := hclosed
        have hne := not_isAllBlank_of_startsClosed hclosed
        rw [List.reverse_cons]
        refine h.of_append_left.concat hunbroken htrimmed (fun _ hnil => hne ?_) ?_
        · rw [hnil]
          rfl
        · intro last hlast
          have hfollow : MayFollow last [] :=
            (List.isChain_append.mp h.adjacent).2.2 last hlast [] (by simp)
          exact ⟨fun hblank => absurd hblank hne, fun hblank => absurd hblank (hfollow.1 rfl).1⟩
      · next hopen =>
        rw [Bool.and_eq_true, List.isEmpty_iff, not_and] at hopen
        rw [List.reverse_cons, List.reverse_cons]
        refine h.concat hunbroken htrimmed (by simp) fun last hlast => ?_
        obtain rfl : prev = last := by simpa using hlast
        rw [MayFollow, isAllBlank_iff htrimmed, isAllBlank_iff hprev]
        exact ⟨fun hnil => not_or.mp fun hor => hkept ⟨hnil, hor⟩,
          fun hnil hclosed => hopen hclosed hnil⟩

theorem ordered_tidyLines (h : ∀ line ∈ lines, '\n' ∉ line) : Ordered (tidyLines lines) := by
  have hfold : ∀ (lines before : List (List Char)), (∀ line ∈ lines, '\n' ∉ line) →
      Ordered before.reverse → Ordered (lines.foldl tidyStep before).reverse := by
    intro lines
    induction lines with
    | nil => exact fun before _ h => h
    | cons line lines ih =>
      intro before hlines h
      exact ih _ (fun l hl => hlines l (List.mem_cons_of_mem line hl))
        (h.tidyStep (hlines line List.mem_cons_self))
  exact hfold lines [] h ordered_nil

/-! ### Lines that are in order already -/

/-- A line that may follow the last one joins the lines as it is. -/
theorem Ordered.tidyStep_eq (h : Ordered (before.reverse ++ [line])) :
    Text.tidyStep before line = line :: before := by
  have htrimmed : trimEnd line = line := h.trimmed line (by simp)
  unfold Text.tidyStep
  rw [htrimmed]
  cases before with
  | nil =>
    have hne : line ≠ [] := by simpa using h.first
    simp [hne]
  | cons prev rest =>
    have hprev : trimEnd prev = prev := h.trimmed prev (by simp)
    have hfollow : MayFollow prev line :=
      (List.isChain_append.mp h.adjacent).2.2 prev (by simp) line (by simp)
    rw [MayFollow, isAllBlank_iff htrimmed, isAllBlank_iff hprev] at hfollow
    simp only
    rw [if_neg, if_neg]
    · rw [Bool.and_eq_true, List.isEmpty_iff]
      exact fun hand => hfollow.2 hand.2 hand.1
    · rw [Bool.and_eq_true, Bool.or_eq_true, List.isEmpty_iff, List.isEmpty_iff]
      exact fun hand => hand.2.elim (hfollow.1 hand.1).1 (hfollow.1 hand.1).2

theorem Ordered.tidyLines_eq (h : Ordered lines) : tidyLines lines = lines := by
  have hfold : ∀ lines : List (List Char), Ordered lines →
      lines.foldl Text.tidyStep [] = lines.reverse := by
    intro lines
    induction lines using List.reverseRecOn with
    | nil => exact fun _ => rfl
    | append_singleton lines line ih =>
      intro h
      rw [List.foldl_append, ih h.of_append_left, List.reverse_concat]
      exact Ordered.tidyStep_eq (by rwa [List.reverse_reverse])
  rw [tidyLines, hfold lines h, List.reverse_reverse]

/-! ### Texts -/

theorem isTidy_nil : IsTidy [] where
  trimmed line hline := by
    rw [List.mem_singleton.mp hline]
    nofun
  first h := absurd rfl h
  adjacent := .singleton []

theorem Ordered.isTidy (h : Ordered lines) : IsTidy (joinLines lines) := by
  by_cases hne : lines = []
  · rw [hne]
    exact isTidy_nil
  · have hlines := splitLines_joinLines hne h.unbroken
    refine ⟨?_, fun _ line hline hblank => ?_, ?_⟩
    · rw [hlines]
      exact fun line hline => trimEnd_eq_self_iff.mp (h.trimmed line hline)
    · rw [hlines] at hline
      rw [isAllBlank_iff (h.trimmed line (List.mem_of_mem_head? hline))] at hblank
      exact h.first (hblank ▸ hline)
    · rw [hlines]
      exact h.adjacent

theorem IsTidy.ordered (h : IsTidy text) (hne : text ≠ []) : Ordered (splitLines text) where
  unbroken _ := newline_notMem_of_mem_splitLines
  trimmed line hline := trimEnd_eq_self_iff.mpr (h.trimmed line hline)
  first hhead := h.first hne [] hhead rfl
  adjacent := h.adjacent

theorem isTidy_tidy (text : List Char) : IsTidy (tidy text) :=
  (ordered_tidyLines fun _ => newline_notMem_of_mem_splitLines).isTidy

/-- The white space rules change exactly the texts that are not in order. -/
theorem tidy_eq_self_iff : tidy text = text ↔ IsTidy text := by
  refine ⟨fun h => h ▸ isTidy_tidy text, fun h => ?_⟩
  by_cases hne : text = []
  · rw [hne]
    rfl
  · rw [tidy, (h.ordered hne).tidyLines_eq, joinLines_splitLines]

/-! ### Templates -/

theorem soleReference?_of_notMem (h : '$' ∉ line) : soleReference? line = none := by
  unfold soleReference?
  split
  · simp at h
  · simp at h
  · rfl

theorem expand_of_notMem (h : '$' ∉ line) : expand vars line = line := by
  unfold expand
  induction line with
  | nil => rfl
  | cons c line ih =>
    rw [List.mem_cons, not_or] at h
    rw [expandFrom, if_neg (Ne.symm h.1), ih h.2]

theorem expandLine_of_notMem (h : '$' ∉ line) : expandLine vars line = [line] := by
  have htrim : '$' ∉ trim line := fun hmem =>
    h ((List.dropWhile_suffix _).subset (trimEnd_subset _ hmem))
  rw [expandLine, soleReference?_of_notMem htrim, expand_of_notMem h]

/-- A template without a dollar sign refers to no variable. -/
theorem substitute_of_notMem (h : '$' ∉ text) : substitute vars text = tidy text := by
  have hlines : (splitLines text).flatMap (expandLine vars) = splitLines text := by
    have hline : ∀ line ∈ splitLines text, expandLine vars line = [line] := by
      intro line hline
      refine expandLine_of_notMem fun hmem => h ?_
      rw [← joinLines_splitLines text]
      exact subset_joinLines hline hmem
    rw [List.flatMap_congr hline]
    exact List.flatMap_singleton' _
  rw [substitute, hlines, joinLines_splitLines]

/-- **A template with its variables replaced is in order.**  Texts in order are exactly those that
the white space rules leave alone, so that the rules change nothing the second time; and where no
dollar sign is left, nor does a second replacement, whatever the variables are. -/
theorem substitute_isTidy (vars : Vars) (template : List Char) :
    IsTidy (substitute vars template) ∧
      (∀ text, tidy text = text ↔ IsTidy text) ∧
      (∀ text, tidy (tidy text) = tidy text) ∧
      ('$' ∉ substitute vars template →
        ∀ vars', substitute vars' (substitute vars template) = substitute vars template) := by
  have htidy : IsTidy (substitute vars template) := isTidy_tidy _
  refine ⟨htidy, fun _ => tidy_eq_self_iff, fun text => tidy_eq_self_iff.mpr (isTidy_tidy text), ?_⟩
  intro hmem vars'
  rw [substitute_of_notMem hmem, tidy_eq_self_iff.mpr htidy]

/-- A body with blank lines behind its opening brace, inside, and in front of its closing brace keeps
one of them, which no further replacement changes. -/
theorem substitute_isTidy_body :
    let vars : Vars := [block "DECLS" "int x;\n", block "PRE" "", scalar "RET" "return x;"]
    let template := "\n\nf()\x7b\n\n    $DECLS\n\n\n    $PRE\n\n    $RET   \n\n\x7d".toList
    let text := "f()\x7b\n    int x;\n\n    return x;\n\x7d".toList
    substitute vars template = text ∧ '$' ∉ text ∧ IsTidy text ∧
      ∀ vars', substitute vars' text = text := by
  intro vars template text
  have htext : substitute vars template = text := by decide +kernel
  have hmem : '$' ∉ text := by decide +kernel
  have h := substitute_isTidy vars template
  rw [htext] at h
  exact ⟨htext, hmem, h.1, h.2.2.2 hmem⟩

end Bindery.Text
