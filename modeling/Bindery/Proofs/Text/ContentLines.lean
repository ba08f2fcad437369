import Bindery.Text.Template
import Mathlib.Data.List.Forall2
import Mathlib.Data.List.TakeWhile

/-!
# The lines of a text that are not blank

Texts are put together from templates and from the texts of other nodes, and white space is put in
order on the way: lines are indented, blank lines come and go.  None of this touches the lines that
are not blank, once the blanks at their ends are left out of account.

## Main definitions

* `contentLines` — the lines that are not blank, without the blanks at their ends.
* `Spells` — a line of a template has the content of a text.

## Main results

* `contentLines_joinLines`, `contentLines_intercalate` — the lines of texts that are put one below
  the other.
* `contentLines_tidy` — **white space rules keep all content.**
* `contentLines_substitute` — **a block keeps all its content in a template**, whatever it holds.
* `contentLines_fill` — the content of a template is what its lines spell.
-/

namespace Bindery.Text

/-! ### Lines -/

/-- The lines of a text that are not blank, without the blanks at their ends. -/
def contentLines (s : List Char) : List (List Char) :=
  ((splitLines s).map trim).filter (· ≠ [])

theorem splitLines_cons_of_ne {c : Char} (h : c ≠ '\n') (s : List Char) :
    ∃ line lines, splitLines s = line :: lines ∧ splitLines (c :: s) = (c :: line) :: lines := by
  cases hs : splitLines s with
  | nil => exact absurd hs (splitLines_ne_nil s)
  | cons line lines =>
    refine ⟨line, lines, rfl, ?_⟩
    rw [splitLines, if_neg h, hs]

/-- A line feed ends a line and begins another. -/
theorem splitLines_append (a b : List Char) :
    splitLines (a ++ '\n' :: b) = splitLines a ++ splitLines b := by
  induction a with
  | nil => rfl
  | cons c a ih =>
    by_cases h : c = '\n'
    · simp only [List.cons_append, splitLines, if_pos h, ih]
    · obtain ⟨line, lines, hline, hcons⟩ := splitLines_cons_of_ne h a
      obtain ⟨line', lines', hline', hcons'⟩ := splitLines_cons_of_ne h (a ++ '\n' :: b)
      rw [ih, hline, List.cons_append, List.cons.injEq] at hline'
      rw [List.cons_append, hcons', hcons, List.cons_append, hline'.1, hline'.2]

theorem newline_notMem_of_mem_splitLines {s line : List Char} (h : line ∈ splitLines s) :
    '\n' ∉ line := by
  induction s generalizing line with
  | nil =>
    rw [List.mem_singleton.mp h]
    exact List.not_mem_nil
  | cons c s ih =>
    by_cases hc : c = '\n'
    · rw [splitLines, if_pos hc, List.mem_cons] at h
      rcases h with rfl | h
      · exact List.not_mem_nil
      · exact ih h
    · obtain ⟨first, lines, hs, hcons⟩ := splitLines_cons_of_ne hc s
      rw [hcons, List.mem_cons] at h
      rcases h with rfl | h
      · have hfirst := ih (hs ▸ List.mem_cons_self)
        simpa [hc, eq_comm] using hfirst
      · exact ih (hs ▸ List.mem_cons_of_mem first h)

theorem splitLines_of_notMem {line : List Char} (h : '\n' ∉ line) : splitLines line = [line] := by
  induction line with
  | nil => rfl
  | cons c line ih =>
    rw [List.mem_cons, not_or] at h
    rw [splitLines, if_neg (Ne.symm h.1), ih h.2]

/-! ### Blanks at the ends -/

theorem trim_append_left {b : List Char} (h : ∀ c ∈ b, isBlank c) (line : List Char) :
    trim (b ++ line) = trim line := by
  unfold trim trimStart
  rw [List.dropWhile_append_of_pos h]

theorem trimEnd_append {b : List Char} (h : ∀ c ∈ b, isBlank c) (line : List Char) :
    trimEnd (line ++ b) = trimEnd line := by
  unfold trimEnd
  rw [List.reverse_append, List.dropWhile_append_of_pos fun c hc => h c (List.mem_reverse.mp hc)]

theorem trim_append_right {b : List Char} (h : ∀ c ∈ b, isBlank c) (line : List Char) :
    trim (line ++ b) = trim line := by
  unfold trim trimStart
  rw [List.dropWhile_append]
  split
  · next hblank =>
    rw [List.isEmpty_iff] at hblank
    rw [hblank, List.dropWhile_eq_nil_iff.mpr h]
  · exact trimEnd_append h _

/-- A line is what is left when the blanks at its end are taken off, and these. -/
theorem exists_trimEnd_append (line : List Char) :
    ∃ b, (∀ c ∈ b, isBlank c) ∧ line = trimEnd line ++ b := by
  refine ⟨(line.reverse.takeWhile isBlank).reverse, ?_, ?_⟩
  · intro c hc
    exact List.mem_takeWhile_imp (List.mem_reverse.mp hc)
  · rw [trimEnd, ← List.reverse_append, List.takeWhile_append_dropWhile, List.reverse_reverse]

theorem trim_trimEnd (line : List Char) : trim (trimEnd line) = trim line := by
  obtain ⟨b, hb, hline⟩ := exists_trimEnd_append line
  exact (trim_append_right hb _).symm.trans (congrArg trim hline.symm)

/-! ### Texts one below the other -/

@[simp] theorem contentLines_nil : contentLines [] = [] := rfl

theorem contentLines_append (a b : List Char) :
    contentLines (a ++ '\n' :: b) = contentLines a ++ contentLines b := by
  unfold contentLines
  rw [splitLines_append, List.map_append, List.filter_append]

theorem contentLines_joinLines : ∀ texts : List (List Char),
    contentLines (joinLines texts) = texts.flatMap contentLines
  | [] => rfl
  | text :: texts => by
    cases htexts : texts with
    | nil => simp [joinLines]
    | cons next rest =>
      rw [← htexts, joinLines_cons (by simp [htexts]), contentLines_append,
        contentLines_joinLines texts, List.flatMap_cons]

/-- A line has no other content than itself. -/
theorem contentLines_of_notMem {line : List Char} (h : '\n' ∉ line) :
    contentLines line = [trim line].filter (· ≠ []) := by
  rw [contentLines, splitLines_of_notMem h, List.map_singleton]

/-- Blanks in front of a text are no content. -/
theorem contentLines_append_left {b : List Char} (hb : ∀ c ∈ b, isBlank c) (hn : '\n' ∉ b)
    (s : List Char) : contentLines (b ++ s) = contentLines s := by
  induction b with
  | nil => rfl
  | cons c b ih =>
    rw [List.mem_cons, not_or] at hn
    obtain ⟨line, lines, hline, hcons⟩ := splitLines_cons_of_ne (Ne.symm hn.1) (b ++ s)
    have hblank : ∀ d ∈ [c], isBlank d := fun d hd => hb d (List.mem_singleton.mp hd ▸
      List.mem_cons_self)
    rw [← ih (fun d hd => hb d (List.mem_cons_of_mem c hd)) hn.2]
    unfold contentLines
    rw [List.cons_append, hcons, hline, List.map_cons, List.map_cons]
    exact congrArg (fun l => (l :: lines.map trim).filter (· ≠ []))
      (trim_append_left hblank line)

/-- Blanks behind a line are no content. -/
theorem contentLines_trimEnd {line : List Char} (h : '\n' ∉ line) :
    contentLines (trimEnd line) = contentLines line := by
  obtain ⟨b, -, hline⟩ := exists_trimEnd_append line
  have hn : '\n' ∉ trimEnd line := fun hmem => h (hline ▸ List.mem_append_left b hmem)
  rw [contentLines_of_notMem h, contentLines_of_notMem hn, trim_trimEnd]

theorem contentLines_flatMap_splitLines (s : List Char) :
    (splitLines s).flatMap contentLines = contentLines s := by
  rw [← contentLines_joinLines, joinLines_splitLines]

/-- Texts with blank lines between them. -/
theorem contentLines_intercalate (texts : List String) :
    contentLines ("\n\n".intercalate texts).toList = texts.flatMap (contentLines ·.toList) := by
  have hlist : ∀ l : List (List Char),
      contentLines (['\n', '\n'].intercalate l) = l.flatMap contentLines := by
    intro l
    induction l with
    | nil => rfl
    | cons a l ih =>
      cases l with
      | nil => simp [List.intercalate]
      | cons b l =>
        rw [List.intercalate_cons_cons, List.append_assoc]
        show contentLines (a ++ '\n' :: ([] ++ '\n' :: ['\n', '\n'].intercalate (b :: l))) = _
        rw [contentLines_append, contentLines_append, ih]
        rfl
  rw [String.toList_intercalate]
  exact (hlist _).trans (List.flatMap_map _ _ _)

/-! ### White space rules -/

/-- A step of the white space rules adds the content of its line. -/
theorem contentLines_tidyStep {before : List (List Char)} {line : List Char} (h : '\n' ∉ line) :
    (tidyStep before line).reverse.flatMap contentLines =
      before.reverse.flatMap contentLines ++ contentLines line := by
  have hline := contentLines_trimEnd h
  unfold tidyStep
  cases before with
  | nil =>
    simp only
    split
    · next hempty =>
      rw [List.isEmpty_iff] at hempty
      rw [← hline, hempty]
      rfl
    · simp [hline]
  | cons prev rest =>
    simp only
    split
    · -- an empty line is left out
      next hempty =>
      rw [Bool.and_eq_true, List.isEmpty_iff] at hempty
      rw [← hline, hempty.1]
      simp
    · split
      · -- an empty line in front of a closing brace is taken back
        next hprev =>
        rw [Bool.and_eq_true, List.isEmpty_iff] at hprev
        simp [hprev.2, hline]
      · simp [hline]

/-- **White space rules keep all content.** -/
theorem contentLines_tidy (s : List Char) : contentLines (tidy s) = contentLines s := by
  have hfold : ∀ (lines before : List (List Char)), (∀ line ∈ lines, '\n' ∉ line) →
      (lines.foldl tidyStep before).reverse.flatMap contentLines =
        before.reverse.flatMap contentLines ++ lines.flatMap contentLines := by
    intro lines
    induction lines with
    | nil => intro before _; simp
    | cons line lines ih =>
      intro before h
      rw [List.foldl_cons, ih _ fun l hl => h l (List.mem_cons_of_mem line hl),
        contentLines_tidyStep (h line List.mem_cons_self), List.flatMap_cons, List.append_assoc]
  rw [tidy, contentLines_joinLines, tidyLines,
    hfold _ [] fun line => newline_notMem_of_mem_splitLines, contentLines_flatMap_splitLines]
  rfl

/-! ### Templates -/

/-- The content of a template with its variables replaced is what takes the place of its lines. -/
theorem contentLines_substitute (vars : Vars) (template : List Char) :
    contentLines (substitute vars template) =
      (splitLines template).flatMap fun line => (expandLine vars line).flatMap contentLines := by
  rw [substitute, contentLines_tidy, contentLines_joinLines, List.flatMap_assoc]

theorem splitLines_unlines {lines : List String} (hne : lines ≠ [])
    (h : ∀ line ∈ lines, '\n' ∉ line.toList) :
    splitLines (unlines lines).toList = lines.map String.toList := by
  have hlist : ∀ l : List (List Char), l ≠ [] → (∀ line ∈ l, '\n' ∉ line) →
      splitLines (['\n'].intercalate l) = l := by
    intro l
    induction l with
    | nil => exact fun hne _ => absurd rfl hne
    | cons a l ih =>
      intro _ hl
      have ha := splitLines_of_notMem (hl a List.mem_cons_self)
      cases l with
      | nil => simpa [List.intercalate] using ha
      | cons b l =>
        rw [List.intercalate_cons_cons, List.append_assoc]
        show splitLines (a ++ '\n' :: ['\n'].intercalate (b :: l)) = _
        rw [splitLines_append, ha, ih (List.cons_ne_nil b l)
          fun line hline => hl line (List.mem_cons_of_mem a hline)]
        rfl
  rw [unlines, String.toList_intercalate]
  refine hlist _ (by simpa using hne) fun line hline => ?_
  obtain ⟨l, hl, rfl⟩ := List.mem_map.mp hline
  exact h l hl

/-- A block takes the place of its line with all its content. -/
theorem contentLines_expandLine_block {vars : Vars} {line name text : List Char}
    (hline : '\n' ∉ line) (hsole : soleReference? (trim line) = some name)
    (hvar : vars.lookup name = some (.block text)) :
    (expandLine vars line).flatMap contentLines = contentLines text := by
  have hblank : ∀ c ∈ indentation line, isBlank c := fun c hc => List.mem_takeWhile_imp hc
  have hnot : '\n' ∉ indentation line := fun hmem =>
    hline ((List.takeWhile_prefix _).subset hmem)
  unfold expandLine
  rw [hsole]
  simp only [hvar]
  cases text with
  | nil => rfl
  | cons c text =>
    simp only
    rw [List.flatMap_map, ← contentLines_flatMap_splitLines (c :: text)]
    simp only [List.flatMap_def]
    exact congrArg List.flatten (List.map_congr_left fun l _ =>
      contentLines_append_left hblank hnot l)

/-- What takes the place of the line of a template has the content of the text. -/
def Spells (vars : Vars) (line text : String) : Prop :=
  (expandLine vars line.toList).flatMap contentLines = contentLines text.toList

theorem eq_of_mem_margin {level : Nat} {c : Char}
    (h : c ∈ (List.replicate level indentUnit).flatten) : c = ' ' := by
  obtain ⟨l, hl, hc⟩ := List.mem_flatten.mp h
  rw [List.eq_of_mem_replicate hl] at hc
  exact List.eq_of_mem_replicate (n := 4) hc

/-- A line in which only references are replaced spells the text that comes of it; how far the text
is indented does not count. -/
theorem spells_of_expandLine {vars : Vars} {line text : String} (level : Nat)
    (h : expandLine vars line.toList =
      [(List.replicate level indentUnit).flatten ++ text.toList]) : Spells vars line text := by
  have hblank : ∀ c ∈ (List.replicate level indentUnit).flatten, isBlank c := by
    intro c hc
    rw [eq_of_mem_margin hc]
    rfl
  have hnot : '\n' ∉ (List.replicate level indentUnit).flatten :=
    fun hmem => absurd (eq_of_mem_margin hmem) (by decide)
  rw [Spells, h, List.flatMap_singleton, contentLines_append_left hblank hnot]

/-- The line of a block spells the block. -/
theorem spells_block {vars : Vars} {line text : String} (name : String) (hline : '\n' ∉ line.toList)
    (hsole : soleReference? (trim line.toList) = some name.toList)
    (hvar : vars.lookup name.toList = some (.block text.toList)) : Spells vars line text :=
  contentLines_expandLine_block hline hsole hvar

/-- The content of a template is what its lines spell. -/
theorem contentLines_fill {vars : Vars} {lines texts : List String} (hne : lines ≠ [])
    (hn : ∀ line ∈ lines, '\n' ∉ line.toList) (h : List.Forall₂ (Spells vars) lines texts) :
    contentLines (vars.fill (unlines lines)).toList = texts.flatMap (contentLines ·.toList) := by
  rw [Vars.fill, String.toList_ofList, contentLines_substitute, splitLines_unlines hne hn,
    List.flatMap_map]
  clear hne hn
  induction h with
  | nil => rfl
  | cons hline _ ih => rw [List.flatMap_cons, List.flatMap_cons, ih, hline]

end Bindery.Text
