import Bindery.Manifest.Span
import Bindery.Proofs.Text.ContentLines
import Bindery.Proofs.Text.Places

/-!
# The places of options

The place of an option is found by going through the lines and adding up their lengths.  A line
comes without what ended it, and one byte is added for that, which is one too few where a carriage
return stood in front of the line feed.

## Main definitions

* `GivesOption` — a line gives an option a value.
* `OptionPlace` — a text cut where it gives an option a value.
* `returnCount` — the number of line ends with a carriage return.
* `OptionSearched` — where the search through the lines ends.
* `Span.MarksOption` — a span marks an option where it is given a value.

## Main results

* `lines_induction` — induction over the lines of a text.
* `optionSearched` — the search finds the first line with a value, and how far off it is.
* `Span.ofOption?_isSome_iff` — a place is found if a line gives the option a value.
* `Span.ofOption?_exact_iff` — **the place is off by one byte for each line in front that ends with
  a carriage return, and is exact if there are none.**
-/

namespace Bindery

open Text

/-! ### Lines -/

namespace Text

/-- A text is a line, or a line followed by a text. -/
theorem lines_induction {P : List Char → Prop} (last : ∀ s, '\n' ∉ s → P s)
    (line : ∀ l rest, '\n' ∉ l → P rest → P (l ++ '\n' :: rest)) (s : List Char) : P s := by
  induction hn : s.length using Nat.strongRecOn generalizing s with
  | ind n ih =>
    by_cases hs : '\n' ∈ s
    · obtain ⟨l, rest, rfl, hl⟩ := List.eq_append_cons_of_mem hs
      refine line l rest hl (ih rest.length ?_ rest rfl)
      rw [← hn, List.length_append, List.length_cons]
      omega
    · exact last s hs

variable {line s rest front : List Char}

/-- A line feed is the one that ends the first line, or stands behind that. -/
theorem eq_or_exists_of_append_newline (h : '\n' ∉ line)
    (heq : front ++ '\n' :: rest = line ++ '\n' :: s) :
    (front = line ∧ rest = s) ∨
      ∃ later, front = line ++ '\n' :: later ∧ s = later ++ '\n' :: rest := by
  rcases List.append_eq_append_iff.mp heq with ⟨more, rfl, hmore⟩ | ⟨more, rfl, hmore⟩
  · rcases List.cons_eq_append_iff.mp hmore with ⟨rfl, hs⟩ | ⟨more, rfl, -⟩
    · exact .inl ⟨(List.append_nil front).symm, (List.cons.inj hs).2.symm⟩
    · exact absurd (List.mem_append_right front List.mem_cons_self) h
  · rcases List.cons_eq_append_iff.mp hmore with ⟨rfl, hs⟩ | ⟨more, rfl, rfl⟩
    · exact .inl ⟨List.append_nil line, (List.cons.inj hs).2⟩
    · exact .inr ⟨more, rfl, rfl⟩

/-- A line with its carriage return, if it has one. -/
theorem dropReturn_cases (line : List Char) :
    (dropReturn line = line ∧ line.getLast? ≠ some '\r') ∨ line = dropReturn line ++ ['\r'] := by
  unfold dropReturn
  split
  · next h => exact .inr (List.dropLast_append_getLast? _ h).symm
  · next h => exact .inl ⟨rfl, h⟩

theorem textLines_of_notMem (h : '\n' ∉ s) : textLines s = if s.isEmpty then [] else [s] := by
  unfold textLines
  rw [splitLines_of_notMem h]
  rfl

theorem textLines_append (h : '\n' ∉ line) (rest : List Char) :
    textLines (line ++ '\n' :: rest) = dropReturn line :: textLines rest := by
  have hne := splitLines_ne_nil rest
  unfold textLines
  rw [splitLines_append, splitLines_of_notMem h, List.singleton_append]
  dsimp only
  rw [List.dropLast_cons_of_ne_nil hne, List.getLast?_cons_of_ne_nil hne]
  rfl

/-- The number of line feeds with a carriage return in front. -/
def returnCount (s : List Char) : Nat :=
  (splitLines s).dropLast.countP fun line => line.getLast? = some '\r'

theorem returnCount_append (h : '\n' ∉ line) (rest : List Char) :
    returnCount (line ++ '\n' :: rest) =
      returnCount rest + if line.getLast? = some '\r' then 1 else 0 := by
  unfold returnCount
  rw [splitLines_append, splitLines_of_notMem h, List.singleton_append,
    List.dropLast_cons_of_ne_nil (splitLines_ne_nil rest), List.countP_cons]
  simp

/-- A carriage return meets a line feed at the end of the first line or behind that. -/
theorem infix_append_newline_iff (h : '\n' ∉ line) (rest : List Char) :
    ['\r', '\n'] <:+: line ++ '\n' :: rest ↔
      ['\r', '\n'] <:+: rest ∨ line.getLast? = some '\r' := by
  constructor
  · rintro ⟨front, back, heq⟩
    have hsplit : (front ++ ['\r']) ++ '\n' :: back = line ++ '\n' :: rest := by simpa using heq
    rcases eq_or_exists_of_append_newline h hsplit with ⟨rfl, -⟩ | ⟨later, hlater, rfl⟩
    · exact .inr (by simp)
    · rcases List.eq_nil_or_concat later with rfl | ⟨later, c, rfl⟩
      · have hlast := congrArg List.getLast? hlater
        simp at hlast
      · have hends : front ++ ['\r'] = (line ++ '\n' :: later) ++ [c] := by simpa using hlater
        obtain rfl := List.singleton_inj.mp (List.append_inj' hends rfl).2
        exact .inl ⟨later, back, by simp⟩
  · rintro (hrest | hlast)
    · exact hrest.trans ((List.suffix_cons _ _).trans (List.suffix_append _ _)).isInfix
    · refine ⟨line.dropLast, rest, ?_⟩
      conv_rhs => rw [← List.dropLast_append_getLast? _ hlast]
      simp

/-- No line end has a carriage return if no line feed stands behind one. -/
theorem returnCount_eq_zero_iff (s : List Char) :
    returnCount s = 0 ↔ ¬ ['\r', '\n'] <:+: s := by
  induction s using lines_induction with
  | last s hs =>
    have hcount : returnCount s = 0 := by rw [returnCount, splitLines_of_notMem hs]; rfl
    exact iff_of_true hcount fun h => hs (h.subset (by simp))
  | line l rest hl ih =>
    rw [returnCount_append hl, infix_append_newline_iff hl, not_or, ← ih, Nat.add_eq_zero_iff]
    simp

/-- What is missing of a line that is taken without its carriage return. -/
theorem utf8Size_dropReturn (line : List Char) :
    utf8Size line = utf8Size (dropReturn line) + if line.getLast? = some '\r' then 1 else 0 := by
  rcases dropReturn_cases line with ⟨heq, hlast⟩ | hreturn
  · rw [heq, if_neg hlast, Nat.add_zero]
  · rw [if_pos (by rw [hreturn]; simp)]
    conv_lhs => rw [hreturn]
    simp
    rfl

end Text

variable {option line indent source : List Char}

/-- A line gives an option a value: the option stands behind the blanks that the line begins with,
and only blanks stand between it and an equals sign. -/
def GivesOption (option line indent : List Char) : Prop :=
  ∃ gap after, line = indent ++ (option ++ (gap ++ '=' :: after)) ∧
    (∀ c ∈ indent ++ gap, isBlank c) ∧ ∀ c ∈ (option ++ (gap ++ ['='])).head?, ¬ isBlank c

theorem dropWhile_isBlank {rest : List Char} (h : ∀ c ∈ indent, isBlank c)
    (hrest : ∀ c ∈ rest.head?, ¬ isBlank c) :
    indentation (indent ++ rest) = indent ∧ trimStart (indent ++ rest) = rest := by
  unfold indentation trimStart
  rw [List.takeWhile_append_of_pos h, List.dropWhile_append_of_pos h]
  cases rest with
  | nil => simp
  | cons c rest =>
    have hc := hrest c rfl
    simp [hc]

theorem isBlank_of_mem_indentation {c : Char} (h : c ∈ indentation line) : isBlank c :=
  List.mem_takeWhile_imp h

theorem not_isBlank_head_trimStart {c : Char} (h : c ∈ (trimStart line).head?) : ¬ isBlank c := by
  have hnot := List.head?_dropWhile_not isBlank line
  unfold trimStart at h
  rw [Option.mem_def.mp h] at hnot
  simpa using hnot

theorem GivesOption.indentation_eq (h : GivesOption option line indent) :
    indentation line = indent := by
  obtain ⟨gap, after, rfl, hblank, hhead⟩ := h
  refine (dropWhile_isBlank (fun c hc => hblank c (List.mem_append_left _ hc)) ?_).1
  simpa [List.head?_append] using hhead

theorem GivesOption.unique {indent' : List Char} (h : GivesOption option line indent)
    (h' : GivesOption option line indent') : indent = indent' :=
  h.indentation_eq.symm.trans h'.indentation_eq

theorem GivesOption.begins (h : GivesOption option line indent) : indent <+: line := by
  obtain ⟨gap, after, rfl, -⟩ := h
  exact List.prefix_append _ _

/-- The test of a line looks for a value of the option. -/
theorem isOptionLine_iff : isOptionLine option line ↔ ∃ indent, GivesOption option line indent := by
  unfold isOptionLine
  rw [Bool.and_eq_true, List.isPrefixOf_iff_prefix, beq_iff_eq]
  constructor
  · rintro ⟨⟨rest, hrest⟩, hvalue⟩
    rw [← hrest, List.drop_left] at hvalue
    obtain ⟨after, hafter⟩ := List.head?_eq_some_iff.mp hvalue
    have hgap : rest = indentation rest ++ '=' :: after := by
      rw [← hafter, trimStart_append_indentation]
    have hstart : ∀ c ∈ (trimStart line).head?, ¬ isBlank c :=
      fun c hc => not_isBlank_head_trimStart hc
    refine ⟨indentation line, indentation rest, after, ?_, ?_, fun c hc => hstart c ?_⟩
    · rw [← hgap, hrest, trimStart_append_indentation]
    · exact fun c hc => (List.mem_append.mp hc).elim isBlank_of_mem_indentation
        isBlank_of_mem_indentation
    · rw [← hrest, hgap]
      simpa [List.head?_append] using hc
  · rintro ⟨indent, gap, after, rfl, hblank, hhead⟩
    have htrim : trimStart (indent ++ (option ++ (gap ++ '=' :: after))) =
        option ++ (gap ++ '=' :: after) := by
      refine (dropWhile_isBlank (fun c hc => hblank c (List.mem_append_left _ hc)) ?_).2
      simpa [List.head?_append] using hhead
    have hvalue : trimStart (gap ++ '=' :: after) = '=' :: after := by
      refine (dropWhile_isBlank (fun c hc => hblank c (List.mem_append_right _ hc)) ?_).2
      intro c hc
      obtain rfl := Option.some.inj hc
      decide
    rw [htrim, List.drop_left, hvalue]
    exact ⟨List.prefix_append _ _, rfl⟩

/-- A carriage return at the end of a line does not matter for the value. -/
theorem givesOption_dropReturn :
    GivesOption option (dropReturn line) indent ↔ GivesOption option line indent := by
  rcases dropReturn_cases line with ⟨heq, -⟩ | hreturn
  · rw [heq]
  · constructor
    · rintro ⟨gap, after, hline, hblank, hhead⟩
      refine ⟨gap, after ++ ['\r'], ?_, hblank, hhead⟩
      rw [hreturn, hline]
      simp
    · rintro ⟨gap, after, hline, hblank, hhead⟩
      rw [hreturn] at hline
      rcases List.eq_nil_or_concat after with rfl | ⟨after, c, rfl⟩
      · have hlast := congrArg List.getLast? hline
        simp at hlast
      · refine ⟨gap, after, ?_, hblank, hhead⟩
        have hsplit : dropReturn line ++ ['\r'] =
            (indent ++ (option ++ (gap ++ '=' :: after))) ++ [c] := by simpa using hline
        exact (List.append_inj' hsplit rfl).1

/-! ### Places -/

/-- A text, cut around a line that gives an option a value. -/
structure OptionPlace (source option : List Char) where
  /-- The lines in front. -/
  before : List Char
  line : List Char
  rest : List Char
  /-- The blanks that the line begins with. -/
  indent : List Char
  source_eq : source = before ++ (line ++ rest)
  begins : before = [] ∨ ['\n'] <:+ before
  newline_notMem : '\n' ∉ line
  ends : rest = [] ∨ ['\n'] <+: rest
  gives : GivesOption option line indent

namespace OptionPlace

/-- What stands in front of the option. -/
def front (p : OptionPlace source option) : List Char := p.before ++ p.indent

/-- The part of the text that is the option. -/
def span (p : OptionPlace source option) : Span := ⟨utf8Size p.front, utf8Size option⟩

theorem occurs (p : OptionPlace source option) : p.front ++ option <+: source := by
  obtain ⟨gap, after, hline, -, -⟩ := p.gives
  refine ⟨gap ++ '=' :: after ++ p.rest, ?_⟩
  conv_rhs => rw [p.source_eq, hline]
  simp [front]

/-- The place in the text behind a line is a place in the whole text. -/
def behind (line : List Char) (p : OptionPlace source option) :
    OptionPlace (line ++ '\n' :: source) option where
  before := line ++ '\n' :: p.before
  line := p.line
  rest := p.rest
  indent := p.indent
  source_eq := by
    conv_lhs => rw [p.source_eq]
    simp
  begins := .inr <| p.begins.elim
    (fun h => ⟨line, by rw [h]⟩)
    fun h => h.trans ((List.suffix_cons _ _).trans (List.suffix_append line _))
  newline_notMem := p.newline_notMem
  ends := p.ends
  gives := p.gives

theorem front_behind (line : List Char) (p : OptionPlace source option) :
    (p.behind line).front = line ++ '\n' :: p.front := by
  simp [front, behind]

/-- A place in a line. -/
theorem of_notMem (h : '\n' ∉ source) (q : OptionPlace source option) :
    GivesOption option source q.front := by
  have heq := q.source_eq
  have hbefore : q.before = [] := q.begins.resolve_right fun hlines => h <| by
    rw [heq]
    exact List.mem_append_left _ (hlines.subset (List.mem_singleton.mpr rfl))
  have hrest : q.rest = [] := q.ends.resolve_right fun hnext => h <| by
    rw [heq]
    exact List.mem_append_right _
      (List.mem_append_right _ (hnext.subset (List.mem_singleton.mpr rfl)))
  rw [hbefore, hrest, List.nil_append, List.append_nil] at heq
  have hgives := q.gives
  rw [← heq] at hgives
  rwa [front, hbefore]

/-- A place is in the first line or behind it. -/
theorem first_or_behind (h : '\n' ∉ line) (q : OptionPlace (line ++ '\n' :: source) option) :
    GivesOption option line q.front ∨
      ∃ p : OptionPlace source option, q.front = line ++ '\n' :: p.front := by
  have heq := q.source_eq
  rcases q.begins with hfirst | ⟨lines, hlines⟩
  · left
    rw [hfirst, List.nil_append] at heq
    rcases q.ends with hrest | ⟨rest, hrest⟩
    · have hmem : '\n' ∈ q.line := by
        rw [hrest, List.append_nil] at heq
        rw [← heq]
        simp
      exact absurd hmem q.newline_notMem
    · rw [← hrest] at heq
      rcases eq_or_exists_of_append_newline h heq.symm with ⟨hline, -⟩ | ⟨later, hline, -⟩
      · have hgives := q.gives
        rw [hline] at hgives
        rwa [front, hfirst]
      · exact absurd (by rw [hline]; simp) q.newline_notMem
  · rw [← hlines, List.append_assoc, List.singleton_append] at heq
    have hfront : q.front = lines ++ '\n' :: q.indent := by simp [front, ← hlines]
    rcases eq_or_exists_of_append_newline h heq.symm with ⟨hline, hsource⟩ | ⟨later, hline, hsource⟩
    · refine .inr ⟨⟨[], q.line, q.rest, q.indent, hsource.symm, .inl rfl, q.newline_notMem, q.ends,
        q.gives⟩, ?_⟩
      rw [hfront, hline]
      rfl
    · refine .inr ⟨⟨later ++ ['\n'], q.line, q.rest, q.indent, by simp [hsource],
        .inr (List.suffix_append _ _), q.newline_notMem, q.ends, q.gives⟩, ?_⟩
      rw [hfront, hline]
      simp [front]

/-- The place in a text that is a line. -/
def ofLine (h : '\n' ∉ line) (hgives : GivesOption option line indent) : OptionPlace line option :=
  ⟨[], line, [], indent, by simp, .inl rfl, h, .inl rfl, hgives⟩

/-- The place in the first line of a text. -/
def ofFirst (h : '\n' ∉ line) (hgives : GivesOption option line indent) (rest : List Char) :
    OptionPlace (line ++ '\n' :: rest) option :=
  ⟨[], line, '\n' :: rest, indent, rfl, .inl rfl, h, .inr ⟨rest, rfl⟩, hgives⟩

end OptionPlace

/-- The search through the lines of a text from a place on ends at the first line with a value, if
there is one; what it has added up is one byte less for each line end with a carriage return. -/
def OptionSearched (option source : List Char) (place : Nat) : Prop :=
  (Span.ofOptionFrom? option place (textLines source) = none ∧
      IsEmpty (OptionPlace source option)) ∨
    ∃ p : OptionPlace source option, (∀ q : OptionPlace source option, p.front <+: q.front) ∧
      ∃ span, Span.ofOptionFrom? option place (textLines source) = some span ∧
        span.length = utf8Size option ∧
        span.offset + returnCount p.before = place + utf8Size p.front

theorem optionSearched_of_notMem (h : '\n' ∉ source) (option : List Char) (place : Nat) :
    OptionSearched option source place := by
  by_cases hline : isOptionLine option source
  · obtain ⟨indent, hgives⟩ := isOptionLine_iff.mp hline
    have hne : source.isEmpty = false := by
      obtain ⟨gap, after, rfl, -⟩ := hgives
      simp
    refine .inr ⟨.ofLine h hgives, fun q => ?_, ⟨place + utf8Size indent, utf8Size option⟩, ?_,
      rfl, rfl⟩
    · rw [(q.of_notMem h).unique hgives]
      exact List.prefix_rfl
    · rw [textLines_of_notMem h, hne, hgives.indentation_eq.symm]
      exact if_pos hline
  · refine .inl ⟨?_, ⟨fun q => hline (isOptionLine_iff.mpr ⟨_, q.of_notMem h⟩)⟩⟩
    rw [textLines_of_notMem h]
    split
    · rfl
    · exact if_neg hline

/-- The search ends at the first line. -/
theorem optionSearched_first (h : '\n' ∉ line) (hgives : GivesOption option line indent)
    (rest : List Char) (place : Nat) : OptionSearched option (line ++ '\n' :: rest) place := by
  refine .inr ⟨.ofFirst h hgives rest, fun q => ?_,
    ⟨place + utf8Size indent, utf8Size option⟩, ?_, rfl, rfl⟩
  · rcases q.first_or_behind h with hfirst | ⟨p, hp⟩
    · rw [hfirst.unique hgives]
      exact List.prefix_rfl
    · rw [hp]
      exact hgives.begins.trans (List.prefix_append _ _)
  · have hread := givesOption_dropReturn.mpr hgives
    rw [textLines_append h, Span.ofOptionFrom?, if_pos (isOptionLine_iff.mpr ⟨indent, hread⟩),
      hread.indentation_eq]

/-- The search goes on behind a line without a value.  The bytes of its line end that are not
counted are those of a carriage return. -/
theorem OptionSearched.behind (h : '\n' ∉ line) (hnone : ∀ indent, ¬ GivesOption option line indent)
    {place : Nat} (hrest : OptionSearched option source (place + utf8Size (dropReturn line) + 1)) :
    OptionSearched option (line ++ '\n' :: source) place := by
  have hline : ¬ isOptionLine option (dropReturn line) := fun hvalue => by
    obtain ⟨indent, hgives⟩ := isOptionLine_iff.mp hvalue
    exact hnone indent (givesOption_dropReturn.mp hgives)
  have hlater (q : OptionPlace (line ++ '\n' :: source) option) :
      ∃ p : OptionPlace source option, q.front = line ++ '\n' :: p.front :=
    (q.first_or_behind h).resolve_left (hnone _)
  have hsearch : Span.ofOptionFrom? option place (textLines (line ++ '\n' :: source)) =
      Span.ofOptionFrom? option (place + utf8Size (dropReturn line) + 1) (textLines source) := by
    rw [textLines_append h, Span.ofOptionFrom?, if_neg hline]
  rcases hrest with ⟨hfail, hempty⟩ | ⟨p, hfirst, span, hsome, hlength, hoffset⟩
  · exact .inl ⟨hsearch.trans hfail, ⟨fun q => hempty.false (hlater q).choose⟩⟩
  · refine .inr ⟨p.behind line, fun q => ?_, span, hsearch.trans hsome, hlength, ?_⟩
    · obtain ⟨p', hp'⟩ := hlater q
      rw [hp', OptionPlace.front_behind, List.prefix_append_right_inj, List.prefix_cons_inj]
      exact hfirst p'
    · have hreturn : returnCount (p.behind line).before =
          returnCount p.before + if line.getLast? = some '\r' then 1 else 0 :=
        returnCount_append h p.before
      have hsize := utf8Size_dropReturn line
      have hnewline : '\n'.utf8Size = 1 := rfl
      rw [OptionPlace.front_behind, hreturn, utf8Size_append, utf8Size_cons, hnewline]
      omega

theorem optionSearched (option source : List Char) (place : Nat) :
    OptionSearched option source place := by
  induction source using lines_induction generalizing place with
  | last s hs => exact optionSearched_of_notMem hs option place
  | line l rest hl ih =>
    by_cases hline : ∃ indent, GivesOption option l indent
    · obtain ⟨indent, hgives⟩ := hline
      exact optionSearched_first hl hgives rest place
    · exact .behind hl (not_exists.mp hline) (ih _)

namespace Span

/-- A span marks an option: it has the bytes of the option, and they stand where the text gives the
option a value. -/
def MarksOption (s : Span) (source option : String) : Prop :=
  StandsAt option source s.offset s.length ∧
    ∃ p : OptionPlace source.toList option.toList, s = p.span

theorem marksOption_span {source option : String}
    (p : OptionPlace source.toList option.toList) : p.span.MarksOption source option :=
  ⟨standsAt_behind p.occurs, p, rfl⟩

/-- A place is found if a line gives the option a value. -/
theorem ofOption?_isSome_iff {source option : String} :
    (ofOption? source option).isSome ↔ Nonempty (OptionPlace source.toList option.toList) := by
  unfold ofOption?
  rcases optionSearched option.toList source.toList 0 with
    ⟨hnone, hempty⟩ | ⟨p, -, span, hsome, -⟩
  · rw [hnone]
    exact iff_of_false Bool.false_ne_true fun ⟨p⟩ => hempty.false p
  · rw [hsome]
    exact iff_of_true rfl ⟨p⟩

/-- **The place that is found belongs to the first line that gives the option a value.  It is off by
one byte for each line in front that ends with a carriage return, and marks the option if there are
none.** -/
theorem ofOption?_exact_iff {source option : String} {span : Span}
    (h : ofOption? source option = some span) :
    ∃ p : OptionPlace source.toList option.toList,
      (∀ q : OptionPlace source.toList option.toList, p.front <+: q.front) ∧
      span.length = p.span.length ∧ span.offset + returnCount p.before = p.span.offset ∧
      (span.MarksOption source option ↔ ¬ ['\r', '\n'] <:+: p.before) := by
  unfold ofOption? at h
  rcases optionSearched option.toList source.toList 0 with
    ⟨hnone, -⟩ | ⟨p, hfirst, found, hsome, hlength, hoffset⟩
  · exact nomatch hnone.symm.trans h
  · obtain rfl := Option.some.inj (hsome.symm.trans h)
    rw [Nat.zero_add] at hoffset
    refine ⟨p, hfirst, hlength, hoffset, ?_⟩
    rw [← returnCount_eq_zero_iff]
    constructor
    · rintro ⟨-, q, rfl⟩
      have hle : utf8Size p.front ≤ utf8Size q.front := utf8Size_le_of_prefix (hfirst q)
      have hq : q.span.offset = utf8Size q.front := rfl
      omega
    · intro hzero
      have hspan : found = p.span := by
        rw [hzero, Nat.add_zero] at hoffset
        cases found
        exact congrArg₂ Span.mk hoffset hlength
      exact hspan ▸ marksOption_span p

/-- Lines that end with line feeds, with indentation and characters of several bytes. -/
def indentedOption : String := "# größe\n\n\u00a0 max_arity\t= 0\n"

theorem ofOption?_exact_indentedOption :
    ofOption? indentedOption "max_arity" = some ⟨14, 9⟩ ∧
      (⟨14, 9⟩ : Span).MarksOption indentedOption "max_arity" := by
  have h : ofOption? indentedOption "max_arity" = some ⟨14, 9⟩ := by decide +kernel
  obtain ⟨p, -, -, -, hexact⟩ := ofOption?_exact_iff h
  refine ⟨h, hexact.mpr fun hreturn => ?_⟩
  have hmem : '\r' ∈ indentedOption.toList := by
    rw [p.source_eq]
    exact List.mem_append_left _ (hreturn.subset List.mem_cons_self)
  exact absurd hmem (by decide +kernel)

/-- Two lines that end with a carriage return stand in front of the option. -/
theorem ofOption?_not_exact : ∃ span,
    ofOption? "[module]\r\nname = \"x\"\r\nmax_arity = 0\r\n" "max_arity" = some span ∧
      ¬ span.MarksOption "[module]\r\nname = \"x\"\r\nmax_arity = 0\r\n" "max_arity" :=
  ⟨⟨20, 9⟩, by decide +kernel, fun h => absurd h.1.2 (by decide +kernel)⟩

end Span

end Bindery
