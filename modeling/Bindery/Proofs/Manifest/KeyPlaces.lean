import Bindery.Manifest.Span
import Bindery.Proofs.Text.Places

/-!
# The places of the names of declarations

A manifest names declarations in the headers of tables and in front of equals signs.  The search
looks for the name with what belongs around it, and then for the name in what it has found.  It so
finds the name where it stands, unless the text in front of it can be read as the name as well: the
`d` of `decls."d"` stands in front of the quotes, too.

## Main definitions

* `NamesAt` — the places where a text names declarations.
* `keyPattern?` — the pattern with which the search finds a name.
* `Overlaps` — an end of a text can be read as the beginning of a name that follows it.
* `Span.StartsAtKey` — a span starts where a text names declarations.

## Main results

* `firstAt_opening_iff` — a name is found behind an opening if the two do not overlap.
* `eq_opening_of_namesAt` — a name found too early stands at no place that names declarations.
* `Span.ofKey?_exact_iff` — **the name is found, and it is found where the text names declarations
  exactly if it does not overlap with what belongs in front of it.**
-/

namespace Bindery

open Text

/-! ### Overlaps -/

/-- An end of a text can be read as the beginning of a name that follows it. -/
def Overlaps (opening name : List Char) : Prop :=
  ∃ w, w ≠ [] ∧ w <:+ opening ∧ name <+: w ++ name

section overlaps

variable {name opening closing front w : List Char}

/-- A name begins nowhere inside an opening in which its first character does not occur. -/
theorem not_overlaps_of_head {c : Char} (hc : c ∈ name.head?) (hopening : c ∉ opening) :
    ¬ Overlaps opening name := by
  rintro ⟨w, hw, hend, hread⟩
  obtain ⟨d, w, rfl⟩ := List.exists_cons_of_ne_nil hw
  obtain ⟨rest, rfl⟩ := List.head?_eq_some_iff.mp (Option.mem_def.mp hc)
  obtain ⟨rfl, -⟩ := List.cons_prefix_cons.mp hread
  exact hopening (hend.subset List.mem_cons_self)

/-- A name that repeats an opening has no other characters than that. -/
theorem mem_of_prefix_append_self (hw : w ≠ []) (h : name <+: w ++ name) :
    ∀ c ∈ name, c ∈ w := by
  induction hn : name.length using Nat.strongRecOn generalizing name with
  | ind n ih =>
    rcases List.prefix_or_prefix_of_prefix h (List.prefix_append w name) with hshort | ⟨rest, rfl⟩
    · exact fun c hc => hshort.subset hc
    · have hrest : rest <+: w ++ rest := (List.prefix_append_right_inj w).mp h
      have hlt : rest.length < n := by
        have := List.length_pos_iff.mpr hw
        rw [← hn, List.length_append]
        omega
      exact fun c hc => (List.mem_append.mp hc).elim id (ih rest.length hlt hrest rfl c)

/-- What follows a name that is read from an opening is read from the opening, the name in it or
what follows that. -/
theorem mem_of_prefix_append {l back : List Char} (hopening : opening ≠ [])
    (hname : name <+: opening ++ name) (hl : name ++ l <+: opening ++ name ++ (closing ++ back))
    (hlen : l.length ≤ (opening ++ closing).length) : ∀ c ∈ l, c ∈ opening ++ closing := by
  intro c hc
  have hwithin : opening ++ name ++ closing <+: opening ++ name ++ (closing ++ back) :=
    (List.prefix_append_right_inj _).mpr (List.prefix_append closing back)
  have hin : name ++ l <+: opening ++ name ++ closing :=
    List.prefix_of_prefix_length_le hl hwithin (by
      simp only [List.length_append] at hlen ⊢
      omega)
  rcases List.mem_append.mp (hin.subset (List.mem_append_right name hc)) with hc | hc
  · refine List.mem_append_left closing ((List.mem_append.mp hc).elim id ?_)
    exact mem_of_prefix_append_self hopening hname c
  · exact List.mem_append_right opening hc

/-- A name is found behind an opening if the two do not overlap. -/
theorem firstAt_opening_iff (h : FirstAt name (opening ++ name ++ closing) front) :
    front = opening ↔ ¬ Overlaps opening name := by
  constructor
  · rintro rfl ⟨w, hw, ⟨early, hearly⟩, hread⟩
    -- the name can be read in front of where it stands first
    have hoccurs : early ++ name <+: front ++ name ++ closing := by
      rw [← hearly, List.append_assoc early, List.append_assoc]
      exact (List.prefix_append_right_inj early).mpr (hread.trans (List.prefix_append _ _))
    have hle := (h.2 early hoccurs).length_le
    have := List.length_pos_iff.mpr hw
    rw [← hearly, List.length_append] at hle
    omega
  · intro hapart
    obtain ⟨w, hw⟩ := h.2 opening (List.prefix_append _ _)
    by_contra hne
    refine hapart ⟨w, fun hnil => hne (by simpa [hnil] using hw), ⟨front, hw⟩, ?_⟩
    have hname := h.1
    rw [← hw, List.append_assoc front, List.append_assoc front,
      List.prefix_append_right_inj] at hname
    exact List.prefix_of_prefix_length_le hname (List.prefix_append _ _) (by simp)

end overlaps

/-! ### Names and patterns -/

variable {name source front : List Char} {p : List Char × List Char}

/-- Behind `front` a text names declarations: in the header of a table, or in quotes with only
blanks between them and an equals sign. -/
inductive NamesAt (name source front : List Char) : Prop
  | header (quote : Char) : quote = '"' ∨ quote = '\'' → "decls.".toList ++ [quote] <:+ front →
      front ++ name ++ [quote] <+: source → NamesAt name source front
  | entry (gap : List Char) : ['"'] <:+ front → (∀ c ∈ gap, isBlank c) →
      front ++ name ++ '"' :: (gap ++ ['=']) <+: source → NamesAt name source front

theorem NamesAt.begins (h : NamesAt name source front) : front <+: source := by
  rcases h with ⟨_, _, _, h⟩ | ⟨_, _, _, h⟩
  · exact (List.prefix_append _ _).trans (List.append_assoc .. ▸ h)
  · exact (List.prefix_append _ _).trans (List.append_assoc .. ▸ h)

/-- A quote stands in front of the name. -/
theorem NamesAt.quoted (h : NamesAt name source front) :
    ∃ quote, (quote = '"' ∨ quote = '\'') ∧ [quote] <:+ front := by
  rcases h with ⟨quote, hquote, hend, -⟩ | ⟨-, hend, -, -⟩
  · exact ⟨quote, hquote, (List.suffix_append _ _).trans hend⟩
  · exact ⟨'"', .inl rfl, hend⟩

/-- The pattern with which the search finds a name. -/
def keyPattern? (name source : List Char) : Option (List Char × List Char) :=
  keyPatterns.find? fun p => p.1 ++ name ++ p.2 <:+: source

/-- The pattern of a header, with the quotes that it has. -/
def headerPattern (quote : Char) : List Char × List Char := ("decls.".toList ++ [quote], [quote])

theorem keyPatterns_eq : keyPatterns = [headerPattern '"', headerPattern '\'',
    (['"'], "\" =".toList), (['"'], "\"=".toList)] := by decide

theorem mem_keyPatterns (h : keyPattern? name source = some p) : p ∈ keyPatterns :=
  List.mem_of_find?_eq_some h

theorem infix_of_keyPattern? (h : keyPattern? name source = some p) :
    p.1 ++ name ++ p.2 <:+: source := by
  have hfound := List.find?_some h
  exact of_decide_eq_true hfound

/-- A text names declarations where it has a pattern. -/
theorem namesAt_of_mem_keyPatterns (hp : p ∈ keyPatterns)
    (h : front ++ (p.1 ++ name ++ p.2) <+: source) : NamesAt name source (front ++ p.1) := by
  have hoccurs : front ++ p.1 ++ name ++ p.2 <+: source := by simpa using h
  rw [keyPatterns_eq] at hp
  rcases List.mem_cons.mp hp with rfl | hp
  · exact .header '"' (.inl rfl) (List.suffix_append _ _) hoccurs
  rcases List.mem_cons.mp hp with rfl | hp
  · exact .header '\'' (.inr rfl) (List.suffix_append _ _) hoccurs
  rcases List.mem_cons.mp hp with rfl | hp
  · exact .entry [' '] (List.suffix_append _ _) (List.forall_mem_singleton.mpr rfl) hoccurs
  · obtain rfl := List.mem_singleton.mp hp
    exact .entry [] (List.suffix_append _ _) (List.forall_mem_nil _) hoccurs

/-- What belongs in front of a name begins earlier than the name. -/
theorem exists_early {opening closing : List Char} (hend : opening <:+ front)
    (h : front ++ name ++ closing <+: source) :
    ∃ early, early ++ opening = front ∧ early ++ (opening ++ name ++ closing) <+: source := by
  obtain ⟨early, rfl⟩ := hend
  exact ⟨early, rfl, by simpa using h⟩

/-- Without a pattern, a name may only stand in quotes with some blanks behind. -/
theorem infix_quoted_of_namesAt (hp : keyPattern? name source = none)
    (h : NamesAt name source front) : ['"'] ++ name ++ ['"'] <:+: source := by
  have hnone (quote : Char) (hmem : headerPattern quote ∈ keyPatterns) :
      ¬ (headerPattern quote).1 ++ name ++ (headerPattern quote).2 <:+: source := by
    simpa using List.find?_eq_none.mp hp _ hmem
  rcases h with ⟨quote, hquote, hend, hoccurs⟩ | ⟨gap, hend, -, hoccurs⟩
  · have hmem : headerPattern quote ∈ keyPatterns := by rcases hquote with rfl | rfl <;> decide
    obtain ⟨early, -, hheader⟩ := exists_early hend hoccurs
    exact absurd ((List.suffix_append early _).isInfix.trans hheader.isInfix) (hnone quote hmem)
  · obtain ⟨early, -, hentry⟩ := exists_early hend hoccurs
    have hquoted : ['"'] ++ name ++ ['"'] <+: ['"'] ++ name ++ '"' :: (gap ++ ['=']) :=
      (List.prefix_append_right_inj _).mpr (List.prefix_append ['"'] _)
    exact hquoted.isInfix.trans ((List.suffix_append early _).isInfix.trans hentry.isInfix)

/-- Headers are looked for before anything else. -/
theorem eq_or_not_infix_header (h : keyPattern? name source = some p) {quote : Char}
    (hquote : quote = '"' ∨ quote = '\'') (hmem : quote ∈ p.1) :
    p = headerPattern quote ∨
      ¬ (headerPattern quote).1 ++ name ++ (headerPattern quote).2 <:+: source := by
  unfold keyPattern? at h
  rw [keyPatterns_eq, List.find?_cons] at h
  split at h
  · next hdouble =>
    obtain rfl := Option.some.inj h
    rcases hquote with rfl | rfl
    · exact .inl rfl
    · exact absurd hmem (by decide)
  · next hdouble =>
    have hdouble := of_decide_eq_false hdouble
    rcases hquote with rfl | rfl
    · exact .inr hdouble
    · rw [List.find?_cons] at h
      split at h
      · next hsingle => exact .inl (Option.some.inj h).symm
      · next hsingle => exact .inr (of_decide_eq_false hsingle)

/-- The quotes stand at the end of what belongs in front of a name. -/
theorem not_quote_of_prefix (hp : p ∈ keyPatterns) {f : List Char} (hf : f <+: p.1)
    (hne : f ≠ p.1) {quote : Char} (hquote : quote = '"' ∨ quote = '\'') :
    ¬ [quote] <:+ f := by
  have hall : ∀ p ∈ keyPatterns, ∀ f ∈ p.1.inits, f ≠ p.1 →
      f.getLast? ≠ some '"' ∧ f.getLast? ≠ some '\'' := by decide
  obtain ⟨hdouble, hsingle⟩ := hall p hp f ((List.mem_inits _ _).mpr hf) hne
  rintro ⟨rest, rfl⟩
  rcases hquote with rfl | rfl
  · exact hdouble (by simp)
  · exact hsingle (by simp)

/-- In front of its quotes, an opening ends with none. -/
theorem eq_nil_of_namesAt_append (hp : p ∈ keyPatterns) {f : List Char} (hf : f <+: p.1)
    (hne : f ≠ p.1) (h : NamesAt name source (front ++ f)) : f = [] := by
  obtain ⟨quote, hquote, hend⟩ := h.quoted
  by_contra hnil
  have hlen : [quote].length ≤ f.length := List.length_pos_iff.mpr hnil
  exact not_quote_of_prefix hp hf hne hquote
    (List.suffix_of_suffix_length_le hend (List.suffix_append front f) hlen)

/-- Neither the opening of a pattern nor the character behind the name is a blank or an equals
sign. -/
theorem keyPatterns_closing (hp : p ∈ keyPatterns) :
    p.1 ≠ [] ∧ (p.2.take 1).length = 1 ∧ ∀ c ∈ p.1 ++ p.2.take 1, isBlank c = false ∧ c ≠ '=' := by
  have hall : ∀ p ∈ keyPatterns, p.1 ≠ [] ∧ (p.2.take 1).length = 1 ∧
      (p.1 ++ p.2.take 1).all (fun c => !isBlank c && c != '=') := by decide
  obtain ⟨hopening, hone, hclosing⟩ := hall p hp
  refine ⟨hopening, hone, fun c hc => ?_⟩
  simpa using List.all_eq_true.mp hclosing c hc

/-- A name that can be read where its pattern begins does not stand there. -/
theorem not_namesAt_of_firstAt (hp : keyPattern? name source = some p)
    (hfront : FirstAt (p.1 ++ name ++ p.2) source front) (hname : name <+: p.1 ++ name) :
    ¬ NamesAt name source front := by
  obtain ⟨hopening, hone, hclosing⟩ := keyPatterns_closing (mem_keyPatterns hp)
  have hlength := List.length_pos_iff.mpr hopening
  obtain ⟨back, hback⟩ := hfront.1
  -- what stands behind the name is read from the pattern, too
  have hbehind {l : List Char} (k : Nat) (hl : front ++ name ++ l <+: source)
      (hlen : l.length ≤ (p.1 ++ p.2.take k).length) : ∀ c ∈ l, c ∈ p.1 ++ p.2.take k := by
    rw [← hback, List.append_assoc front, List.append_assoc front,
      List.prefix_append_right_inj] at hl
    have hread : name ++ l <+: p.1 ++ name ++ (p.2.take k ++ (p.2.drop k ++ back)) := by
      rw [← List.append_assoc (p.2.take k), List.take_append_drop]
      simpa using hl
    exact mem_of_prefix_append hopening hname hread hlen
  rintro (⟨quote, hquote, hend, hoccurs⟩ | ⟨gap, -, hgap, hoccurs⟩)
  · -- the quotes are in the opening, so that it is that of a header, which begins earlier
    have hlen : [quote].length ≤ (p.1 ++ p.2.take 0).length := by
      rw [List.take_zero, List.append_nil]
      exact hlength
    have hmem : quote ∈ p.1 := by simpa using hbehind 0 hoccurs hlen quote List.mem_cons_self
    obtain ⟨early, hearly, hheader⟩ := exists_early hend hoccurs
    rcases eq_or_not_infix_header hp hquote hmem with rfl | hnone
    · have hle := (hfront.2 early hheader).length_le
      rw [← hearly, List.length_append] at hle
      exact absurd hle (by simp)
    · exact hnone ((List.suffix_append early _).isInfix.trans hheader.isInfix)
  · -- behind the quotes is a blank or an equals sign, but there are none in the pattern
    obtain ⟨c, rest, hc⟩ : ∃ c rest, gap ++ ['='] = c :: rest :=
      List.exists_cons_of_ne_nil (by simp)
    have hvalue : isBlank c ∨ c = '=' :=
      (List.mem_append.mp (hc ▸ List.mem_cons_self : c ∈ gap ++ ['='])).imp (hgap c)
        List.mem_singleton.mp
    have hshort : front ++ name ++ ['"', c] <+: source := by
      refine ((List.prefix_append_right_inj _).mpr ?_).trans hoccurs
      rw [hc]
      exact ⟨rest, rfl⟩
    have hlen : ['"', c].length ≤ (p.1 ++ p.2.take 1).length := by
      rw [List.length_append, hone]
      exact Nat.succ_le_succ hlength
    obtain ⟨hblank, hne⟩ := hclosing c (hbehind 1 hshort hlen c (by simp))
    exact hvalue.elim (by simp [hblank]) hne

/-- **A name that is found too early stands at no place that names declarations.** -/
theorem eq_opening_of_namesAt (hp : keyPattern? name source = some p)
    (hfront : FirstAt (p.1 ++ name ++ p.2) source front) {f : List Char}
    (hf : FirstAt name (p.1 ++ name ++ p.2) f) (h : NamesAt name source (front ++ f)) :
    f = p.1 := by
  by_contra hne
  have hearly : f <+: p.1 := hf.2 p.1 (List.prefix_append (p.1 ++ name) p.2)
  obtain rfl := eq_nil_of_namesAt_append (mem_keyPatterns hp) hearly hne h
  have hname : name <+: p.1 ++ name :=
    List.prefix_of_prefix_length_le hf.1
      (List.append_assoc p.1 name p.2 ▸ List.prefix_append (p.1 ++ name) p.2) (by simp)
  rw [List.append_nil] at h
  exact not_namesAt_of_firstAt hp hfront hname h

/-! ### Spans -/

namespace Span

/-- A span starts where a text names declarations. -/
def StartsAtKey (s : Span) (source name : String) : Prop :=
  ∃ front, NamesAt name.toList source.toList front ∧ s.offset = utf8Size front

theorem startsAtKey_iff {source name : String} {n : Nat} (h : front <+: source.toList) :
    (⟨utf8Size front, n⟩ : Span).StartsAtKey source name ↔
      NamesAt name.toList source.toList front := by
  constructor
  · rintro ⟨other, hother, hsize⟩
    exact eq_of_utf8Size_eq h hother.begins hsize ▸ hother
  · exact fun hnames => ⟨front, hnames, rfl⟩

/-- Two searches, one behind the other. -/
theorem ofPattern?_of_firstAt {f : List Char} (hfront : FirstAt (p.1 ++ name ++ p.2) source front)
    (hf : FirstAt name (p.1 ++ name ++ p.2) f) :
    ofPattern? name source p = some ⟨utf8Size (front ++ f), utf8Size name⟩ := by
  unfold ofPattern?
  dsimp only
  rw [offsetOf?_of_firstAt hfront, offsetOf?_of_firstAt hf, utf8Size_append]
  rfl

/-- The first pattern that the text has decides. -/
theorem findSome?_ofPattern? (name source : List Char) :
    keyPatterns.findSome? (ofPattern? name source) =
      (keyPattern? name source).bind (ofPattern? name source) := by
  unfold keyPattern?
  induction keyPatterns with
  | nil => rfl
  | cons p patterns ih =>
    rw [List.findSome?_cons, List.find?_cons]
    rcases offsetOf?_cases (p.1 ++ name ++ p.2) source with ⟨hnone, hin⟩ | ⟨front, hfirst, hsome⟩
    · have hfail : ofPattern? name source p = none := by
        unfold ofPattern?
        dsimp only
        rw [hnone]
        rfl
      rw [hfail, decide_eq_false hin]
      exact ih
    · have hfound : (ofPattern? name source p).isSome := by
        unfold ofPattern?
        dsimp only
        rw [hsome]
        rfl
      obtain ⟨span, hspan⟩ := Option.isSome_iff_exists.mp hfound
      rw [decide_eq_true hfirst.occurs, hspan, Option.bind_some, hspan]

/-- **The name is found wherever the text names declarations.**  It is found where the text does so,
unless an end of what belongs in front of it can be read as its beginning.  Where more blanks stand
in front of all equals signs than the patterns have, the first quotes around the name decide. -/
theorem ofKey?_exact_iff {source name : String}
    (h : ∃ front, NamesAt name.toList source.toList front) :
    ∃ span, ofKey? source name = some span ∧ StandsAt name source span.offset span.length ∧
      (∀ p, keyPattern? name.toList source.toList = some p →
        (span.StartsAtKey source name ↔ ¬ Overlaps p.1 name.toList)) ∧
      (keyPattern? name.toList source.toList = none →
        (span.StartsAtKey source name ↔
          ∀ front, FirstAt (['"'] ++ name.toList ++ ['"']) source.toList front →
            NamesAt name.toList source.toList (front ++ ['"']))) := by
  obtain ⟨place, hplace⟩ := h
  unfold ofKey?
  rw [findSome?_ofPattern?]
  cases hp : keyPattern? name.toList source.toList with
  | some p =>
    obtain ⟨front, hfront⟩ := exists_firstAt (infix_of_keyPattern? hp)
    obtain ⟨f, hf⟩ := exists_firstAt (List.infix_append p.1 name.toList p.2)
    have hoccurs : front ++ f ++ name.toList <+: source.toList := by
      rw [List.append_assoc]
      exact ((List.prefix_append_right_inj front).mpr hf.1).trans hfront.1
    refine ⟨⟨utf8Size (front ++ f), utf8Size name.toList⟩, ?_, standsAt_behind hoccurs, ?_,
      fun hnone => nomatch hnone⟩
    · rw [Option.bind_some, ofPattern?_of_firstAt hfront hf]
      rfl
    · rintro _ ⟨⟩
      rw [startsAtKey_iff ((List.prefix_append _ _).trans hoccurs), ← firstAt_opening_iff hf]
      constructor
      · exact eq_opening_of_namesAt hp hfront hf
      · rintro rfl
        exact namesAt_of_mem_keyPatterns (mem_keyPatterns hp) hfront.1
  | none =>
    obtain ⟨front, hfront⟩ := exists_firstAt (infix_quoted_of_namesAt hp hplace)
    have hoccurs : front ++ ['"'] ++ name.toList <+: source.toList := by
      refine List.IsPrefix.trans ⟨['"'], ?_⟩ hfront.1
      simp
    refine ⟨⟨utf8Size (front ++ ['"']), utf8Size name.toList⟩, ?_, standsAt_behind hoccurs,
      fun _ hsome => (nomatch hsome), fun _ => ?_⟩
    · unfold ofValue? between?
      dsimp only
      rw [offsetOf?_of_firstAt hfront, utf8Size_append]
      rfl
    · rw [startsAtKey_iff ((List.prefix_append _ _).trans hoccurs)]
      exact ⟨fun hnames other hother => hfront.unique hother ▸ hnames,
        fun hall => hall front hfront⟩

/-- A header with a qualified name. -/
def qualifiedHeader : String := "[decls.\"::geo::Shape\"]\nalias = \"Shape2D\""

theorem ofKey?_exact_qualifiedHeader :
    NamesAt "::geo::Shape".toList qualifiedHeader.toList "[decls.\"".toList ∧
      ∃ span, ofKey? qualifiedHeader "::geo::Shape" = some span ∧
        StandsAt "::geo::Shape" qualifiedHeader span.offset span.length ∧
        span.StartsAtKey qualifiedHeader "::geo::Shape" := by
  have hnames : NamesAt "::geo::Shape".toList qualifiedHeader.toList "[decls.\"".toList :=
    .header '"' (.inl rfl) (by decide +kernel) (by decide +kernel)
  have hpattern : keyPattern? "::geo::Shape".toList qualifiedHeader.toList =
      some (headerPattern '"') := by decide +kernel
  obtain ⟨span, hspan, hstands, hexact, -⟩ := ofKey?_exact_iff ⟨_, hnames⟩
  exact ⟨hnames, span, hspan, hstands, (hexact _ hpattern).mpr <|
    not_overlaps_of_head (c := ':') (by decide +kernel) (by decide +kernel)⟩

/-- The name of a declaration is found in the text of a header in front of it. -/
theorem ofKey?_not_exact :
    NamesAt "c".toList "[decls.\"c\"]\nignore = true".toList "[decls.\"".toList ∧
      ∃ span, ofKey? "[decls.\"c\"]\nignore = true" "c" = some span ∧
        ¬ span.StartsAtKey "[decls.\"c\"]\nignore = true" "c" := by
  refine ⟨.header '"' (.inl rfl) (by decide +kernel) (by decide +kernel), ⟨3, 1⟩,
    by decide +kernel, ?_⟩
  have hsize : 3 = utf8Size "[de".toList := by decide +kernel
  rw [hsize, startsAtKey_iff (by decide +kernel)]
  intro hnames
  obtain ⟨quote, rfl | rfl, hend⟩ := hnames.quoted
  · exact absurd hend (by decide +kernel)
  · exact absurd hend (by decide +kernel)

end Span

end Bindery
