import Bindery.Proofs.Text.ContentLines

/-!
# References and the text between them

A line of a template is read once, from left to right: where a reference begins, the longest name
is taken, and every other character stands for itself.  This splits a line in exactly one way, and
the values of the references come where the references were.  A line that holds only a reference is
found by another route, which knows the same references.

## Main definitions

* `Refers` — a reference to a name, as it is written in front of the rest of a line.
* `Splits` — a line and its pieces.
* `HoldsOnly` — a line that holds only a reference.

## Main results

* `Refers.leadingName?`, `refers_of_leadingName?` — names are found exactly where references are.
* `Splits.unique`, `exists_splits` — a line has exactly one list of pieces.
* `holdsOnly_iff` — lines that hold only a reference are found as such.
* `expand_eq_flatMap` — **a line with its references replaced is made of the values of its pieces**,
  and a block or an unknown name takes the whole line.
-/

namespace Bindery.Text

/-! ### Pieces -/

/-- A reference to a name, as it is written in front of the rest of a line. -/
inductive Refers : List Char → List Char → List Char → Prop
  /-- The name is not longer in the line than it is here. -/
  | plain {name rest : List Char} : isName name → (∀ c ∈ rest.head?, ¬ isNameChar c) →
    Refers ('$' :: name) name rest
  | braced {name rest : List Char} : isName name →
    Refers ('$' :: '\x7b' :: (name ++ ['\x7d'])) name rest

/-- A piece of a line. -/
inductive Piece
  | reference (written name : List Char)
  | other (c : Char)
  deriving DecidableEq, Repr

/-- A piece as it stands in the line. -/
def Piece.written : Piece → List Char
  | reference written _ => written
  | other c => [c]

/-- What takes the place of a piece. -/
def Piece.value (vars : Vars) : Piece → List Char
  | reference _ name => vars.text name
  | other c => [c]

/-- A line and its pieces.  Where a reference begins, it is the next piece. -/
inductive Splits : List Char → List Piece → Prop
  | nil : Splits [] []
  | reference {written name rest : List Char} {pieces : List Piece} :
    Refers written name rest → Splits rest pieces →
    Splits (written ++ rest) (.reference written name :: pieces)
  | other {c : Char} {rest : List Char} {pieces : List Piece} :
    (∀ written name back, c :: rest = written ++ back → ¬ Refers written name back) →
    Splits rest pieces → Splits (c :: rest) (.other c :: pieces)

/-- A line that holds only a reference to a name, with blanks in front of it and behind it. -/
def HoldsOnly (line margin name : List Char) : Prop :=
  ∃ written behind, line = margin ++ written ++ behind ∧ Refers written name [] ∧
    (∀ c ∈ margin, isBlank c) ∧ ∀ c ∈ behind, isBlank c

/-- The lines of the text of a block; an empty one has none. -/
def blockLines : List Char → List (List Char)
  | [] => []
  | text => splitLines text

variable {vars : Vars} {written name rest line margin s : List Char} {pieces : List Piece}

/-! ### Names -/

theorem isNameChar_of_isNameStart {c : Char} (h : isNameStart c) : isNameChar c := by
  rw [isNameStart, Bool.or_eq_true] at h
  exact Bool.or_eq_true_iff.mpr (h.imp_left fun hc => Bool.or_eq_true_iff.mpr (.inl hc))

theorem isName_cons {c : Char} {s : List Char} (h : isName (c :: s)) :
    isNameStart c ∧ ∀ d ∈ c :: s, isNameChar d := by
  rw [isName, Bool.and_eq_true, List.all_eq_true] at h
  exact ⟨h.1, List.forall_mem_cons.mpr ⟨isNameChar_of_isNameStart h.1, h.2⟩⟩

theorem isNameChar_of_mem {c : Char} (h : isName name) (hc : c ∈ name) : isNameChar c := by
  cases name with
  | nil => cases hc
  | cons => exact (isName_cons h).2 c hc

theorem toNat_of_isNameChar {c : Char} (h : isNameChar c) : 47 < c.toNat ∧ c.toNat < 123 := by
  rcases Bool.or_eq_true_iff.mp h with h | h
  · rcases Bool.or_eq_true_iff.mp h with h | hdigit
    · rcases Bool.or_eq_true_iff.mp h with hupper | hlower
      · have hbounds : 65 ≤ c.toNat ∧ c.toNat ≤ 90 := of_decide_eq_true hupper
        omega
      · have hbounds : 97 ≤ c.toNat ∧ c.toNat ≤ 122 :=
          (Bool.and_eq_true_iff.mp hlower).imp of_decide_eq_true of_decide_eq_true
        omega
    · have hbounds : 48 ≤ c.toNat ∧ c.toNat ≤ 57 :=
        (Bool.and_eq_true_iff.mp hdigit).imp of_decide_eq_true of_decide_eq_true
      omega
  · rw [beq_iff_eq.mp h]
    decide

/-- The characters of names have other numbers than the blank characters. -/
theorem not_isBlank_of_isNameChar {c : Char} (h : isNameChar c) : ¬ isBlank c := by
  obtain ⟨hlow, hhigh⟩ := toNat_of_isNameChar h
  simp only [isBlank, inRanges, blankRanges, List.any_cons, List.any_nil, Bool.or_false,
    Bool.or_eq_true, Bool.and_eq_true, decide_eq_true_eq]
  omega

theorem ne_brace_of_isNameChar {c : Char} (h : isNameChar c) : c ≠ '\x7b' ∧ c ≠ '\x7d' := by
  obtain ⟨-, hhigh⟩ := toNat_of_isNameChar h
  constructor
  · rintro rfl
    exact absurd hhigh (by decide)
  · rintro rfl
    exact absurd hhigh (by decide)

/-- What is taken from the front of a text ends where the first character fails the test. -/
theorem takeWhile_append_eq {p : Char → Bool} (hall : ∀ c ∈ s, p c)
    (hrest : ∀ c ∈ rest.head?, ¬ p c) : (s ++ rest).takeWhile p = s := by
  rw [List.takeWhile_append_of_pos hall]
  cases rest with
  | nil => simp
  | cons c rest => simpa using hrest c rfl

theorem leadingName?_plain (hname : isName name) (hrest : ∀ c ∈ rest.head?, ¬ isNameChar c) :
    leadingName? (name ++ rest) = some (name, name.length) := by
  have htake := takeWhile_append_eq (fun c => isNameChar_of_mem hname) hrest
  cases name with
  | nil => cases hname
  | cons c name =>
    -- a name is not in braces
    have hc := (ne_brace_of_isNameChar ((isName_cons hname).2 c List.mem_cons_self)).1
    rw [List.cons_append] at htake ⊢
    rw [leadingName?, htake, if_pos hname]
    exact fun back heq => hc (List.cons.inj heq).1

theorem leadingName?_braced (hname : isName name) (rest : List Char) :
    leadingName? ('\x7b' :: (name ++ '\x7d' :: rest)) = some (name, name.length + 2) := by
  have htake : (name ++ '\x7d' :: rest).takeWhile (· != '\x7d') = name := by
    refine takeWhile_append_eq (fun c hc => bne_iff_ne.mpr ?_) (by simp)
    exact (ne_brace_of_isNameChar (isNameChar_of_mem hname hc)).2
  rw [leadingName?, htake, if_pos]
  simp [hname]

/-- The name of a reference is found behind its dollar sign, with the length of what is written. -/
theorem Refers.leadingName? {taken : List Char} (h : Refers ('$' :: taken) name rest) :
    leadingName? (taken ++ rest) = some (name, taken.length) := by
  cases h with
  | plain hname hrest => exact leadingName?_plain hname hrest
  | braced hname => simpa using leadingName?_braced hname rest

/-- A text is the characters it begins with and what comes behind the last of them. -/
theorem exists_takeWhile_append (p : Char → Bool) (s : List Char) :
    ∃ back, s = s.takeWhile p ++ back ∧ ∀ c ∈ back.head?, ¬ p c := by
  refine ⟨s.dropWhile p, List.takeWhile_append_dropWhile.symm, fun c hc => ?_⟩
  have hnot := List.head?_dropWhile_not p s
  rw [Option.mem_def.mp hc] at hnot
  exact Bool.eq_false_iff.mp hnot

/-- Where a name is found behind a dollar sign, a reference is written. -/
theorem refers_of_leadingName? {taken : Nat} (h : leadingName? s = some (name, taken)) :
    Refers ('$' :: s.take taken) name (s.drop taken) := by
  unfold leadingName? at h
  split at h
  · next rest =>
    rw [Option.ite_none_right_eq_some, Bool.and_eq_true, decide_eq_true_eq, Option.some.injEq,
      Prod.mk.injEq] at h
    obtain ⟨⟨hlength, hname⟩, rfl, rfl⟩ := h
    obtain ⟨back, hback, hhead⟩ := exists_takeWhile_append (· != '\x7d') rest
    generalize rest.takeWhile (· != '\x7d') = name at hlength hname hback ⊢
    subst hback
    cases back with
    | nil => simp at hlength
    | cons c back =>
      -- the name ends in front of a closing brace, since it does not take all of the rest
      obtain rfl : c = '\x7d' := by simpa using hhead
      have hplaces : (name ++ '\x7d' :: back).take (name.length + 1) = name ++ ['\x7d'] ∧
          (name ++ '\x7d' :: back).drop (name.length + 1) = back :=
        ⟨List.take_length_add_append 1, List.drop_length_add_append 1⟩
      rw [List.take_succ_cons, List.drop_succ_cons, hplaces.1, hplaces.2]
      exact .braced hname
  · rw [Option.ite_none_right_eq_some, Option.some.injEq, Prod.mk.injEq] at h
    obtain ⟨hname, rfl, rfl⟩ := h
    obtain ⟨back, hback, hhead⟩ := exists_takeWhile_append isNameChar s
    generalize s.takeWhile isNameChar = name at hname hback ⊢
    subst hback
    rw [List.take_left, List.drop_left]
    exact .plain hname hhead

/-! ### One piece -/

theorem Refers.written_eq (h : Refers written name rest) : ∃ taken, written = '$' :: taken := by
  cases h with
  | plain => exact ⟨_, rfl⟩
  | braced => exact ⟨_, rfl⟩

/-- At most one reference begins at a place. -/
theorem Refers.unique {written' name' rest' : List Char} (h : Refers written name rest)
    (h' : Refers written' name' rest') (heq : written ++ rest = written' ++ rest') :
    written = written' ∧ name = name' ∧ rest = rest' := by
  obtain ⟨taken, rfl⟩ := h.written_eq
  obtain ⟨taken', rfl⟩ := h'.written_eq
  have htaken : taken ++ rest = taken' ++ rest' := (List.cons.inj heq).2
  have hname := h.leadingName?
  rw [htaken, h'.leadingName?, Option.some.injEq, Prod.mk.injEq] at hname
  obtain ⟨rfl, rfl⟩ := List.append_inj htaken hname.2.symm
  exact ⟨rfl, hname.1.symm, rfl⟩

/-- The characters of the last reference are passed over. -/
theorem expandFrom_eq (vars : Vars) : ∀ (skip : Nat) (s : List Char),
    expandFrom vars skip s = expand vars (s.drop skip)
  | 0, s => by rw [List.drop_zero, expand]
  | skip + 1, [] => rfl
  | skip + 1, c :: s => by rw [expandFrom, expandFrom_eq vars skip s, List.drop_succ_cons]

/-- A reference gives way to its value, which is not looked at again. -/
theorem Refers.expand (h : Refers written name rest) :
    expand vars (written ++ rest) = vars.text name ++ expand vars rest := by
  obtain ⟨taken, rfl⟩ := h.written_eq
  rw [List.cons_append, Text.expand, expandFrom, if_pos rfl, h.leadingName?]
  simp only
  rw [expandFrom_eq, List.drop_left]

/-- A character that begins no reference stays. -/
theorem expand_cons {c : Char}
    (h : ∀ written name back, c :: rest = written ++ back → ¬ Refers written name back) :
    expand vars (c :: rest) = c :: expand vars rest := by
  rw [expand, expandFrom]
  split
  · next hc =>
    cases hname : leadingName? rest with
    | none => rfl
    | some found =>
      obtain ⟨name, taken⟩ := found
      refine absurd (refers_of_leadingName? hname) (h _ _ _ ?_)
      rw [hc, List.cons_append, List.take_append_drop]
  · rfl

/-! ### All pieces -/

/-- The pieces make up the line. -/
theorem Splits.written_eq (h : Splits line pieces) : pieces.flatMap Piece.written = line := by
  induction h with
  | nil => rfl
  | reference _ _ ih => rw [List.flatMap_cons, ih, Piece.written]
  | other _ _ ih =>
    rw [List.flatMap_cons, ih]
    rfl

/-- The values of the pieces make up the line with its references replaced. -/
theorem Splits.expand_eq (h : Splits line pieces) :
    expand vars line = pieces.flatMap (Piece.value vars) := by
  induction h with
  | nil => rfl
  | reference hrefers _ ih => rw [hrefers.expand, List.flatMap_cons, ih, Piece.value]
  | other hnone _ ih =>
    rw [expand_cons hnone, List.flatMap_cons, ih]
    rfl

theorem Splits.unique {pieces' : List Piece} (h : Splits line pieces) (h' : Splits line pieces') :
    pieces = pieces' := by
  induction h generalizing pieces' with
  | nil =>
    generalize hline : [] = line at h'
    cases h' with
    | nil => rfl
    | reference hrefers _ =>
      obtain ⟨taken, rfl⟩ := hrefers.written_eq
      cases hline
    | other => cases hline
  | @reference written name rest pieces hrefers _ ih =>
    generalize hline : written ++ rest = line at h'
    cases h' with
    | nil =>
      obtain ⟨taken, rfl⟩ := hrefers.written_eq
      cases hline
    | reference hrefers' h' =>
      obtain ⟨rfl, rfl, rfl⟩ := hrefers.unique hrefers' hline
      rw [ih h']
    | other hnone _ => exact absurd hrefers (hnone _ _ _ hline.symm)
  | @other c rest pieces hnone _ ih =>
    generalize hline : c :: rest = line at h'
    cases h' with
    | nil => cases hline
    | reference hrefers' _ => exact absurd hrefers' (hnone _ _ _ hline)
    | other _ h' =>
      obtain ⟨rfl, rfl⟩ := List.cons.inj hline
      rw [ih h']

theorem exists_splits : ∀ line : List Char, ∃ pieces, Splits line pieces
  | [] => ⟨[], .nil⟩
  | c :: rest => by
    by_cases h : ∃ written name back, c :: rest = written ++ back ∧ Refers written name back
    · obtain ⟨written, name, back, heq, hrefers⟩ := h
      obtain ⟨taken, rfl⟩ := hrefers.written_eq
      obtain ⟨pieces, hpieces⟩ := exists_splits back
      rw [heq]
      exact ⟨.reference _ name :: pieces, .reference hrefers hpieces⟩
    · obtain ⟨pieces, hpieces⟩ := exists_splits rest
      exact ⟨.other c :: pieces, .other (fun written name back heq hrefers =>
        h ⟨written, name, back, heq, hrefers⟩) hpieces⟩
termination_by line => line.length
decreasing_by
  · rw [heq, List.length_append, List.length_cons]
    omega
  · exact Nat.lt_succ_self rest.length

/-! ### Lines that hold only a reference -/

/-- A text is found to be a reference exactly if it is one. -/
theorem soleReference?_eq_some_iff : soleReference? s = some name ↔ Refers s name [] := by
  constructor
  · intro h
    unfold soleReference? at h
    split at h
    · next rest =>
      split at h
      · next hlast =>
        rw [Option.ite_none_right_eq_some, Option.some.injEq] at h
        obtain ⟨hname, rfl⟩ := h
        have hrest : rest = rest.dropLast ++ ['\x7d'] := (List.dropLast_append_getLast? _ hlast).symm
        rw [hrest, List.dropLast_concat]
        exact .braced hname
      · cases h
    · rw [Option.ite_none_right_eq_some, Option.some.injEq] at h
      obtain ⟨hname, rfl⟩ := h
      exact .plain hname nofun
    · cases h
  · intro h
    cases h with
    | plain hname _ =>
      cases name with
      | nil => cases hname
      | cons c name =>
        have hc := (ne_brace_of_isNameChar ((isName_cons hname).2 c List.mem_cons_self)).1
        rw [soleReference?, if_pos hname]
        exact fun rest heq => hc (List.cons.inj heq).1
    | braced hname => simp [soleReference?, hname]

/-- No reference begins or ends in a blank character. -/
theorem Refers.trim_eq (h : Refers written name rest) : trim written = written := by
  obtain ⟨taken, rfl⟩ := h.written_eq
  have hstart : trimStart ('$' :: taken) = '$' :: taken := rfl
  have hlast : ∃ front last, '$' :: taken = front ++ [last] ∧ ¬ isBlank last := by
    cases h with
    | plain hname =>
      have hne : name ≠ [] := fun hnil => by simp [hnil, isName] at hname
      refine ⟨'$' :: name.dropLast, name.getLast hne, ?_, ?_⟩
      · rw [List.cons_append, List.dropLast_append_getLast hne]
      · exact not_isBlank_of_isNameChar (isNameChar_of_mem hname (List.getLast_mem hne))
    | @braced name _ _ => exact ⟨'$' :: '\x7b' :: name, '\x7d', rfl, by decide⟩
  obtain ⟨front, last, heq, hblank⟩ := hlast
  rw [trim, hstart, heq, trimEnd, List.reverse_concat, List.dropWhile_cons_of_neg hblank,
    List.reverse_cons, List.reverse_reverse]

/-- Lines that hold only a reference are found as such, with the blanks in front of it. -/
theorem holdsOnly_iff : HoldsOnly line margin name ↔
    soleReference? (trim line) = some name ∧ indentation line = margin := by
  rw [soleReference?_eq_some_iff]
  constructor
  · rintro ⟨written, behind, rfl, hrefers, hmargin, hbehind⟩
    refine ⟨?_, ?_⟩
    · rwa [trim_append_right hbehind, trim_append_left hmargin, hrefers.trim_eq]
    · obtain ⟨taken, rfl⟩ := hrefers.written_eq
      rw [indentation, List.append_assoc, List.takeWhile_append_of_pos hmargin, List.cons_append,
        List.takeWhile_cons_of_neg (by decide), List.append_nil]
  · rintro ⟨hrefers, rfl⟩
    obtain ⟨behind, hbehind, heq⟩ := exists_trimEnd_append (trimStart line)
    refine ⟨trim line, behind, ?_, hrefers, fun c => List.mem_takeWhile_imp, hbehind⟩
    rw [List.append_assoc, trim, ← heq, trimStart_append_indentation]

/-- The lines that take the place of a block with a margin. -/
theorem expandLine_block {text : List Char} (h : HoldsOnly line margin name)
    (hvar : vars.lookup name = some (.block text)) :
    expandLine vars line = (blockLines text).map (margin ++ ·) := by
  obtain ⟨hsole, rfl⟩ := holdsOnly_iff.mp h
  unfold expandLine
  rw [hsole]
  simp only [hvar]
  cases text with
  | nil => rfl
  | cons => rfl

theorem expandLine_unknown (h : HoldsOnly line margin name) (hvar : vars.lookup name = none) :
    expandLine vars line = [] := by
  unfold expandLine
  rw [(holdsOnly_iff.mp h).1]
  simp only [hvar]

/-- All other lines stay lines. -/
theorem expandLine_line (h : ∀ margin name, HoldsOnly line margin name →
    ∃ text, vars.lookup name = some (.scalar text)) : expandLine vars line = [expand vars line] := by
  unfold expandLine
  cases hsole : soleReference? (trim line) with
  | none => rfl
  | some name =>
    obtain ⟨text, hvar⟩ := h _ name (holdsOnly_iff.mpr ⟨hsole, rfl⟩)
    simp only [hvar]

/-- **A line with its references replaced.**  The line has exactly one list of pieces, which is read
off from left to right and makes up the line, and what comes of the line is made of the values of
these pieces.  Where a line holds only a reference, the lines of a block take its place, each behind
the blanks that the line begins with, and nothing takes the place of an unknown name; all other lines
stay lines. -/
theorem expand_eq_flatMap (vars : Vars) (line : List Char) :
    (∃! pieces, Splits line pieces) ∧
      (∀ pieces, Splits line pieces → pieces.flatMap Piece.written = line ∧
        expand vars line = pieces.flatMap (Piece.value vars)) ∧
      (∀ margin name, HoldsOnly line margin name →
        (∀ text, vars.lookup name = some (.block text) →
          expandLine vars line = (blockLines text).map (margin ++ ·)) ∧
        (vars.lookup name = none → expandLine vars line = [])) ∧
      ((∀ margin name, HoldsOnly line margin name →
        ∃ text, vars.lookup name = some (.scalar text)) →
          expandLine vars line = [expand vars line]) := by
  obtain ⟨pieces, hpieces⟩ := exists_splits line
  refine ⟨⟨pieces, hpieces, fun _ h => h.unique hpieces⟩, fun _ h => ⟨h.written_eq, h.expand_eq⟩, ?_,
    expandLine_line⟩
  exact fun margin name h => ⟨fun _ => expandLine_block h, expandLine_unknown h⟩

/-- Braces end a name in front of an underscore, a dollar sign at the end of the line stands for
itself, and a value that looks like a reference is left alone; a block takes the blanks in front of
it to all of its lines. -/
theorem expand_eq_flatMap_braced :
    let vars : Vars := [scalar "A" "$B", block "B" "x;\ny;"]
    let line := ['$', '\x7b', 'A', '\x7d', '_', '$']
    let pieces := [.reference ['$', '\x7b', 'A', '\x7d'] ['A'], .other '_', .other '$']
    Splits line pieces ∧ pieces.flatMap (Piece.value vars) = "$B_$".toList ∧
      expand vars line = "$B_$".toList ∧
      HoldsOnly "  $B ".toList [' ', ' '] ['B'] ∧
      expandLine vars "  $B ".toList = ["  x;".toList, "  y;".toList] := by
  intro vars line pieces
  have hend : Splits ['$'] [.other '$'] := by
    refine .other (fun written name back heq hrefers => ?_) .nil
    obtain ⟨taken, rfl⟩ := hrefers.written_eq
    have hnil : [] = taken ++ back := (List.cons.inj heq).2
    have hname := hrefers.leadingName?
    rw [← hnil] at hname
    cases hname
  have hsplits : Splits line pieces := by
    have hrefers : Refers ('$' :: '\x7b' :: (['A'] ++ ['\x7d'])) ['A'] ['_', '$'] :=
      .braced (by decide)
    refine .reference hrefers (.other (fun written name back heq hrefers => ?_) hend)
    obtain ⟨taken, rfl⟩ := hrefers.written_eq
    exact absurd (List.cons.inj heq).1 (by decide)
  have hblock : HoldsOnly "  $B ".toList [' ', ' '] ['B'] :=
    holdsOnly_iff.mpr ⟨by decide +kernel, by decide +kernel⟩
  have hvar : vars.lookup ['B'] = some (.block "x;\ny;".toList) := by decide +kernel
  have hvalue : pieces.flatMap (Piece.value vars) = "$B_$".toList := by decide +kernel
  refine ⟨hsplits, hvalue, ?_, hblock, ?_⟩
  · exact ((expand_eq_flatMap vars line).2.1 pieces hsplits).2.trans hvalue
  · rw [((expand_eq_flatMap vars _).2.2.1 _ _ hblock).1 _ hvar]
    decide +kernel

end Bindery.Text
