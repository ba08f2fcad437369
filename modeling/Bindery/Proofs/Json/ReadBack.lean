import Bindery.Proofs.Json.Scalars

/-!
# Reading what was written

The indented layout is read back as the tree that was written, if its numbers are whole and fit in
64 bits and its arrays and objects are not nested deeper than the reader allows.

## Main definitions

* `Json.Writable d j` — such a tree, nested at most `d` deep.
* `Json.Reader.ReadsBack d j` — the text of a tree is read as the tree, whatever follows it.

## Main results

* `Reader.items_pretty`, `Reader.fields_pretty` — what stands between brackets is read back.
* `Reader.readsBack`, `read?_pretty` — **an indented text is read as the tree it was written from.**
-/

namespace Bindery.Json

/-- The tree can be read back: its numbers are whole and fit in 64 bits, and arrays and objects are
nested at most `d` deep. -/
inductive Writable : Nat → Json → Prop
  | null {d : Nat} : Writable d null
  | bool {d : Nat} {b : Bool} : Writable d (bool b)
  | int {d : Nat} {n : Int} : n.natAbs < UInt64.size → Writable d (int n)
  | str {d : Nat} {s : String} : Writable d (str s)
  | arr {d : Nat} {items : List Json} : (∀ j ∈ items, Writable d j) → Writable (d + 1) (arr items)
  | obj {d : Nat} {fields : List (String × Json)} :
    (∀ f ∈ fields, Writable d f.2) → Writable (d + 1) (obj fields)

theorem writable_int_iff {d : Nat} {n : Int} : Writable d (int n) ↔ n.natAbs < UInt64.size :=
  ⟨fun | .int h => h, .int⟩

theorem writable_arr_iff {d : Nat} {items : List Json} :
    Writable (d + 1) (arr items) ↔ ∀ j ∈ items, Writable d j :=
  ⟨fun | .arr h => h, .arr⟩

theorem writable_obj_iff {d : Nat} {fields : List (String × Json)} :
    Writable (d + 1) (obj fields) ↔ ∀ f ∈ fields, Writable d f.2 :=
  ⟨fun | .obj h => h, .obj⟩

namespace Reader

variable {d level fuel : Nat} {s rest ws : List Char} {c : Char} {j : Json}

/-! ### Values -/

theorem skipSpace_blanks (hws : ∀ c ∈ ws, isSpace c) (s : List Char) :
    skipSpace (ws ++ s) = skipSpace s := List.dropWhile_append_of_pos hws

theorem skipSpace_cons (hc : isSpace c = false) (s : List Char) : skipSpace (c :: s) = c :: s :=
  List.dropWhile_cons_of_neg (by simp [hc])

/-- Blanks in front of a value do not count. -/
theorem value_blanks (hws : ∀ c ∈ ws, isSpace c) (fuel d : Nat) (s : List Char) :
    value fuel d (ws ++ s) = value fuel d s := by
  cases fuel with
  | zero => rfl
  | succ fuel => rw [value, value, skipSpace_blanks hws]

theorem fields_blanks (hws : ∀ c ∈ ws, isSpace c) (fuel d : Nat) (s : List Char) :
    fields fuel d (ws ++ s) = fields fuel d s := by
  cases fuel with
  | zero => rfl
  | succ fuel => rw [fields, fields, skipSpace_blanks hws]

theorem items_blanks (hws : ∀ c ∈ ws, isSpace c) (fuel d : Nat) (s : List Char) :
    items fuel d (ws ++ s) = items fuel d s := by
  cases fuel with
  | zero => rfl
  | succ fuel => rw [items, items, value_blanks hws]

theorem toList_newline (level : Nat) :
    (newline level).toList = '\n' :: List.replicate (2 * level) ' ' := by
  simp [newline]

theorem newline_blanks (level : Nat) : ∀ c ∈ (newline level).toList, isSpace c := by
  intro c hc
  rw [toList_newline] at hc
  rcases List.mem_cons.mp hc with rfl | hc
  · rfl
  · rw [List.eq_of_mem_replicate hc]
    rfl

theorem endsNumber_cons (hc : ¬ c.isDigit ∧ c ≠ '.' ∧ c ≠ 'e' ∧ c ≠ 'E') :
    EndsNumber (c :: s) := by
  intro b hb
  obtain rfl := Option.some.inj hb
  exact hc

theorem endsNumber_newline (level : Nat) (s : List Char) :
    EndsNumber ((newline level).toList ++ s) := by
  rw [toList_newline]
  exact endsNumber_cons (by decide)

/-- The text of a tree is read as the tree, whatever follows that does not continue a number. -/
def ReadsBack (d : Nat) (j : Json) : Prop :=
  ∀ (level fuel : Nat) (rest : List Char), (prettyAt level j).toList.length ≤ fuel →
    EndsNumber rest → value fuel d ((prettyAt level j).toList ++ rest) = some (j, rest)

/-- Items are read one after the other, up to the closing bracket. -/
theorem items_pretty (level inner : Nat) (rest : List Char) : ∀ (fuel : Nat) {js : List Json}
    {j : Json},
    (∀ x ∈ j :: js, ReadsBack d x) →
    ((prettyAt inner j).toList ++ (prettyItems inner js).toList).length < fuel →
    items fuel d ((prettyAt inner j).toList ++ ((prettyItems inner js).toList ++
      ((newline level).toList ++ ']' :: rest))) = some (j :: js, rest)
  | fuel + 1, [], j, h, hfuel => by
    rw [List.length_append] at hfuel
    have hv := h j List.mem_cons_self inner fuel _ (by omega)
      (endsNumber_newline level (']' :: rest))
    have hnil : (prettyItems inner []).toList = [] := rfl
    rw [items, hnil, List.nil_append, hv]
    simp only [Option.bind_eq_bind, Option.bind_some]
    rw [skipSpace_blanks (newline_blanks level), skipSpace_cons rfl]
    rfl
  | fuel + 1, j' :: js, j, h, hfuel => by
    have htail : (prettyItems inner (j' :: js)).toList =
        ',' :: ((newline inner).toList ++ ((prettyAt inner j').toList ++
          (prettyItems inner js).toList)) := by
      simp [prettyItems]
    rw [htail] at hfuel ⊢
    simp only [List.length_append, List.length_cons] at hfuel
    rw [items, List.cons_append,
      h j List.mem_cons_self inner fuel _ (by omega) (endsNumber_cons (by decide))]
    simp only [Option.bind_eq_bind, Option.bind_some]
    rw [skipSpace_cons rfl]
    have hrest := items_pretty level inner rest fuel
      (fun x hx => h x (List.mem_cons_of_mem j hx)) (by rw [List.length_append]; omega)
    simp only [List.append_assoc, items_blanks (newline_blanks inner), hrest]
    rfl

theorem toList_quote (k : String) :
    (quote k).toList = '"' :: (k.toList.flatMap escapeChar ++ ['"']) := by
  simp [quote]

/-- The name of a field and what stands in front of its value are taken off. -/
theorem fields_name (k : String) (s : List Char) :
    fields (fuel + 1) d ((quote k).toList ++ (": ".toList ++ s)) = (do
      let (j, rest) ← value fuel d s
      match skipSpace rest with
      | ',' :: rest =>
        let (more, rest) ← fields fuel d rest
        return (more.bind fun more => some ((k, j) :: more), rest)
      | '\x7d' :: rest => return (some [(k, j)], rest)
      | _ => none) := by
  have hquoted : (quote k).toList ++ (": ".toList ++ s) =
      '"' :: (k.toList.flatMap escapeChar ++ '"' :: ':' :: ([' '] ++ s)) := by
    simp [toList_quote]
  have hblank : ∀ c ∈ [' '], isSpace c := List.forall_mem_singleton.mpr rfl
  rw [hquoted, fields, skipSpace_cons rfl]
  simp only [Option.bind_eq_bind, stringBody_quote, Option.bind_some]
  rw [skipSpace_cons rfl]
  simp only [value_blanks hblank, Option.map_some, String.ofList_toList]
  rfl

/-- Fields are read one after the other, up to the closing brace. -/
theorem fields_pretty (level inner : Nat) (rest : List Char) :
    ∀ (fuel : Nat) {fs : List (String × Json)} {f : String × Json},
    (∀ x ∈ f :: fs, ReadsBack d x.2) →
    ((prettyAt inner f.2).toList ++ (prettyFields inner fs).toList).length < fuel →
    fields fuel d ((quote f.1).toList ++ (": ".toList ++ ((prettyAt inner f.2).toList ++
      ((prettyFields inner fs).toList ++ ((newline level).toList ++ '\x7d' :: rest))))) =
        some (some (f :: fs), rest)
  | fuel + 1, [], f, h, hfuel => by
    rw [List.length_append] at hfuel
    have hv := h f List.mem_cons_self inner fuel _ (by omega)
      (endsNumber_newline level ('\x7d' :: rest))
    have hnil : (prettyFields inner []).toList = [] := rfl
    rw [fields_name, hnil, List.nil_append, hv]
    simp only [Option.bind_eq_bind, Option.bind_some]
    rw [skipSpace_blanks (newline_blanks level), skipSpace_cons rfl]
    rfl
  | fuel + 1, f' :: fs, f, h, hfuel => by
    have htail : (prettyFields inner (f' :: fs)).toList =
        ',' :: ((newline inner).toList ++ ((quote f'.1).toList ++ (": ".toList ++
          ((prettyAt inner f'.2).toList ++ (prettyFields inner fs).toList)))) := by
      simp [prettyFields]
    rw [htail] at hfuel ⊢
    simp only [List.length_append, List.length_cons] at hfuel
    rw [fields_name, List.cons_append,
      h f List.mem_cons_self inner fuel _ (by omega) (endsNumber_cons (by decide))]
    simp only [Option.bind_eq_bind, Option.bind_some]
    rw [skipSpace_cons rfl]
    have hrest := fields_pretty level inner rest fuel
      (fun x hx => h x (List.mem_cons_of_mem f hx)) (by rw [List.length_append]; omega)
    simp only [List.append_assoc, fields_blanks (newline_blanks inner), hrest]
    rfl

/-! ### Trees -/

theorem value_nil_arr : value (fuel + 1) (d + 1) ('[' :: ']' :: s) = some (arr [], s) := rfl

theorem value_nil_obj : value (fuel + 1) (d + 1) ('\x7b' :: '\x7d' :: s) = some (obj [], s) := rfl

theorem value_bracket : value (fuel + 1) (d + 1) ('[' :: s) = (do
    let (js, rest) ← match skipSpace s with
      | ']' :: rest => some ([], rest)
      | _ => items fuel d s
    return (arr js, rest)) := rfl

theorem value_brace : value (fuel + 1) (d + 1) ('\x7b' :: s) = (do
    let (fs, rest) ← match skipSpace s with
      | '\x7d' :: rest => some (some [], rest)
      | _ => fields fuel d s
    match fs with
    | some fs => return (obj fs, rest)
    | none => return (invalid, rest)) := rfl

theorem value_quotationMark : value (fuel + 1) d ('"' :: s) = (do
    let (text, rest) ← stringBody (s.length + 1) s
    match text with
    | some cs => return (str (String.ofList cs), rest)
    | none => return (invalid, rest)) := rfl

theorem value_arr {js : List Json} (hs : ∀ t, skipSpace s ≠ ']' :: t)
    (hitems : items fuel d s = some (js, rest)) :
    value (fuel + 1) (d + 1) ('[' :: s) = some (arr js, rest) := by
  rw [value_bracket]
  split
  · next heq => exact absurd heq (hs _)
  · rw [hitems]
    rfl

theorem value_obj {fs : List (String × Json)} (hs : ∀ t, skipSpace s ≠ '\x7d' :: t)
    (hfields : fields fuel d s = some (some fs, rest)) :
    value (fuel + 1) (d + 1) ('\x7b' :: s) = some (obj fs, rest) := by
  rw [value_brace]
  split
  · next heq => exact absurd heq (hs _)
  · rw [hfields]
    rfl

theorem value_str (k : String) :
    value (fuel + 1) d ((quote k).toList ++ rest) = some (str k, rest) := by
  have hquoted : (quote k).toList ++ rest =
      '"' :: (k.toList.flatMap escapeChar ++ '"' :: rest) := by
    simp [toList_quote]
  rw [hquoted, value_quotationMark, stringBody_quote]
  simp [String.ofList_toList]

/-- The first character of a number tells it from all other values and from what stands between
them. -/
theorem exists_toList_toString (n : Int) : ∃ c t, (toString n).toList = c :: t ∧
    ∀ b ∈ [' ', '\n', '\t', '\r', 'n', 't', 'f', '"', '[', ']', '\x7b'], c ≠ b := by
  have hall : ∀ b ∈ [' ', '\n', '\t', '\r', 'n', 't', 'f', '"', '[', ']', '\x7b'],
      '-' ≠ b ∧ ¬ b.isDigit := by
    simp only [List.forall_mem_cons, List.not_mem_nil, false_implies, implies_true]
    decide
  cases n with
  | negSucc m =>
    refine ⟨'-', (m + 1).repr.toList, ?_, fun b hb => (hall b hb).1⟩
    show ("-" ++ (m + 1).repr).toList = _
    rw [String.toList_append]
    rfl
  | ofNat m =>
    have htext : (toString (Int.ofNat m)).toList = Nat.toDigits 10 m := Nat.toList_repr
    cases hd : Nat.toDigits 10 m with
    | nil => exact absurd hd Nat.toDigits_ne_nil
    | cons c ds =>
      refine ⟨c, ds, htext.trans hd, ?_⟩
      rintro b hb rfl
      exact (hall c hb).2
        (Nat.isDigit_of_mem_toDigits (by omega) (Nat.le_refl 10) (hd ▸ List.mem_cons_self))

theorem value_int {n : Int} (hn : n.natAbs < UInt64.size) (hrest : EndsNumber rest) :
    value (fuel + 1) d ((toString n).toList ++ rest) = some (int n, rest) := by
  have hnumber := number_toString hn hrest
  obtain ⟨c, t, htext, hother⟩ := exists_toList_toString n
  rw [htext, List.cons_append] at hnumber ⊢
  have hspace : isSpace c = false := by
    simp [isSpace, hother ' ', hother '\n', hother '\t', hother '\r']
  rw [value, skipSpace_cons hspace]
  split
  · next heq => exact absurd (List.cons.inj heq).1 (hother 'n' (by decide))
  · next heq => exact absurd (List.cons.inj heq).1 (hother 't' (by decide))
  · next heq => exact absurd (List.cons.inj heq).1 (hother 'f' (by decide))
  · next heq => exact absurd (List.cons.inj heq).1 (hother '"' (by decide))
  · next heq => exact absurd (List.cons.inj heq).1 (hother '[' (by decide))
  · next heq => exact absurd (List.cons.inj heq).1 (hother '\x7b' (by decide))
  · exact hnumber

theorem toList_null (level : Nat) : (prettyAt level null).toList = ['n', 'u', 'l', 'l'] := by
  show "null".toList = _
  simp

theorem toList_true (level : Nat) :
    (prettyAt level (bool true)).toList = ['t', 'r', 'u', 'e'] := by
  show "true".toList = _
  simp

theorem toList_false (level : Nat) :
    (prettyAt level (bool false)).toList = ['f', 'a', 'l', 's', 'e'] := by
  show "false".toList = _
  simp

theorem toList_nil_arr (level : Nat) : (prettyAt level (arr [])).toList = ['[', ']'] := by
  show "[]".toList = _
  simp

theorem toList_nil_obj (level : Nat) :
    (prettyAt level (obj [])).toList = ['\x7b', '\x7d'] := by
  show "\x7b\x7d".toList = _
  simp

theorem toList_arr (level : Nat) (j : Json) (js : List Json) :
    (prettyAt level (arr (j :: js))).toList =
      '[' :: ((newline (level + 1)).toList ++ ((prettyAt (level + 1) j).toList ++
        ((prettyItems (level + 1) js).toList ++ ((newline level).toList ++ [']'])))) := by
  show ("[" ++ newline (level + 1) ++ prettyAt (level + 1) j ++ prettyItems (level + 1) js ++
    newline level ++ "]").toList = _
  simp only [String.toList_append, List.append_assoc]
  rfl

theorem toList_obj (level : Nat) (f : String × Json) (fs : List (String × Json)) :
    (prettyAt level (obj (f :: fs))).toList =
      '\x7b' :: ((newline (level + 1)).toList ++ ((quote f.1).toList ++ (": ".toList ++
        ((prettyAt (level + 1) f.2).toList ++ ((prettyFields (level + 1) fs).toList ++
          ((newline level).toList ++ ['\x7d'])))))) := by
  show ("\x7b" ++ newline (level + 1) ++ quote f.1 ++ ": " ++ prettyAt (level + 1) f.2 ++
    prettyFields (level + 1) fs ++ newline level ++ "\x7d").toList = _
  simp only [String.toList_append, List.append_assoc]
  rfl

/-- No tree is written with the closing bracket of an array in front. -/
theorem exists_skipSpace_prettyAt (h : Writable d j) (level : Nat) (s : List Char) :
    ∃ c t, skipSpace ((prettyAt level j).toList ++ s) = c :: t ∧ c ≠ ']' := by
  have hstart : ∀ c t, (prettyAt level j).toList = c :: t → isSpace c = false → c ≠ ']' →
      ∃ c t, skipSpace ((prettyAt level j).toList ++ s) = c :: t ∧ c ≠ ']' := by
    intro c t htext hspace hc
    exact ⟨c, t ++ s, by rw [htext, List.cons_append, skipSpace_cons hspace], hc⟩
  cases h with
  | null => exact hstart 'n' _ (toList_null level) rfl (by decide)
  | @bool _ b =>
    cases b with
    | true => exact hstart 't' _ (toList_true level) rfl (by decide)
    | false => exact hstart 'f' _ (toList_false level) rfl (by decide)
  | @int _ n hn =>
    obtain ⟨c, t, htext, hother⟩ := exists_toList_toString n
    refine hstart c t (by rw [prettyAt, htext]) ?_ (hother ']' (by decide))
    simp [isSpace, hother ' ', hother '\n', hother '\t', hother '\r']
  | @str _ k => exact hstart '"' _ (by rw [prettyAt, toList_quote]) rfl (by decide)
  | @arr _ items _ =>
    cases items with
    | nil => exact hstart '[' _ (toList_nil_arr level) rfl (by decide)
    | cons j js => exact hstart '[' _ (toList_arr level j js) rfl (by decide)
  | @obj _ fields _ =>
    cases fields with
    | nil => exact hstart '\x7b' _ (toList_nil_obj level) rfl (by decide)
    | cons f fs => exact hstart '\x7b' _ (toList_obj level f fs) rfl (by decide)

/-- No text is empty, so that there is always room for one round. -/
theorem ReadsBack.of_succ (h : Writable d j)
    (hread : ∀ level fuel rest, (prettyAt level j).toList.length ≤ fuel + 1 → EndsNumber rest →
      value (fuel + 1) d ((prettyAt level j).toList ++ rest) = some (j, rest)) : ReadsBack d j := by
  intro level fuel rest hfuel hrest
  cases fuel with
  | succ fuel => exact hread level fuel rest hfuel hrest
  | zero =>
    obtain ⟨c, t, hstart, -⟩ := exists_skipSpace_prettyAt h level []
    rw [List.length_eq_zero_iff.mp (Nat.le_zero.mp hfuel)] at hstart
    cases hstart

theorem readsBack_arr {items : List Json} (h : ∀ j ∈ items, Writable d j)
    (ih : ∀ j ∈ items, ReadsBack d j) : ReadsBack (d + 1) (arr items) := by
  refine ReadsBack.of_succ (.arr h) fun level fuel rest hfuel _ => ?_
  cases items with
  | nil =>
    rw [toList_nil_arr]
    exact value_nil_arr
  | cons j js =>
    rw [toList_arr] at hfuel ⊢
    simp only [List.length_append, List.length_cons] at hfuel
    have hread := items_pretty level (level + 1) rest fuel
      ih (by rw [List.length_append]; omega)
    obtain ⟨c, t, hstart, hc⟩ := exists_skipSpace_prettyAt (h j List.mem_cons_self) (level + 1)
      ((prettyItems (level + 1) js).toList ++ ((newline level).toList ++ ']' :: rest))
    rw [← items_blanks (newline_blanks (level + 1))] at hread
    rw [← skipSpace_blanks (newline_blanks (level + 1))] at hstart
    simp only [List.cons_append, List.append_assoc, List.nil_append]
    refine value_arr (fun t' ht' => ?_) hread
    exact hc (List.cons.inj (hstart.symm.trans ht')).1

theorem readsBack_obj {fields : List (String × Json)} (h : ∀ f ∈ fields, Writable d f.2)
    (ih : ∀ f ∈ fields, ReadsBack d f.2) : ReadsBack (d + 1) (obj fields) := by
  refine ReadsBack.of_succ (.obj h) fun level fuel rest hfuel _ => ?_
  cases fields with
  | nil =>
    rw [toList_nil_obj]
    exact value_nil_obj
  | cons f fs =>
    rw [toList_obj] at hfuel ⊢
    simp only [List.length_append, List.length_cons] at hfuel
    have hread := fields_pretty level (level + 1) rest fuel
      ih (by rw [List.length_append]; omega)
    rw [← fields_blanks (newline_blanks (level + 1))] at hread
    simp only [List.cons_append, List.append_assoc, List.nil_append]
    refine value_obj (fun t ht => ?_) hread
    rw [skipSpace_blanks (newline_blanks (level + 1)), toList_quote, List.cons_append,
      skipSpace_cons rfl] at ht
    exact absurd (List.cons.inj ht).1 (by decide)

/-- **The text of a tree is read as the tree**, by induction on the tree: every value takes at least
as many characters as it takes rounds of the reader. -/
theorem readsBack (h : Writable d j) : ReadsBack d j := by
  induction h with
  | null =>
    refine ReadsBack.of_succ .null fun level fuel rest _ _ => ?_
    rw [toList_null]
    rfl
  | @bool d b =>
    refine ReadsBack.of_succ .bool fun level fuel rest _ _ => ?_
    cases b with
    | true =>
      rw [toList_true]
      rfl
    | false =>
      rw [toList_false]
      rfl
  | int hn =>
    refine ReadsBack.of_succ (.int hn) fun level fuel rest _ hrest => ?_
    rw [prettyAt]
    exact value_int hn hrest
  | @str d k =>
    refine ReadsBack.of_succ .str fun level fuel rest _ _ => ?_
    rw [prettyAt]
    exact value_str k
  | arr h ih => exact readsBack_arr h ih
  | obj h ih => exact readsBack_obj h ih

end Reader

/-- **An indented text is read as the tree it was written from.** -/
theorem read?_pretty {d : Nat} {j : Json} (h : Writable d j) : read? d j.pretty = some j := by
  have hvalue := Reader.readsBack h 0 (j.pretty.toList.length + 1) []
    (Nat.le_succ _) (fun c hc => nomatch hc)
  rw [List.append_nil] at hvalue
  unfold read?
  dsimp only
  rw [← pretty] at hvalue
  rw [hvalue]
  rfl

end Bindery.Json
