import Bindery.Text.Find
import Mathlib.Data.List.Infix

/-!
# Occurrences and their places

The place of a part of a text is the number of bytes in front of it.  A beginning of the text has
as many bytes as no other beginning, so that a place tells what stands in front of it.

## Main definitions

* `FirstAt needle s front` — the first occurrence of a text in another stands behind `front`.
* `StandsAt part source place size` — a text has the bytes of a part at a place.

## Main results

* `prefix_of_utf8Size_le` — of two beginnings, the one with fewer bytes is a beginning of the other.
* `offsetOf?_of_firstAt`, `exists_firstAt` — the search finds the first occurrence.
* `standsAt_behind` — the bytes of a part are found at its place.
-/

namespace Bindery.Text

variable {needle s a b front part : List Char}

/-! ### Numbers of bytes -/

@[simp] theorem utf8Size_nil : utf8Size [] = 0 := rfl

@[simp] theorem utf8Size_cons (c : Char) (s : List Char) :
    utf8Size (c :: s) = c.utf8Size + utf8Size s := rfl

@[simp] theorem utf8Size_append (a b : List Char) :
    utf8Size (a ++ b) = utf8Size a + utf8Size b := by
  induction a with
  | nil => simp
  | cons c a ih => simp [ih, Nat.add_assoc]

theorem eq_nil_of_utf8Size (h : utf8Size s = 0) : s = [] := by
  cases s with
  | nil => rfl
  | cons c s =>
    have := c.utf8Size_pos
    rw [utf8Size_cons] at h
    omega

theorem utf8Size_le_of_prefix (h : a <+: b) : utf8Size a ≤ utf8Size b := by
  obtain ⟨c, rfl⟩ := h
  simp

/-- Of two beginnings of a text, the one with fewer bytes is a beginning of the other. -/
theorem prefix_of_utf8Size_le (ha : a <+: s) (hb : b <+: s) (h : utf8Size a ≤ utf8Size b) :
    a <+: b := by
  rcases List.prefix_or_prefix_of_prefix ha hb with hab | ⟨c, rfl⟩
  · exact hab
  · rw [utf8Size_append] at h
    rw [eq_nil_of_utf8Size (s := c) (by omega), List.append_nil]

/-- A place tells what stands in front of it. -/
theorem eq_of_utf8Size_eq (ha : a <+: s) (hb : b <+: s) (h : utf8Size a = utf8Size b) : a = b :=
  (prefix_of_utf8Size_le ha hb h.le).eq_of_length_le <|
    (prefix_of_utf8Size_le hb ha h.ge).length_le

/-! ### First occurrences -/

/-- The first occurrence of `needle` in a text stands behind `front`. -/
def FirstAt (needle s front : List Char) : Prop :=
  front ++ needle <+: s ∧ ∀ other, other ++ needle <+: s → front <+: other

theorem FirstAt.unique {front' : List Char} (h : FirstAt needle s front)
    (h' : FirstAt needle s front') : front = front' :=
  (h.2 front' h'.1).eq_of_length_le (h'.2 front h.1).length_le

theorem FirstAt.occurs (h : FirstAt needle s front) : needle <:+: s :=
  (List.suffix_append front needle).isInfix.trans h.1.isInfix

theorem firstAt_nil (h : needle <+: s) : FirstAt needle s [] := ⟨h, fun other _ => other.nil_prefix⟩

theorem FirstAt.cons {c : Char} (h : FirstAt needle s front) (hc : ¬ needle <+: c :: s) :
    FirstAt needle (c :: s) (c :: front) := by
  refine ⟨List.cons_prefix_cons.mpr ⟨rfl, h.1⟩, fun other hother => ?_⟩
  cases other with
  | nil => exact absurd hother hc
  | cons d other =>
    obtain ⟨rfl, hrest⟩ := List.cons_prefix_cons.mp hother
    exact List.cons_prefix_cons.mpr ⟨rfl, h.2 other hrest⟩

/-- The search fails where the text does not stand, and finds its first occurrence otherwise. -/
theorem offsetOf?_cases (needle s : List Char) :
    (offsetOf? needle s = none ∧ ¬ needle <:+: s) ∨
      ∃ front, FirstAt needle s front ∧ offsetOf? needle s = some (utf8Size front) := by
  induction s with
  | nil =>
    unfold offsetOf?
    by_cases hn : needle = []
    · subst hn
      exact .inr ⟨[], firstAt_nil List.prefix_rfl, rfl⟩
    · refine .inl ⟨if_neg (by simpa using hn), fun h => hn (List.infix_nil.mp h)⟩
  | cons c s ih =>
    unfold offsetOf?
    by_cases hc : needle <+: c :: s
    · exact .inr ⟨[], firstAt_nil hc, if_pos (List.isPrefixOf_iff_prefix.mpr hc)⟩
    · rw [if_neg (by simpa using hc)]
      rcases ih with ⟨hnone, hs⟩ | ⟨front, hfirst, hsome⟩
      · refine .inl ⟨by rw [hnone]; rfl, fun h => ?_⟩
        exact (List.infix_cons_iff.mp h).elim hc hs
      · exact .inr ⟨c :: front, hfirst.cons hc, by rw [hsome]; rfl⟩

theorem offsetOf?_of_firstAt (h : FirstAt needle s front) :
    offsetOf? needle s = some (utf8Size front) := by
  rcases offsetOf?_cases needle s with ⟨-, hs⟩ | ⟨front', h', hsome⟩
  · exact absurd h.occurs hs
  · rw [hsome, h.unique h']

theorem exists_firstAt (h : needle <:+: s) : ∃ front, FirstAt needle s front := by
  rcases offsetOf?_cases needle s with ⟨-, hs⟩ | ⟨front, hfirst, -⟩
  · exact absurd h hs
  · exact ⟨front, hfirst⟩

/-! ### Bytes -/

theorem size_utf8Encode (s : List Char) : s.utf8Encode.size = utf8Size s := by
  induction s with
  | nil => rfl
  | cons c s ih =>
    rw [List.utf8Encode_cons, ByteArray.size_append, ih]
    simp [List.utf8Encode_singleton]

theorem toUTF8_eq (s : String) : s.toUTF8 = s.toList.utf8Encode := by
  conv_lhs => rw [← String.ofList_toList (s := s)]
  exact String.toByteArray_ofList

theorem utf8ByteSize_eq (s : String) : s.utf8ByteSize = utf8Size s.toList := by
  rw [← size_utf8Encode, ← toUTF8_eq]
  rfl

theorem extract_toUTF8 {source part : String}
    (h : front ++ part.toList <+: source.toList) :
    source.toUTF8.extract (utf8Size front) (utf8Size front + utf8Size part.toList) =
      part.toUTF8 := by
  obtain ⟨back, hback⟩ := h
  rw [toUTF8_eq, toUTF8_eq, ← hback, List.append_assoc, List.utf8Encode_append,
    List.utf8Encode_append, ← size_utf8Encode front, ← size_utf8Encode part.toList]
  have hskip := ByteArray.extract_append_size_add (a := front.utf8Encode)
    (b := part.toList.utf8Encode ++ back.utf8Encode) (i := 0) (j := part.toList.utf8Encode.size)
  rw [Nat.add_zero] at hskip
  rw [hskip, ByteArray.extract_append_eq_left rfl]

/-- A text has the bytes of a part at a place. -/
def StandsAt (part source : String) (place size : Nat) : Prop :=
  place + size ≤ source.utf8ByteSize ∧ source.toUTF8.extract place (place + size) = part.toUTF8

/-- The bytes of a part of a text are found at its place. -/
theorem standsAt_behind {source part : String} (h : front ++ part.toList <+: source.toList) :
    StandsAt part source (utf8Size front) (utf8Size part.toList) := by
  have hsize := utf8Size_le_of_prefix h
  rw [utf8Size_append, ← utf8ByteSize_eq source] at hsize
  exact ⟨hsize, extract_toUTF8 h⟩

end Bindery.Text
