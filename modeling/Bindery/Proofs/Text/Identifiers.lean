import Bindery.Proofs.Text.Mangler
import Bindery.Proofs.Text.Pieces

/-!
# Identifiers of names

Whatever a name is made of, each of its characters is spelled out with characters that may stand in
identifiers.  What comes of it may begin with a digit, as the name does; then an underscore is put
in front.

## Main results

* `spellName_all` — a name that is spelled out is made of letters, digits and underscores.
* `identifierOf_canonical` — **each name but the empty one has an identifier, and identifiers are
  the only other names that are their own**, so that an identifier of an identifier is the same.
-/

namespace Bindery.Text

variable {c d : Char} {word name s : List Char}

/-! ### Characters of identifiers -/

theorem isNameChar_of_spelledOut? {word : String} (h : spelledOut? c = some word) :
    word.toList ≠ [] ∧ ∀ d ∈ word.toList, isNameChar d := by
  rw [← List.all_eq_true]
  unfold spelledOut? at h
  split at h <;> cases h <;> decide

theorem isNameChar_of_mem_toDigits {n : Nat} (h : c ∈ Nat.toDigits 16 n) : isNameChar c := by
  induction n using Nat.strongRecOn with
  | ind n ih =>
    have hdigit : ∀ k < 16, isNameChar k.digitChar := by decide
    by_cases hlt : n < 16
    · rw [Nat.toDigits_of_lt_base hlt, List.mem_singleton] at h
      exact h ▸ hdigit n hlt
    · have hsplit : 16 * (n / 16) + n % 16 = n := Nat.div_add_mod n 16
      have hmod : n % 16 < 16 := Nat.mod_lt n (by omega)
      rw [← hsplit, ← Nat.toDigits_append_toDigits (by omega) (by omega) hmod,
        Nat.toDigits_of_lt_base hmod, List.mem_append, List.mem_singleton] at h
      rcases h with h | rfl
      · exact ih (n / 16) (by omega) h
      · exact hdigit _ hmod

/-- A character is spelled out with characters of identifiers. -/
theorem spellChar_all (c : Char) : spellChar c ≠ [] ∧ ∀ d ∈ spellChar c, isNameChar d := by
  unfold spellChar
  split
  · next word hword => exact isNameChar_of_spelledOut? hword
  · split
    · next hname => exact ⟨List.cons_ne_nil _ _, by simpa using hname⟩
    · refine ⟨List.cons_ne_nil _ _, fun d hd => ?_⟩
      rw [List.cons_append, List.mem_cons, List.mem_append, List.mem_singleton] at hd
      rcases hd with rfl | hd | rfl
      · rfl
      · exact isNameChar_of_mem_toDigits hd
      · rfl

/-- **A name is spelled out with characters of identifiers**, and only the empty one with none. -/
theorem spellName_all (name : List Char) :
    (spellName name = [] ↔ name = []) ∧ ∀ d ∈ spellName name, isNameChar d := by
  fun_induction spellName name with
  | case1 rest ih =>
    refine ⟨by simp, fun d hd => ?_⟩
    rcases List.mem_append.mp hd with hd | hd
    · have hscope : "_scope_".toList.all isNameChar := by decide
      exact List.all_eq_true.mp hscope d hd
    · exact ih.2 d hd
  | case2 c rest _ ih =>
    obtain ⟨hne, hall⟩ := spellChar_all c
    refine ⟨by simp [hne], fun d hd => ?_⟩
    rcases List.mem_append.mp hd with hd | hd
    · exact hall d hd
    · exact ih.2 d hd
  | case3 => exact ⟨Iff.rfl, fun d hd => absurd hd List.not_mem_nil⟩

/-! ### Identifiers -/

/-- A character of an identifier that is no digit may stand in front. -/
theorem isNameStart_of_isNameChar (h : isNameChar c) (hdigit : ¬ c.isDigit) : isNameStart c := by
  rw [isNameChar, Bool.or_eq_true, Char.isAlphanum, Bool.or_eq_true] at h
  rw [isNameStart, Bool.or_eq_true]
  tauto

theorem isName_of_all (hstart : isNameStart c) (hall : ∀ d ∈ s, isNameChar d) :
    isName (c :: s) := by
  rw [isName, Bool.and_eq_true, List.all_eq_true]
  exact ⟨hstart, hall⟩

/-- The identifier of a name is one, unless the name is empty. -/
theorem isName_identifierChars (name : List Char) :
    isName (identifierChars name) ↔ name ≠ [] := by
  unfold identifierChars
  split
  · next hname =>
    refine iff_of_true hname ?_
    rintro rfl
    cases hname
  · obtain ⟨hnil, hall⟩ := spellName_all name
    cases hspelled : spellName name with
    | nil => exact iff_of_false (by decide) (not_not_intro (hnil.mp hspelled))
    | cons c rest =>
      rw [hspelled] at hall hnil
      obtain ⟨hc, hrest⟩ := List.forall_mem_cons.mp hall
      refine iff_of_true ?_ fun hname => absurd (hnil.mpr hname) (List.cons_ne_nil c rest)
      dsimp only
      split
      · exact isName_of_all rfl hall
      · next hdigit => exact isName_of_all (isNameStart_of_isNameChar hc hdigit) hrest

theorem isIdentifier_identifierOf (name : String) :
    isIdentifier (identifierOf name) ↔ name ≠ "" := by
  unfold isIdentifier identifierOf
  rw [String.toList_ofList, isName_identifierChars]
  exact not_congr String.toList_eq_nil_iff

/-- **Each name but the empty one has an identifier.**  Apart from the empty one, the names that are
their own identifiers are the identifiers, so that an identifier of an identifier is the same. -/
theorem identifierOf_canonical (name : String) :
    (isIdentifier (identifierOf name) ↔ name ≠ "") ∧
      (identifierOf name = name ↔ isIdentifier name ∨ name = "") ∧
      identifierOf (identifierOf name) = identifierOf name := by
  have hvalid := isIdentifier_identifierOf name
  refine ⟨hvalid, ⟨fun h => ?_, ?_⟩, ?_⟩
  · rw [h] at hvalid
    exact (em (name = "")).elim .inr fun hne => .inl (hvalid.mpr hne)
  · rintro (hname | rfl)
    · exact identifierOf_eq_self hname
    · rfl
  · by_cases hne : name = ""
    · rw [hne]
      rfl
    · exact identifierOf_eq_self (hvalid.mpr hne)

example : identifierOf "2:é" = "_2_3a__e9_" := by decide

end Bindery.Text
