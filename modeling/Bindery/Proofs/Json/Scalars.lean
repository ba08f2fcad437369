import Bindery.Json.Reader
import Bindery.Json.Writer
import Mathlib.Data.List.TakeDrop
import Mathlib.Data.List.TakeWhile

/-!
# Reading strings and numbers that were written

A string is written with escapes for the characters that may not stand in it, and a whole number
with its digits.  The reader takes off just what was written, if a number is not continued by what
follows.

## Main definitions

* `Json.Reader.EndsNumber` — what follows does not continue a number.

## Main results

* `Reader.stringBody_quote` — **a quoted string is read as itself.**
* `Reader.number_toString` — **a whole number of at most 64 bits is read as itself.**
-/

namespace Bindery.Json.Reader

variable {fuel : Nat} {s rest : List Char} {c : Char}

/-! ### Strings -/

theorem hexDigit?_hexChar : ∀ n < 16, hexDigit? (hexChar n) = some n := by decide

theorem unicodeEscape_low {n : Nat} (hn : n < 0x20) :
    unicodeEscape ('0' :: '0' :: hexChar (n / 16) :: hexChar (n % 16) :: rest) =
      some (.char (Char.ofNat n), rest) := by
  have hvalue : n / 16 * 16 + n % 16 = n := by omega
  have hhex : hex4 ('0' :: '0' :: hexChar (n / 16) :: hexChar (n % 16) :: rest) = some (n, rest) := by
    simp [hex4, hexDigit?_hexChar (n / 16) (by omega), hexDigit?_hexChar (n % 16) (by omega),
      show hexDigit? '0' = some 0 from rfl, hvalue]
  rw [unicodeEscape, hhex]
  simp [show ¬ 0xD800 ≤ n by omega, show ¬ 0xDC00 ≤ n by omega]

/-- What is read behind one character. -/
theorem stringBody_simpleEscape {e : Char} (hu : e ≠ 'u') (h : simpleEscape? e = some c) :
    stringBody (fuel + 1) ('\\' :: e :: s) =
      (stringBody fuel s).map fun r => (r.1.map (c :: ·), r.2) := by
  rw [stringBody]
  · rw [h]
    cases stringBody fuel s <;> rfl
  · exact hu

theorem stringBody_plain (hquote : c ≠ '"') (hslash : c ≠ '\\') (hc : 0x20 ≤ c.toNat) :
    stringBody (fuel + 1) (c :: s) =
      (stringBody fuel s).map fun r => (r.1.map (c :: ·), r.2) := by
  rw [stringBody]
  · rw [if_neg (by simp [hslash, hc])]
    cases stringBody fuel s <;> rfl
  · exact hquote
  · exact fun rest heq => absurd heq hslash
  · exact fun e rest heq => absurd heq hslash

/-- One character is read behind its escape, or as it stands. -/
theorem stringBody_escapeChar (c : Char) : stringBody (fuel + 1) (escapeChar c ++ s) =
    (stringBody fuel s).map fun r => (r.1.map (c :: ·), r.2) := by
  unfold escapeChar
  split
  · exact stringBody_simpleEscape (by decide) rfl
  · exact stringBody_simpleEscape (by decide) rfl
  · exact stringBody_simpleEscape (by decide) rfl
  · exact stringBody_simpleEscape (by decide) rfl
  · exact stringBody_simpleEscape (by decide) rfl
  · exact stringBody_simpleEscape (by decide) rfl
  · exact stringBody_simpleEscape (by decide) rfl
  · next hquote hslash _ _ _ _ _ =>
    split
    · next hlow =>
      show stringBody (fuel + 1)
        ('\\' :: 'u' :: '0' :: '0' :: hexChar (c.toNat / 16) :: hexChar (c.toNat % 16) :: s) = _
      rw [stringBody, unicodeEscape_low hlow, Char.ofNat_toNat, Option.bind_eq_bind,
        Option.bind_some]
      dsimp only
      cases stringBody fuel s <;> rfl
    · next hhigh => exact stringBody_plain hquote hslash (Nat.not_lt.mp hhigh)

/-- **A string is read up to its closing quote.** -/
theorem stringBody_escape : ∀ {cs : List Char} {fuel : Nat}, cs.length < fuel →
    stringBody fuel (cs.flatMap escapeChar ++ '"' :: rest) = some (some cs, rest)
  | [], fuel + 1, _ => rfl
  | c :: cs, fuel + 1, h => by
    rw [List.flatMap_cons, List.append_assoc, stringBody_escapeChar,
      stringBody_escape (Nat.lt_of_succ_lt_succ h)]
    rfl

theorem length_le_flatMap_escapeChar (cs : List Char) :
    cs.length ≤ (cs.flatMap escapeChar).length := by
  have hpos : ∀ c, 1 ≤ (escapeChar c).length := by
    intro c
    unfold escapeChar
    split <;> try exact Nat.le_add_left 1 1
    split <;> simp
  induction cs with
  | nil => exact Nat.zero_le _
  | cons c cs ih =>
    have := hpos c
    rw [List.flatMap_cons, List.length_append, List.length_cons]
    omega

/-- The reader of a quoted string gives it enough room. -/
theorem stringBody_quote (cs : List Char) :
    stringBody ((cs.flatMap escapeChar ++ '"' :: rest).length + 1)
      (cs.flatMap escapeChar ++ '"' :: rest) = some (some cs, rest) := by
  have hlen := length_le_flatMap_escapeChar cs
  exact stringBody_escape (by rw [List.length_append]; omega)

/-! ### Numbers -/

/-- A number in front of this text ends there. -/
def EndsNumber (rest : List Char) : Prop :=
  ∀ c ∈ rest.head?, ¬ c.isDigit ∧ c ≠ '.' ∧ c ≠ 'e' ∧ c ≠ 'E'

theorem span_isDigit {ds : List Char} (hds : ∀ c ∈ ds, c.isDigit) (hrest : EndsNumber rest) :
    (ds ++ rest).span Char.isDigit = (ds, rest) := by
  have hnone : rest.takeWhile Char.isDigit = [] ∧ rest.dropWhile Char.isDigit = rest := by
    cases rest with
    | nil => exact ⟨rfl, rfl⟩
    | cons c rest =>
      have hc := (hrest c rfl).1
      exact ⟨List.takeWhile_cons_of_neg hc, List.dropWhile_cons_of_neg hc⟩
  rw [List.span_eq_takeWhile_dropWhile, List.takeWhile_append_of_pos hds,
    List.dropWhile_append_of_pos hds, hnone.1, hnone.2, List.append_nil]

theorem digitsValue_eq (ds : List Char) : Decimal.digitsValue ds = Nat.ofDigitChars 10 ds 0 := by
  unfold Decimal.digitsValue Nat.ofDigitChars
  simp only [Nat.mul_comm]

theorem le_ofDigitChars : ∀ (ds : List Char) (n : Nat), n ≤ Nat.ofDigitChars 10 ds n
  | [], n => Nat.le_refl n
  | d :: ds, n => (by omega : n ≤ 10 * n + (d.toNat - '0'.toNat)).trans
      (le_ofDigitChars ds (10 * n + (d.toNat - '0'.toNat)))

/-- Digits that fit in 64 bits are all taken. -/
theorem takeDigits_eq : ∀ {ds : List Char} {n : Nat},
    Nat.ofDigitChars 10 ds n < UInt64.size → Decimal.takeDigits n ds = (Nat.ofDigitChars 10 ds n, [])
  | [], n, _ => rfl
  | d :: ds, n, h => by
    have hnext : n * 10 + (d.toNat - '0'.toNat) < UInt64.size := by
      rw [Nat.mul_comm]
      exact (le_ofDigitChars ds _).trans_lt h
    rw [Decimal.takeDigits, if_pos hnext]
    rw [Nat.mul_comm] at hnext ⊢
    exact takeDigits_eq h

theorem roundToDouble_le (n : Nat) :
    Decimal.roundToDouble n ≤ n + 1 <<< (n.log2 - 52) := by
  have hkept : (n >>> (n.log2 - 52)) <<< (n.log2 - 52) ≤ n := by
    rw [Nat.shiftLeft_eq, Nat.shiftRight_eq_div_pow]
    exact Nat.div_mul_le_self n _
  unfold Decimal.roundToDouble
  dsimp only
  split
  · rw [Nat.shiftLeft_eq] at hkept ⊢
    rw [Nat.add_mul, Nat.shiftLeft_eq]
    exact Nat.add_le_add_right hkept _
  · exact hkept.trans (Nat.le_add_right n _)

/-- No number of 64 bits is too large for a double. -/
theorem isProductFinite_of_lt {n : Nat} (hn : n < UInt64.size) :
    Decimal.isProductFinite ⟨n, 0⟩ := by
  have hpow : 1 <<< (n.log2 - 52) ≤ 2 ^ 64 := by
    rw [Nat.one_shiftLeft]
    refine Nat.pow_le_pow_right (by omega) ((Nat.sub_le _ _).trans ?_)
    by_cases h0 : n = 0
    · simp [h0]
    · exact ((Nat.log2_lt h0).mpr hn).le
  have hround := (roundToDouble_le n).trans (Nat.add_le_add hn.le hpow)
  have hone : Decimal.roundToDouble (Nat.pow 10 0) = 1 := by decide
  have hlimit : UInt64.size + 2 ^ 64 < Decimal.doubleLimit := by decide +kernel
  show (n == 0 || (0 ≤ Decimal.largestPower &&
    decide (Decimal.roundToDouble n * Decimal.roundToDouble (Nat.pow 10 0) < Decimal.doubleLimit))) =
      true
  rw [hone, Nat.mul_one, decide_eq_true (hround.trans_lt hlimit)]
  simp

theorem toDigits_head_ne_zero : ∀ {n : Nat}, 0 < n → (Nat.toDigits 10 n).head? ≠ some '0'
  | n, hn => by
    by_cases hlt : n < 10
    · rw [Nat.toDigits_of_lt_base hlt]
      have hchar : ∀ k < 10, 0 < k → some k.digitChar ≠ some '0' := by decide
      exact hchar n hlt hn
    · have hsplit : 10 * (n / 10) + n % 10 = n := by omega
      have ih := toDigits_head_ne_zero (n := n / 10) (by omega)
      rw [← hsplit, ← Nat.toDigits_append_toDigits (by omega) (by omega) (by omega)]
      cases hd : Nat.toDigits 10 (n / 10) with
      | nil => exact absurd hd Nat.toDigits_ne_nil
      | cons c ds =>
        rw [hd] at ih
        exact ih

theorem fraction_of_endsNumber (h : EndsNumber rest) : fraction rest = some ([], rest) := by
  unfold fraction
  split
  · next rest' => exact absurd rfl (h '.' rfl).2.1
  · rfl

theorem exponent_of_endsNumber (h : EndsNumber rest) : exponent rest = some (([], 0), rest) := by
  cases rest with
  | nil => rfl
  | cons c rest =>
    obtain ⟨-, -, he, hE⟩ := h c rfl
    rw [exponent, if_neg (by simp [he, hE])]

/-- The digits of a number, and a minus sign if it is to be there, are read as the number. -/
theorem number_toDigits (neg : Bool) {n : Nat} (hn : n < UInt64.size) (hneg : neg → 0 < n)
    (hrest : EndsNumber rest) :
    number ((if neg then ['-'] else []) ++ (Nat.toDigits 10 n ++ rest)) =
      some (int (if neg then -n else n), rest) := by
  have hdigits : ∀ c ∈ Nat.toDigits 10 n, c.isDigit := fun c hc =>
    Nat.isDigit_of_mem_toDigits (by omega) (Nat.le_refl 10) hc
  have hvalue : Nat.ofDigitChars 10 (Nat.toDigits 10 n) 0 = n :=
    Nat.ofDigitChars_toDigits (by omega) (Nat.le_refl 10)
  have hspan := span_isDigit hdigits hrest
  have hlead : ((Nat.toDigits 10 n).head? == some '0' && (Nat.toDigits 10 n).length > 1) = false := by
    rcases Nat.eq_zero_or_pos n with rfl | hpos
    · decide
    · simp [toDigits_head_ne_zero hpos]
  have hdecimal : Decimal.ofLeadingDigits (Nat.toDigits 10 n) [] 0 = ⟨n, 0⟩ := by
    unfold Decimal.ofLeadingDigits
    rw [takeDigits_eq (by rw [hvalue]; exact hn), hvalue]
    rfl
  have hzero : (neg && n == 0) = false := by
    cases neg with
    | false => rfl
    | true => simpa using (hneg rfl).ne'
  unfold number
  split
  next neg' s' heq =>
  have hsign : neg = neg' ∧ Nat.toDigits 10 n ++ rest = s' := by
    -- the sign is told by the first character
    cases neg with
    | true => exact Prod.mk.inj heq
    | false =>
      cases hd : Nat.toDigits 10 n with
      | nil => exact absurd hd Nat.toDigits_ne_nil
      | cons c ds =>
        have hc := hdigits c (hd ▸ List.mem_cons_self)
        rw [hd] at heq
        split at heq
        · next r hminus =>
          obtain ⟨rfl, -⟩ := List.cons.inj hminus
          exact absurd hc (by decide)
        · exact Prod.mk.inj heq
  obtain ⟨rfl, rfl⟩ := hsign
  rw [hspan]
  split
  · next hnil => exact absurd (Prod.mk.inj hnil).1 Nat.toDigits_ne_nil
  · next whole rest' hne heq =>
    obtain ⟨rfl, rfl⟩ := Prod.mk.inj heq
    rw [if_neg (by rw [hlead]; decide), fraction_of_endsNumber hrest]
    simp only [Option.bind_eq_bind, Option.bind_some, exponent_of_endsNumber hrest, hdecimal,
      isProductFinite_of_lt hn, digitsValue_eq, hvalue, hzero]
    rfl

/-- **A whole number is read as itself.** -/
theorem number_toString {n : Int} (hn : n.natAbs < UInt64.size) (hrest : EndsNumber rest) :
    number ((toString n).toList ++ rest) = some (int n, rest) := by
  cases n with
  | ofNat m =>
    have htext : (toString (Int.ofNat m)).toList = Nat.toDigits 10 m := Nat.toList_repr
    rw [htext]
    exact number_toDigits false hn (fun h => nomatch h) hrest
  | negSucc m =>
    have htext : (toString (Int.negSucc m)).toList = '-' :: Nat.toDigits 10 (m + 1) := by
      show ("-" ++ (m + 1).repr).toList = _
      rw [String.toList_append, Nat.toList_repr]
      rfl
    rw [htext]
    exact number_toDigits true hn (fun _ => Nat.succ_pos m) hrest

end Bindery.Json.Reader
