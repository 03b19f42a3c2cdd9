import CypherGremlin.Number.Decimal
import CypherGremlin.Proofs.Number.Bounds

/-!
# The text of a number determines it

`Decimal.textValue` is the value of a text of digits with a point and an exponent, as a rational
number.  A layout writes a decimal as a text with its value (`Layout.textValue_decimal`), and so the
text of a finite number stands for a value within the rounding bounds of the number.  No other
number has that value within its bounds, which gives `Binary64.text_injective`.
-/

namespace CypherGremlin

variable {whole rest : List Char} {x y : Binary64}

open List

/-! ## Runs of characters -/

/-- The text does not go on with a character of the given kind. -/
def Stops (p : Char → Bool) (text : List Char) : Prop := ∀ c ∈ text.head?, p c = false

abbrev AllDigits (text : List Char) : Prop := ∀ c ∈ text, c.isDigit = true

section

variable {p : Char → Bool} {run run' rest rest' : List Char}

lemma takeWhile_run (h : ∀ c ∈ run, p c = true) (hrest : Stops p rest) :
    (run ++ rest).takeWhile p = run := by
  rw [takeWhile_append_of_pos h]
  cases rest with
  | nil => simp
  | cons c rest => simp [hrest c (by simp)]

lemma dropWhile_run (h : ∀ c ∈ run, p c = true) (hrest : Stops p rest) :
    (run ++ rest).dropWhile p = rest := by
  rw [dropWhile_append_of_pos h]
  cases rest with
  | nil => simp
  | cons c rest => simp [hrest c (by simp)]

/-- A run of characters and what follows it can be told apart. -/
lemma run_append_inj (h : ∀ c ∈ run, p c = true) (h' : ∀ c ∈ run', p c = true)
    (hrest : Stops p rest) (hrest' : Stops p rest') (heq : run ++ rest = run' ++ rest') :
    run = run' ∧ rest = rest' := by
  constructor
  · rw [← takeWhile_run h hrest, heq, takeWhile_run h' hrest']
  · rw [← dropWhile_run h hrest, heq, dropWhile_run h' hrest']

end

/-! ## Digits -/

lemma allDigits_toDigits (n : Nat) : AllDigits (Nat.toDigits 10 n) := fun _ hc =>
  Nat.isDigit_of_mem_toDigits (by decide) (by decide) hc

namespace Decimal

lemma digitsValue_eq (digits : List Char) : digitsValue digits = Nat.ofDigitChars 10 digits 0 := by
  simp only [digitsValue, Nat.ofDigitChars, Nat.mul_comm]

@[simp] lemma digitsValue_toDigits (n : Nat) : digitsValue (Nat.toDigits 10 n) = n := by
  rw [digitsValue_eq, Nat.ofDigitChars_ten_toDigits]

lemma digitsValue_append_zeros (digits : List Char) (n : Nat) :
    digitsValue (digits ++ List.replicate n '0') = digitsValue digits * 10 ^ n := by
  rw [digitsValue_eq, digitsValue_eq, Nat.ofDigitChars_append, Nat.ofDigitChars_replicate_zero,
    Nat.mul_comm]

lemma digitsValue_zeros_append (n : Nat) (digits : List Char) :
    digitsValue (List.replicate n '0' ++ digits) = digitsValue digits := by
  rw [digitsValue_eq, digitsValue_eq, Nat.ofDigitChars_append, Nat.ofDigitChars_replicate_zero,
    Nat.mul_zero]

/-! ## Texts -/

/-- The value of digits with a point and an exponent. -/
def textValue (text : List Char) : ℚ :=
  let whole := text.takeWhile Char.isDigit
  let fraction := places (text.dropWhile Char.isDigit)
  digitsValue (whole ++ fraction.1) * 10 ^ ((exponent? fraction.2).getD 0 - fraction.1.length)

lemma textValue_point {fraction : List Char} (hwhole : AllDigits whole)
    (hfraction : AllDigits fraction) (hrest : Stops Char.isDigit rest) :
    textValue (whole ++ '.' :: (fraction ++ rest)) =
      digitsValue (whole ++ fraction) * 10 ^ ((exponent? rest).getD 0 - fraction.length) := by
  have hpoint : Stops Char.isDigit ('.' :: (fraction ++ rest)) := by simp [Stops]
  rw [textValue, takeWhile_run hwhole hpoint, dropWhile_run hwhole hpoint, places,
    takeWhile_run hfraction hrest, dropWhile_run hfraction hrest]

lemma textValue_fraction {fraction : List Char} (hwhole : AllDigits whole)
    (hfraction : AllDigits fraction) :
    textValue (whole ++ '.' :: fraction) = digitsValue (whole ++ fraction) * 10 ^
    (-(fraction.length : ℤ)) := by
  have hstop : Stops Char.isDigit [] := by simp [Stops]
  have hval := textValue_point hwhole hfraction hstop
  rwa [append_nil, exponent?, Option.getD_some, zero_sub] at hval

lemma textValue_exponent (hwhole : AllDigits whole) :
    textValue (whole ++ 'e' :: rest) = digitsValue whole * 10 ^
    (exponent? ('e' :: rest)).getD 0 := by
  have hexp : Stops Char.isDigit ('e' :: rest) := by simp [Stops]
  rw [textValue, takeWhile_run hwhole hexp, dropWhile_run hwhole hexp, places]
  · simp
  · rintro _ ⟨⟩

lemma sign_digits {digits : List Char} (h : AllDigits digits) : sign digits = (false, digits) := by
  fun_cases sign digits with
  | case1 rest => exact absurd (h '-' (by simp)) (by decide)
  | case2 rest => exact absurd (h '+' (by simp)) (by decide)
  | case3 => rfl

lemma exponent?_written (exponent : Int) :
    exponent? ('e' :: ((if exponent < 0 then ['-'] else []) ++ Nat.toDigits 10 exponent.natAbs)) =
      some exponent := by
  have hdigits := allDigits_toDigits exponent.natAbs
  have hall : (Nat.toDigits 10 exponent.natAbs).all Char.isDigit = true := all_eq_true.2 hdigits
  have hsome : (Nat.toDigits 10 exponent.natAbs).isEmpty = false := by simp
  rw [exponent?]
  by_cases hneg : exponent < 0
  · rw [if_pos hneg, singleton_append, sign]
    simp only [hall, hsome, digitsValue_toDigits, Bool.not_true, Bool.or_self, Bool.false_eq_true,
      if_false, if_true]
    exact congrArg some (by omega)
  · rw [if_neg hneg, nil_append, sign_digits hdigits]
    simp only [hall, hsome, digitsValue_toDigits, Bool.not_true, Bool.or_self, Bool.false_eq_true,
      if_false]
    exact congrArg some (by omega)

end Decimal

/-! ## Layouts -/

namespace Layout

open Decimal

variable {digits : List Char}

lemma allDigits_zeros (n : Nat) : AllDigits (List.replicate n '0') := by
  intro c hc
  rw [eq_of_mem_replicate hc]
  rfl

lemma textValue_positional (h : AllDigits digits) (point : Int) :
    textValue (positional digits point) = digitsValue digits * 10 ^ (point - digits.length) := by
  unfold positional
  split
  · rename_i hpoint
    have hval :=
      textValue_fraction (allDigits_zeros 1)
      (forall_mem_append.2 ⟨allDigits_zeros (-point).toNat, h⟩)
    rw [← append_assoc, replicate_append_replicate, digitsValue_zeros_append] at hval
    refine hval.trans ?_
    congr 2
    simp only [length_append, length_replicate]
    omega
  · split
    · rename_i hpoint hinside
      have htake : AllDigits (digits.take point.toNat) := fun c hc => h c (mem_of_mem_take hc)
      have hdrop : AllDigits (digits.drop point.toNat) := fun c hc => h c (mem_of_mem_drop hc)
      have hval := textValue_fraction htake hdrop
      rw [take_append_drop] at hval
      refine hval.trans ?_
      congr 2
      simp only [length_drop]
      omega
    · rename_i hpoint hinside
      have hval :=
        textValue_fraction (forall_mem_append.2 ⟨h, allDigits_zeros (point.toNat - digits.length)⟩)
        (allDigits_zeros 1)
      refine hval.trans ?_
      rw [append_assoc digits, replicate_append_replicate, digitsValue_append_zeros]
      have hexp : point - digits.length = ((point.toNat - digits.length + 1 : Nat) : ℤ) +
          -1 := by omega
      rw [hexp, zpow_add₀ (by norm_num), zpow_natCast]
      simp only [length_replicate, Nat.cast_mul, Nat.cast_pow]
      push_cast
      ring

lemma textValue_scientific (h : AllDigits digits) (hsome : digits ≠ []) (exponent : Int) :
    textValue (scientific false digits exponent) = digitsValue digits * 10 ^
    (exponent - (digits.length - 1)) := by
  have hsign : (if exponent < 0 then ['-'] else if false = true then ['+'] else []) =
      if exponent < 0 then ['-'] else [] := by simp
  have hexp := exponent?_written exponent
  simp only [scientific, hsign, append_assoc, cons_append]
  generalize (if exponent < 0 then ['-'] else []) ++ Nat.toDigits 10 exponent.natAbs = written at *
  have hstop : Stops Char.isDigit ('e' :: written) := by simp [Stops]
  cases digits with
  | nil => exact absurd rfl hsome
  | cons d rest =>
    cases rest with
    | nil =>
      refine (textValue_exponent h).trans ?_
      rw [hexp]
      simp
    | cons c rest =>
      obtain ⟨hd, hrest⟩ := forall_mem_cons.1 h
      refine (textValue_point (forall_mem_singleton.2 hd) hrest hstop).trans ?_
      rw [hexp]
      simp

theorem textValue_decimal (d : Decimal) : textValue (plain.decimal d) = d.value := by
  have hdigits := allDigits_toDigits d.digits
  have hsome : Nat.toDigits 10 d.digits ≠ [] := Nat.toDigits_ne_nil
  unfold decimal
  simp only
  split
  · rw [textValue_positional hdigits, digitsValue_toDigits, Decimal.value]
    congr 2
    ring
  · rw [show plain.signedExponent = false from rfl, textValue_scientific hdigits hsome,
      digitsValue_toDigits, Decimal.value]
    congr 2
    ring

lemma exists_decimal_eq (d : Decimal) : ∃ c rest, plain.decimal d = c :: rest ∧
    c.isDigit = true := by
  obtain ⟨c, rest, hdigits⟩ := exists_cons_of_ne_nil (Nat.toDigits_ne_nil (n := d.digits) (b := 10))
  have hc : c.isDigit = true := allDigits_toDigits d.digits c (by simp [hdigits])
  unfold decimal
  simp only [hdigits]
  split
  · unfold positional
    split
    · exact ⟨'0', _, rfl, rfl⟩
    · rename_i hpoint
      split
      · rw [take_cons (by omega)]
        exact ⟨c, _, rfl, hc⟩
      · exact ⟨c, _, rfl, hc⟩
  · unfold scientific
    cases rest with
    | nil => exact ⟨c, _, rfl, hc⟩
    | cons c' rest => exact ⟨c, _, rfl, hc⟩

/-- A character that numbers are written with. -/
def isNumberChar (c : Char) : Bool := c.isDigit || c == '.' || c == 'e' || c == '-'

lemma isNumberChar_of_isDigit {c : Char} (h : c.isDigit = true) : isNumberChar c = true := by
  simp [isNumberChar, h]

/-- A decimal is written with digits, a point and an exponent, at least one of the two. -/
lemma isNumberChar_decimal (d : Decimal) :
    (∀ c ∈ plain.decimal d, isNumberChar c = true) ∧ ∃ c ∈ plain.decimal d, c = '.' ∨ c = 'e' := by
  have hdigits := allDigits_toDigits d.digits
  generalize hd : Nat.toDigits 10 d.digits = digits at hdigits
  have hdigits : ∀ c ∈ digits, isNumberChar c = true :=
    fun c hc => isNumberChar_of_isDigit (hdigits c hc)
  have hzeros (n : Nat) : ∀ c ∈ List.replicate n '0', isNumberChar c = true := fun c hc =>
    isNumberChar_of_isDigit (allDigits_zeros n c hc)
  have hpoint : isNumberChar '.' = true := rfl
  unfold decimal
  simp only [hd]
  split
  · unfold positional
    split
    · refine ⟨?_, '.', by simp, .inl rfl⟩
      exact forall_mem_append.2 ⟨forall_mem_cons.2 ⟨rfl, forall_mem_cons.2 ⟨hpoint, hzeros _⟩⟩,
        hdigits⟩
    · split
      · refine ⟨forall_mem_append.2 ⟨?_, forall_mem_cons.2 ⟨hpoint, ?_⟩⟩, '.', by simp, .inl rfl⟩
        · exact fun c hc => hdigits c (mem_of_mem_take hc)
        · exact fun c hc => hdigits c (mem_of_mem_drop hc)
      · refine ⟨forall_mem_append.2 ⟨forall_mem_append.2 ⟨hdigits, hzeros _⟩, ?_⟩,
          '.', by simp, .inl rfl⟩
        exact forall_mem_cons.2 ⟨hpoint, forall_mem_singleton.2 rfl⟩
  · generalize d.exponent + digits.length - 1 = exponent
    have hexp : ∀ c ∈ Nat.toDigits 10 exponent.natAbs, isNumberChar c = true := fun c hc =>
      isNumberChar_of_isDigit (allDigits_toDigits _ c hc)
    unfold scientific
    refine ⟨?_, 'e', by simp, .inr rfl⟩
    refine forall_mem_append.2 ⟨forall_mem_append.2 ⟨?_, forall_mem_cons.2 ⟨rfl, ?_⟩⟩, hexp⟩
    · cases digits with
      | nil => exact forall_mem_nil _
      | cons c rest =>
        cases rest with
        | nil => exact hdigits
        | cons c' rest =>
          obtain ⟨hc, hrest⟩ := forall_mem_cons.1 hdigits
          exact forall_mem_cons.2 ⟨hc, forall_mem_cons.2 ⟨hpoint, hrest⟩⟩
    · split
      · exact forall_mem_singleton.2 rfl
      · exact forall_mem_nil _

end Layout

namespace Binary64

open Decimal

/-- The sign of a number as it is written. -/
def signText (x : Binary64) : List Char := if x.negative then ['-'] else []

/-- The text of a finite number: a sign, and a text whose value lies within the bounds of the
number.  It is written with a point or an exponent. -/
lemma exists_text_eq (h : x.isFinite = true) : ∃ body, x.text.toList = x.signText ++ body ∧
    (∃ c rest, body = c :: rest ∧ c.isDigit = true) ∧
    ((∀ c ∈ body, Layout.isNumberChar c = true) ∧ ∃ c ∈ body, c = '.' ∨ c = 'e') ∧
    (x.unsigned = 0 ∧ textValue body = 0 ∨ x.unsigned ≠ 0 ∧ (Magnitude.ofPattern x.unsigned).Within
      (textValue body)) := by
  have hnan : x.isNaN = false := by
    simp only [isFinite, decide_eq_true_eq] at h
    simp [isNaN, Nat.ne_of_lt h]
  have hsign : (if x.negative = true then "-" else "").toList = x.signText := by
    unfold signText
    split <;> rfl
  rw [text, Layout.write, hnan]
  simp only [h, Bool.not_true, Bool.false_eq_true, if_false]
  split
  · rename_i hzero
    refine ⟨['0', '.', '0'], ?_, ⟨'0', ['.', '0'], rfl, rfl⟩,
      ⟨all_eq_true.1 rfl, '.', by simp, .inl rfl⟩, .inl ⟨by simpa [isZero] using hzero, ?_⟩⟩
    · rw [String.toList_append, hsign]
      rfl
    · exact (textValue_fraction (Layout.allDigits_zeros 1) (Layout.allDigits_zeros 1)).trans
        (by simp [digitsValue])
  · rename_i hzero
    have hne : x.unsigned ≠ 0 := by simpa [isZero] using hzero
    refine ⟨Layout.plain.decimal (x.magnitude.shortest Layout.plain.tie), ?_,
      Layout.exists_decimal_eq _, Layout.isNumberChar_decimal _, .inr ⟨hne, ?_⟩⟩
    · rw [String.toList_append, hsign, String.toList_ofList]
    · rw [Layout.textValue_decimal]
      exact Magnitude.within_shortest (Magnitude.significand_ofPattern_pos hne) _

lemma eq_of_signText_eq (hsign : x.signText = y.signText) (hunsigned : x.unsigned = y.unsigned) :
    x = y := by
  have hnegative : x.negative = y.negative := by
    revert hsign
    unfold signText
    cases x.negative <;> cases y.negative <;> simp
  have hlt (z : Binary64) : z.bits.toNat < 2 * signBit := z.bits.toNat_lt
  have hx := hlt x
  have hy := hlt y
  simp only [negative, unsigned, decide_eq_decide] at hnegative hunsigned
  have hbits : x.bits.toNat = y.bits.toNat := by
    rw [show signBit = 9223372036854775808 from rfl] at *
    omega
  exact congrArg Binary64.mk (UInt64.toNat_inj.1 hbits)

/-- The text of a finite number determines it. -/
theorem text_injective (hx : x.isFinite = true) (hy : y.isFinite = true) (h : x.text = y.text) :
    x = y := by
  obtain ⟨body, htext, ⟨c, rest, rfl, hc⟩, -, hvalue⟩ := exists_text_eq hx
  obtain ⟨body', htext', ⟨c', rest', rfl, hc'⟩, -, hvalue'⟩ := exists_text_eq hy
  have hparts : x.signText = y.signText ∧ c :: rest = c' :: rest' := by
    have hminus (z : Binary64) : ∀ c ∈ z.signText, (c == '-') = true := by
      unfold signText
      split <;> simp
    have hstop {c : Char} (hc : c.isDigit = true) (rest : List Char) : Stops (· == '-')
        (c :: rest) := by
      intro d hd
      obtain rfl : c = d := by simpa using hd
      rw [beq_eq_false_iff_ne]
      rintro rfl
      cases hc
    exact run_append_inj (hminus x) (hminus y) (hstop hc rest) (hstop hc' rest')
      (by rw [← htext, ← htext', h])
  obtain ⟨hsign, hbody⟩ := hparts
  refine eq_of_signText_eq hsign ?_
  rw [hbody] at hvalue
  rcases hvalue with ⟨hzero, hval⟩ | ⟨hne, hval⟩ <;> rcases hvalue' with ⟨hzero',
    hval'⟩ | ⟨hne', hval'⟩
  · rw [hzero, hzero']
  · exact absurd hval (Magnitude.pos_of_within hne' hval').ne'
  · exact absurd hval' (Magnitude.pos_of_within hne hval).ne'
  · exact Magnitude.eq_of_within hval hval'

end Binary64

end CypherGremlin
