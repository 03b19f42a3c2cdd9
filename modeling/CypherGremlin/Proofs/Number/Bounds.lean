import Mathlib.Algebra.Order.Field.Power
import Mathlib.Tactic.FieldSimp
import Mathlib.Tactic.Linarith
import Mathlib.Tactic.LinearCombination
import Mathlib.Tactic.Positivity
import Mathlib.Tactic.Ring
import CypherGremlin.Number.Shortest

/-!
# Rounding bounds

`Magnitude.admits` compares naturals over a common denominator.  Here is what it compares: a decimal
with two rational bounds, `Magnitude.low` and `Magnitude.high`, which lie halfway to the
neighbouring numbers.

Consecutive patterns are consecutive numbers, so the upper bound of one is the lower bound of the
next (`low_ofPattern`).  Hence no decimal lies within the bounds of two numbers (`eq_of_within`): a
bound belongs to the number with the even significand only.  Since the shortest decimal of a number
lies within its bounds (`within_shortest`), it belongs to no other number.
-/

namespace CypherGremlin

variable {n m : Nat} {d : Decimal} {v : ℚ}

/-! ## Decimals -/

lemma zpow_eq_div {b : ℚ} (hb : b ≠ 0) (z : ℤ) : b ^ z = b ^ z.toNat / b ^ (-z).toNat := by
  rw [← zpow_natCast, ← zpow_natCast, ← zpow_sub₀ hb, Int.toNat_sub_toNat_neg]

namespace Decimal

def value (d : Decimal) : ℚ := d.digits * 10 ^ d.exponent

lemma value_stripZeros (fuel : Nat) (d : Decimal) : (d.stripZeros fuel).value = d.value := by
  induction fuel generalizing d with
  | zero => rfl
  | succ fuel ih =>
    rw [stripZeros]
    split
    · rename_i h
      have hdigits : d.digits = 10 * (d.digits / 10) := by
        simp only [Bool.and_eq_true, decide_eq_true_eq] at h
        omega
      rw [ih, value, value, zpow_add_one₀ (by norm_num)]
      nth_rewrite 2 [hdigits]
      push_cast
      ring
    · rfl

end Decimal

/-! ## Bounds -/

namespace Binary64.Magnitude

/-- Four times the distance to the lower bound, in units of the significand. -/
def below (a : Magnitude) : Nat := if a.narrowBelow then 1 else 2

/-- The lower rounding bound. -/
def low (a : Magnitude) : ℚ := (4 * a.significand - a.below) * 2 ^ (a.exponent - 2)

/-- The upper rounding bound. -/
def high (a : Magnitude) : ℚ := (4 * a.significand + 2) * 2 ^ (a.exponent - 2)

/-- The value lies within the rounding bounds, which count if the significand is even. -/
def Within (a : Magnitude) (v : ℚ) : Prop :=
  a.low ≤ v ∧ v ≤ a.high ∧ (a.significand % 2 = 1 → a.low ≠ v ∧ v ≠ a.high)

lemma below_pos (a : Magnitude) : 0 < a.below ∧ a.below ≤ 2 := by
  unfold below
  split <;> omega

lemma low_lt_high (a : Magnitude) : a.low < a.high := by
  have hbelow : (0 : ℚ) < a.below := by exact_mod_cast a.below_pos.1
  have hunit : (0 : ℚ) < 2 ^ (a.exponent - 2) := by positivity
  exact mul_lt_mul_of_pos_right (by linarith) hunit

lemma exists_factor (a : Magnitude) (d : Decimal) (h : 0 < a.significand) :
    ∃ factor : ℚ, 0 < factor ∧ ((a.onGrid d.exponent).low : ℚ) = a.low * factor ∧
      ((a.onGrid d.exponent).high : ℚ) = a.high * factor ∧
    ((d.digits * (a.onGrid d.exponent).unit : Nat) : ℚ) = d.value * factor := by
  have hbelow : a.below ≤ 4 * a.significand := by have := a.below_pos; omega
  have htwo := zpow_eq_div (b := 2) (by norm_num) (a.exponent - 2)
  have hten := zpow_eq_div (b := 10) (by norm_num) d.exponent
  rw [show -(a.exponent - 2) = 2 - a.exponent by ring] at htwo
  refine ⟨2 ^ (2 - a.exponent).toNat * 10 ^ (-d.exponent).toNat, by positivity, ?_, ?_, ?_⟩
  · rw [low, htwo, onGrid, ← below, Nat.cast_mul, Nat.cast_sub hbelow]
    simp only [Nat.pow_eq]
    push_cast
    field_simp
  · rw [high, htwo, onGrid]
    simp only [Nat.pow_eq]
    push_cast
    field_simp
  · rw [Decimal.value, hten, onGrid]
    simp only [Nat.pow_eq]
    push_cast
    field_simp

/-- A decimal reads back if its value lies within the bounds. -/
lemma admits_iff {a : Magnitude} (h : 0 < a.significand) :
    a.admits d = true ↔ a.Within d.value := by
  obtain ⟨factor, hfactor, hlow, hhigh, hval⟩ := a.exists_factor d h
  have hle : (a.onGrid d.exponent).low ≤ d.digits * (a.onGrid d.exponent).unit ↔
      a.low ≤ d.value := by
    rw [← Nat.cast_le (α := ℚ), hlow, hval, mul_le_mul_iff_left₀ hfactor]
  have hge : d.digits * (a.onGrid d.exponent).unit ≤ (a.onGrid d.exponent).high ↔
      d.value ≤ a.high := by
    rw [← Nat.cast_le (α := ℚ), hhigh, hval, mul_le_mul_iff_left₀ hfactor]
  have hlt : (a.onGrid d.exponent).low < d.digits * (a.onGrid d.exponent).unit ↔
      a.low < d.value := by
    rw [← Nat.cast_lt (α := ℚ), hlow, hval, mul_lt_mul_iff_left₀ hfactor]
  have hgt : d.digits * (a.onGrid d.exponent).unit < (a.onGrid d.exponent).high ↔
      d.value < a.high := by
    rw [← Nat.cast_lt (α := ℚ), hhigh, hval, mul_lt_mul_iff_left₀ hfactor]
  rw [admits, Within]
  split
  · rename_i heven
    simp [hle, hge, heven]
  · rename_i hodd
    have hone : a.significand % 2 = 1 := by omega
    simp only [Bool.and_eq_true, decide_eq_true_eq, hlt, hgt, hone, forall_const, lt_iff_le_and_ne]
    tauto

/-! ## The shortest decimal -/

variable {a : Magnitude}

lemma value_exact (a : Magnitude) : a.exact.value = a.significand * 2 ^ a.exponent := by
  unfold exact
  split
  · rename_i h
    simp [Decimal.value, ← zpow_natCast, Int.toNat_of_nonneg h]
  · rename_i h
    have hneg : -(a.exponent.natAbs : ℤ) = a.exponent := by omega
    have hfive : (5 : ℚ) ^ a.exponent.natAbs * 5 ^ a.exponent = 1 := by
      rw [← zpow_natCast, ← zpow_add₀ (by norm_num), show (a.exponent.natAbs : ℤ) + a.exponent =
        0 by omega, zpow_zero]
    have hten : (10 : ℚ) ^ a.exponent = 2 ^ a.exponent * 5 ^ a.exponent := by
      rw [← mul_zpow]
      norm_num
    simp only [Decimal.value, Nat.pow_eq, hten]
    push_cast
    linear_combination (a.significand * 2 ^ a.exponent : ℚ) * hfive

lemma within_exact (a : Magnitude) : a.Within a.exact.value := by
  have hbelow : (0 : ℚ) < a.below := by exact_mod_cast a.below_pos.1
  have hunit : (0 : ℚ) < 2 ^ (a.exponent - 2) := by positivity
  have hval : a.exact.value = 4 * a.significand * 2 ^ (a.exponent - 2) := by
    rw [value_exact, zpow_sub₀ (by norm_num)]
    ring
  have hlow : a.low < a.exact.value := hval ▸ mul_lt_mul_of_pos_right (by linarith) hunit
  have hhigh : a.exact.value < a.high := hval ▸ mul_lt_mul_of_pos_right (by linarith) hunit
  exact ⟨hlow.le, hhigh.le, fun _ => ⟨hlow.ne, hhigh.ne⟩⟩

lemma admits_of_neighbour {tie : Tie} {exponent : Int} (h : a.neighbour tie exponent = some d) :
    a.admits d = true := by
  revert h
  fun_cases neighbour a tie exponent <;> intro h
  · cases h
  all_goals rw [← Option.some.inj h]
  on_goal 6 => split
  all_goals assumption

/-- The shortest decimal of a number lies within its bounds. -/
theorem within_shortest (h : 0 < a.significand) (tie : Tie) : a.Within (a.shortest tie).value := by
  rw [shortest, Decimal.value_stripZeros]
  cases hfound : (List.range 17).findSome? fun (n : Nat) => a.neighbour tie (a.scale - (n + 1)) with
  | none => exact a.within_exact
  | some d =>
    obtain ⟨n, -, hn⟩ := List.exists_of_findSome?_eq_some hfound
    exact (admits_iff h).1 (admits_of_neighbour hn)

/-! ## Neighbouring numbers -/

/-- The absolute value of the number with the given pattern. -/
def ofPattern (n : Nat) : Magnitude :=
  if n / exponentBit = 0 then
    ⟨n % exponentBit, -1074, false⟩
  else
    ⟨exponentBit + n % exponentBit, ((n / exponentBit : Nat) : Int) - 1075,
      n % exponentBit = 0 && 1 < n / exponentBit⟩

lemma significand_ofPattern_mod_two (n : Nat) : (ofPattern n).significand % 2 = n % 2 := by
  have hbit : exponentBit = 2 * (exponentBit / 2) := by decide
  have hmod := Nat.mod_mod_of_dvd n (⟨_, hbit⟩ : 2 ∣ exponentBit)
  unfold ofPattern
  split
  · exact hmod
  · simp only
    omega

lemma significand_ofPattern_pos (h : n ≠ 0) : 0 < (ofPattern n).significand := by
  have hbit : 0 < exponentBit := by decide
  unfold ofPattern
  split
  · rename_i hfield
    have := Nat.mod_add_div n exponentBit
    rw [hfield] at this
    simp only
    omega
  · simp only
    omega

/-- The lower bound of a number is the upper bound of the number before it. -/
lemma low_ofPattern (n : Nat) : (ofPattern (n + 1)).low = (ofPattern n).high := by
  have hbit : 1 < exponentBit := by decide
  have hsplit := Nat.mod_add_div n exponentBit
  have hlt := Nat.mod_lt n (Nat.zero_lt_of_lt hbit)
  rw [ofPattern, ofPattern]
  generalize n / exponentBit = field at *
  generalize n % exponentBit = fraction at *
  generalize hleast : (-1074 : Int) = least
  obtain hlast | hinner : fraction + 1 = exponentBit ∨ fraction + 1 < exponentBit := by omega
  · -- The exponent field goes up by one, and the fraction starts again.
    have hsucc : n + 1 = exponentBit * (field + 1) := by
      rw [Nat.mul_add]
      omega
    have hcast : (fraction : ℚ) = exponentBit - 1 := by
      rw [eq_sub_iff_add_eq]
      exact_mod_cast hlast
    rw [hsucc, Nat.mul_div_cancel_left _ (by omega), Nat.mul_mod_right, if_neg (Nat.succ_ne_zero _)]
    split
    · rename_i hzero
      have hnarrow : ¬ 1 < field + 1 := by omega
      have hunit : ((field + 1 : Nat) : Int) - 1075 = least := by rw [hzero, ← hleast]; rfl
      simp only [low, high, below, hnarrow, hunit, decide_false, Bool.and_false, Bool.false_eq_true,
        if_false, hcast]
      push_cast
      ring
    · rename_i hpos
      have hnarrow : 1 < field + 1 := by omega
      have hunit : (2 : ℚ) ^ (((field + 1 : Nat) : Int) - 1075 - 2) = 2 *
          2 ^ ((field : Int) - 1075 - 2) := by
        rw [← zpow_one_add₀ (by norm_num)]
        congr 1
        push_cast
        ring
      simp only [low, high, below, hnarrow, hunit, decide_true, Bool.and_self, if_true]
      push_cast
      rw [hcast]
      ring
  · have hsucc : n + 1 = fraction + 1 + exponentBit * field := by omega
    rw [hsucc, Nat.add_mul_div_left _ _ (by omega), Nat.div_eq_of_lt hinner, Nat.zero_add,
      Nat.add_mul_mod_self_left, Nat.mod_eq_of_lt hinner]
    split <;>
    · simp only [low, high, below, Nat.succ_ne_zero, decide_false, Bool.false_and,
        Bool.false_eq_true, if_false]
      push_cast
      ring

lemma high_ofPattern_le (n k : Nat) :
    (ofPattern n).high ≤ (ofPattern (n + 1 + k)).low ∧
    (0 < k → (ofPattern n).high < (ofPattern (n + 1 + k)).low) := by
  induction k with
  | zero => exact ⟨(low_ofPattern n).ge, fun h => absurd h (lt_irrefl 0)⟩
  | succ k ih =>
    have hstep : (ofPattern (n + 1 + k)).low < (ofPattern (n + 1 + (k + 1))).low := by
      rw [← Nat.add_assoc, low_ofPattern]
      exact low_lt_high _
    exact ⟨(ih.1.trans_lt hstep).le, fun _ => ih.1.trans_lt hstep⟩

lemma not_within_of_lt (hlt : n < m) (hn : (ofPattern n).Within v) : ¬ (ofPattern m).Within v := by
  intro hm
  obtain ⟨k, rfl⟩ := Nat.exists_eq_add_of_le (Nat.succ_le_of_lt hlt)
  obtain ⟨hle, hgap⟩ := high_ofPattern_le n k
  have hk : k = 0 := by
    by_contra hk
    exact absurd ((hm.1.trans hn.2.1).trans_lt (hgap (Nat.pos_of_ne_zero hk))) (lt_irrefl _)
  subst hk
  change (ofPattern (n + 1)).Within v at hm
  -- The value is the bound that both share, and one of the two significands is odd.
  have hhigh : v = (ofPattern n).high := le_antisymm hn.2.1 (hle.trans hm.1)
  have hlow : (ofPattern (n + 1)).low = v := le_antisymm hm.1 (hn.2.1.trans hle)
  have hparity := significand_ofPattern_mod_two n
  have hparity' := significand_ofPattern_mod_two (n + 1)
  rcases Nat.mod_two_eq_zero_or_one n with heven | hodd
  · exact (hm.2.2 (by omega)).1 hlow
  · exact (hn.2.2 (by omega)).2 hhigh

/-- No value lies within the bounds of two numbers. -/
theorem eq_of_within (hn : (ofPattern n).Within v) (hm : (ofPattern m).Within v) : n = m := by
  rcases lt_trichotomy n m with hlt | heq | hgt
  · exact absurd hm (not_within_of_lt hlt hn)
  · exact heq
  · exact absurd hn (not_within_of_lt hgt hm)

/-- Within the bounds of a number other than zero lie positive values only. -/
lemma pos_of_within (hn : n ≠ 0) (h : (ofPattern n).Within v) : 0 < v := by
  have hbelow : ((ofPattern n).below : ℚ) ≤ 2 := by exact_mod_cast (ofPattern n).below_pos.2
  have hone : (1 : ℚ) ≤ (ofPattern n).significand := by exact_mod_cast significand_ofPattern_pos hn
  refine lt_of_lt_of_le ?_ h.1
  exact mul_pos (by linarith) (by positivity)

end Binary64.Magnitude

end CypherGremlin
