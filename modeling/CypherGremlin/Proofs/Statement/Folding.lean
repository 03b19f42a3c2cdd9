import CypherGremlin.Proofs.Except
import CypherGremlin.Statement.Expression
import Mathlib.Data.Set.Card

/-!
# Ranges of literals

A range whose bounds are literals is computed when the query is lowered, in two kinds of arithmetic:
the number of its members with integers of any size, and the members with 64-bit integers.  The
members stand between the bounds, so none of them is too large; but a product that is computed on
the way can be.  A build without overflow checks lets it wrap around, and the member that comes of
it is right all the same; a build with them stops.

* `unpassed start stop width` is the places at which the range has not passed its end, said without
  a division.
* `rangeMember_wrapping` and `rangeMember_checked` say what each build makes of a member.
* `rangeTraversal_products` says which products are too large and what comes of them, and
  `not_isInt64_product` shows one.
* `Expr.lower_range` is the result in a build that wraps around.
-/

namespace CypherGremlin

variable {s e d : Int} {start stop width : Int64}

open List

/-- The places `i` at which `start + i * width` has not passed the end. -/
def unpassed (start stop width : Int) : Set Nat :=
  {i | if 0 < width then start + i * width ≤ stop else stop ≤ start + i * width}

/-- The range begins behind its end. -/
def isPassed (start stop width : Int) : Bool :=
  (0 < width && stop < start) || (width < 0 && start < stop)

lemma mem_unpassed (i : Nat) : i ∈ unpassed s e d ↔ if 0 < d then s + i * d ≤ e else
    e ≤ s + i * d := Iff.rfl

lemma mem_unpassed_of_pos (hd : 0 < d) (i : Nat) :
    i ∈ unpassed s e d ↔ isPassed s e d = false ∧ (i : Int) ≤ (e - s).tdiv d := by
  have hprod : 0 ≤ i * d := Int.mul_nonneg (Int.natCast_nonneg i) hd.le
  have hpassed : isPassed s e d = false ↔ s ≤ e := by simp [isPassed, hd, hd.not_gt]
  rw [mem_unpassed, if_pos hd, hpassed]
  constructor
  · intro h
    rw [Int.tdiv_eq_ediv_of_nonneg (by omega), Int.le_ediv_iff_mul_le hd]
    omega
  · rintro ⟨hle, h⟩
    rw [Int.tdiv_eq_ediv_of_nonneg (by omega), Int.le_ediv_iff_mul_le hd] at h
    omega

/-- Going down from a start is going up from its negative. -/
lemma mem_unpassed_neg (hd : d < 0) (i : Nat) :
    i ∈ unpassed s e d ↔ i ∈ unpassed (-s) (-e) (-d) := by
  rw [mem_unpassed, mem_unpassed, if_neg hd.not_gt, if_pos (Int.neg_pos_of_neg hd), Int.mul_neg]
  omega

/-- How many places there are, by a division that drops the remainder. -/
lemma mem_unpassed_iff (hd : d ≠ 0) (i : Nat) :
    i ∈ unpassed s e d ↔ isPassed s e d = false ∧ (i : Int) ≤ (e - s).tdiv d := by
  rcases lt_or_gt_of_ne hd with hneg | hpos
  · have hpassed : isPassed (-s) (-e) (-d) = isPassed s e d := by simp [isPassed, Bool.or_comm]
    have hspan : (-e - -s).tdiv (-d) = (e - s).tdiv d := by
      rw [← Int.neg_tdiv_neg (e - s) d]
      congr 1
      omega
    rw [mem_unpassed_neg hneg, mem_unpassed_of_pos (Int.neg_pos_of_neg hneg), hpassed, hspan]
  · exact mem_unpassed_of_pos hpos i

/-- The number that is computed is the number of places, unless it is too large. -/
lemma exists_rangeLength? (start stop : Int64) (hwidth : width ≠ 0) : ∃ k : Nat,
    (∀ i, i ∈ unpassed start.toInt stop.toInt width.toInt ↔ i < k) ∧
    rangeLength? start stop width = if k ≤ Int64.maxValue.toInt then some k else none := by
  have hd : width.toInt ≠ 0 := fun h => hwidth (Int64.toInt_inj.1 h)
  have hmem := mem_unpassed_iff (s := start.toInt) (e := stop.toInt) hd
  have hlen : rangeLength? start stop width = if isPassed start.toInt stop.toInt width.toInt then
      some 0 else
      if (stop.toInt - start.toInt).tdiv width.toInt + 1 ≤ Int64.maxValue.toInt then
        some ((stop.toInt - start.toInt).tdiv width.toInt + 1).toNat else none := if_neg hd
  rw [hlen]
  by_cases hpassed : isPassed start.toInt stop.toInt width.toInt = true
  · refine ⟨0, fun i => ?_, ?_⟩
    · simp [hmem, hpassed]
    · rw [if_pos hpassed]
      rfl
  · rw [Bool.not_eq_true] at hpassed
    have hspan : 0 ≤ (stop.toInt - start.toInt).tdiv width.toInt := by
      have hfirst : 0 ∈ unpassed start.toInt stop.toInt width.toInt := by
        simp only [isPassed, Bool.or_eq_false_iff, Bool.and_eq_false_iff, decide_eq_false_iff_not]
          at hpassed
        rw [mem_unpassed]
        split <;> omega
      simpa using ((hmem 0).1 hfirst).2
    refine ⟨((stop.toInt - start.toInt).tdiv width.toInt + 1).toNat, fun i => ?_, ?_⟩
    · rw [hmem]
      simp only [hpassed, true_and]
      omega
    · rw [if_neg (Bool.eq_false_iff.1 hpassed), Int.toNat_of_nonneg (by omega)]

/-! ## Machine words -/

lemma isInt64_toInt (i : Int64) : IsInt64 i.toInt := ⟨i.minValue_le_toInt, i.toInt_le⟩

/-- What lies between zero and such an integer is one. -/
lemma IsInt64.between {z y : Int} (h : IsInt64 z) (hy : 0 ≤ y ∧ y ≤ z ∨ z ≤ y ∧ y ≤ 0) :
    IsInt64 y := by
  obtain ⟨hlow, hhigh⟩ := h
  have hmin : Int64.minValue.toInt ≤ 0 := by decide
  have hmax : 0 ≤ Int64.maxValue.toInt := by decide
  constructor <;> omega

/-- A member is as far from the start as the end at most. -/
lemma between_of_mem_unpassed {i : Nat} (h : i ∈ unpassed s e d) :
    0 ≤ i * d ∧ i * d ≤ e - s ∨ e - s ≤ i * d ∧ i * d ≤ 0 := by
  rw [mem_unpassed] at h
  split at h
  · have hprod : 0 ≤ i * d := Int.mul_nonneg (Int.natCast_nonneg i) (by omega)
    exact .inl ⟨hprod, by omega⟩
  · have hprod : i * d ≤ 0 := Int.mul_nonpos_of_nonneg_of_nonpos (Int.natCast_nonneg i) (by omega)
    exact .inr ⟨by omega, hprod⟩

lemma isInt64_member {i : Nat} (h : i ∈ unpassed start.toInt stop.toInt width.toInt) :
    IsInt64 (start.toInt + i * width.toInt) := by
  obtain ⟨hlow, hhigh⟩ := isInt64_toInt start
  obtain ⟨hlow', hhigh'⟩ := isInt64_toInt stop
  rcases between_of_mem_unpassed h with hprod | hprod <;> constructor <;> omega

lemma toInt_ofInt {z : Int} (h : IsInt64 z) : (Int64.ofInt z).toInt = z := by
  have hsize : Int64.size = 18446744073709551616 := rfl
  obtain ⟨hlow, hhigh⟩ := h
  rw [Int64.toInt_minValue] at hlow
  rw [Int64.toInt_maxValue] at hhigh
  rw [Int64.toInt_ofInt]
  exact Int.bmod_eq_of_le (by omega) (by omega)

/-- A member is computed rightly even where the product wraps around, because it stands between the
bounds. -/
lemma toInt_member {i : Nat} (h : i ∈ unpassed start.toInt stop.toInt width.toInt) :
    (start + Int64.ofNat i * width).toInt = start.toInt + i * width.toInt := by
  have hexact : start + Int64.ofNat i * width = Int64.ofInt (start.toInt + i * width.toInt) := by
    rw [Int64.ofInt_add, Int64.ofInt_mul, Int64.ofInt_toInt, Int64.ofInt_toInt]
    rfl
  rw [hexact, toInt_ofInt (isInt64_member h)]

/-- No product of the first places wraps around if the last one does not. -/
lemma isInt64_products {n : Nat} : (∀ i < n, IsInt64 (i * d)) ↔ IsInt64 ((n - 1 : Nat) * d) := by
  refine ⟨fun h => ?_, fun h i hi => h.between ?_⟩
  · cases n with
    | zero => simpa using isInt64_toInt 0
    | succ n => exact h n n.lt_succ_self
  · have hle : (i : Int) ≤ (n - 1 : Nat) := by omega
    rcases le_total 0 d with hd | hd
    · exact .inl ⟨Int.mul_nonneg (Int.natCast_nonneg i) hd, Int.mul_le_mul_of_nonneg_right hle hd⟩
    · exact .inr ⟨Int.mul_le_mul_of_nonpos_right hle hd,
        Int.mul_nonpos_of_nonneg_of_nonpos (Int.natCast_nonneg i) hd⟩

/-! ## Both builds -/

lemma add_wrapping (x y : Int64) : WordArithmetic.wrapping.add x y = .ok (x + y) := by
  rw [WordArithmetic.add, WordArithmetic.result, Int64.ofInt_add, Int64.ofInt_toInt,
    Int64.ofInt_toInt]

lemma mul_wrapping (x y : Int64) : WordArithmetic.wrapping.mul x y = .ok (x * y) := by
  rw [WordArithmetic.mul, WordArithmetic.result, Int64.ofInt_mul, Int64.ofInt_toInt,
    Int64.ofInt_toInt]

/-- A build that does not check always has a member. -/
lemma rangeMember_wrapping (start width : Int64) (i : Nat) :
    rangeMember .wrapping start width i = .ok (start + .ofNat i * width) := by
  rw [rangeMember, bind_eq_ok]
  exact ⟨_, mul_wrapping (.ofNat i) width, add_wrapping start _⟩

/-- A build that checks has the same member if the product is not too large, and otherwise stops at
the product.  It never stops at the sum. -/
lemma rangeMember_checked {i : Nat} (hi : i ∈ unpassed start.toInt stop.toInt width.toInt)
    (hsmall : i ≤ maxRangeLength) :
    rangeMember .checked start width i =
      if IsInt64 (i * width.toInt) then .ok (start + .ofNat i * width)
      else .error (.overflow "multiply") := by
  have hplace : (Int64.ofNat i).toInt = i := by
    have hbound : ((maxRangeLength : Nat) : Int) ≤ Int64.maxValue.toInt := by decide
    have hi64 : IsInt64 i := (isInt64_toInt Int64.maxValue).between (.inl ⟨by omega, by omega⟩)
    exact toInt_ofInt hi64
  rw [rangeMember, WordArithmetic.mul, WordArithmetic.result, hplace]
  split
  case isTrue hproduct =>
    have hexact : (Int64.ofInt (i * width.toInt)).toInt = i * width.toInt := toInt_ofInt hproduct
    have hword : Int64.ofInt (i * width.toInt) = .ofNat i * width := by
      rw [Int64.ofInt_mul, Int64.ofInt_toInt]
      rfl
    change WordArithmetic.checked.add start (Int64.ofInt (i * width.toInt)) = _
    rw [WordArithmetic.add, WordArithmetic.result, hexact, if_pos (isInt64_member hi),
      Int64.ofInt_add, Int64.ofInt_toInt, hword]
  case isFalse => rfl

/-- Computations that fail in one way only fail on a list if they fail on an item. -/
lemma mapM_of_forall_eq_ite {ε α β : Type} {c : α → Prop} [DecidablePred c] {f : α → Except ε β}
    {e : ε} {g : α → β} {as : List α} (h : ∀ a ∈ as, f a = if c a then .ok (g a) else .error e) :
    as.mapM f = if ∀ a ∈ as, c a then .ok (as.map g) else .error e := by
  induction as with
  | nil => simp [pure, Except.pure]
  | cons a rest ih =>
    obtain ⟨ha, hrest⟩ := forall_mem_cons.1 h
    rw [mapM_cons, ha, ih hrest]
    by_cases hc : c a
    · by_cases hcs : ∀ a ∈ rest, c a
      · rw [if_pos hc, if_pos hcs, if_pos (forall_mem_cons.2 ⟨hc, hcs⟩)]
        rfl
      · rw [if_pos hc, if_neg hcs, if_neg fun h => hcs (forall_mem_cons.1 h).2]
        rfl
    · rw [if_neg hc, if_neg fun h => hc (forall_mem_cons.1 h).1]
      rfl

/-- The range gives the members, in a build that checks only if no product is too large. -/
lemma rangeTraversal_of_rangeLength? {n : Nat} (hlen : rangeLength? start stop width = some n)
    (hfew : n ≤ maxRangeLength)
    (hn : ∀ i < n, i ∈ unpassed start.toInt stop.toInt width.toInt) (arithmetic : WordArithmetic) :
    rangeTraversal arithmetic start stop width =
      if arithmetic = .wrapping ∨ ∀ i < n, IsInt64 (i * width.toInt) then
        .ok [.constant (.list ((range n).map fun i => .int (start + Int64.ofNat i * width)))]
      else .error (.overflow "multiply") := by
  have hmembers : (range n).mapM (rangeMember arithmetic start width) =
      if arithmetic = .wrapping ∨ ∀ i < n, IsInt64 (i * width.toInt) then
        .ok ((range n).map fun i => start + Int64.ofNat i * width)
      else .error (.overflow "multiply") := by
    cases arithmetic with
    | wrapping =>
      rw [if_pos (.inl rfl)]
      exact mapM_of_forall_eq_ok fun i _ => rangeMember_wrapping start width i
    | checked =>
      have hmember : ∀ i ∈ range n, rangeMember .checked start width i =
          if IsInt64 (i * width.toInt) then .ok (start + .ofNat i * width)
          else .error (.overflow "multiply") := by
        intro i hi
        have hlt : i < n := mem_range.1 hi
        exact rangeMember_checked (hn i hlt) (by omega)
      rw [mapM_of_forall_eq_ite hmember]
      simp
  rw [rangeTraversal, hlen, Option.filter_some, decide_eq_true hfew]
  change (range n).mapM (rangeMember arithmetic start width) >>= _ = _
  rw [hmembers]
  split
  · simp [bind, Except.bind, pure, Except.pure]
  · rfl

/-- Lowering a range of literals computes it with the arithmetic of the scope. -/
lemma Expr.lower_range_eq (scope : Scope) (mode : Mode) (distinct : Bool) (start stop : Int64)
    (width? : Option Int64) (n : Nat) :
    (Expr.call "range" distinct
      (([start, stop] ++ width?.toList).map fun i => .literal (.int i))).lower scope
      (.value mode) n =
      (rangeTraversal scope.arithmetic start stop (width?.getD 1)).map (·, n) := by
  have hlower : (Expr.call "range" distinct
      (([start, stop] ++ width?.toList).map fun i => .literal (.int i))).lower scope
      (.value mode) n =
      ((liftM (rangeTraversal scope.arithmetic start stop (width?.getD 1)) : Supply Traversal) >>=
        fun t => pure t) n := by
    cases width? <;> with_unfolding_all rfl
  rw [hlower]
  cases rangeTraversal scope.arithmetic start stop (width?.getD 1) <;> rfl

/-- The members of a range that is a constant list are 64-bit integers, and a build that wraps
around computes them rightly.  The products on the way are not always such integers: they are if and
only if the last one is, as where the bounds are not too far apart.  A build that checks its
arithmetic lowers the range to the same list if they are, and otherwise stops. -/
theorem rangeTraversal_products {n : Nat} (hlength : rangeLength? start stop width = some n)
    (hfew : n ≤ maxRangeLength) :
    (∀ scope mode distinct k,
      (Expr.call "range" distinct ([start, stop, width].map fun i => .literal (.int i))).lower
          scope (.value mode) k =
        if scope.arithmetic = .wrapping ∨ ∀ i < n, IsInt64 (i * width.toInt) then
          .ok ([.constant (.list ((range n).map fun i => .int (start + Int64.ofNat i * width)))], k)
        else .error (.overflow "multiply")) ∧
      (∀ i < n, IsInt64 (start.toInt + i * width.toInt) ∧
        (start + Int64.ofNat i * width).toInt = start.toInt + i * width.toInt) ∧
      ((∀ i < n, IsInt64 (i * width.toInt)) ↔ IsInt64 ((n - 1 : Nat) * width.toInt)) ∧
      (IsInt64 (stop.toInt - start.toInt) → ∀ i < n, IsInt64 (i * width.toInt)) := by
  have hwidth : width ≠ 0 := by
    rintro rfl
    cases hlength
  obtain ⟨k, hmem, hk⟩ := exists_rangeLength? start stop hwidth
  have hn : ∀ i < n, i ∈ unpassed start.toInt stop.toInt width.toInt := by
    rw [hlength] at hk
    split at hk
    · obtain rfl := Option.some.inj hk
      exact fun i hi => (hmem i).2 hi
    · cases hk
  refine ⟨fun scope mode distinct k => ?_, fun i hi => ?_, isInt64_products, fun hspan i hi => ?_⟩
  · have hlower := Expr.lower_range_eq scope mode distinct start stop (some width) k
    rw [Option.getD_some, rangeTraversal_of_rangeLength? hlength hfew hn] at hlower
    refine hlower.trans ?_
    split <;> rfl
  · exact ⟨isInt64_member (hn i hi), toInt_member (hn i hi)⟩
  · exact hspan.between (between_of_mem_unpassed (hn i hi))

theorem rangeTraversal_products_widest :
    rangeLength? Int64.maxValue Int64.minValue Int64.minValue = some 2 ∧ 2 ≤ maxRangeLength ∧
      ∀ i : Nat, i < 2 → IsInt64 (i * Int64.minValue.toInt) := by
  have hlen : rangeLength? Int64.maxValue Int64.minValue Int64.minValue = some 2 := by decide
  have hfew : 2 ≤ maxRangeLength := by decide
  exact ⟨hlen, hfew, (rangeTraversal_products hlen hfew).2.2.1.2 (by decide)⟩

/-- From the least integer to the greatest in steps of 2 ^ 62 there are four members, and the last
product has 65 bits.  The build that wraps around gives the members; the one that checks stops. -/
theorem not_isInt64_product :
    rangeLength? Int64.minValue Int64.maxValue 4611686018427387904 = some 4 ∧
    ¬ IsInt64 ((3 : Nat) * (4611686018427387904 : Int64).toInt) ∧
    rangeTraversal .wrapping Int64.minValue Int64.maxValue 4611686018427387904 = .ok
      [.constant (.list
        ([-9223372036854775808, -4611686018427387904, 0, 4611686018427387904].map .int))] ∧
    (Expr.call "range" false ([Int64.minValue, Int64.maxValue, 4611686018427387904].map fun i =>
      .literal (.int i))).lower {} (.value .result) 0 = .error (.overflow "multiply") := by
  refine ⟨by decide, by decide, rfl, ?_⟩
  exact Expr.lower_range_eq {} .result false Int64.minValue Int64.maxValue (some _) 0

/-- The range of a width that is not zero and of few enough members is the list of its members, and
any other is an error. -/
lemma rangeTraversal_cases (start stop width : Int64) :
    (∃ is : List Int64,
      rangeTraversal .wrapping start stop width = .ok [.constant (.list (is.map .int))] ∧
      width ≠ 0 ∧ is.length ≤ maxRangeLength ∧
      (∀ i, i ∈ unpassed start.toInt stop.toInt width.toInt ↔ i < is.length) ∧
      is.map Int64.toInt = (List.range is.length).map fun i : Nat => start.toInt + i *
      width.toInt) ∨
    rangeTraversal .wrapping start stop width =
        .ok [.constant (.string EngineFault.invalidRangeName), .apply .raise] ∧
      (width ≠ 0 → ∃ k, maxRangeLength < k ∧ ∀ i, i ∈ unpassed start.toInt stop.toInt width.toInt ↔
      i < k) := by
  by_cases hwidth : width = 0
  · subst hwidth
    exact .inr ⟨rfl, fun h => absurd rfl h⟩
  · obtain ⟨k, hmem, hlen⟩ := exists_rangeLength? start stop hwidth
    by_cases hfew : k ≤ maxRangeLength
    · have hsmall : (k : Int) ≤ Int64.maxValue.toInt := by
        have hbound : ((maxRangeLength : Nat) : Int) ≤ Int64.maxValue.toInt := by decide
        omega
      rw [if_pos hsmall] at hlen
      have hmembers :=
        rangeTraversal_of_rangeLength? hlen hfew (fun i hi => (hmem i).2 hi) .wrapping
      rw [if_pos (.inl rfl)] at hmembers
      refine .inl ⟨(List.range k).map fun i => start + Int64.ofNat i * width,
        by rw [hmembers, map_map]; rfl, hwidth, by simpa using hfew, by simpa using hmem, ?_⟩
      rw [length_map, length_range, map_map]
      exact map_congr_left fun i hi => toInt_member ((hmem i).2 (mem_range.1 hi))
    · refine .inr ⟨?_, fun _ => ⟨k, by omega, hmem⟩⟩
      have hnone : (rangeLength? start stop width).filter (· ≤ maxRangeLength) = none := by
        rw [hlen]
        split <;> simp [not_le.1 hfew]
      rw [rangeTraversal, hnone]
      rfl

/-- With arithmetic that wraps around, a range of literals is a constant list if its width is not
zero and it has at most 10000 members, and then the list is that of the members, in their order.
Every other range raises an error when the program runs. -/
theorem Expr.lower_range (scope : Scope) (mode : Mode) (distinct : Bool) (start stop : Int64)
    (width? : Option Int64) (n : Nat) :
    ∃ t, (Expr.call "range" distinct
        (([start, stop] ++ width?.toList).map fun i => .literal (.int i))).lower
        { scope with arithmetic := .wrapping } (.value mode) n = .ok (t, n) ∧
      ((∃ vs, t = [.constant (.list vs)]) ↔
        width?.getD 1 ≠ 0 ∧ (unpassed start.toInt stop.toInt (width?.getD 1).toInt).encard ≤
        10000) ∧
      ((∃ is : List Int64, t = [.constant (.list (is.map .int))] ∧
          (∀ i, i ∈ unpassed start.toInt stop.toInt (width?.getD 1).toInt ↔ i < is.length) ∧
          is.map Int64.toInt = (List.range is.length).map fun i : Nat => start.toInt + i *
          (width?.getD 1).toInt) ∨
        t = [.constant (.string EngineFault.invalidRangeName), .apply .raise]) := by
  have hcount {k : Nat} {S : Set Nat} (h : ∀ i, i ∈ S ↔ i < k) : S.encard = k := by
    have hrange : S = Finset.range k := Set.ext fun i => by simp [h]
    rw [hrange, Set.encard_coe_eq_coe_finsetCard, Finset.card_range]
  have hlower := lower_range_eq { scope with arithmetic := .wrapping } mode distinct start stop
    width? n
  rcases rangeTraversal_cases start stop (width?.getD 1) with
    ⟨is, ht, hwidth, hfew, hmem, hvals⟩ | ⟨ht, hmany⟩
  · refine ⟨_, hlower.trans (by rw [ht]; rfl),
      iff_of_true ⟨_, rfl⟩ ⟨hwidth, ?_⟩, .inl ⟨is, rfl, hmem, hvals⟩⟩
    rw [hcount hmem]
    exact_mod_cast hfew
  · refine ⟨_, hlower.trans (by rw [ht]; rfl), iff_of_false (by simp) ?_, .inr rfl⟩
    rintro ⟨hwidth, hfew⟩
    obtain ⟨k, hlt, hmem⟩ := hmany hwidth
    rw [hcount hmem] at hfew
    exact absurd hfew (by exact_mod_cast hlt.not_ge)

end CypherGremlin
