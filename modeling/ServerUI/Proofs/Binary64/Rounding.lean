import Mathlib.Algebra.Order.Field.Power
import Mathlib.Data.Int.Log
import Mathlib.Data.Rat.Floor
import Mathlib.Tactic.FieldSimp
import Mathlib.Tactic.Linarith
import Mathlib.Tactic.Positivity
import Mathlib.Tactic.Ring
import ServerUI.Binary64

/-!
Finite binary64 numbers as rationals. A quotient of natural numbers becomes the nearest multiple of
the unit of its binade, the even one of two that are equally near, and so does a product of two
numbers.
-/

set_option autoImplicit false

namespace ServerUI.Binary64

section Nearest

/-- The whole number nearest to a rational, the even one of two that are equally near. -/
structure IsNearest (q : ℚ) (m : ℕ) : Prop where
  near : |q - m| ≤ 1 / 2
  even : |q - m| = 1 / 2 → Even m

variable {q : ℚ} {m k n d : ℕ}

theorem IsNearest.le (nearest : IsNearest q m) (below : k ≤ q) : k ≤ m := by
  have near := abs_le.mp nearest.near
  have close : (k : ℚ) < m + 1 := by linarith
  exact Nat.lt_succ_iff.mp (by exact_mod_cast close)

theorem IsNearest.ge (nearest : IsNearest q m) (above : q ≤ k) : m ≤ k := by
  have near := abs_le.mp nearest.near
  have close : (m : ℚ) < k + 1 := by linarith
  exact Nat.lt_succ_iff.mp (by exact_mod_cast close)

theorem IsNearest.eq_of_natCast (nearest : IsNearest k m) : m = k :=
  le_antisymm (nearest.ge le_rfl) (nearest.le le_rfl)

theorem IsNearest.not_lt (left : IsNearest q m) (right : IsNearest q k) : ¬ m < k := by
  intro below
  have least : ((m + 1 : ℕ) : ℚ) ≤ k := by exact_mod_cast below
  push_cast at least
  have up := abs_le.mp left.near
  have down := abs_le.mp right.near
  -- They can only be neighbours, both half a unit away, of which one is odd.
  have next : k = m + 1 := by
    have : (k : ℚ) = (m + 1 : ℕ) := by push_cast; linarith
    exact_mod_cast this
  have half : |q - m| = 1 / 2 := by
    rw [show q - m = 1 / 2 by linarith, abs_of_pos one_half_pos]
  have half' : |q - k| = 1 / 2 := by
    rw [show q - k = -(1 / 2) by rw [next]; push_cast; linarith, abs_neg, abs_of_pos one_half_pos]
  have even : Even (m + 1) := next ▸ right.even half'
  exact Nat.even_add_one.mp even (left.even half)

theorem IsNearest.unique (left : IsNearest q m) (right : IsNearest q k) : m = k :=
  le_antisymm (Nat.not_lt.mp (right.not_lt left)) (Nat.not_lt.mp (left.not_lt right))

theorem isNearest_of_remainder {r : ℤ} (pos : 0 < d) (rest : (n : ℤ) - m * d = r)
    (near : 2 * r.natAbs ≤ d) (even : 2 * r.natAbs = d → Even m) : IsNearest (n / d) m := by
  have pos' : (0 : ℚ) < d := by exact_mod_cast pos
  have distance : |(n : ℚ) / d - m| = r.natAbs / d := by
    have exact : (n : ℚ) - m * d = r := by exact_mod_cast rest
    have split : (n : ℚ) / d - m = r / d := by
      rw [← exact, sub_div, mul_div_cancel_right₀ _ pos'.ne']
    rw [split, abs_div, abs_of_pos pos', ← Int.cast_abs, Int.abs_eq_natAbs, Int.cast_natCast]
  constructor
  · rw [distance, div_le_div_iff₀ pos' two_pos]
    have : (2 : ℚ) * r.natAbs ≤ d := by exact_mod_cast near
    linarith
  · intro tie
    rw [distance, div_eq_div_iff pos'.ne' two_ne_zero] at tie
    apply even
    have : (2 : ℚ) * r.natAbs = d := by linarith
    exact_mod_cast this

/-- What rounding leaves is at most half the divisor, and where it is half, the result is even. -/
theorem roundDiv_remainder (pos : 0 < d) :
    2 * ((n : ℤ) - roundDiv n d * d).natAbs ≤ d ∧
      (2 * ((n : ℤ) - roundDiv n d * d).natAbs = d → roundDiv n d % 2 = 0) := by
  have whole : (d : ℤ) * (n / d : ℕ) + (n % d : ℕ) = n := by exact_mod_cast Nat.div_add_mod n d
  have small : n % d < d := Nat.mod_lt n pos
  have below : (n : ℤ) - (n / d : ℕ) * d = (n % d : ℕ) := by linarith
  have above : (n : ℤ) - (n / d + 1 : ℕ) * d = (n % d : ℕ) - d := by
    push_cast at below ⊢
    linarith
  unfold roundDiv
  dsimp only
  split_ifs <;> simp only [below, above] <;> omega

theorem isNearest_roundDiv (pos : 0 < d) : IsNearest (n / d) (roundDiv n d) :=
  isNearest_of_remainder pos rfl (roundDiv_remainder pos).1 fun tie =>
    Nat.even_iff.mpr ((roundDiv_remainder pos).2 tie)

theorem roundDiv_eq_of_isNearest (pos : 0 < d) (nearest : IsNearest (n / d) m) :
    roundDiv n d = m :=
  (isNearest_roundDiv pos).unique nearest

theorem exists_isNearest (nonneg : 0 ≤ q) : ∃ m, IsNearest q m := by
  have fraction : (q.num.toNat : ℚ) / q.den = q := by
    have num : ((q.num.toNat : ℤ) : ℚ) = q.num := by
      rw [Int.toNat_of_nonneg (Rat.num_nonneg.mpr nonneg)]
    rw [show (q.num.toNat : ℚ) = q.num from num, Rat.num_div_den]
  have nearest := isNearest_roundDiv (n := q.num.toNat) q.den_pos
  rw [fraction] at nearest
  exact ⟨_, nearest⟩

end Nearest

section Value

variable {x y : Binary64} {q a b : ℚ} {m num den : ℕ} {e : ℤ}

/-- The value of a finite number. -/
def value? (x : Binary64) : Option ℚ := x.toRatio?.map fun (n, d) => (n : ℚ) / d

theorem two_zpow_eq : (2 : ℚ) ^ e = 2 ^ e.toNat / 2 ^ (-e).toNat := by
  rw [← zpow_natCast, ← zpow_natCast, ← zpow_sub₀ two_ne_zero, Int.toNat_sub_toNat_neg]

theorem value?_finite {negative : Bool} :
    value? (.finite negative m e) = some (if negative then -((m : ℚ) * 2 ^ e) else m * 2 ^ e) := by
  simp only [value?, toRatio?, magnitude, Option.map_some, Nat.pow_eq, two_zpow_eq]
  cases negative <;> push_cast <;> simp [mul_div_assoc, neg_div]

theorem exists_finite_of_value? (found : x.value? = some q) (nonneg : 0 ≤ q) :
    ∃ negative m e, x = .finite negative m e ∧ q = m * 2 ^ e ∧ (0 < q → negative = false) := by
  cases x with
  | nan => cases found
  | infinity negative => cases found
  | finite negative m e =>
    rw [value?_finite, Option.some.injEq] at found
    have size : (0 : ℚ) ≤ m * 2 ^ e := by positivity
    cases negative with
    | false => exact ⟨false, m, e, rfl, found.symm, fun _ => rfl⟩
    | true =>
      simp only [if_true] at found
      exact ⟨true, m, e, rfl, by linarith, fun pos => by linarith⟩

theorem exists_toRatio? (found : x.value? = some q) (nonneg : 0 ≤ q) :
    ∃ n d : ℕ, x.toRatio? = some ((n : ℤ), d) ∧ 0 < d ∧ (n : ℚ) / d = q := by
  obtain ⟨⟨z, d⟩, ratio, rfl⟩ := Option.map_eq_some_iff.mp found
  have pos : 0 < d := by
    cases x with
    | nan => cases ratio
    | infinity negative => cases ratio
    | finite negative m e =>
      obtain ⟨-, rfl⟩ := Prod.mk.inj (Option.some.inj ratio)
      exact Nat.two_pow_pos _
  have pos' : (0 : ℚ) < d := by exact_mod_cast pos
  have up : 0 ≤ z := by
    have : (0 : ℚ) ≤ z := by
      rw [← div_mul_cancel₀ (z : ℚ) pos'.ne']
      exact mul_nonneg nonneg pos'.le
    exact_mod_cast this
  obtain ⟨n, rfl⟩ := Int.eq_ofNat_of_zero_le up
  exact ⟨n, d, ratio, pos, by simp⟩

theorem truncate?_eq (found : x.value? = some q) (nonneg : 0 ≤ q) :
    x.truncate? = some ⌊q⌋ := by
  obtain ⟨n, d, ratio, -, rfl⟩ := exists_toRatio? found nonneg
  rw [truncate?, ratio, Option.map_some, Rat.floor_natCast_div_natCast]
  rfl

end Value

section Rounded

/-- Rounding to a significand of all 53 bits: `q` lies in the binade whose unit is `2 ^ e`, and `m`
is the nearest number of units. -/
structure RoundsTo (q : ℚ) (m : ℕ) (e : ℤ) : Prop where
  least : minExponent ≤ e
  greatest : e < maxExponent
  lower : 2 ^ 52 * 2 ^ e ≤ q
  upper : q < 2 ^ 53 * 2 ^ e
  nearest : IsNearest (q / 2 ^ e) m

variable {x y : Binary64} {q a b : ℚ} {m n d num den : ℕ} {e : ℤ}

theorem scale_quotient :
    ((scale num den e).1 : ℚ) / (scale num den e).2 = (num : ℚ) / den / 2 ^ e := by
  simp only [scale, Nat.pow_eq, two_zpow_eq]
  push_cast
  field_simp

theorem scale_pos (pos : 0 < den) : 0 < (scale num den e).2 :=
  Nat.mul_pos pos (Nat.two_pow_pos _)

theorem log2_bounds (pos : 0 < n) : (2 : ℚ) ^ (n.log2 : ℤ) ≤ n ∧ (n : ℚ) < 2 ^ (n.log2 + 1 : ℤ) := by
  constructor
  · rw [zpow_natCast]
    exact_mod_cast Nat.log2_self_le pos.ne'
  · rw [← Nat.cast_succ, zpow_natCast]
    exact_mod_cast Nat.lt_log2_self

theorem scale_div_lt (pos : 0 < den) :
    (scale num den e).1 / (scale num den e).2 < n ↔ (num : ℚ) / den < n * 2 ^ e := by
  have pos' : (0 : ℚ) < (scale num den e).2 := by exact_mod_cast scale_pos pos
  rw [Nat.div_lt_iff_lt_mul (scale_pos pos), ← div_lt_iff₀ (by positivity), ← scale_quotient,
    div_lt_iff₀ pos']
  norm_cast

theorem RoundsTo.pos (rounds : RoundsTo q m e) : 0 < q :=
  lt_of_lt_of_le (by positivity) rounds.lower

/-- The bits of numerator and denominator tell the unit, or else twice the unit. -/
theorem RoundsTo.log2_sub (pos : 0 < den) (rounds : RoundsTo (num / den) m e) :
    (num.log2 : ℤ) - den.log2 - 52 = e ∨ (num.log2 : ℤ) - den.log2 - 52 = e + 1 := by
  have pos' : (0 : ℚ) < den := by exact_mod_cast pos
  have numPos : 0 < num := by
    have : (0 : ℚ) < num := (div_pos_iff_of_pos_right pos').mp rounds.pos
    exact_mod_cast this
  obtain ⟨numLow, numHigh⟩ := log2_bounds numPos
  obtain ⟨denLow, denHigh⟩ := log2_bounds pos
  have whole : (num : ℚ) / den * den = num := div_mul_cancel₀ _ pos'.ne'
  have low : 52 + e + den.log2 < num.log2 + 1 := by
    rw [← zpow_lt_zpow_iff_right₀ (one_lt_two (α := ℚ))]
    calc (2 : ℚ) ^ (52 + e + den.log2) = 2 ^ 52 * 2 ^ e * 2 ^ (den.log2 : ℤ) := by
          rw [zpow_add₀ two_ne_zero, zpow_add₀ two_ne_zero]
          norm_num
      _ ≤ num / den * den := by
          gcongr
          exact rounds.lower
      _ < 2 ^ (num.log2 + 1 : ℤ) := by rwa [whole]
  have high : (num.log2 : ℤ) < 53 + e + (den.log2 + 1) := by
    rw [← zpow_lt_zpow_iff_right₀ (one_lt_two (α := ℚ))]
    calc (2 : ℚ) ^ (num.log2 : ℤ) ≤ num / den * den := by rwa [whole]
      _ < 2 ^ 53 * 2 ^ e * 2 ^ (den.log2 + 1 : ℤ) :=
          mul_lt_mul'' rounds.upper denHigh rounds.pos.le pos'.le
      _ = (2 : ℚ) ^ (53 + e + (den.log2 + 1)) := by
          rw [zpow_add₀ two_ne_zero (53 + e), zpow_add₀ two_ne_zero 53 e]
          norm_num
  omega

theorem unitExponent_eq (pos : 0 < den) (rounds : RoundsTo (num / den) m e) :
    unitExponent num den = e := by
  have least : max e minExponent = e := max_eq_left rounds.least
  simp only [unitExponent, Nat.pow_eq, scale_div_lt pos]
  rcases rounds.log2_sub pos with same | twice
  · have full : ¬ (num : ℚ) / den < (2 ^ 52 : ℕ) * 2 ^ e := by
      push_cast
      exact not_lt.mpr rounds.lower
    rw [same, if_neg full, least]
  · have short : (num : ℚ) / den < (2 ^ 52 : ℕ) * 2 ^ (e + 1) := by
      rw [zpow_add_one₀ two_ne_zero]
      push_cast
      linarith [rounds.upper]
    rw [twice, if_pos short, add_sub_cancel_right, least]

theorem value?_normalize (small : m ≤ 2 ^ 53) (greatest : e < maxExponent) :
    (normalize false m e).value? = some ((m : ℚ) * 2 ^ e) := by
  unfold normalize
  simp only [Nat.pow_eq]
  split
  · next full =>
    obtain rfl : m = 2 ^ 53 := le_antisymm small full
    have finite : ¬ maxExponent < e + 1 := by omega
    simp only [finite, if_false, value?_finite, zpow_add_one₀ (two_ne_zero (α := ℚ))]
    norm_num
    ring
  · have finite : ¬ maxExponent < e := by omega
    simp only [finite, if_false, value?_finite]
    simp

theorem value?_ofRatio (pos : 0 < den) (rounds : RoundsTo (num / den) m e) :
    (ofRatio false num den).value? = some ((m : ℚ) * 2 ^ e) := by
  have nonzero : num ≠ 0 := by
    rintro rfl
    simpa using rounds.pos
  have small : m ≤ 2 ^ 53 := by
    apply rounds.nearest.ge
    rw [div_le_iff₀ (by positivity)]
    exact_mod_cast rounds.upper.le
  have nearest : roundDiv (scale num den e).1 (scale num den e).2 = m := by
    apply roundDiv_eq_of_isNearest (scale_pos pos)
    rw [scale_quotient]
    exact rounds.nearest
  simp only [ofRatio, nonzero, if_false, unitExponent_eq pos rounds, nearest]
  exact value?_normalize small rounds.greatest

theorem value?_ofRatio_zero : (ofRatio false 0 d).value? = some 0 := by
  simp [ofRatio, value?_finite]

theorem value?_mul (left : x.value? = some a) (right : y.value? = some b) (leftPos : 0 < a)
    (rightPos : 0 < b) (rounds : RoundsTo (a * b) m e) : (x.mul y).value? = some ((m : ℚ) * 2 ^ e) := by
  obtain ⟨s, k, i, rfl, rfl, sign⟩ := exists_finite_of_value? left leftPos.le
  obtain ⟨t, l, j, rfl, rfl, sign'⟩ := exists_finite_of_value? right rightPos.le
  obtain rfl := sign leftPos
  obtain rfl := sign' rightPos
  apply value?_ofRatio (Nat.mul_pos (Nat.two_pow_pos _) (Nat.two_pow_pos _))
  simp only [Nat.pow_eq]
  push_cast
  rwa [← div_mul_div_comm, mul_div_assoc, mul_div_assoc, ← two_zpow_eq, ← two_zpow_eq]

theorem value?_mul_zero (left : x.value? = some 0) (right : y.value? = some b) :
    (x.mul y).value? = some 0 := by
  obtain ⟨s, k, i, rfl, zero, -⟩ := exists_finite_of_value? left le_rfl
  obtain rfl : k = 0 := by
    rcases mul_eq_zero.mp zero.symm with none | none
    · exact_mod_cast none
    · exact absurd none (by positivity)
  cases y with
  | nan => cases right
  | infinity negative => cases right
  | finite t l j => simp [mul, magnitude, ofRatio, value?_finite]

theorem RoundsTo.error (rounds : RoundsTo q m e) : |m * 2 ^ e - q| ≤ q / 2 ^ 53 := by
  have unit : (0 : ℚ) < 2 ^ e := by positivity
  have near := rounds.nearest.near
  have lower := rounds.lower
  have distance : |m * 2 ^ e - q| = |q / 2 ^ e - m| * 2 ^ e := by
    rw [abs_sub_comm, ← abs_of_pos unit, ← abs_mul, abs_of_pos unit, sub_mul,
      div_mul_cancel₀ _ unit.ne']
  rw [distance, le_div_iff₀ (by positivity)]
  nlinarith

theorem exists_roundsTo (lower : (2 : ℚ) ^ (-1022 : ℤ) ≤ q) (upper : q < (2 : ℚ) ^ (1023 : ℤ)) :
    ∃ m e, RoundsTo q m e := by
  have pos : 0 < q := lt_of_lt_of_le (by positivity) lower
  have below : (2 : ℚ) ^ Int.log 2 q ≤ q := by exact_mod_cast Int.zpow_log_le_self one_lt_two pos
  have above : q < (2 : ℚ) ^ (Int.log 2 q + 1) := by
    exact_mod_cast Int.lt_zpow_succ_log_self one_lt_two q
  have least : (-1022 : ℤ) < Int.log 2 q + 1 :=
    (zpow_lt_zpow_iff_right₀ (one_lt_two (α := ℚ))).mp (lower.trans_lt above)
  have greatest : Int.log 2 q < 1023 :=
    (zpow_lt_zpow_iff_right₀ (one_lt_two (α := ℚ))).mp (below.trans_lt upper)
  obtain ⟨m, nearest⟩ := exists_isNearest (q := q / 2 ^ (Int.log 2 q - 52)) (by positivity)
  refine ⟨m, Int.log 2 q - 52, ?_, ?_, ?_, ?_, nearest⟩
  · rw [minExponent]
    omega
  · rw [maxExponent]
    omega
  · calc (2 : ℚ) ^ 52 * 2 ^ (Int.log 2 q - 52) = 2 ^ Int.log 2 q := by
          rw [zpow_sub₀ two_ne_zero]
          norm_num
          ring
      _ ≤ q := below
  · calc q < (2 : ℚ) ^ (Int.log 2 q + 1) := above
      _ = 2 ^ 53 * 2 ^ (Int.log 2 q - 52) := by
          rw [zpow_sub₀ two_ne_zero, zpow_add_one₀ two_ne_zero]
          norm_num
          ring

theorem exists_roundsTo_of_between (lower : 1 / 2 ^ 64 ≤ q) (upper : q ≤ 2 ^ 64) :
    ∃ m e, RoundsTo q m e := by
  have least : (2 : ℚ) ^ (-1022 : ℤ) ≤ 1 / 2 ^ 64 := by
    rw [one_div, ← zpow_natCast, ← zpow_neg]
    exact zpow_le_zpow_right₀ one_le_two (by decide)
  have most : (2 : ℚ) ^ 64 < 2 ^ (1023 : ℤ) := by
    rw [← zpow_natCast]
    exact zpow_lt_zpow_right₀ one_lt_two (by decide)
  exact exists_roundsTo (least.trans lower) (upper.trans_lt most)

/-- A quotient of `j` binary places behind the point, all 53 bits of which count. -/
theorem roundsTo_places {j : ℕ} (pos : 0 < d) (few : j ≤ 1074) (lower : 2 ^ 52 * d ≤ n)
    (upper : n < 2 ^ 53 * d) : RoundsTo ((n : ℚ) / d / 2 ^ j) (roundDiv n d) (-j) := by
  have pos' : (0 : ℚ) < d := by exact_mod_cast pos
  have unit : (2 : ℚ) ^ (-j : ℤ) = 1 / 2 ^ j := by rw [zpow_neg, zpow_natCast, one_div]
  constructor
  · rw [minExponent]
    omega
  · rw [maxExponent]
    omega
  · rw [unit, mul_one_div]
    gcongr
    rw [le_div_iff₀ pos']
    exact_mod_cast lower
  · rw [unit, mul_one_div]
    gcongr
    rw [div_lt_iff₀ pos']
    exact_mod_cast upper
  · rw [unit, div_div_eq_mul_div, div_mul_cancel₀ _ (by positivity), div_one]
    exact isNearest_roundDiv pos

theorem value?_ofNat (pos : 0 < n) (small : n < 2 ^ 53) : (ofNat n).value? = some (n : ℚ) := by
  have least : (1 : ℚ) ≤ n := by exact_mod_cast pos
  have most : (n : ℚ) < 2 ^ 53 := by exact_mod_cast small
  obtain ⟨m, e, rounds⟩ := exists_roundsTo_of_between (q := n) (by linarith) (by linarith)
  have units : e < 1 := by
    rw [← zpow_lt_zpow_iff_right₀ (one_lt_two (α := ℚ)), zpow_one]
    linarith [rounds.lower]
  obtain ⟨j, rfl⟩ : ∃ j : ℕ, e = -j := ⟨(-e).toNat, by omega⟩
  -- A whole number of units is its own nearest.
  have nearest := rounds.nearest
  rw [zpow_neg, div_inv_eq_mul, zpow_natCast] at nearest
  have exact : m = n * 2 ^ j := IsNearest.eq_of_natCast (by exact_mod_cast nearest)
  have rounds' : RoundsTo ((n : ℚ) / (1 : ℕ)) m (-j) := by simpa using rounds
  rw [ofNat, value?_ofRatio one_pos rounds', exact, zpow_neg, zpow_natCast]
  push_cast
  field_simp

end Rounded

end ServerUI.Binary64
