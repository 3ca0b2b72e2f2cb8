import ServerUI.Proofs.Binary64.Rounding
import ServerUI.Proofs.Identifier.Prefixed

/-!
The time of a sortable identifier in milliseconds. It is read by way of the seconds, which are
rounded, and multiplied, which is rounded again; what then is cut off behind the point costs a
millisecond wherever the two roundings end below a whole number.
-/

set_option autoImplicit false

namespace ServerUI

namespace Ulid

variable {cs : List Char} {c : Char}

theorem digit?_lt {d : ℕ} (digit : digit? c = some d) : d < 32 := by
  obtain ⟨inside, -⟩ := List.idxOf?_eq_some_iff.mp digit
  exact lt_of_lt_of_eq inside (by decide)

theorem getD_digit?_lt : (digit? c).getD 0 < 32 := by
  cases digit : digit? c with
  | none => decide
  | some d => exact digit?_lt digit

theorem foldl_digits_lt {n : ℕ} :
    cs.foldl (fun n c => 32 * n + (digit? c).getD 0) n < (n + 1) * 32 ^ cs.length := by
  induction cs generalizing n with
  | nil => simp
  | cons c cs ih =>
    have digit : 32 * n + (digit? c).getD 0 + 1 ≤ (n + 1) * 32 := by
      have small : (digit? c).getD 0 < 32 := getD_digit?_lt
      omega
    calc cs.foldl (fun n c => 32 * n + (digit? c).getD 0) (32 * n + (digit? c).getD 0)
        < (32 * n + (digit? c).getD 0 + 1) * 32 ^ cs.length := ih
      _ ≤ (n + 1) * 32 * 32 ^ cs.length := Nat.mul_le_mul_right _ digit
      _ = (n + 1) * 32 ^ (cs.length + 1) := by ring

/-- The first digit is at most 7, so that the ten digits of the time have 48 bits. -/
theorem time_lt (ulid : isUlid cs = true) : time cs < 2 ^ 48 := by
  cases cs with
  | nil => cases ulid
  | cons c rest =>
    simp only [isUlid, Bool.and_eq_true, beq_iff_eq, List.length_cons, decide_eq_true_eq] at ulid
    obtain ⟨⟨size, -⟩, first⟩ := ulid
    have leading : (digit? c).getD 0 ≤ 7 := by
      cases digit : digit? c <;> simp_all
    have nine : (rest.take 9).length = 9 := by
      rw [List.length_take]
      simp only [length] at size
      omega
    calc time (c :: rest)
        = (rest.take 9).foldl (fun n c => 32 * n + (digit? c).getD 0) ((digit? c).getD 0) := by
          simp [time, ofDigits, timeLength]
      _ < ((digit? c).getD 0 + 1) * 32 ^ (rest.take 9).length := foldl_digits_lt
      _ ≤ 8 * 32 ^ 9 := by
          rw [nine]
          exact Nat.mul_le_mul_right _ (by omega)
      _ = 2 ^ 48 := by norm_num

end Ulid

namespace Identifier

open Binary64

variable {ms i : ℕ}

/-- What is left of milliseconds by way of the seconds. -/
def throughSeconds (ms : ℕ) : ℤ := ((seconds ms).mul thousand).truncate?.getD 0

/-- Of numbers of fewer than 48 bits, those that come out of the seconds one too small. They are so
close below a power of two that their seconds have passed one and have a bit less behind the point,
and the seconds are rounded down by more than half a unit of the product. -/
def FallsShort (ms : ℕ) : Prop :=
  1000 * 2 ^ ms.log2 ≤ 512 * ms ∧
    256 < ms * 2 ^ (61 - ms.log2) % 1000 ∧ ms * 2 ^ (61 - ms.log2) % 1000 < 500

instance : DecidablePred FallsShort := fun _ => inferInstanceAs (Decidable (_ ∧ _ ∧ _))

theorem value?_seconds {j : ℕ} (few : j ≤ 1074) (lower : 2 ^ 52 * 1000 ≤ ms * 2 ^ j)
    (upper : ms * 2 ^ j < 2 ^ 53 * 1000) :
    (seconds ms).value? = some ((roundDiv (ms * 2 ^ j) 1000 : ℚ) / 2 ^ j) := by
  have rounds := roundsTo_places (by decide : 0 < 1000) few lower upper
  have quotient : ((ms * 2 ^ j : ℕ) : ℚ) / (1000 : ℕ) / 2 ^ j = ms / (1000 : ℕ) := by
    push_cast
    field_simp
  rw [quotient] at rounds
  rw [seconds, value?_ofRatio (by decide) rounds, zpow_neg, zpow_natCast, div_eq_mul_inv]

/-- The seconds have `u` binary places more than the `i` places of the product, whose unit `w` is
therefore so many times theirs. -/
theorem throughSeconds_of_places {u w c n : ℕ} (few : i + u ≤ 1074) (unit : 2 ^ u = w)
    (whole : ms * 2 ^ i = c) (lower : 2 ^ 52 * 1000 ≤ w * c) (upper : w * c < 2 ^ 53 * 1000)
    (units : roundDiv (w * c) 1000 = n) (lower' : 2 ^ 52 * w ≤ n * 1000)
    (upper' : n * 1000 < 2 ^ 53 * w) : throughSeconds ms = (roundDiv (n * 1000) w / 2 ^ i : ℕ) := by
  subst unit
  have few' : i ≤ 1074 := (Nat.le_add_right i u).trans few
  have scaled : ms * 2 ^ (i + u) = 2 ^ u * c := by
    rw [← whole, pow_add]
    ring
  have left := value?_seconds few (scaled.symm ▸ lower) (scaled.symm ▸ upper)
  have right : thousand.value? = some ((1000 : ℕ) : ℚ) := value?_ofNat (by decide) (by decide)
  have rounds := roundsTo_places (Nat.two_pow_pos u) few' lower' upper'
  have product : ((n * 1000 : ℕ) : ℚ) / (2 ^ u : ℕ) / 2 ^ i = n / 2 ^ (i + u) * (1000 : ℕ) := by
    push_cast
    rw [pow_add]
    field_simp
  have pos : 0 < n := by
    rcases Nat.eq_zero_or_pos n with rfl | pos
    · simp at lower'
    · exact pos
  rw [scaled, units] at left
  rw [product] at rounds
  have found := value?_mul left right (by positivity) (by norm_num) rounds
  rw [throughSeconds, truncate?_eq found (by positivity), Option.getD_some, zpow_neg, zpow_natCast,
    ← div_eq_mul_inv]
  exact_mod_cast Rat.floor_natCast_div_natCast _ _

theorem roundDiv_thousand {a n : ℕ} (units : roundDiv a 1000 = n) :
    a ≤ n * 1000 + 500 ∧ n * 1000 ≤ a + 500 := by
  have near := (roundDiv_remainder (n := a) (d := 1000) (by decide)).1
  rw [units] at near
  omega

theorem roundDiv_thousand_short {b n : ℕ} (units : roundDiv (512 * (32 * b)) 1000 = n) :
    (256 < 512 * (32 * b) % 1000 ∧ 512 * (32 * b) % 1000 < 500) ↔
      n * 1000 + 256 < 512 * (32 * b) := by
  subst units
  unfold roundDiv
  dsimp only
  split_ifs <;> omega

theorem roundDiv_roomy {b p : ℕ} (up : 1024 * (32 * b) ≤ p + 500)
    (down : p ≤ 1024 * (32 * b) + 500) : roundDiv p 1024 = 32 * b := by
  have near := (roundDiv_remainder (n := p) (d := 1024) (by decide)).1
  omega

theorem roundDiv_tight {b p : ℕ} (up : 512 * (32 * b) ≤ p + 256)
    (down : p ≤ 512 * (32 * b) + 500) : 32 * b ≤ roundDiv p 512 ∧ roundDiv p 512 ≤ 32 * b + 1 := by
  -- Half a unit below, the even one of the two neighbours is the upper one.
  have near := roundDiv_remainder (n := p) (d := 512) (by decide)
  omega

theorem roundDiv_short {b p : ℕ} (up : 512 * (32 * b) ≤ p + 500)
    (short : p + 256 < 512 * (32 * b)) : roundDiv p 512 + 1 = 32 * b := by
  have near := (roundDiv_remainder (n := p) (d := 512) (by decide)).1
  omega

theorem fallsShort_iff (places : ms.log2 + i = 52) :
    FallsShort ms ↔ 2 ^ 53 * 1000 ≤ 1024 * (ms * 2 ^ i) ∧
      256 < 512 * (ms * 2 ^ i) % 1000 ∧ 512 * (ms * 2 ^ i) % 1000 < 500 := by
  have scaled : ms * 2 ^ (61 - ms.log2) = 512 * (ms * 2 ^ i) := by
    rw [show 61 - ms.log2 = i + 9 by omega, pow_add]
    ring
  have close : 1000 * 2 ^ ms.log2 ≤ 512 * ms ↔ 2 ^ 53 * 1000 ≤ 1024 * (ms * 2 ^ i) := by
    have left : 1000 * 2 ^ ms.log2 * 2 ^ (i + 1) = 2 ^ 53 * 1000 := by
      rw [mul_assoc, ← pow_add, show ms.log2 + (i + 1) = 53 by omega]
      norm_num
    have right : 512 * ms * 2 ^ (i + 1) = 1024 * (ms * 2 ^ i) := by
      rw [pow_succ]
      ring
    rw [← left, ← right]
    exact (Nat.mul_le_mul_right_iff (Nat.two_pow_pos _)).symm
  rw [FallsShort, scaled, close]

theorem exists_places (pos : 0 < ms) (small : ms < 2 ^ 48) :
    ∃ i b, ms.log2 + i = 52 ∧ 5 ≤ i ∧ ms * 2 ^ i = 32 * b ∧ 2 ^ 52 ≤ 32 * b ∧ 32 * b < 2 ^ 53 := by
  have few : ms.log2 < 48 := (Nat.log2_lt pos.ne').mpr small
  obtain ⟨j, places⟩ : ∃ j, ms.log2 + (j + 5) = 52 := ⟨47 - ms.log2, by omega⟩
  have whole : ms * 2 ^ (j + 5) = 32 * (ms * 2 ^ j) := by rw [pow_add]; ring
  refine ⟨j + 5, ms * 2 ^ j, places, by omega, whole, ?_, ?_⟩
  · calc 2 ^ 52 = 2 ^ ms.log2 * 2 ^ (j + 5) := by rw [← pow_add, places]
      _ ≤ ms * 2 ^ (j + 5) := Nat.mul_le_mul_right _ (Nat.log2_self_le pos.ne')
      _ = 32 * (ms * 2 ^ j) := whole
  · calc 32 * (ms * 2 ^ j) = ms * 2 ^ (j + 5) := whole.symm
      _ < 2 ^ (ms.log2 + 1) * 2 ^ (j + 5) :=
          Nat.mul_lt_mul_of_pos_right Nat.lt_log2_self (Nat.two_pow_pos _)
      _ = 2 ^ 53 := by rw [← pow_add, show ms.log2 + 1 + (j + 5) = 53 by omega]

theorem throughSeconds_roomy {b : ℕ} (few : i ≤ 52) (whole : ms * 2 ^ i = 32 * b)
    (least : 2 ^ 52 ≤ 32 * b) (roomy : 1024 * (32 * b) < 2 ^ 53 * 1000) :
    throughSeconds ms = ms := by
  generalize units : roundDiv (1024 * (32 * b)) 1000 = n
  obtain ⟨up, down⟩ := roundDiv_thousand units
  have exact : roundDiv (n * 1000) 1024 = 32 * b := roundDiv_roomy up down
  -- At the power of two itself the seconds are rounded up.
  have enough : 4611686018427388 ≤ n := by
    clear units exact
    omega
  rw [throughSeconds_of_places (u := 10) (by omega) (by norm_num) whole (by linarith) roomy units
    (by linarith) (by linarith), exact, ← whole, Nat.mul_div_cancel _ (Nat.two_pow_pos i)]

theorem throughSeconds_tight {b : ℕ} (few : i ≤ 52) (whole : ms * 2 ^ i = 32 * b)
    (tight : 2 ^ 53 * 1000 ≤ 1024 * (32 * b)) (most : 32 * b < 2 ^ 53) :
    throughSeconds ms =
      (roundDiv (roundDiv (512 * (32 * b)) 1000 * 1000) 512 / 2 ^ i : ℕ) := by
  generalize units : roundDiv (512 * (32 * b)) 1000 = n
  obtain ⟨up, down⟩ := roundDiv_thousand units
  exact throughSeconds_of_places (u := 9) (by omega) (by norm_num) whole (by linarith)
    (by linarith) units (by linarith) (by linarith)

theorem throughSeconds_of_fallsShort (small : ms < 2 ^ 48) (short : FallsShort ms) :
    throughSeconds ms + 1 = ms := by
  rcases Nat.eq_zero_or_pos ms with rfl | pos
  · exact absurd short (by decide)
  obtain ⟨i, b, places, some, whole, least, most⟩ := exists_places pos small
  rw [fallsShort_iff places, whole] at short
  obtain ⟨tight, short⟩ := short
  rw [throughSeconds_tight (by omega) whole tight most]
  generalize units : roundDiv (512 * (32 * b)) 1000 = n
  have below : n * 1000 + 256 < 512 * (32 * b) := (roundDiv_thousand_short units).mp short
  have less : roundDiv (n * 1000) 512 + 1 = 32 * b :=
    roundDiv_short (roundDiv_thousand units).1 below
  have wide : 1 < 2 ^ i := Nat.one_lt_two_pow (by omega)
  obtain ⟨before, rfl⟩ := Nat.exists_eq_add_one.mpr pos
  have product : (before + 1) * 2 ^ i = before * 2 ^ i + 2 ^ i := Nat.succ_mul before (2 ^ i)
  have cut : roundDiv (n * 1000) 512 / 2 ^ i = before :=
    Nat.div_eq_of_lt_le (by omega) (by omega)
  rw [cut]
  push_cast
  rfl

theorem throughSeconds_of_not_fallsShort (small : ms < 2 ^ 48) (enough : ¬ FallsShort ms) :
    throughSeconds ms = ms := by
  rcases Nat.eq_zero_or_pos ms with rfl | pos
  · decide +kernel
  obtain ⟨i, b, places, some, whole, least, most⟩ := exists_places pos small
  by_cases tight : 2 ^ 53 * 1000 ≤ 1024 * (32 * b)
  next =>
    rw [fallsShort_iff places, whole] at enough
    rw [throughSeconds_tight (by omega) whole tight most]
    generalize units : roundDiv (512 * (32 * b)) 1000 = n
    have above : ¬ n * 1000 + 256 < 512 * (32 * b) := fun below =>
      enough ⟨tight, (roundDiv_thousand_short units).mpr below⟩
    obtain ⟨up, down⟩ := roundDiv_tight (not_lt.mp above) (roundDiv_thousand units).2
    have wide : 1 < 2 ^ i := Nat.one_lt_two_pow (by omega)
    have product : (ms + 1) * 2 ^ i = ms * 2 ^ i + 2 ^ i := Nat.succ_mul ms (2 ^ i)
    have cut : roundDiv (n * 1000) 512 / 2 ^ i = ms := Nat.div_eq_of_lt_le (by omega) (by omega)
    rw [cut]
  next => exact throughSeconds_roomy (by omega) whole least (not_le.mp tight)

variable {s : String}

theorem timestamp_of_isValid (valid : isValid s = true) :
    timestamp s = throughSeconds (Ulid.time (body s)) := by
  rw [timestamp, if_pos valid, throughSeconds]

/-- The milliseconds of a sortable identifier are the number that its first ten characters encode,
or else one less, and it is known which. -/
theorem timestamp_exact_iff {s : String} (ulid : Ulid.isUlid s.toList = true) :
    (timestamp s = Ulid.time s.toList ↔ ¬ FallsShort (Ulid.time s.toList)) ∧
      (FallsShort (Ulid.time s.toList) → timestamp s + 1 = Ulid.time s.toList) := by
  have whole : body s = s.toList := body_plain (Ulid.underscore_not_mem ulid)
  have small : Ulid.time s.toList < 2 ^ 48 := Ulid.time_lt ulid
  have read : timestamp s = throughSeconds (Ulid.time s.toList) := by
    rw [timestamp_of_isValid (by rwa [isValid, whole]), whole]
  rw [read]
  refine ⟨⟨fun same short => ?_, throughSeconds_of_not_fallsShort small⟩,
    throughSeconds_of_fallsShort small⟩
  have less := throughSeconds_of_fallsShort small short
  omega

theorem timestamp_exact_2016 :
    let s := "01ARZ3NDEKTSV4RRFFQ69G5FAV"
    Ulid.isUlid s.toList = true ∧ ¬ FallsShort 1469922850259 ∧ timestamp s = 1469922850259 := by
  intro s
  have ulid : Ulid.isUlid s.toList = true := by decide +kernel
  have time : Ulid.time s.toList = 1469922850259 := by decide +kernel
  have enough : ¬ FallsShort 1469922850259 := by decide +kernel
  have exact := (timestamp_exact_iff ulid).1
  rw [time] at exact
  exact ⟨ulid, enough, exact.mpr enough⟩

/-- Of 1001 milliseconds one is lost. -/
theorem timestamp_1001 :
    let s := "00000000Z90000000000000000"
    Ulid.isUlid s.toList = true ∧ Ulid.time s.toList = 1001 ∧ timestamp s = 1000 := by
  decide +kernel

/-- Nothing is lost of the times from November 2004 to January 2038, when the seconds fill 31
bits. -/
theorem not_fallsShort_of_between (after : 2 ^ 40 ≤ ms) (before : ms < 2 ^ 31 * 1000) :
    ¬ FallsShort ms := by
  have bits : ms.log2 = 40 := (Nat.log2_eq_iff (by omega)).mpr ⟨after, by omega⟩
  rintro ⟨close, -⟩
  rw [bits] at close
  omega

end Identifier

end ServerUI
