import ServerUI.Proofs.Identifier.Milliseconds

/-!
The date and time of a sortable identifier. There is one for every valid identifier but those of the
first millisecond, whose time is taken for none, and those of a year after the last that a date can
have.
-/

set_option autoImplicit false

namespace ServerUI

namespace DateTime

open Binary64

theorem maxYear_lt_ofDays {days : ℕ} : maxYear < (ofDays days).1 ↔ 3652365 ≤ days := by
  have inside : days % 146097 < 146097 := Nat.mod_lt _ (by decide)
  have split := Nat.div_add_mod days 146097
  simp only [ofDays, maxYear]
  generalize days % 146097 = dayOfEra at *
  generalize days / 146097 = era at *
  -- Only in the last year of an era, which ends in a February, does the day of the year matter.
  have last : 145731 ≤ dayOfEra →
      (dayOfEra - dayOfEra / 1460 + dayOfEra / 36524 - dayOfEra / 146096) / 365 = 399 := by
    omega
  have before : dayOfEra < 145731 →
      (dayOfEra - dayOfEra / 1460 + dayOfEra / 36524 - dayOfEra / 146096) / 365 ≤ 398 := by
    omega
  generalize (dayOfEra - dayOfEra / 1460 + dayOfEra / 36524 - dayOfEra / 146096) / 365 = year at *
  by_cases late : 145731 ≤ dayOfEra
  next =>
    rw [last late]
    split_ifs <;> omega
  next =>
    have early := before (not_le.mp late)
    split_ifs <;> omega

theorem maxYear_lt_ofSeconds {seconds microsecond : ℕ} :
    maxYear < (ofSeconds seconds microsecond).year ↔ 253402300800 ≤ seconds := by
  simp only [ofSeconds, maxYear_lt_ofDays, epochDays]
  omega

theorem exists_microseconds {n d : ℕ} (fine : n = 0 ∨ 1 / 2 ^ 62 ≤ (n : ℚ) / d)
    (room : (n : ℚ) / d ≤ 9995 / 10000) :
    ∃ m e : ℕ, ((ofRatio false n d).mul (ofNat 1000000)).toRatio? = some ((m : ℤ), e) ∧ 0 < e ∧
      (m : ℚ) / e ≤ 999999 := by
  have million : (ofNat 1000000).value? = some ((1000000 : ℕ) : ℚ) :=
    value?_ofNat (by decide) (by decide)
  rcases fine with rfl | fine
  · obtain ⟨m, e, ratio, pos, zero⟩ :=
      exists_toRatio? (value?_mul_zero (value?_ofRatio_zero (d := d)) million) le_rfl
    exact ⟨m, e, ratio, pos, by rw [zero]; norm_num⟩
  · have pos : 0 < d := by
      rcases Nat.eq_zero_or_pos d with rfl | pos
      · norm_num at fine
      · exact pos
    obtain ⟨k, i, rounds⟩ := exists_roundsTo_of_between (q := (n : ℚ) / d) (by linarith) (by linarith)
    -- Each rounding adds less than a millionth part of what it rounds.
    have near := abs_le.mp rounds.error
    obtain ⟨l, j, rounds'⟩ := exists_roundsTo_of_between
      (q := (k : ℚ) * 2 ^ i * (1000000 : ℕ)) (by push_cast; linarith) (by push_cast; linarith)
    have near' := abs_le.mp rounds'.error
    push_cast at near'
    have found := value?_mul (value?_ofRatio pos rounds) million (by linarith) (by norm_num) rounds'
    obtain ⟨m, e, ratio, pos', value⟩ := exists_toRatio? found (by positivity)
    exact ⟨m, e, ratio, pos', by rw [value]; linarith⟩

theorem div_mod_of_quotient {n d w : ℕ} {f : ℚ} (pos : 0 < d) (quotient : (n : ℚ) / d = w + f)
    (nonneg : 0 ≤ f) (small : f < 1) : n / d = w ∧ ((n % d : ℕ) : ℚ) / d = f := by
  have pos' : (0 : ℚ) < d := by exact_mod_cast pos
  rw [div_eq_iff pos'.ne'] at quotient
  have whole : n / d = w := by
    apply Nat.div_eq_of_lt_le
    · have : (w : ℚ) * d ≤ n := by nlinarith
      exact_mod_cast this
    · have : (n : ℚ) < (w + 1) * d := by nlinarith
      exact_mod_cast this
  have split : (d : ℚ) * (n / d : ℕ) + (n % d : ℕ) = n := by exact_mod_cast Nat.div_add_mod n d
  rw [whole] at split
  refine ⟨whole, ?_⟩
  rw [div_eq_iff pos'.ne']
  linarith

/-- A number of seconds that is not close below a whole one is split at its point. -/
theorem exists_splitSeconds {x : Binary64} {w : ℕ} {f : ℚ} (found : x.value? = some (w + f))
    (fine : f = 0 ∨ 1 / 2 ^ 62 ≤ f) (room : f ≤ 9995 / 10000) :
    ∃ us, splitSeconds x = some (w, us) := by
  have nonneg : 0 ≤ f := by
    rcases fine with rfl | fine
    · exact le_rfl
    · linarith
  obtain ⟨n, d, ratio, pos, quotient⟩ := exists_toRatio? found (by positivity)
  obtain ⟨whole, rest⟩ := div_mod_of_quotient pos quotient nonneg (by linarith)
  have fine' : n % d = 0 ∨ 1 / 2 ^ 62 ≤ ((n % d : ℕ) : ℚ) / d := by
    rw [rest]
    refine fine.imp (fun none => ?_) id
    have pos' : (d : ℚ) ≠ 0 := by exact_mod_cast pos.ne'
    rw [none, div_eq_zero_iff] at rest
    exact_mod_cast rest.resolve_right pos'
  obtain ⟨m, e, product, pos', small⟩ := exists_microseconds fine' (by rwa [rest])
  have us : roundDiv m e < 1000000 :=
    Nat.lt_succ_of_le ((isNearest_roundDiv pos').ge (by exact_mod_cast small))
  refine ⟨roundDiv m e, ?_⟩
  have ratio' : x.toRatio? = some (Int.ofNat n, d) := ratio
  have product' : ((ofRatio false (n % d) d).mul (ofNat 1000000)).toRatio? =
      some (Int.ofNat m, e) := product
  simp only [splitSeconds, ratio', product', us, if_true, whole]

end DateTime

namespace Identifier

open Binary64

variable {ms : ℕ} {s : String}

theorem exists_places_seconds (pos : 0 < ms) (small : ms < 2 ^ 48) :
    ∃ j, 14 ≤ j ∧ j ≤ 62 ∧ 2 ^ 52 * 1000 ≤ ms * 2 ^ j ∧ ms * 2 ^ j < 2 ^ 53 * 1000 := by
  obtain ⟨i, b, places, some, whole, least, most⟩ := exists_places pos small
  by_cases tight : 2 ^ 53 * 1000 ≤ 1024 * (32 * b)
  next =>
    have scaled : ms * 2 ^ (i + 9) = 512 * (32 * b) := by rw [← whole, pow_add]; ring
    refine ⟨i + 9, by omega, by omega, ?_, ?_⟩ <;> rw [scaled] <;> linarith
  next =>
    have scaled : ms * 2 ^ (i + 10) = 1024 * (32 * b) := by rw [← whole, pow_add]; ring
    refine ⟨i + 10, by omega, by omega, ?_, ?_⟩ <;> rw [scaled] <;> linarith

/-- The whole seconds are those of the milliseconds: what their rounding adds or takes is less than
a millisecond. -/
theorem exists_splitSeconds_seconds (pos : 0 < ms) (small : ms < 2 ^ 48) :
    ∃ us, DateTime.splitSeconds (seconds ms) = some (ms / 1000, us) := by
  obtain ⟨j, enough, few, lower, upper⟩ := exists_places_seconds pos small
  have found := value?_seconds (by omega) lower upper
  generalize units : roundDiv (ms * 2 ^ j) 1000 = n at found
  obtain ⟨up, down⟩ := roundDiv_thousand units
  have split : ms * 2 ^ j = 1000 * (ms / 1000 * 2 ^ j) + ms % 1000 * 2 ^ j := by
    conv_lhs => rw [← Nat.div_add_mod ms 1000]
    ring
  have rest : ms % 1000 * 2 ^ j ≤ 999 * 2 ^ j := Nat.mul_le_mul_right _ (by omega)
  have room : 2 ^ 14 ≤ 2 ^ j := Nat.pow_le_pow_right two_pos enough
  have bound : 2 ^ j ≤ 2 ^ 62 := Nat.pow_le_pow_right two_pos few
  obtain ⟨k, rfl⟩ : ∃ k, n = ms / 1000 * 2 ^ j + k := ⟨n - ms / 1000 * 2 ^ j, by omega⟩
  have below : 10000 * k ≤ 9995 * 2 ^ j := by omega
  have value : ((ms / 1000 * 2 ^ j + k : ℕ) : ℚ) / 2 ^ j = (ms / 1000 : ℕ) + k / 2 ^ j := by
    push_cast
    field_simp
  rw [value] at found
  apply DateTime.exists_splitSeconds found
  · rcases Nat.eq_zero_or_pos k with rfl | least
    · simp
    · right
      have least' : (1 : ℚ) ≤ k := by exact_mod_cast least
      have bound' : (2 : ℚ) ^ j ≤ 2 ^ 62 := by exact_mod_cast bound
      gcongr
  · rw [div_le_div_iff₀ (by positivity) (by norm_num)]
    have : (10000 : ℚ) * k ≤ 9995 * 2 ^ j := by exact_mod_cast below
    linarith

/-- The milliseconds before the first year that no date has. -/
def firstBeyond : ℕ := 253402300800000

theorem exists_timestamp (valid : isValid s = true) (pos : 0 < Ulid.time (body s)) :
    ∃ ms : ℕ, timestamp s = ms ∧ 0 < ms ∧ ms < 2 ^ 48 ∧
      (firstBeyond ≤ ms ↔ firstBeyond ≤ Ulid.time (body s)) := by
  have small : Ulid.time (body s) < 2 ^ 48 := Ulid.time_lt valid
  rw [timestamp_of_isValid valid]
  generalize Ulid.time (body s) = time at pos small
  by_cases short : FallsShort time
  next =>
    have one : time ≠ 1 := by
      rintro rfl
      exact absurd short (by decide)
    have edge : time ≠ firstBeyond := by
      rintro rfl
      exact absurd short (by decide +kernel)
    have less := throughSeconds_of_fallsShort small short
    refine ⟨time - 1, by omega, by omega, by omega, by omega⟩
  next => exact ⟨time, throughSeconds_of_not_fallsShort small short, pos, small, Iff.rfl⟩

theorem dateTime?_of_timestamp_zero (zero : timestamp s = 0) : dateTime? s = .ok none := by
  rw [dateTime?, zero]

theorem dateTime?_of_timestamp (read : timestamp s = ms) (pos : 0 < ms) (small : ms < 2 ^ 48) :
    ∃ t : DateTime, (DateTime.maxYear < t.year ↔ firstBeyond ≤ ms) ∧
      dateTime? s =
        if DateTime.maxYear < t.year then .error (.yearOutOfRange t.year) else .ok (some t) := by
  obtain ⟨us, split⟩ := exists_splitSeconds_seconds pos small
  obtain ⟨before, rfl⟩ := Nat.exists_eq_add_one.mpr pos
  refine ⟨.ofSeconds ((before + 1) / 1000) us, ?_, ?_⟩
  · rw [DateTime.maxYear_lt_ofSeconds, firstBeyond]
    omega
  · have read' : timestamp s = Int.ofNat (before + 1) := read
    simp only [dateTime?, read', split]

theorem dateTime?_of_not_isValid (invalid : isValid s = false) : dateTime? s = .ok none :=
  dateTime?_of_timestamp_zero (by rw [timestamp, invalid]; rfl)

theorem dateTime?_of_time_zero (valid : isValid s = true) (zero : Ulid.time (body s) = 0) :
    dateTime? s = .ok none := by
  apply dateTime?_of_timestamp_zero
  rw [timestamp_of_isValid valid, zero]
  exact throughSeconds_of_not_fallsShort (by decide) (by decide)

theorem dateTime?_of_before (valid : isValid s = true) (pos : 0 < Ulid.time (body s))
    (before : Ulid.time (body s) < firstBeyond) : ∃ t, dateTime? s = .ok (some t) := by
  obtain ⟨ms, read, pos', small, side⟩ := exists_timestamp valid pos
  obtain ⟨t, year, found⟩ := dateTime?_of_timestamp read pos' small
  have inside : ¬ DateTime.maxYear < t.year := by rw [year, side]; exact not_le.mpr before
  exact ⟨t, by rw [found, if_neg inside]⟩

theorem dateTime?_of_beyond (valid : isValid s = true)
    (beyond : firstBeyond ≤ Ulid.time (body s)) :
    ∃ year, dateTime? s = .error (.yearOutOfRange year) := by
  have pos : 0 < Ulid.time (body s) := lt_of_lt_of_le (by decide) beyond
  obtain ⟨ms, read, pos', small, side⟩ := exists_timestamp valid pos
  obtain ⟨t, year, found⟩ := dateTime?_of_timestamp read pos' small
  have outside : DateTime.maxYear < t.year := year.mpr (side.mpr beyond)
  exact ⟨t.year, by rw [found, if_pos outside]⟩

/-- Asking for the date and time gives an answer, and none just for what is not valid, unless the
identifier is valid and of the first millisecond or of a year that no date has. -/
theorem dateTime?_exact_iff (s : String) :
    (∃ found, dateTime? s = .ok found ∧ (found = none ↔ isValid s = false)) ↔
      (isValid s = true → 0 < Ulid.time (body s) ∧ Ulid.time (body s) < firstBeyond) := by
  by_cases valid : isValid s = true
  next =>
    rcases Nat.eq_zero_or_pos (Ulid.time (body s)) with zero | pos
    · simp [valid, zero, dateTime?_of_time_zero valid zero]
    · rcases Nat.lt_or_ge (Ulid.time (body s)) firstBeyond with before | beyond
      · obtain ⟨t, found⟩ := dateTime?_of_before valid pos before
        simp [valid, pos, before, found]
      · obtain ⟨year, found⟩ := dateTime?_of_beyond valid beyond
        simp [valid, not_lt.mpr beyond, found]
  next =>
    have invalid : isValid s = false := Bool.eq_false_iff.mpr valid
    simp [invalid, dateTime?_of_not_isValid invalid]

/-- For the first millisecond there is no date and time, and for the last one no answer. -/
theorem dateTime?_extremes :
    let first := "00000000000000000000000000"
    let last := "7ZZZZZZZZZ0000000000000000"
    isValid first = true ∧ dateTime? first = .ok none ∧
      isValid last = true ∧ ∀ found, dateTime? last ≠ .ok found := by
  intro first last
  have valid : isValid first = true := by decide +kernel
  have zero : Ulid.time (body first) = 0 := by decide +kernel
  have valid' : isValid last = true := by decide +kernel
  have beyond : firstBeyond ≤ Ulid.time (body last) := by decide +kernel
  obtain ⟨year, error⟩ := dateTime?_of_beyond valid' beyond
  refine ⟨valid, dateTime?_of_time_zero valid zero, valid', fun found ok => ?_⟩
  rw [error] at ok
  cases ok

end Identifier

end ServerUI
