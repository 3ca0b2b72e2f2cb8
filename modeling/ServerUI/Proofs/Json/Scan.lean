import Mathlib.Tactic.IntervalCases
import ServerUI.Json.Writer

/-!
Scanning what was written. Each piece that is written is scanned off the front of whatever comes
behind it, as the one token that it was written for. A number also needs an end: what comes behind
it must not go on with it.
-/

set_option autoImplicit false

namespace ServerUI

namespace Text

theorem isDigit_eq (c : Char) : isDigit c = c.isDigit := by
  rw [isDigit, Char.isDigit, Bool.eq_iff_iff]
  simp [Char.le_def]

theorem ofDigits_toDigits (n : Nat) : ofDigits (Nat.toDigits 10 n) = n :=
  Nat.ofDigitChars_toDigits (by decide) (by decide)

theorem isDigit_of_mem_toDigits {n : Nat} {c : Char} (h : c ∈ Nat.toDigits 10 n) :
    isDigit c = true := by
  rw [isDigit_eq]
  exact Nat.isDigit_of_mem_toDigits (by decide) (by decide) h

theorem head?_toDigits {n : Nat} (positive : 0 < n) : (Nat.toDigits 10 n).head? ≠ some '0' := by
  induction n using Nat.strongRecOn with
  | ind n ih =>
    by_cases small : n < 10
    · rw [Nat.toDigits_of_lt_base small]
      interval_cases n <;> decide
    · have before := ih (n / 10) (by omega) (by omega)
      rw [Nat.toDigits_of_base_le (by decide) (by omega)]
      cases digits : Nat.toDigits 10 (n / 10) with
      | nil => exact absurd digits (by simp)
      | cons c cs => simpa [digits] using before

theorem toList_toString (i : Int) :
    (toString i).toList = (if i < 0 then ['-'] else []) ++ Nat.toDigits 10 i.natAbs := by
  cases i with
  | ofNat n => simp [toString, Int.repr, Nat.toList_repr]
  | negSucc n => simp [toString, Int.repr, Nat.toList_repr, Int.negSucc_lt_zero]

end Text

namespace Json

open ServerUI.Text

theorem scanString_unit {a b c d : Char} {n : Nat} (acc rest : List Char)
    (unit : unit? a b c d = some n) (whole : n < 0xD800) :
    scanString acc ('\\' :: 'u' :: a :: b :: c :: d :: rest) =
      scanString (Char.ofNat n :: acc) rest := by
  have high : isHighSurrogate n = false := by simp [isHighSurrogate]; omega
  have low : isLowSurrogate n = false := by simp [isLowSurrogate]; omega
  rw [scanString.eq_def]
  split <;> grind

theorem unit?_hex {n : Nat} (small : n < 0x20) :
    ∃ a b c d, hex 4 n = [a, b, c, d] ∧ unit? a b c d = some n := by
  interval_cases n <;> exact ⟨_, _, _, _, rfl, by decide⟩

theorem scanString_plain {c : Char} (acc rest : List Char) (quote : c ≠ '"') (slash : c ≠ '\\')
    (printed : 0x20 ≤ c.toNat) : scanString acc (c :: rest) = scanString (c :: acc) rest := by
  rw [scanString.eq_def]
  split <;> simp_all

theorem scanString_escapeChar (acc rest : List Char) (c : Char) :
    scanString acc (escapeChar c ++ rest) = scanString (c :: acc) rest := by
  unfold escapeChar
  split
  case h_8 =>
    split
    · next small =>
        obtain ⟨a, b, d, e, digits, unit⟩ := unit?_hex small
        rw [digits, List.cons_append, List.cons_append]
        exact (scanString_unit acc rest unit (by omega)).trans (by rw [Char.ofNat_toNat])
    · next printed => exact scanString_plain acc rest (by assumption) (by assumption) (by omega)
  all_goals
    rw [List.cons_append, List.cons_append, scanString.eq_def]
    rfl

theorem scanString_escaped (acc cs rest : List Char) :
    scanString acc (cs.flatMap escapeChar ++ '"' :: rest) =
      some (String.ofList (acc.reverse ++ cs), rest) := by
  induction cs generalizing acc with
  | nil =>
      rw [List.flatMap_nil, List.nil_append, scanString, List.append_nil]
  | cons c cs ih =>
      rw [List.flatMap_cons, List.append_assoc, scanString_escapeChar, ih, List.reverse_cons,
        List.append_assoc, List.singleton_append]

/-- No digit comes first, and nothing that a number goes on with. -/
def EndsNumber (rest : List Char) : Prop :=
  ∀ c ∈ rest.head?, isDigit c = false ∧ c ≠ '.' ∧ c ≠ 'e' ∧ c ≠ 'E'

theorem endsNumber_nil : EndsNumber [] := by simp [EndsNumber]

theorem endsNumber_cons {c : Char} (rest : List Char)
    (h : isDigit c = false ∧ c ≠ '.' ∧ c ≠ 'e' ∧ c ≠ 'E') : EndsNumber (c :: rest) := by
  simpa [EndsNumber] using h

theorem EndsNumber.takeWhile {ds rest : List Char} (digits : ∀ c ∈ ds, isDigit c = true)
    (h : EndsNumber rest) :
    (ds ++ rest).takeWhile isDigit = ds ∧ (ds ++ rest).dropWhile isDigit = rest := by
  rw [List.takeWhile_append_of_pos digits, List.dropWhile_append_of_pos digits]
  cases rest with
  | nil => simp
  | cons c cs =>
      have stop : isDigit c = false := (h c rfl).1
      simp [stop]

theorem scanFraction_end {rest : List Char} (h : EndsNumber rest) :
    scanFraction rest = some ([], rest) := by
  unfold scanFraction
  split
  · exact absurd rfl (h '.' (by simp)).2.1
  · rfl

theorem digit_ne {c d : Char} (digit : isDigit c = true) (other : isDigit d = false) : c ≠ d := by
  rintro rfl
  simp [digit] at other

/-- A whole number is scanned up to its end, and no zero may stand in front of others. -/
theorem scanNumber_digits {c : Char} {ds rest : List Char} {negative : Bool} {t : Token}
    (digits : ∀ d ∈ c :: ds, isDigit d = true) (unpadded : ds = [] ∨ c ≠ '0')
    (read : number? negative (c :: ds) [] none = some t) (h : EndsNumber rest) :
    scanNumber ((if negative then ['-'] else []) ++ (c :: ds ++ rest)) = some (t, rest) := by
  obtain ⟨taken, left⟩ := h.takeWhile digits
  have minus : c ≠ '-' := digit_ne (digits c List.mem_cons_self) (by decide)
  have padded : ((c :: ds).isEmpty ||
      (c :: ds).length ≠ 1 && (c :: ds).head? == some '0') = false := by
    rcases unpadded with rfl | other
    · rfl
    · simp [other]
  unfold scanNumber
  split
  next signed text sign =>
  obtain ⟨rfl, rfl⟩ : signed = negative ∧ text = c :: ds ++ rest := by
    cases negative with
    | true => simpa [eq_comm] using sign
    | false =>
        split at sign
        · next first => exact absurd (List.cons.inj first).1 minus
        · simpa [eq_comm] using sign
  simp only [taken, left, padded, scanFraction_end h]
  cases rest with
  | nil => simp [read]
  | cons e rest =>
      obtain ⟨-, -, lower, upper⟩ := h e rfl
      simp [lower, upper, read]

theorem scanNumber_toString {i : Int} {rest : List Char} (range : isWholeRange i = true)
    (h : EndsNumber rest) : scanNumber ((toString i).toList ++ rest) = some (.int i, rest) := by
  have digits : ∀ d ∈ Nat.toDigits 10 i.natAbs, isDigit d = true := fun d => isDigit_of_mem_toDigits
  have value : ofManyDigits (Nat.toDigits 10 i.natAbs) = i.natAbs := by
    rw [ofManyDigits_eq, ofDigits_toDigits]
  have unpadded : (Nat.toDigits 10 i.natAbs).tail = [] ∨
      (Nat.toDigits 10 i.natAbs).head? ≠ some '0' := by
    by_cases zero : i = 0
    · exact .inl (by simp [zero])
    · exact .inr (head?_toDigits (by omega))
  have read : number? (decide (i < 0)) (Nat.toDigits 10 i.natAbs) [] none = some (.int i) := by
    have same : (if decide (i < 0) then -(i.natAbs : Int) else i.natAbs) = i := by
      by_cases negative : i < 0
      · simp only [negative, decide_true, if_true]
        omega
      · simp only [negative, decide_false, Bool.false_eq_true, if_false]
        omega
    simp only [number?, value, same, range, if_true]
  cases written : Nat.toDigits 10 i.natAbs with
  | nil => exact absurd written (by simp)
  | cons c ds =>
      rw [written] at digits unpadded read
      rw [toList_toString, written, List.append_assoc]
      simpa using scanNumber_digits digits (by simpa using unpadded) read h

theorem scanToken_number {c : Char} (cs : List Char) (h : c = '-' ∨ isDigit c = true) :
    scanToken (c :: cs) = scanNumber (c :: cs) := by
  have other {d : Char} (sign : d ≠ '-') (digit : isDigit d = false) : c ≠ d := by
    rcases h with rfl | h
    · exact Ne.symm sign
    · exact digit_ne h digit
  rw [scanToken.eq_def]
  split
  case h_11 => rfl
  all_goals
    next same =>
      exact absurd (List.cons.inj same).1 (other (by decide) (by decide))

theorem exists_toString (i : Int) :
    ∃ c cs, (toString i).toList = c :: cs ∧ (c = '-' ∨ isDigit c = true) := by
  rw [toList_toString]
  split
  · exact ⟨_, _, rfl, .inl rfl⟩
  · cases written : Nat.toDigits 10 i.natAbs with
    | nil => exact absurd written (by simp)
    | cons c ds =>
        exact ⟨c, ds, rfl, .inr (isDigit_of_mem_toDigits (n := i.natAbs) (by simp [written]))⟩

/-- Scanning finds these tokens and stops in front of `rest`. -/
inductive Scans : List Char → List Token → List Char → Prop
  | done {cs : List Char} : Scans cs [] cs
  | blank {c : Char} {cs rest : List Char} {ts : List Token} (space : isSpace c = true)
      (h : Scans cs ts rest) : Scans (c :: cs) ts rest
  | token {c : Char} {cs cs' rest : List Char} {t : Token} {ts : List Token}
      (solid : isSpace c = false) (first : scanToken (c :: cs) = some (t, cs'))
      (shorter : cs'.length ≤ cs.length) (h : Scans cs' ts rest) : Scans (c :: cs) (t :: ts) rest

namespace Scans

variable {cs mid rest : List Char} {ts us : List Token}

theorem trans (h : Scans cs ts mid) (h' : Scans mid us rest) : Scans cs (ts ++ us) rest := by
  induction h with
  | done => exact h'
  | blank space _ ih => exact .blank space (ih h')
  | token solid first shorter _ ih => exact .token solid first shorter (ih h')

theorem length_le (h : Scans cs ts rest) : ts.length + rest.length ≤ cs.length := by
  induction h with
  | done => simp
  | blank _ _ ih =>
      simp only [List.length_cons]
      omega
  | token _ _ shorter _ ih =>
      simp only [List.length_cons]
      omega

theorem scan_blank {c : Char} (space : isSpace c = true) (fuel : Nat) (acc : List Token)
    (cs : List Char) : scan fuel acc (c :: cs) = scan fuel acc cs := by
  unfold scan
  simp only [List.dropWhile_cons_of_pos space]

theorem scan_token {c : Char} {t : Token} (solid : isSpace c = false)
    (first : scanToken (c :: cs) = some (t, rest)) (fuel : Nat) (acc : List Token) :
    scan (fuel + 1) acc (c :: cs) = scan fuel (t :: acc) rest := by
  have here : (c :: cs).dropWhile isSpace = c :: cs :=
    List.dropWhile_cons_of_neg (by simp [solid])
  rw [scan]
  simp only [here, first]

theorem scan_eq (h : Scans cs ts rest) (fuel : Nat) (acc : List Token) :
    scan (fuel + ts.length) acc cs = scan fuel (ts.reverse ++ acc) rest := by
  induction h generalizing acc with
  | done => rfl
  | blank space _ ih => rw [scan_blank space, ih]
  | token solid first _ _ ih =>
      rw [List.length_cons, ← Nat.add_assoc, scan_token solid first, ih, List.reverse_cons,
        List.append_assoc, List.singleton_append]

theorem tokens_eq (h : Scans cs ts []) : tokens? cs = some ts := by
  have bound : ts.length ≤ cs.length := by simpa using h.length_le
  have run := h.scan_eq (cs.length - ts.length) []
  rw [Nat.sub_add_cancel bound] at run
  rw [tokens?, run]
  unfold scan
  simp

end Scans

end Json

end ServerUI
