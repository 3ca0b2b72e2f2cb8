import ServerUI.Proofs.Trace.Operation

/-!
Traced operations inside one another. A program runs operations around programs and goes on from how
these ended, so that it may recover from what they raised; its trail is what it went through. Each
operation of the trail has a record of its start and one of its end around all that it ran, and lets
through what that ended with, just if it can tell of that.
-/

set_option autoImplicit false

namespace ServerUI.Trace

variable {ι σ : Type}

/-- Anything a program may do of its own, as long as it only adds to the journal. -/
structure Piece (ι σ : Type) where
  run : Run ι σ Value
  adds (w : World ι σ) : ∃ es, (Run.exec run w).2.journal = w.journal ++ es

inductive Program (ι σ : Type) where
  | finish (outcome : Except Failure Value)
  | perform (piece : Piece ι σ) (next : Except Failure Value → Program ι σ)
  | trace (name : Value) (fields : Fields) (body : Program ι σ)
      (next : Except Failure Value → Program ι σ)

/-- An operation that a program came to: how what it ran ended, if it ran it, and what left it. -/
structure Span where
  name : Value
  fields : Fields
  body : Option (Except Failure Value)
  outcome : Except Failure Value

def Span.Fits (s : Span) : Prop := Trace.Fits s.fields (s.body.bind Run.failure?)

inductive Trail (ι : Type) where
  | done
  | stretch (es : List (Event ι)) (rest : Trail ι)
  | span (s : Span) (inside rest : Trail ι)

namespace Trail

def spans : Trail ι → List Span
  | done => []
  | stretch _ rest => rest.spans
  | span s inside rest => s :: (inside.spans ++ rest.spans)

/-- The number of events if every operation leaves its two records. -/
def length : Trail ι → Nat
  | done => 0
  | stretch es rest => es.length + rest.length
  | span _ inside rest => inside.length + 2 + rest.length

end Trail

namespace Program

def run : Program ι σ → Run ι σ Value
  | finish outcome => Run.ofExcept outcome
  | perform piece next => do
      let r ← Run.attempt piece.run
      (next r).run
  | trace name fields body next => do
      let r ← Run.attempt (operation name fields.entries body.run)
      (next r).run

def trail : Program ι σ → World ι σ → Trail ι
  | finish _, _ => .done
  | perform piece next, w =>
      let ran := Run.exec piece.run w
      .stretch (ran.2.journal.drop w.journal.length) ((next ran.1).trail ran.2)
  | trace name fields body next, w =>
      let ran := Run.exec (operation name fields.entries body.run) w
      let rest := (next ran.1).trail ran.2
      -- With a reserved field, an operation is refused before it runs anything.
      if Log.hasReserved fields.entries then .span ⟨name, fields, none, ran.1⟩ .done rest
      else
        let inside := begun name fields.entries w
        .span ⟨name, fields, some (Run.exec body.run inside).1, ran.1⟩ (body.trail inside) rest

end Program

/-- Events in which each operation of the trail has the record of its start, all that it ran, and
the one record of its end, and lets through what it ran ended with. -/
inductive Bracketed : Trail ι → List (Event ι) → Prop
  | done : Bracketed .done []
  | stretch {es es' : List (Event ι)} {rest : Trail ι} (after : Bracketed rest es') :
      Bracketed (.stretch es rest) (es ++ es')
  | span {s : Span} {start stop : Log.Record} {es es' : List (Event ι)} {inside rest : Trail ι}
      (through : s.body = some s.outcome) (opening : Opening s.name s.fields start)
      (within : Bracketed inside es)
      (closing : Closing s.name s.fields (Run.failure? s.outcome) stop)
      (after : Bracketed rest es') :
      Bracketed (.span s inside rest) (.logged start :: es ++ .logged stop :: es')

theorem Bracketed.length_eq {t : Trail ι} {es : List (Event ι)} (h : Bracketed t es) :
    es.length = t.length := by
  induction h with
  | done => rfl
  | stretch _ rest => simp [Trail.length, rest]
  | span _ _ _ _ _ inside rest =>
    simp only [Trail.length, List.length_append, List.length_cons, inside, rest]
    omega

/-- Events that fill a trail as far as its operations can tell of what they ran. -/
structure Fills (t : Trail ι) (es : List (Event ι)) : Prop where
  short : es.length ≤ t.length
  bracketed (fit : ∀ s ∈ t.spans, s.Fits) : Bracketed t es
  fit (full : es.length = t.length) : ∀ s ∈ t.spans, s.Fits

namespace Fills

variable {s : Span} {inside rest : Trail ι} {es es' : List (Event ι)}

theorem done : Fills (ι := ι) .done [] where
  short := Nat.le_refl _
  bracketed _ := .done
  fit _ := by simp [Trail.spans]

theorem stretch (es : List (Event ι)) (after : Fills rest es') :
    Fills (.stretch es rest) (es ++ es') where
  short := by
    have short := after.short
    simp only [Trail.length, List.length_append]
    omega
  bracketed fit := .stretch (after.bracketed fit)
  fit full := by
    simp only [Trail.length, List.length_append] at full
    exact after.fit (by omega)

theorem span {start stop : Log.Record} (fits : s.Fits) (through : s.body = some s.outcome)
    (opening : Opening s.name s.fields start) (within : Fills inside es)
    (closing : Closing s.name s.fields (Run.failure? s.outcome) stop) (after : Fills rest es') :
    Fills (.span s inside rest) (.logged start :: es ++ .logged stop :: es') where
  short := by
    have short := within.short
    have short' := after.short
    simp only [Trail.length, List.length_append, List.length_cons]
    omega
  bracketed fit := by
    simp only [Trail.spans, List.mem_cons, List.mem_append] at fit
    have inner : Bracketed inside es :=
      within.bracketed fun s' member => fit s' (.inr (.inl member))
    have later : Bracketed rest es' :=
      after.bracketed fun s' member => fit s' (.inr (.inr member))
    exact .span through opening inner closing later
  fit full := by
    have short := within.short
    have short' := after.short
    simp only [Trail.length, List.length_append, List.length_cons] at full
    have inner := within.fit (by omega)
    have later := after.fit (by omega)
    intro s' member
    simp only [Trail.spans, List.mem_cons, List.mem_append] at member
    rcases member with rfl | here | behind
    · exact fits
    · exact inner s' here
    · exact later s' behind

/-- A record that is missing cannot be made up for. -/
theorem lost {started : List (Event ι)} (unfit : ¬ s.Fits) (few : started.length ≤ 1)
    (within : Fills inside es) (after : Fills rest es') :
    Fills (.span s inside rest) (started ++ es ++ es') where
  short := by
    have short := within.short
    have short' := after.short
    simp only [Trail.length, List.length_append]
    omega
  bracketed fit := absurd (fit s (.head _)) unfit
  fit full := by
    have short := within.short
    have short' := after.short
    simp only [Trail.length, List.length_append] at full
    omega

end Fills

namespace Program

theorem exec_perform (piece : Piece ι σ) (next : Except Failure Value → Program ι σ)
    (w : World ι σ) :
    Run.exec (perform piece next).run w =
      Run.exec (next (Run.exec piece.run w).1).run (Run.exec piece.run w).2 := by
  rw [run, Run.exec_bind, Run.exec_attempt]

theorem exec_trace (name : Value) (fields : Fields) (body : Program ι σ)
    (next : Except Failure Value → Program ι σ) (w : World ι σ) :
    Run.exec (trace name fields body next).run w =
      Run.exec (next (Run.exec (operation name fields.entries body.run) w).1).run
        (Run.exec (operation name fields.entries body.run) w).2 := by
  rw [run, Run.exec_bind, Run.exec_attempt]

theorem trail_trace (name : Value) {fields : Fields} (body : Program ι σ)
    (next : Except Failure Value → Program ι σ) (w : World ι σ)
    (clear : Log.hasReserved fields.entries = false) :
    (trace name fields body next).trail w =
      let ran := Run.exec (operation name fields.entries body.run) w
      let inside := begun name fields.entries w
      .span ⟨name, fields, some (Run.exec body.run inside).1, ran.1⟩ (body.trail inside)
        ((next ran.1).trail ran.2) := by
  simp only [trail, clear, Bool.false_eq_true, if_false]

def Filled (p : Program ι σ) (w : World ι σ) : Prop :=
  ∃ es, (Run.exec p.run w).2.journal = w.journal ++ es ∧ Fills (p.trail w) es

namespace Filled

variable {name : Value} {fields : Fields} {body : Program ι σ}
  {next : Except Failure Value → Program ι σ} (later : ∀ r w, (next r).Filled w) (w : World ι σ)

include later

theorem perform (piece : Piece ι σ) : (Program.perform piece next).Filled w := by
  obtain ⟨es, added⟩ := piece.adds w
  obtain ⟨es', added', after⟩ := later (Run.exec piece.run w).1 (Run.exec piece.run w).2
  refine ⟨es ++ es', ?_, ?_⟩
  · rw [exec_perform, added', added, List.append_assoc]
  · simp only [trail, added, List.drop_left]
    exact .stretch es after

/-- An operation with a reserved field leaves nothing. -/
theorem refused (reserved : Log.hasReserved fields.entries = true) :
    (trace name fields body next).Filled w := by
  have left := exec_operation_reserved name body.run w reserved
  obtain ⟨es', added', after⟩ := later (.error .unsupported) { w with clock := w.clock.tick }
  have unfit : ¬ Span.Fits ⟨name, fields, none, .error .unsupported⟩ := by
    intro fits
    simp [Fits.clear fits] at reserved
  refine ⟨[] ++ [] ++ es', ?_, ?_⟩
  · rw [exec_trace, left, added']
    rfl
  · simp only [trail, reserved, if_true, left]
    exact .lost unfit (Nat.zero_le _) .done after

theorem entered (clear : Log.hasReserved fields.entries = false) (inner : ∀ w, body.Filled w) :
    (trace name fields body next).Filled w := by
  cases ran : Run.exec body.run (begun name fields.entries w) with
  | mk r w' =>
  cases left : Run.exec (operation name fields.entries body.run) w with
  | mk outcome outside =>
  obtain ⟨es, added, within⟩ := inner (begun name fields.entries w)
  obtain ⟨es', added', after⟩ := later outcome outside
  rw [ran] at added
  by_cases fits : Fits fields (Run.failure? r)
  next =>
    obtain ⟨start, stop, _, opening, closing, whole, written⟩ := operation_brackets ran added fits
    cases whole.symm.trans left
    refine ⟨.logged start :: es ++ .logged stop :: es', ?_, ?_⟩
    · rw [exec_trace, left, added', written]
      simp
    · simp only [trail_trace name body next w clear, left, ran]
      exact .span fits rfl opening within closing after
  next =>
    obtain ⟨start, written⟩ := operation_loses ran added clear fits
    rw [left] at written
    refine ⟨[.logged start] ++ es ++ es', ?_, ?_⟩
    · rw [exec_trace, left, added', written, List.append_assoc]
    · simp only [trail_trace name body next w clear, left, ran]
      exact .lost fits (Nat.le_refl 1) within after

end Filled

theorem filled (p : Program ι σ) (w : World ι σ) : p.Filled w := by
  induction p generalizing w with
  | finish outcome => exact ⟨[], by simp [run], .done⟩
  | perform piece next later => exact .perform later w piece
  | trace name fields body next inner later =>
    cases reserved : Log.hasReserved fields.entries with
    | true => exact .refused later w reserved
    | false => exact .entered later w reserved inner

/-- The events that the program adds are those of its trail, bracketed. -/
def Told (p : Program ι σ) (w : World ι σ) : Prop :=
  ∃ es, (Run.exec p.run w).2.journal = w.journal ++ es ∧ Bracketed (p.trail w) es

theorem told_of_fits {p : Program ι σ} {w : World ι σ} (fit : ∀ s ∈ (p.trail w).spans, s.Fits) :
    p.Told w := by
  obtain ⟨es, added, filled⟩ := p.filled w
  exact ⟨es, added, filled.bracketed fit⟩

theorem Told.fits {p : Program ι σ} {w : World ι σ} (told : p.Told w) :
    ∀ s ∈ (p.trail w).spans, s.Fits := by
  obtain ⟨es, added, bracketed⟩ := told
  obtain ⟨es', added', filled⟩ := p.filled w
  have same : es = es' := List.append_cancel_left (added.symm.trans added')
  exact filled.fit (same ▸ bracketed.length_eq)

/-- Operations inside one another each leave the record of their start and one record of their end
around all that they ran, and let through what that ended with, just if none has a field with a name
that its records need and nothing but ordinary failures leaves what they ran. -/
theorem told_iff (p : Program ι σ) (w : World ι σ) :
    p.Told w ↔ ∀ s ∈ (p.trail w).spans, s.Fits :=
  ⟨Told.fits, told_of_fits⟩

def Ordinary : Except Failure Value → Prop :=
  Run.Result (fun f => f.isOrdinary = true) fun _ => True

theorem Ordinary.failure {r : Except Failure Value} (ordinary : Ordinary r) :
    ∀ f ∈ Run.failure? r, f.isOrdinary = true := by
  cases r with
  | ok v => simp
  | error f =>
    have here : f.isOrdinary = true := ordinary
    simpa using here

/-- No field has a name that a record may need, and only ordinary failures are raised. -/
def Careful : Program ι σ → Prop
  | finish outcome => Ordinary outcome
  | perform piece next =>
      Run.Ends (fun f => f.isOrdinary = true) (fun _ => True) piece.run ∧
        ∀ r, Ordinary r → (next r).Careful
  | trace _ fields body next =>
      Fresh fields.entries ∧ body.Careful ∧ ∀ r, Ordinary r → (next r).Careful

theorem Careful.ends {p : Program ι σ} (careful : p.Careful) :
    Run.Ends (fun f => f.isOrdinary = true) (fun _ => True) p.run := by
  induction p with
  | finish outcome => exact Run.ends_ofExcept careful
  | perform piece next later =>
    exact careful.1.attempt.bind fun r ordinary => later r (careful.2 r ordinary)
  | trace name fields body next inner later =>
    have whole := ends_operation name careful.1 (inner careful.2.1)
    exact whole.attempt.bind fun r ordinary => later r (careful.2.2 r ordinary)

theorem Careful.told {p : Program ι σ} (careful : p.Careful) (w : World ι σ) : p.Told w := by
  apply told_of_fits
  induction p generalizing w with
  | finish outcome => simp [trail, Trail.spans]
  | perform piece next later =>
    have ordinary : Ordinary (Run.exec piece.run w).1 := careful.1 w
    exact later _ (careful.2 _ ordinary) _
  | trace name fields body next inner later =>
    obtain ⟨fresh, within, after⟩ := careful
    have whole : Ordinary (Run.exec (operation name fields.entries body.run) w).1 :=
      ends_operation name fresh within.ends w
    have ended : Ordinary (Run.exec body.run (begun name fields.entries w)).1 := within.ends _
    rw [trail_trace name body next w fresh.1]
    intro s member
    simp only [Trail.spans, List.mem_cons, List.mem_append] at member
    rcases member with rfl | here | behind
    · exact fresh.fits ended.failure
    · exact inner within _ s here
    · exact later _ (after _ whole) _ s behind

/-- A failure inside an operation with a field `error` is hidden by another one. -/
theorem told_masked :
    let p : Program Empty Unit :=
      .trace (.str "x") ⟨[("error", .str "a")], by simp [Entries.keys], by simp [Entries.keys]⟩
        (.finish (.error (.client .value (some "bad")))) .finish
    (Run.exec p.run { client := () }).1 = .error (.missingKey (.str "error")) ∧
      ¬ p.Told { client := () } := by
  intro p
  constructor
  · rfl
  · intro told
    have fits := told.fits _ (.head _)
    have apart := fits.apart "error" (.head _)
    exact apart (.head _)

end Program

end ServerUI.Trace
