import ServerUI.Proofs.Run.Origin
import ServerUI.Proofs.Trace.Nesting

/-!
Rendering a list as a traced operation. What its items come to stands between the record of its
start and one record of its end, whatever the client renders and dispatches meanwhile, as long as
the client raises ordinary failures only.
-/

set_option autoImplicit false

namespace ServerUI

variable {ι σ α β : Type}

namespace Trace

theorem exec_conclude_map (f : α → β) (name : Value) (fields : Dict) (start : Binary64)
    (r : Except Failure α) (w : World ι σ) :
    Run.exec (conclude name fields start (r.map f)) w =
      Run.exec (f <$> conclude name fields start r) w := by
  rw [Run.exec_map]
  cases r with
  | ok a =>
    simp only [Except.map, conclude, Run.exec_bind]
    cases Run.exec (logEnd name fields start : Run ι σ Unit) w with
    | mk ended w' => cases ended <;> rfl
  | error g =>
    by_cases told : g.isOrdinary = true
    next =>
      simp only [Except.map, conclude, told, if_true, Run.exec_bind]
      cases Run.exec (logFailure name fields start g : Run ι σ Unit) w with
      | mk ended w' => cases ended <;> rfl
    next =>
      simp only [Except.map, conclude, told]
      rfl

/-- An operation makes nothing of the value of what it runs. -/
theorem exec_operation_map (f : α → β) (name : Value) (fields : Dict) (body : Run ι σ α)
    (w : World ι σ) :
    Run.exec (operation name fields (f <$> body)) w =
      Run.exec (f <$> operation name fields body) w := by
  cases reserved : Log.hasReserved fields with
  | true =>
    rw [Run.exec_map, exec_operation_reserved name _ w reserved,
      exec_operation_reserved name _ w reserved]
    rfl
  | false =>
    rw [Run.exec_map, exec_operation name _ w reserved, exec_operation name _ w reserved,
      Run.exec_map, exec_conclude_map, Run.exec_map]

end Trace

namespace Renderer

/-- The fields of the operation that renders a list. None is one that its records need. -/
def spanFields (size : Nat) (asSections : Value) : Trace.Fields where
  entries := listFields size asSections
  once := by simp [listFields, Entries.keys]
  unnamed := by simp [listFields, Entries.keys]

theorem fresh_spanFields (size : Nat) (asSections : Value) :
    Trace.Fresh (spanFields size asSections).entries := by
  constructor
  · rfl
  · simp [spanFields, listFields, Entries.keys]

end Renderer

namespace Engine

open Trace

variable (e : Engine ι σ) (r : Renderer ι) (asSections : Value) (items : List Value)

theorem outputs_run {Q : Run.Property ι σ} {allowed : Failure → Prop}
    (closed : Renderer.Closed allowed Q) (asking : ∀ part what, Q Value (e.ask part what)) :
    Q Value (Value.list <$> r.outputs e.ask e.levels asSections items) :=
  closed.map _ (closed.outputs (fun part what _ => asking part what) _ _ _)

/-- What the items of a list come to, as a piece of a program. -/
def drawn : Piece ι σ where
  run := Value.list <$> r.outputs e.ask e.levels asSections items
  adds w := by
    have closed : Engine.Closed ({} : Policy ι) (Run.Adds (σ := σ) Account.any) :=
      Account.any_rendering.toEngine fun _ _ => trivial
    obtain ⟨es, added, -⟩ := e.outputs_run r asSections items closed.toRendering
      (fun part what => (e.ask_adds part what).mono fun _ _ _ => trivial) w
    exact ⟨es, added⟩

/-- A program that renders the items of a list. -/
def rendering : Program ι σ := .perform (e.drawn r asSections items) .finish

/-- A program that renders a list and goes on from how that ended. -/
def listing (size : Nat) (next : Except Failure Value → Program ι σ) : Program ι σ :=
  .trace (.str "render_screen") (Renderer.spanFields size asSections)
    (e.rendering r asSections items) next

theorem run_rendering :
    (e.rendering r asSections items).run =
      Value.list <$> r.outputs e.ask e.levels asSections items := by
  funext w
  exact Program.exec_perform (e.drawn r asSections items) .finish w

variable {size : Nat} {items} {v : Value} (sized : v.length? = some size)
  (listed : v.items? = some items)

include sized listed

theorem exec_operation_outputs (w : World ι σ) :
    Run.exec (operation (.str "render_screen") (Renderer.spanFields size asSections).entries
        (Value.list <$> r.outputs e.ask e.levels asSections items)) w =
      Run.exec (Value.list <$> r.screenItems e.ask e.levels v asSections) w := by
  rw [exec_operation_map, r.screenItems_eq e.ask e.levels sized listed]
  rfl

theorem exec_listing (next : Except Failure Value → Program ι σ) (w : World ι σ) :
    let rendered := Run.exec (Value.list <$> r.screenItems e.ask e.levels v asSections) w
    Run.exec (e.listing r asSections items size next).run w =
      Run.exec (next rendered.1).run rendered.2 := by
  rw [listing, Program.exec_trace, run_rendering,
    e.exec_operation_outputs r asSections sized listed]

theorem trail_listing (w : World ι σ) :
    let fields := Renderer.spanFields size asSections
    let before := begun (.str "render_screen") fields.entries w
    let inside := Run.exec (Value.list <$> r.outputs e.ask e.levels asSections items) before
    let rendered := Run.exec (Value.list <$> r.screenItems e.ask e.levels v asSections) w
    (e.listing r asSections items size .finish).trail w =
      .span ⟨.str "render_screen", fields, some inside.1, rendered.1⟩
        (.stretch (inside.2.journal.drop before.journal.length) .done) .done := by
  intro fields before inside rendered
  have clear : Log.hasReserved (Renderer.spanFields size asSections).entries = false :=
    (Renderer.fresh_spanFields size asSections).1
  simp only [listing, Program.trail_trace _ _ _ w clear, run_rendering,
    e.exec_operation_outputs r asSections sized listed]
  rfl

omit sized listed

variable (ordinary : e.client.Obeys .ordinary)

include ordinary

theorem ends_outputs :
    Run.Ends (fun f => f.isOrdinary = true) (fun _ => True)
      (Value.list <$> r.outputs e.ask e.levels asSections items) := by
  have closed : Engine.Closed (Policy.ordinary : Policy ι)
      (Run.Adds (σ := σ) (Account.failing .ordinary)) :=
    (Account.failing_rendering _).toEngine fun _ h => h
  have asking (part : ι) (what : Request) :=
    (e.ask_traced (p := Policy.ordinary) (fun _ h => h) ordinary part what).1
  intro w
  obtain ⟨_, -, failing⟩ := e.outputs_run r asSections items closed.toRendering asking w
  split
  next => trivial
  next f failed => exact failing f (by simp [failed])

theorem careful_listing {next : Except Failure Value → Program ι σ}
    (later : ∀ r, Program.Ordinary r → (next r).Careful) :
    (e.listing r asSections items size next).Careful := by
  have whole : (e.rendering r asSections items).Careful :=
    ⟨e.ends_outputs r asSections ordinary, fun _ ended => ended⟩
  exact ⟨Renderer.fresh_spanFields size asSections, whole, later⟩

/-- A list that is rendered leaves the record of its start, what its items come to, and one record
of its end, and its rendering ends as that of the items. -/
theorem screenItems_told (sized : v.length? = some size) (listed : v.items? = some items)
    (w : World ι σ) :
    let name := Value.str "render_screen"
    let fields := Renderer.spanFields size asSections
    let before := begun name fields.entries w
    let inside := Run.exec (Value.list <$> r.outputs e.ask e.levels asSections items) before
    let rendered := Run.exec (Value.list <$> r.screenItems e.ask e.levels v asSections) w
    rendered.1 = inside.1 ∧ ∃ start stop es,
      Opening name fields start ∧ Closing name fields (Run.failure? rendered.1) stop ∧
      inside.2.journal = before.journal ++ es ∧
      rendered.2.journal = w.journal ++ (.logged start :: es ++ [.logged stop]) := by
  intro name fields before inside rendered
  have careful : (e.listing r asSections items size .finish).Careful :=
    e.careful_listing r asSections ordinary fun _ ended => ended
  obtain ⟨events, left, told⟩ := careful.told w
  rw [e.exec_listing r asSections sized listed] at left
  obtain ⟨es, added⟩ := (e.drawn r asSections items).adds before
  have inner : inside.2.journal = before.journal ++ es := added
  have trail : (e.listing r asSections items size .finish).trail w =
      .span ⟨name, fields, some inside.1, rendered.1⟩ (.stretch es .done) .done := by
    have drop : inside.2.journal.drop before.journal.length = es := by
      rw [inner, List.drop_left]
    rw [← drop]
    exact e.trail_listing r asSections sized listed w
  rw [trail] at told
  cases told with
  | @span _ start stop _ _ _ _ through opening within closing after =>
    cases after
    cases within with
    | stretch rest =>
      cases rest
      refine ⟨(Option.some.inj through).symm, start, stop, es, opening, closing, inner, ?_⟩
      simpa [Program.run, rendered] using left

end Engine

end ServerUI
