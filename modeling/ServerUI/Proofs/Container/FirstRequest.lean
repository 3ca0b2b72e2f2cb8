import ServerUI.Container
import ServerUI.Proofs.Registry.History
import ServerUI.Proofs.Run.Ends

/-!
A container in use, while the builder that it was made from is still called. The renderer stands on
what the builder holds when it is first asked for. So it stands on what the builder held when the
container was made only if the calls in between have come to nothing.
-/

set_option autoImplicit false

namespace ServerUI

variable {ι σ : Type}

namespace Registry

/-- What a call on the builder logs. -/
def records (r : Registry ι) : Call ι → List Log.Record
  | .register type component options => (r.register type component options).2
  | .unregister type => (r.unregister type).2

end Registry

namespace Container

inductive Provided where
  | settings
  | metrics
  | handlers
  | dispatcher
  | renderer

/-- A call on the builder of a container, or a request to the container. -/
inductive Use (ι : Type) where
  | call (c : Registry.Call ι)
  | get (what : Provided)

namespace Use

def asksRenderer : Use ι → Bool
  | get .renderer => true
  | _ => false

/-- The calls on the builder before the renderer is first asked for. -/
def callsBefore : List (Use ι) → List (Registry.Call ι)
  | [] => []
  | call c :: rest => c :: callsBefore rest
  | get .renderer :: _ => []
  | get _ :: rest => callsBefore rest

end Use

/-- A builder, the container that was made from it, and the renderers that the container has handed
out. -/
structure Assembly (ι : Type) where
  builder : Registry ι
  container : Container ι
  handed : List (Renderer ι) := []

namespace Assembly

/-- A container that has just been made from a builder. -/
def start (settings : Settings) (fallback wrapper : Option ι) (before : List (Registry.Call ι)) :
    Assembly ι where
  builder := Registry.ofCalls before
  container := { settings, fallback, wrapper }

def use (a : Assembly ι) : Use ι → Run ι σ (Assembly ι)
  | .call c => do
      Run.logAll (a.builder.records c)
      return { a with builder := a.builder.apply c }
  | .get .renderer => do
      let (r, container) ← a.container.provideRenderer a.builder
      return { a with container, handed := a.handed ++ [r] }
  | .get _ => return a

def useAll (a : Assembly ι) (uses : List (Use ι)) : Run ι σ (Assembly ι) := uses.foldlM use a

/-- The renderer that is handed out in the course of the uses: the one that there is, or else one on
what the builder holds when it is first asked for. -/
def supplied (a : Assembly ι) (uses : List (Use ι)) : Renderer ι :=
  match a.container.renderer with
  | some r => r
  | none => a.container.makeRenderer ((Use.callsBefore uses).foldl Registry.apply a.builder)

/-- What one use leaves of an assembly. Which renderer is handed out is as open as it was, and every
request for it is answered. -/
structure Leaves (a : Assembly ι) (u : Use ι) (b : Assembly ι) : Prop where
  supplied (rest : List (Use ι)) : b.supplied rest = a.supplied (u :: rest)
  handed (rest : List (Use ι)) :
    b.handed = a.handed ++ if u.asksRenderer then [a.supplied (u :: rest)] else []

variable {F : Failure → Prop} {c : Container ι}

theorem ends_provideRenderer_kept {r : Renderer ι} (kept : c.renderer = some r)
    (builder : Registry ι) :
    Run.Ends F (· = (r, c)) (c.provideRenderer builder : Run ι σ _) := by
  unfold provideRenderer
  rw [kept]
  exact Run.ends_pure rfl

theorem ends_provideRenderer_fresh (fresh : c.renderer = none) (builder : Registry ι) :
    Run.Ends F (· = (c.makeRenderer builder, { c with renderer := some (c.makeRenderer builder) }))
      (c.provideRenderer builder : Run ι σ _) := by
  unfold provideRenderer
  rw [fresh]
  exact (Run.ends_logAll _).bind fun _ _ => (Run.ends_measure _ _).bind fun _ _ =>
    (Run.ends_logAll _).bind fun _ _ => Run.ends_pure rfl

theorem ends_use (a : Assembly ι) (u : Use ι) :
    Run.Ends F (Leaves a u) (a.use u : Run ι σ (Assembly ι)) := by
  cases u with
  | call c =>
      refine (Run.ends_logAll _).bind fun _ _ => Run.ends_pure ⟨fun _ => ?_, fun _ => ?_⟩
      · cases kept : a.container.renderer <;> simp [Assembly.supplied, kept, Use.callsBefore]
      · simp [Use.asksRenderer]
  | get what =>
      cases what with
      | renderer =>
          cases kept : a.container.renderer with
          | none =>
              refine (ends_provideRenderer_fresh kept a.builder).bind fun _ made => ?_
              subst made
              exact Run.ends_pure ⟨fun _ => by simp [Assembly.supplied, kept, Use.callsBefore],
                fun _ => by simp [Assembly.supplied, kept, Use.callsBefore, Use.asksRenderer]⟩
          | some r =>
              refine (ends_provideRenderer_kept kept a.builder).bind fun _ same => ?_
              subst same
              exact Run.ends_pure ⟨fun _ => by simp [Assembly.supplied, kept],
                fun _ => by simp [Assembly.supplied, kept, Use.asksRenderer]⟩
      | _ => exact Run.ends_pure ⟨fun _ => rfl, fun _ => (List.append_nil _).symm⟩

theorem ends_useAll (a : Assembly ι) (uses : List (Use ι)) :
    Run.Ends F
      (·.handed = a.handed ++ List.replicate (uses.countP Use.asksRenderer) (a.supplied uses))
      (a.useAll uses : Run ι σ (Assembly ι)) := by
  induction uses generalizing a with
  | nil => exact Run.ends_pure (by simp)
  | cons u rest ih =>
      refine (ends_use a u).bind fun b left => (ih b).mono (fun _ => id) fun c handed => ?_
      rw [handed, left.handed rest, left.supplied, List.append_assoc]
      cases asks : u.asksRenderer <;> simp [asks, List.replicate_succ]

/-- Whatever is done to a container and its builder, all requests for the renderer are answered with
one and the same, whose registry is the builder's at the first of them. It binds what the builder
bound when the container was made just if the latest call in between on each name, if there is one,
binds the name to what it was bound to then. -/
theorem supplied_from_start_iff (settings : Settings) (fallback wrapper : Option ι)
    (before : List (Registry.Call ι)) (uses : List (Use ι)) (w : World ι σ) :
    ∃ a w' r, Run.exec ((start settings fallback wrapper before).useAll uses) w = (.ok a, w') ∧
      a.handed = List.replicate (uses.countP Use.asksRenderer) r ∧
      r.registry = Registry.ofCalls (before ++ Use.callsBefore uses) ∧
      ((∀ name, Entries.find? r.registry name = Entries.find? (Registry.ofCalls before) name) ↔
        ∀ name c, Registry.latest? (Use.callsBefore uses) name = some c →
          c.change.bind (·.2) = Registry.bound? before name) := by
  let started := start settings fallback wrapper before
  obtain ⟨a, w', ran, handed⟩ := (ends_useAll started uses).reaches w
  have registry : (started.supplied uses).registry =
      Registry.ofCalls (before ++ Use.callsBefore uses) := by
    simp [started, start, supplied, makeRenderer, Registry.ofCalls]
  refine ⟨a, w', started.supplied uses, ran, handed, registry, ?_⟩
  rw [registry]
  exact Registry.find?_ofCalls_append_iff

/-- A component that is registered after the container was made, and before the renderer is first
asked for, can be rendered with it. -/
theorem supplied_late :
    let before : List (Registry.Call String) := [.register "A" "early" {}]
    let uses : List (Use String) := [.call (.register "B" "late" {}), .get .renderer]
    ∃ a w', Run.exec ((start {} none none before).useAll uses) { client := () } = (.ok a, w') ∧
      Entries.keys (Registry.ofCalls before) = ["A"] ∧
      a.handed.map (fun r => Entries.keys r.registry) = [["A", "B"]] := by
  intro before uses
  obtain ⟨a, w', ran, handed⟩ :=
    (ends_useAll (start {} none none before) uses).reaches (σ := Unit) { client := () }
  refine ⟨a, w', ran, by decide, ?_⟩
  rw [handed]
  rfl

end Assembly

end Container

end ServerUI
