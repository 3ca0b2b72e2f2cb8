import ServerUI.Proofs.Run.Account
import ServerUI.Proofs.Run.Requests

/-!
Callbacks that report a quantity. One that closes over a mapping puts the value into the mapping,
which is validated when it is dispatched; one that closes over a parsed action puts it into the
action, which nothing validates any more. So what is converted or refused on the one way reaches
the handler as it is on the other.
-/

set_option autoImplicit false

namespace ServerUI

variable {ι σ : Type}

namespace Action

theorem ofFields_updateCartQuantity_eq_ok {es : Dict} {a : Action} :
    ofFields .updateCartQuantity es = .ok a ↔
      ∃ product n, a = .effect (.updateCartQuantity product (.int n)) ∧
        (Field.named "product_id").required Validate.text es = .ok product ∧
        (Field.named "quantity").required Validate.whole es = .ok n := by
  rw [ofFields_of_effect rfl, Checked.map_eq_ok]
  simp only [Checked.seq_eq_ok, Checked.functorMap_eq_ok]
  constructor
  · rintro ⟨_, ⟨_, n, ⟨product, named, rfl⟩, counted, rfl⟩, rfl⟩
    exact ⟨product, n, rfl, named, counted⟩
  · rintro ⟨product, n, rfl, named, counted⟩
    exact ⟨_, ⟨_, n, ⟨product, named, rfl⟩, counted, rfl⟩, rfl⟩

end Action

namespace Instruction

variable {es : Dict} {product : String} {quantity v : Value}

theorem kindOf_insert {name : String} (other : "type" ≠ name) (es : Dict) (v : Value) :
    kindOf (Entries.insert es name v) = kindOf es := by
  rw [kindOf, kindOf, Entries.find?_insert_of_ne es v other]

theorem ofValue_updateCartQuantity
    (read : ofValue (.dict es) = .ok (.known (.effect (.updateCartQuantity product quantity)))) :
    kindOf es = .ok (some .updateCartQuantity) ∧
      (Field.named "product_id").required Validate.text es = .ok product := by
  rcases ofValue_eq_ok.mp read with ⟨_, ⟨⟩, -⟩ | ⟨_, -, -, ⟨⟩⟩ | ⟨_, kind, _, ⟨⟩, tag, fields, ⟨⟩⟩
  obtain rfl : kind = .updateCartQuantity := (Action.kind_of_ofFields fields).symm
  obtain ⟨_, n, ⟨⟩, named, -⟩ := Action.ofFields_updateCartQuantity_eq_ok.mp fields
  exact ⟨tag, named⟩

/-- With another value for the quantity, a mapping is read as before, but for the whole number that
the value stands for; and if it stands for none, the mapping is not read at all. -/
theorem ofValue_insert_quantity
    (read : ofValue (.dict es) = .ok (.known (.effect (.updateCartQuantity product quantity))))
    {i : Instruction} :
    ofValue (.dict (Entries.insert es "quantity" v)) = .ok i ↔
      ∃ n, Validate.whole v = .ok n ∧
        i = .known (.effect (.updateCartQuantity product (.int n))) := by
  obtain ⟨tag, named⟩ := ofValue_updateCartQuantity read
  have other : "type" ≠ "quantity" := by decide
  have wire : (Field.named "product_id").wire ≠ "quantity" := by decide
  have spelled : (Field.named "product_id").name ≠ "quantity" := by decide
  rw [← kindOf_insert other es v] at tag
  rw [Field.required_eq_ok, Field.value?_eq, ← Entries.find?_insert_of_ne es v wire,
    ← Entries.find?_insert_of_ne es v spelled, ← Field.value?_eq, ← Field.required_eq_ok] at named
  have counted {n : Int} : (Field.named "quantity").required Validate.whole
      (Entries.insert es "quantity" v) = .ok n ↔ Validate.whole v = .ok n := by
    have given : (Field.named "quantity").value? (Entries.insert es "quantity" v) = some v := by
      rw [Field.value?_eq, show (Field.named "quantity").wire = "quantity" by decide,
        Entries.find?_insert_self, Option.some_or]
    simp [given]
  constructor
  · intro read
    rcases ofValue_eq_ok.mp read with
      ⟨_, ⟨⟩, -⟩ | ⟨_, ⟨⟩, other, -⟩ | ⟨_, kind, a, ⟨⟩, tag', fields, rfl⟩
    · cases tag.symm.trans other
    · cases tag.symm.trans tag'
      obtain ⟨p, n, rfl, named', whole⟩ := Action.ofFields_updateCartQuantity_eq_ok.mp fields
      cases named.symm.trans named'
      exact ⟨n, counted.mp whole, rfl⟩
  · rintro ⟨n, whole, rfl⟩
    exact ofValue_of_ofFields tag
      (Action.ofFields_updateCartQuantity_eq_ok.mpr ⟨product, n, rfl, named, counted.mpr whole⟩)

end Instruction

theorem Handlers.customFor_of_plain {h : Handlers ι} (plain : h.custom = []) (tag : Value) :
    h.customFor tag = none := by
  rw [customFor, plain]
  cases tag.word? <;> rfl

theorem Callback.ofAction_quantity {es : Dict}
    (tag : Instruction.kindOf es = .ok (some .updateCartQuantity)) (listener : Listener) :
    ofAction listener "onQuantityChange" (.dict es) true =
      .ok (.callback listener (.dict es) (some "quantity")) := by
  obtain ⟨v, found, kind⟩ := Instruction.kindOf_eq_some.mp tag
  obtain ⟨word, spelled, named⟩ := Option.bind_eq_some_iff.mp kind
  have spelled : (Instruction.tagOf es).word? = some ActionKind.updateCartQuantity.name := by
    rw [ActionKind.name_of_ofName? named, ← spelled, Instruction.tagOf, found]
    cases v <;> rfl
  simp [ofAction, argumentOf, Value.actionTag, spelled]

namespace Run

/-- A run begins with this request to a part of the client, or else asks for nothing and fails. -/
def Opens (x : Run ι σ Value) (w : World ι σ) (first : Option (ι × Request)) : Prop :=
  ∃ es, (exec x w).2.journal = w.journal ++ es ∧ (requests es).head? = first ∧
    (first = none → ∃ f, (exec x w).1 = .error f)

theorem Opens.unique {x : Run ι σ Value} {w : World ι σ} {first first' : Option (ι × Request)}
    (h : x.Opens w first) (h' : x.Opens w first') : first = first' := by
  obtain ⟨es, added, rfl, -⟩ := h
  obtain ⟨es', added', rfl, -⟩ := h'
  rw [List.append_cancel_left (added.symm.trans added')]

end Run

namespace Dispatch

variable {ask : Ask ι σ} {dispatcher : Nat} {v : Value}

theorem run_opens_refused (refused : ∀ i, Instruction.ofValue v ≠ .ok i) (w : World ι σ) :
    (run ask dispatcher v).Opens w none := by
  obtain ⟨f, failed⟩ : ∃ f, Instruction.parse v = .error f := by
    cases read : Instruction.parse v with
    | error f => exact ⟨f, rfl⟩
    | ok i => exact absurd (Instruction.parse_eq_ok.mp read) (refused i)
  obtain ⟨id, w₀, -, -, opened, result, -, -, closed⟩ := exec_run ask dispatcher v w
  rw [perform_of_refused _ _ failed] at result closed
  refine ⟨[.opened [("dispatch_id", .str id)]] ++ [.closed], ?_, rfl, fun _ => ⟨f, result⟩⟩
  simpa [opened] using closed

-- Whatever comes of the handler, all that is written down later comes behind it.
theorem runEffect_adds
    (asking : ∀ part what, Run.Adds (Account.any.asked part what) Value (ask part what))
    (effect : Effect) {part : ι} {w : World ι σ}
    (installed : (w.dispatchers dispatcher).handlers.effects effect.kind = some part) :
    ∃ context es, (Run.exec (runEffect ask dispatcher effect) w).2.journal =
      w.journal ++ .asked part (.effect effect.kind effect.arguments) context :: es := by
  obtain ⟨_, added, context, between, -, rfl⟩ :=
    asking part (.effect effect.kind effect.arguments) w
  simp only [runEffect_eq, Run.exec_bind, exec_handlers, installed]
  cases ran : Run.exec (ask part (.effect effect.kind effect.arguments)) w with
  | mk r w' =>
    rw [ran, List.cons_append] at added
    cases r with
    | error f => exact ⟨context, _, added⟩
    | ok v =>
      dsimp only at added
      exact ⟨context, _, by simp [added]; rfl⟩

theorem run_opens_effect
    (asking : ∀ part what, Run.Adds (Account.any.asked part what) Value (ask part what))
    {effect : Effect} (read : Instruction.parse v = .ok (.known (.effect effect))) {part : ι}
    {w : World ι σ}
    (installed : (w.dispatchers dispatcher).handlers.effects effect.kind = some part)
    (plain : (w.dispatchers dispatcher).handlers.customFor (.str effect.kind.name) = none) :
    (run ask dispatcher v).Opens w (some (part, .effect effect.kind effect.arguments)) := by
  obtain ⟨id, w₀, -, same, opened, -, -, -, closed⟩ := exec_run ask dispatcher v w
  rw [← same] at installed plain
  let step := Instruction.known (.effect effect)
  let began := w₀.after [.began [] step]
  obtain ⟨context, es, added⟩ := runEffect_adds asking effect (w := began) installed
  rw [perform_of_known _ _ read, exec_step _ _ plain, work] at closed
  obtain ⟨last, whole⟩ : ∃ last, (Run.exec (run ask dispatcher v) w).2.journal =
      w.journal ++ .opened [("dispatch_id", .str id)] :: .began [] step ::
        .asked part (.effect effect.kind effect.arguments) context :: last :=
    ⟨_, closed.trans (by simp [added, began, opened, step]; rfl)⟩
  exact ⟨_, whole, rfl, by simp⟩

theorem run_unhandled {effect : Effect} (read : Instruction.parse v = .ok (.known (.effect effect)))
    {w : World ι σ} (absent : (w.dispatchers dispatcher).handlers.effects effect.kind = none)
    (plain : (w.dispatchers dispatcher).handlers.customFor (.str effect.kind.name) = none) :
    ∃ es, (Run.exec (run ask dispatcher v) w).2.journal = w.journal ++ es ∧ requests es = [] ∧
      (Run.exec (run ask dispatcher v) w).1 = .ok .null := by
  obtain ⟨id, w₀, -, same, opened, result, -, -, closed⟩ := exec_run ask dispatcher v w
  rw [← same] at absent plain
  let step := Instruction.known (.effect effect)
  let counted := (w₀.dispatchers dispatcher).measured
    [.action effect.kind.name Outcome.unhandled.name]
  obtain ⟨record, ran⟩ : ∃ record, Run.exec (runEffect ask dispatcher effect)
      (w₀.after [.began [] step]) =
      (.ok (), (w₀.after [.began [] step]).after ([.logged record] ++ counted)) :=
    ⟨_, by simp [runEffect_eq, Run.exec_bind, absent, counted]; rfl⟩
  rw [perform_of_known _ _ read, exec_step _ _ plain, work, ran] at result closed
  refine ⟨[.opened [("dispatch_id", .str id)], .began [] step, .logged record] ++ counted ++
    [.ended [] none, .closed], by simp [closed, opened], ?_, result⟩
  rw [requests_append, requests_append, requests_measured]
  rfl

end Dispatch

namespace Engine

variable (e : Engine ι σ)

/-- Calls a callback of a component with the quantity that the component reports. -/
def tell (callback v : Value) : Run ι σ Value :=
  e.call ⟨some [("onQuantityChange", callback)], "onQuantityChange", [v]⟩

/-- Two callbacks do the same with a value: they put the same request to a part of the client before
anything else, or both fail without asking for anything. -/
def TellAlike (w : World ι σ) (callback callback' v : Value) : Prop :=
  ∃ first, (e.tell callback v).Opens w first ∧ (e.tell callback' v).Opens w first

theorem tell_fill (dispatcher : Nat) (action v : Value) :
    e.tell (.callback (.dispatcher dispatcher) action (some "quantity")) v =
      e.dispatch dispatcher (Callback.fill action "quantity" v) := by
  have sent : Call.send ⟨some [("onQuantityChange",
      .callback (.dispatcher dispatcher) action (some "quantity"))], "onQuantityChange", [v]⟩ =
      .ok (.dispatcher dispatcher, Callback.fill action "quantity" v) := rfl
  rw [tell, call, sent, Run.ofExcept_ok_bind]
  rfl

theorem tell_insert_quantity {es : Dict} {product : String} {quantity v : Value}
    (read : Instruction.ofValue (.dict es) =
      .ok (.known (.effect (.updateCartQuantity product quantity))))
    {n : Int} (number : Validate.whole v = .ok n) (dispatcher : Nat) :
    e.dispatch dispatcher (.dict (Entries.insert es "quantity" v)) =
      e.dispatch dispatcher (.action (.effect (.updateCartQuantity product (.int n)))) := by
  have first : Instruction.parse (.dict (Entries.insert es "quantity" v)) =
      .ok (.known (.effect (.updateCartQuantity product (.int n)))) :=
    Instruction.parse_eq_ok.mpr ((Instruction.ofValue_insert_quantity read).mpr ⟨n, number, rfl⟩)
  rw [dispatch, dispatch, Dispatch.run, Dispatch.run, Dispatch.perform_of_known _ _ first,
    Dispatch.perform_of_known _ _ (Instruction.parse_action _)]

theorem tell_action_opens {dispatcher : Nat} {w : World ι σ} {part : ι}
    (installed : (w.dispatchers dispatcher).handlers.effects .updateCartQuantity = some part)
    (plain : (w.dispatchers dispatcher).handlers.custom = []) (product : String)
    (quantity v : Value) :
    (e.tell (.callback (.dispatcher dispatcher)
        (.action (.effect (.updateCartQuantity product quantity))) (some "quantity")) v).Opens w
      (some (part, .effect .updateCartQuantity [.str product, v])) := by
  rw [tell_fill]
  have read := Instruction.parse_action (.effect (.updateCartQuantity product v))
  exact Dispatch.run_opens_effect e.ask_adds read installed (Handlers.customFor_of_plain plain _)

/-- The callback of a mapping does with a value what the callback of the parsed action does with the
whole number that the value stands for, and with any other value it fails and asks for nothing. The
handler of the parsed action, if there is one, is asked with the value as it is. So the two do the
same just where the value is a whole number already. -/
theorem tell_quantity_iff {es : Dict} {product : String} {quantity : Value}
    (parsed : Action.parse (.dict es) = .ok (.effect (.updateCartQuantity product quantity)))
    (dispatcher : Nat) (v : Value) (w : World ι σ) :
    let h := (w.dispatchers dispatcher).handlers
    let action : Value := .action (.effect (.updateCartQuantity product quantity))
    ∃ raw ready,
      Callback.ofAction (.dispatcher dispatcher) "onQuantityChange" (.dict es) true = .ok raw ∧
      Callback.ofAction (.dispatcher dispatcher) "onQuantityChange" action true = .ok ready ∧
      (∀ n, Validate.whole v = .ok n → e.tell raw v = e.tell ready (.int n)) ∧
      ((∀ n, Validate.whole v ≠ .ok n) → (e.tell raw v).Opens w none) ∧
      (h.custom = [] → match h.effects .updateCartQuantity with
        | some part =>
            (e.tell ready v).Opens w
              (some (part, .effect .updateCartQuantity [.str product, v])) ∧
            (e.TellAlike w raw ready v ↔ ∃ n, v = .int n)
        | none => ∃ es, (Run.exec (e.tell ready v) w).2.journal = w.journal ++ es ∧
            requests es = [] ∧ (Run.exec (e.tell ready v) w).1 = .ok .null) := by
  intro h action
  have read := Action.parse_dict_eq_ok.mp parsed
  let reading (given : Value) : Value := .callback (.dispatcher dispatcher) given (some "quantity")
  have raw : Callback.ofAction (.dispatcher dispatcher) "onQuantityChange" (.dict es) true =
      .ok (reading (.dict es)) :=
    Callback.ofAction_quantity (Instruction.ofValue_updateCartQuantity read).1 _
  have whole (n : Int) (number : Validate.whole v = .ok n) :
      e.tell (reading (.dict es)) v = e.tell (reading action) (.int n) := by
    rw [tell_fill, tell_fill]
    exact e.tell_insert_quantity read number dispatcher
  have refused (nowhere : ∀ n, Validate.whole v ≠ .ok n) :
      (e.tell (reading (.dict es)) v).Opens w none := by
    rw [tell_fill]
    refine Dispatch.run_opens_refused (fun i read' => ?_) w
    obtain ⟨n, number, -⟩ := (Instruction.ofValue_insert_quantity read).mp read'
    exact nowhere n number
  refine ⟨reading (.dict es), reading action, raw, rfl, whole, refused, ?_⟩
  intro plain
  cases installed : h.effects .updateCartQuantity with
  | none =>
    dsimp only
    rw [tell_fill]
    have filled := Instruction.parse_action (.effect (.updateCartQuantity product v))
    exact Dispatch.run_unhandled filled installed (Handlers.customFor_of_plain plain _)
  | some part =>
    have opens (u : Value) : (e.tell (reading action) u).Opens w
        (some (part, .effect .updateCartQuantity [.str product, u])) :=
      e.tell_action_opens installed plain product quantity u
    refine ⟨opens v, ?_⟩
    constructor
    · rintro ⟨first, opens', ready⟩
      obtain rfl := ready.unique (opens v)
      by_cases number : ∃ n, Validate.whole v = .ok n
      · obtain ⟨n, number⟩ := number
        rw [whole n number] at opens'
        exact ⟨n, by simpa using opens'.unique (opens (.int n))⟩
      · cases opens'.unique (refused (not_exists.mp number))
    · rintro ⟨n, rfl⟩
      exact ⟨_, whole n rfl ▸ opens (.int n), opens (.int n)⟩

/-- With a whole number, the handler is asked for the same on both ways. -/
theorem tell_quantity_iff_three :
    let e : Engine Unit Unit := { client := .failing (.client .connection none) }
    let w : World Unit Unit :=
      { client := (), dispatchers _ := { handlers := { effects _ := some () } } }
    let es : Dict := [("type", .str "UPDATE_CART_QUANTITY"), ("productId", .str "p"),
      ("quantity", .int 1)]
    let action : Action := .effect (.updateCartQuantity "p" (.int 1))
    Action.parse (.dict es) = .ok action ∧
      ∃ raw ready, Callback.ofAction (.dispatcher 0) "onQuantityChange" (.dict es) true = .ok raw ∧
        Callback.ofAction (.dispatcher 0) "onQuantityChange" (.action action) true = .ok ready ∧
        (e.tell ready (.int 3)).Opens w
          (some ((), .effect .updateCartQuantity [.str "p", .int 3])) ∧
        e.TellAlike w raw ready (.int 3) := by
  intro e w es action
  have parsed : Action.parse (.dict es) = .ok action :=
    Action.parse_dict_eq_ok.mpr (Action.ofValue_effect rfl rfl)
  obtain ⟨raw, ready, bound, bound', -, -, both⟩ := tell_quantity_iff e parsed 0 (.int 3) w
  obtain ⟨opens, alike⟩ := both rfl
  exact ⟨parsed, raw, ready, bound, bound', opens, alike.mpr ⟨3, rfl⟩⟩

/-- A number that is given as text is converted on the one way only. -/
theorem tell_quantity_text :
    let e : Engine Unit Unit := { client := .failing (.client .connection none) }
    let w : World Unit Unit :=
      { client := (), dispatchers _ := { handlers := { effects _ := some () } } }
    let es : Dict := [("type", .str "UPDATE_CART_QUANTITY"), ("productId", .str "p"),
      ("quantity", .int 1)]
    let action : Action := .effect (.updateCartQuantity "p" (.int 1))
    Action.parse (.dict es) = .ok action ∧
      ∃ raw ready, Callback.ofAction (.dispatcher 0) "onQuantityChange" (.dict es) true = .ok raw ∧
        Callback.ofAction (.dispatcher 0) "onQuantityChange" (.action action) true = .ok ready ∧
        (e.tell raw (.str "3")).Opens w
          (some ((), .effect .updateCartQuantity [.str "p", .int 3])) ∧
        (e.tell ready (.str "3")).Opens w
          (some ((), .effect .updateCartQuantity [.str "p", .str "3"])) ∧
        ¬e.TellAlike w raw ready (.str "3") := by
  intro e w es action
  have parsed : Action.parse (.dict es) = .ok action :=
    Action.parse_dict_eq_ok.mpr (Action.ofValue_effect rfl rfl)
  have read := Action.parse_dict_eq_ok.mp parsed
  have number : Validate.whole (.str "3") = .ok 3 := rfl
  have opens (v : Value) := @tell_action_opens _ _ e 0 w () rfl rfl "p" (.int 1) v
  have converted : (e.tell (.callback (.dispatcher 0) (.dict es) (some "quantity"))
      (.str "3")).Opens w (some ((), .effect .updateCartQuantity [.str "p", .int 3])) := by
    have three := opens (.int 3)
    rw [tell_fill] at three ⊢
    exact e.tell_insert_quantity read number 0 ▸ three
  refine ⟨parsed, _, _, rfl, rfl, converted, opens (.str "3"), ?_⟩
  rintro ⟨first, raw, ready⟩
  cases (converted.unique raw).trans (ready.unique (opens (.str "3")))

end Engine

end ServerUI
