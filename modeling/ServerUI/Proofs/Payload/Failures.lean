import ServerUI.Payload
import ServerUI.Proofs.Validation.Lookup

/-!
How loading a payload fails. Every check refuses with a payload error, and loading with a result
turns just these into refusals. The one failure besides is no refusal: validation ends at once over
a `type` that cannot be looked up, and this leaves loading as it is.
-/

set_option autoImplicit false

namespace ServerUI

/-- A mapping somewhere in the document has a `type` that cannot be looked up, for it is, or holds,
a value of the type `t`. -/
def Document.Unlookable (d : Document) (t : String) : Prop :=
  ∃ v es tag, d.parse = .ok v ∧ (Value.dict es).Occurs v ∧
    Entries.find? es "type" = some tag ∧ tag.unhashable? = some t

theorem Document.blames {d : Document} {v : Value} (read : d.parse = .ok v) :
    v.Blames d.Unlookable :=
  .of_occurs fun _ inside es tag _ same found unhashable =>
    ⟨v, es, tag, read, same ▸ inside, found, unhashable⟩

/-- What a failure to load the document may be. -/
def Document.Refused (d : Document) (f : Failure) : Prop :=
  (∃ e, f = .payload e) ∨ ∃ t, f = .unhashable t ∧ d.Unlookable t

namespace Limits

variable {l : Limits} {f : Failure}

theorem payload_of_checkRaw {d : Document} {name : String} (h : l.checkRaw d name = .error f) :
    ∃ e, f = .payload e := by
  obtain ⟨e, -, rfl⟩ := Except.mapError_eq_error.mp h
  exact ⟨_, rfl⟩

theorem payload_of_checkMembers {required : List String} {es : Dict}
    (h : checkMembers required es = .error f) : ∃ e, f = .payload e := by
  unfold checkMembers at h
  split at h
  · cases h
    exact ⟨_, rfl⟩
  · split at h <;> cases h
    exact ⟨_, rfl⟩

theorem payload_of_checkDecoded {v : Value} {required : List String}
    (h : l.checkDecoded v required = .error f) : ∃ e, f = .payload e := by
  unfold checkDecoded at h
  split at h
  · cases h
    exact ⟨_, rfl⟩
  · split at h
    · exact payload_of_checkMembers h
    · cases h
      exact ⟨_, rfl⟩

theorem checkDepth_of_checkDecoded {v : Value} {required : List String}
    (h : l.checkDecoded v required = .ok ()) : v.checkDepth l.maxDepth 0 = .ok () := by
  unfold checkDecoded at h
  split at h
  · cases h
  · next shallow => exact shallow

end Limits

namespace PayloadKind

variable {α : Type} {k : PayloadKind α} {l : Limits} {d : Document}

theorem load_of_decoded {v : Value} (raw : l.checkRaw d k.model = .ok ()) (read : d.parse = .ok v)
    (decoded : l.checkDecoded v k.required = .ok ()) : k.load l d = k.ofDecoded v := by
  simp [load, raw, read, decoded]

theorem exists_of_load_eq_ok {a : α} (h : (k.load l d).1 = .ok a) :
    ∃ v, d.parse = .ok v ∧ l.checkDecoded v k.required = .ok () ∧ k.validate v = .ok a := by
  unfold load at h
  split at h
  · cases h
  · split at h
    · cases h
    · next v read =>
        split at h
        · cases h
        · next decoded =>
            unfold ofDecoded at h
            split at h <;> cases h
            next valid => exact ⟨v, read, decoded, valid⟩

theorem refused_of_load (ends : ∀ {B : String → Prop} {v : Value}, v.Blames B →
    (k.validate v).Blames B) {f : Failure} (h : (k.load l d).1 = .error f) : d.Refused f := by
  unfold load at h
  split at h
  · next raw =>
      cases h
      exact .inl (Limits.payload_of_checkRaw raw)
  · split at h
    · cases h
      exact .inl ⟨_, rfl⟩
    · next v read =>
        split at h
        · next decoded =>
            cases h
            exact .inl (Limits.payload_of_checkDecoded decoded)
        · unfold ofDecoded at h
          split at h <;> cases h
          · next t stopped => exact .inr ⟨t, rfl, ends (Document.blames read) t stopped⟩
          · exact .inl ⟨_, rfl⟩

end PayloadKind

namespace Payload

variable {l : Limits} {d : Document}

theorem parseScreen_result (l : Limits) (d : Document) :
    (parseScreen l d).1 = (PayloadKind.screen.load l d).1 := by
  unfold parseScreen
  split
  · next loaded => rw [loaded]
  · rfl

theorem recover_eq_ok {α : Type} {r : Except Failure α} {a : α} :
    recover r = .ok (.ok a) ↔ r = .ok a := by
  rcases r with f | b
  · cases f <;> simp [recover]
  · simp [recover]

theorem recover_eq_refusal {α : Type} {r : Except Failure α} {refusal : Refusal} :
    recover r = .ok (.error refusal) ↔
      ∃ e, r = .error (.payload e) ∧ refusal = { message := e.message } := by
  rcases r with f | b
  · cases f <;> simp [recover, eq_comm]
  · simp [recover]

/-- A node, a section or a screen is loaded or refused with a payload error, unless a mapping in
the document has a `type` that cannot be looked up. Loading a screen with a result succeeds just
where loading it does, and fails just where that is refused, with the message of the refusal. -/
theorem load_refuses (l : Limits) (d : Document) :
    (∀ f, (parseComponent l d).1 = .error f → d.Refused f) ∧
      (∀ f, (parseSection l d).1 = .error f → d.Refused f) ∧
      (∀ f, (parseScreen l d).1 = .error f → d.Refused f) ∧
      (∀ s, (loadScreen l d).1 = .ok (.ok s) ↔ (parseScreen l d).1 = .ok s) ∧
      ∀ refusal, (loadScreen l d).1 = .ok (.error refusal) ↔
        ∃ e, (parseScreen l d).1 = .error (.payload e) ∧ refusal = { message := e.message } := by
  refine ⟨fun f => ?_, fun f => ?_, fun f => ?_, fun s => recover_eq_ok, fun refusal =>
    recover_eq_refusal⟩
  · exact PayloadKind.refused_of_load Node.blames_ofValue
  · exact PayloadKind.refused_of_load Section.blames_ofValue
  · rw [parseScreen_result]
    exact PayloadKind.refused_of_load Screen.blames_ofValue

/-- A `type` that is a list ends the loading of a document that is within all limits. -/
theorem parseComponent_listed_tag :
    (parseComponent {} (.text
      "\x7b\"type\":\"A\",\"actions\":\x7b\"onPress\":\x7b\"type\":[]\x7d\x7d\x7d")).1 =
      .error (.unhashable "list") := by
  let d : Document := .text
    "\x7b\"type\":\"A\",\"actions\":\x7b\"onPress\":\x7b\"type\":[]\x7d\x7d\x7d"
  let v : Value := .dict
    [("type", .str "A"), ("actions", .dict [("onPress", .dict [("type", .list [])])])]
  have read : d.value? = some v := rfl
  have parsed : d.parse = .ok v := by simp [Document.parse, read]
  have size : d.size = 95 := by decide +kernel
  have raw : Limits.checkRaw {} d PayloadKind.component.model = .ok () := by
    simp [Limits.checkRaw, Document.checkSize, size]
  have decoded : Limits.checkDecoded {} v PayloadKind.component.required = .ok () := rfl
  have valid : PayloadKind.component.validate v = .unhashable "list" :=
    Node.ofValue_action_unhashable (Instruction.ofValue_unhashable rfl rfl)
  change (PayloadKind.component.load {} d).1 = _
  rw [PayloadKind.load_of_decoded raw parsed decoded, PayloadKind.ofDecoded, valid]

end Payload

end ServerUI
