import ServerUI.Proofs.Descriptor.Isolation

/-!
Another action in the place of one. No mapping of an unknown kind is refused, wherever an action
may stand, and nothing that is read around it depends on it: what is read of the whole is the same
but for the mapping in that place.
-/

set_option autoImplicit false

namespace ServerUI

/-- Two values are the same but for what stands at the end of a path, which is the mapping `new` in
the second one. A path goes through the fields of a model by either spelling. -/
inductive Value.SameBut (new : Dict) : List PathStep → Value → Value → Prop
  | here {v : Value} : SameBut new [] v (.dict new)
  | entry {es : Dict} {k : String} {v v' : Value} {p : List PathStep}
      (there : es.find? k = some v) (inside : SameBut new p v v') :
      SameBut new (.name k :: p) (.dict es) (.dict (es.insert k v'))
  | item {vs : List Value} {i : Nat} {v v' : Value} {p : List PathStep}
      (there : vs[i]? = some v) (inside : SameBut new p v v') :
      SameBut new (.index i :: p) (.list vs) (.list (vs.set i v'))
  | member {vs : List Value} {i : Nat} {v v' : Value} {p : List PathStep}
      (there : vs[i]? = some v) (inside : SameBut new p v v') :
      SameBut new (.index i :: p) (.tuple vs) (.tuple (vs.set i v'))
  | field {u u' v v' : Value} {model name k : String} {fields : Dict} {p : List PathStep}
      (before : u.model? = some (model, fields)) (spelled : k = Field.camelCase name ∨ k = name)
      (there : fields.find? name = some v) (inside : SameBut new p v v')
      (after : u'.model? = some (model, fields.insert name v')) :
      SameBut new (.name k :: p) u u'

namespace Shape

/-- A path to where an action stands in what is read as a shape. A field is entered by the spelling
that it is read under. -/
inductive Position : Shape → Value → List PathStep → Prop
  | here {v : Value} : Position .action v []
  | field {shape inner : Shape} {es : Dict} {name k : String} {v : Value} {p : List PathStep}
      (holds : (name, inner) ∈ shape.fields es)
      (found : (Field.named name).source? es = some (k, v)) (inside : Position inner v p) :
      Position shape (.dict es) (.name k :: p)
  | item {inner : Shape} {fixed : Bool} {vs : List Value} {i : Nat} {v : Value} {p : List PathStep}
      (there : vs[i]? = some v) (inside : Position inner v p) :
      Position (.list fixed inner) (.list vs) (.index i :: p)
  | entry {inner : Shape} {es : Dict} {k : String} {v : Value} {p : List PathStep}
      (there : es.find? k = some v) (inside : Position inner v p) :
      Position (.map inner) (.dict es) (.name k :: p)

theorem Position.suits {shape : Shape} {v : Value} {p : List PathStep} (h : shape.Position v p) :
    shape.Suits v := by
  cases h with
  | here => trivial
  | field holds =>
      cases shape with
      | list | map => simp [fields] at holds
      | action => trivial
      | component | «section» | screen => exact ⟨_, rfl⟩
  | item | entry => exact ⟨_, rfl⟩

end Shape

section Lists

variable {α β : Type} {R : α → β → Prop}

theorem forall₂_set {as : List α} {bs : List β} (h : List.Forall₂ R as bs) {i : Nat} {a : α}
    (there : as[i]? = some a) :
    ∃ b, bs[i]? = some b ∧ R a b ∧
      ∀ a' b', R a' b' → List.Forall₂ R (as.set i a') (bs.set i b') := by
  induction h generalizing i with
  | nil => simp at there
  | @cons x y as bs first rest ih =>
      cases i with
      | zero =>
          obtain rfl : x = a := by simpa using there
          exact ⟨y, rfl, first, fun _ _ related => .cons related rest⟩
      | succ i =>
          obtain ⟨b, found, related, put⟩ := ih (by simpa using there)
          exact ⟨b, by simpa using found, related, fun a' b' made => .cons first (put a' b' made)⟩

theorem forall₂_insert {es : Entries α} {fs : Entries β}
    (h : List.Forall₂ (fun e f => e.1 = f.1 ∧ R e.2 f.2) es fs) {k : String} {a : α}
    (there : es.find? k = some a) :
    ∃ b, fs.find? k = some b ∧ R a b ∧
      ∀ a' b', R a' b' →
        List.Forall₂ (fun e f => e.1 = f.1 ∧ R e.2 f.2) (es.insert k a') (fs.insert k b') := by
  induction h with
  | nil => simp at there
  | @cons e f es fs first rest ih =>
      obtain ⟨key, x⟩ := e
      obtain ⟨key', y⟩ := f
      obtain ⟨rfl, related⟩ : key = key' ∧ R x y := first
      by_cases same : key = k
      · obtain rfl : x = a := by simpa [Entries.find?_cons, same] using there
        refine ⟨y, by simp [Entries.find?_cons, same], related, fun a' b' made => ?_⟩
        simp only [Entries.insert, same, if_true]
        exact .cons ⟨rfl, made⟩ rest
      · obtain ⟨b, found, inner, put⟩ := ih (by simpa [Entries.find?_cons, same] using there)
        refine ⟨b, by simpa [Entries.find?_cons, same] using found, inner, fun a' b' made => ?_⟩
        simp only [Entries.insert, same, if_false]
        exact .cons ⟨rfl, related⟩ (put a' b' made)

end Lists

namespace Shape

theorem Position.eq_nil_of_null {shape : Shape} {p : List PathStep}
    (h : shape.Position .null p) : shape = .action ∧ p = [] := by
  cases h with
  | here => exact ⟨rfl, rfl⟩

/-- By induction along the path: what is around the position is read as before. -/
theorem Position.replaced {shape : Shape} {v v' u : Value} {p : List PathStep} {levels : Nat}
    {new : Dict} (position : shape.Position v p) (unknown : Instruction.kindOf new = .ok none)
    (read : shape.Reads levels v u) (other : v.SameBut new p v') :
    ∃ u', shape.Reads levels v' u' ∧ u.SameBut new p u' := by
  have kept (levels : Nat) : Shape.action.Reads levels (.dict new) (.dict new) :=
    ⟨.unknown new, Instruction.ofValue_eq_ok.mpr (.inr (.inl ⟨new, rfl, unknown, rfl⟩)), rfl⟩
  induction position generalizing levels u v' with
  | here =>
      cases other
      exact ⟨.dict new, kept levels, .here⟩
  | @field shape inner es name k v p holds found inside ih =>
      obtain ⟨here, spelled⟩ := Field.spelling_of_source? found
      cases other with
      | @entry _ _ x x' _ there other =>
          obtain rfl : v = x := Option.some.inj (here.symm.trans there)
          obtain ⟨below, model, fields, w, before, held, made, put⟩ :=
            isolates read holds (Field.value?_of_source? found) inside.suits
          obtain ⟨w', remade, same⟩ :
              ∃ w', inner.Reads below x' w' ∧ w.SameBut new p w' := by
            rcases made with rfl | made
            · obtain ⟨rfl, rfl⟩ := inside.eq_nil_of_null
              cases other
              exact ⟨.dict new, kept below, .here⟩
            · exact ih made other
          obtain ⟨u', reread, after⟩ := put x' w' _ (Field.changes_insert found x') remade
          exact ⟨u', reread, .field before (spelled.imp_right (·.2)) held same after⟩
      | field before => cases before
  | @item inner fixed vs i v p there inside ih =>
      obtain ⟨vs, us, ⟨rfl⟩, rfl, all⟩ := read
      cases other with
      | @item _ _ x x' _ there' other =>
          obtain rfl : v = x := Option.some.inj (there.symm.trans there')
          obtain ⟨w, held, made, put⟩ := forall₂_set all there
          obtain ⟨w', remade, same⟩ := ih made other
          refine ⟨_, ⟨_, us.set i w', rfl, rfl, put x' w' remade⟩, ?_⟩
          cases fixed
          · exact .item held same
          · exact .member held same
  | @entry inner es k v p there inside ih =>
      obtain ⟨es, fs, ⟨rfl⟩, rfl, all⟩ := read
      cases other with
      | @entry _ _ x x' _ there' other =>
          obtain rfl : v = x := Option.some.inj (there.symm.trans there')
          obtain ⟨w, held, made, put⟩ := forall₂_insert all there
          obtain ⟨w', remade, same⟩ := ih made other
          exact ⟨_, ⟨_, Entries.insert fs k w', rfl, rfl, put x' w' remade⟩, .entry held same⟩
      | field before => cases before

end Shape

theorem Instruction.kindOf_of_unknown {es : Dict} {t : String}
    (type : es.find? "type" = some (.str t)) (unknown : ∀ kind : ActionKind, kind.name ≠ t) :
    kindOf es = .ok none := by
  have hashable : (Value.str t).unhashable? = none := rfl
  rw [kindOf, type]
  simp only [hashable]
  cases named : (Value.str t).actionKind? with
  | none => rfl
  | some kind => exact absurd (ActionKind.name_of_ofName? named) (unknown kind)

/-- Another mapping in the place of an action, of a type that is none of the known ones, is kept as
it came, and all else is read as before. -/
theorem Value.ReadAs.unknown_in_place {shape : Shape} {v v' m : Value} {p : List PathStep}
    {new : Dict} {t : String} (read : v.ReadAs shape m) (position : shape.Position v p)
    (nested : p ≠ []) (other : v.SameBut new p v') (type : new.find? "type" = some (.str t))
    (unknown : ∀ kind : ActionKind, kind.name ≠ t) :
    ∃ m', v'.ReadAs shape m' ∧ m.SameBut new p m' := by
  have raw : Instruction.kindOf new = .ok none := Instruction.kindOf_of_unknown type unknown
  cases read with
  | @action a read =>
      have given : ∃ es, v = .dict es := by
        cases position with
        | here => exact absurd rfl nested
        | field => exact ⟨_, rfl⟩
      obtain ⟨es, rfl⟩ := given
      have made := Action.parse_dict_eq_ok.mp read
      have known : Shape.action.Reads 0 (.dict es) (.action a) := ⟨_, made, rfl⟩
      obtain ⟨_, ⟨i, again, rfl⟩, same⟩ := position.replaced raw known other
      have entered : ∃ es', v' = .dict es' := by
        cases other with
        | here => exact absurd rfl nested
        | entry => exact ⟨_, rfl⟩
        | field before => cases before
      obtain ⟨es', rfl⟩ := entered
      -- The path leads through a field of the action, so what came of it is an action again.
      cases i with
      | known a' => exact ⟨.action a', .action (Action.parse_dict_eq_ok.mpr again), same⟩
      | unknown =>
          cases same with
          | here => exact absurd rfl nested
          | field _ _ _ _ after => cases after
  | @component n read =>
      obtain ⟨_, ⟨n', again, rfl⟩, same⟩ := position.replaced raw ⟨n, read, rfl⟩ other
      exact ⟨_, .component again, same⟩
  | @«section» s read =>
      have known : Shape.section.Reads 0 v (.section s) := ⟨s, read, rfl⟩
      obtain ⟨_, ⟨s', again, rfl⟩, same⟩ := position.replaced raw known other
      exact ⟨_, .section again, same⟩
  | @screen s read =>
      have known : Shape.screen.Reads 0 v (.screen s) := ⟨s, read, rfl⟩
      obtain ⟨_, ⟨s', again, rfl⟩, same⟩ := position.replaced raw known other
      exact ⟨_, .screen again, same⟩

/-- The second step of a sequence that a node is pressed for. -/
theorem Value.ReadAs.unknown_in_place_press :
    let steps (second : Dict) : Dict :=
      [("type", .str "SEQUENCE"),
        ("actions", .list [.dict [("type", .str "GO_BACK")], .dict second])]
    let v (second : Dict) : Value :=
      .dict [("type", .str "A"), ("actions", .dict [("onPress", .dict (steps second))])]
    let noop : Dict := [("type", .str "NOOP")]
    let warp : Dict := [("type", .str "WARP"), ("to", .str "b")]
    let m : Value := .node ⟨"A", [], some [("onPress",
      .known (.sequence [.known (.effect .goBack), .known .noop]))], none, none, none, none⟩
    let p : List PathStep := [.name "actions", .name "onPress", .name "actions", .index 1]
    (v noop).ReadAs .component m ∧ Shape.component.Position (v noop) p ∧ p ≠ [] ∧
      (v noop).SameBut warp p (v warp) ∧ warp.find? "type" = some (.str "WARP") ∧
      (∀ kind : ActionKind, kind.name ≠ "WARP") ∧
      ∃ m', (v warp).ReadAs .component m' ∧ m.SameBut warp p m' := by
  intro steps v noop warp m p
  have sequence : Instruction.ofValue (.dict (steps noop)) =
      .ok (.known (.sequence [.known (.effect .goBack), .known .noop])) := by
    apply Action.ofValue_sequence
    exact Instruction.listOfValues_cons_eq_ok.mpr ⟨_, _, Action.ofValue_effect rfl rfl,
      Instruction.listOfValues_cons_eq_ok.mpr ⟨_, _,
        Instruction.ofValue_of_ofFields rfl Action.ofFields_noop, Instruction.listOfValues_nil, rfl⟩,
      rfl⟩
  have read : (v noop).ReadAs .component m := .component (Node.ofValue_action sequence)
  have position : Shape.component.Position (v noop) p := by
    have outer (es : Dict) : ("actions", .map .action) ∈ Shape.component.fields es := by
      simp [Shape.fields]
    have inner : ("actions", .list true .action) ∈ Shape.action.fields (steps noop) := by
      have kind : Instruction.kindOf (steps noop) = .ok (some .sequence) := rfl
      simp [Shape.fields, kind]
    exact .field (outer _) rfl (.entry rfl (.field inner rfl (.item rfl .here)))
  have other : (v noop).SameBut warp p (v warp) :=
    .entry rfl (.entry rfl (.entry rfl (.item rfl .here)))
  have unknown : ∀ kind : ActionKind, kind.name ≠ "WARP" := by
    intro kind
    cases kind <;> decide
  exact ⟨read, position, by simp [p], other, rfl, unknown,
    read.unknown_in_place position (by simp [p]) other rfl unknown⟩

end ServerUI
