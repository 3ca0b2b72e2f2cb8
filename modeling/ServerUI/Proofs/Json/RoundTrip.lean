import ServerUI.Json.Limits
import ServerUI.Proofs.Action.Everywhere
import ServerUI.Proofs.Json.Scan

/-!
Values written as JSON text and read again. In either layout the text of a value is scanned as the
tokens that the value is made of, and from these tokens the reader puts the value together again,
with the entries of each mapping in their order.
-/

set_option autoImplicit false

namespace ServerUI

mutual

def Value.tokens : Value → List Json.Token
  | .null => [.null]
  | .bool b => [.bool b]
  | .int i => [.int i]
  | .str s => [.str s]
  | .list items => .arrayOpen :: (Value.tokensOfItems items ++ [.arrayClose])
  | .dict entries => .objectOpen :: (Value.tokensOfEntries entries ++ [.objectClose])
  | _ => []

def Value.tokensOfItems : List Value → List Json.Token
  | [] => []
  | [v] => v.tokens
  | v :: vs => v.tokens ++ .comma :: Value.tokensOfItems vs

def Value.tokensOfEntries : List (String × Value) → List Json.Token
  | [] => []
  | [(k, v)] => .str k :: .colon :: v.tokens
  | (k, v) :: es => .str k :: .colon :: (v.tokens ++ .comma :: Value.tokensOfEntries es)

end

namespace Value

theorem tokensOfItems_cons_cons (v w : Value) (vs : List Value) :
    tokensOfItems (v :: w :: vs) = v.tokens ++ .comma :: tokensOfItems (w :: vs) := by
  simp [tokensOfItems]

theorem tokensOfEntries_cons_cons (k : String) (v : Value) (e : String × Value) (es : Dict) :
    tokensOfEntries ((k, v) :: e :: es) =
      .str k :: .colon :: (v.tokens ++ .comma :: tokensOfEntries (e :: es)) := by
  simp [tokensOfEntries]

/-- What JSON text says in full, but for the members: null, truth values, whole numbers of 64 bits,
text, lists, and mappings that have each key once. -/
def isExact : Value → Bool
  | null | bool _ | str _ | list _ => true
  | int i => Json.isWholeRange i
  | dict es => (Entries.keys es).Nodup
  | _ => false

/-- Values that JSON text says in full. -/
def IsExact (v : Value) : Prop := v.Everywhere fun u => u.isExact = true

end Value

namespace Json

open ServerUI.Text

variable {l : Layout} {level : Nat} {cs rest : List Char} {ts : List Token}

theorem Scans.newline (h : Scans cs ts rest) : Scans (l.newline level ++ cs) ts rest := by
  have spaces (n : Nat) : Scans (List.replicate n ' ' ++ cs) ts rest := by
    induction n with
    | zero => exact h
    | succ n ih => exact .blank rfl ih
  cases l with
  | compact => exact h
  | indented => exact .blank rfl (spaces _)

theorem Scans.colon (h : Scans cs ts rest) : Scans (l.colon ++ cs) (.colon :: ts) rest := by
  cases l with
  | compact => exact .token rfl rfl (Nat.le_refl _) h
  | indented => exact .token rfl rfl (Nat.le_refl _) (.blank rfl h)

theorem endsNumber_newline {c : Char} (h : isDigit c = false ∧ c ≠ '.' ∧ c ≠ 'e' ∧ c ≠ 'E') :
    EndsNumber (l.newline level ++ c :: rest) := by
  cases l with
  | compact => exact endsNumber_cons rest h
  | indented => exact endsNumber_cons _ (by decide)

theorem scans_string (s : String) (rest : List Char) :
    Scans (writeString s ++ rest) [.str s] rest := by
  have written : writeString s ++ rest = '"' :: (s.toList.flatMap escapeChar ++ '"' :: rest) := by
    simp [writeString]
  have scanned : scanToken (writeString s ++ rest) = some (.str s, rest) := by
    simp [written, scanToken, scanString_escaped]
  rw [written] at scanned ⊢
  refine .token rfl scanned ?_ .done
  rw [List.length_append, List.length_cons]
  omega

theorem scans_int {i : Int} (range : isWholeRange i = true) (h : EndsNumber rest) :
    Scans ((toString i).toList ++ rest) [.int i] rest := by
  obtain ⟨c, cs, written, first⟩ := exists_toString i
  have scanned := scanNumber_toString range h
  rw [written, List.cons_append] at scanned ⊢
  have solid : isSpace c = false := by
    rcases first with rfl | digit
    · rfl
    · have other {d : Char} (h : isDigit d = false) : c ≠ d := digit_ne digit h
      simp [isSpace, other (d := ' ') rfl, other (d := '\t') rfl, other (d := '\n') rfl,
        other (d := '\r') rfl]
  exact .token solid ((scanToken_number _ first).trans scanned) (by simp) .done

/-- The text of a value is scanned as its tokens, if what comes behind it ends a number. -/
def Scannable (v : Value) : Prop :=
  ∀ (l : Layout) (level : Nat) (rest : List Char), EndsNumber rest →
    Scans (writeBefore l level rest v.tree) v.tokens rest

theorem scans_items {vs : List Value} (members : ∀ v ∈ vs, Scannable v) (some : vs ≠ [])
    (h : EndsNumber rest) :
    Scans (writeItems l level rest (Tree.ofValues vs)) (Value.tokensOfItems vs) rest := by
  induction vs with
  | nil => exact absurd rfl some
  | cons v vs ih =>
      simp only [List.mem_cons, forall_eq_or_imp] at members
      cases vs with
      | nil => exact (members.1 l level rest h).newline
      | cons w ws =>
          have first := members.1 l level
            (',' :: writeItems l level rest (Tree.ofValues (w :: ws)))
            (endsNumber_cons _ (by decide))
          exact (first.trans (.token rfl rfl (Nat.le_refl _) (ih members.2 (by simp)))).newline

theorem scans_entries {es : Dict} (members : ∀ e ∈ es, Scannable e.2) (some : es ≠ [])
    (h : EndsNumber rest) :
    Scans (writeEntries l level rest (Tree.ofEntries es)) (Value.tokensOfEntries es) rest := by
  induction es with
  | nil => exact absurd rfl some
  | cons e es ih =>
      obtain ⟨k, v⟩ := e
      simp only [List.mem_cons, forall_eq_or_imp] at members
      cases es with
      | nil =>
          simp only [Tree.ofEntries, writeEntries, List.append_assoc]
          exact ((scans_string k _).trans (members.1 l level rest h).colon).newline
      | cons f fs =>
          have first := members.1 l level
            (',' :: writeEntries l level rest (Tree.ofEntries (f :: fs)))
            (endsNumber_cons _ (by decide))
          have all := first.trans (.token rfl rfl (Nat.le_refl _) (ih members.2 (by simp)))
          simp only [Tree.ofEntries, writeEntries, List.append_assoc]
          exact ((scans_string k _).trans all.colon).newline

theorem scannable {v : Value} (exact : v.IsExact) : Scannable v := by
  induction exact with
  | @intro v here _ ih =>
      intro l level rest h
      cases v with
      | null => exact .token rfl rfl (Nat.le_add_right _ 3) .done
      | bool b =>
          cases b with
          | false => exact .token rfl rfl (Nat.le_add_right _ 4) .done
          | true => exact .token rfl rfl (Nat.le_add_right _ 3) .done
      | int i => exact scans_int here h
      | str s => exact scans_string s rest
      | list items =>
          cases items with
          | nil => exact .token rfl rfl (by simp) (.token rfl rfl (Nat.le_refl _) .done)
          | cons v vs =>
              -- Behind the members comes the closing bracket, which ends a number.
              have end' : EndsNumber (l.newline level ++ ']' :: rest) :=
                endsNumber_newline (by decide)
              have members := @scans_items l (level + 1) _ (v :: vs) ih (List.cons_ne_nil v vs) end'
              have close : Scans (l.newline level ++ ']' :: rest) [.arrayClose] rest :=
                Scans.newline (.token rfl rfl (Nat.le_refl _) .done)
              exact .token rfl rfl (Nat.le_refl _) (members.trans close)
      | dict es =>
          cases es with
          | nil => exact .token rfl rfl (by simp) (.token rfl rfl (Nat.le_refl _) .done)
          | cons e es =>
              have end' : EndsNumber (l.newline level ++ '\x7d' :: rest) :=
                endsNumber_newline (by decide)
              have each : ∀ e' ∈ e :: es, Scannable e'.2 := fun e' member =>
                ih e'.2 (List.mem_map.mpr ⟨e', member, rfl⟩)
              have members :=
                @scans_entries l (level + 1) _ (e :: es) each (List.cons_ne_nil e es) end'
              have close : Scans (l.newline level ++ '\x7d' :: rest) [.objectClose] rest :=
                Scans.newline (.token rfl rfl (Nat.le_refl _) .done)
              exact .token rfl rfl (Nat.le_refl _) (members.trans close)
      | _ => simp [Value.isExact] at here

namespace Machine

variable {stack : List Frame}

/-- In front of the tokens of a value, the reader takes them in and delivers the value. -/
def Takes (v : Value) : Prop :=
  ∀ (stack : List Frame) (ts : List Token), stack.length + v.nesting ≤ maxNesting →
    run ⟨.value, stack⟩ (v.tokens ++ ts) = run (deliver v stack) ts

theorem run_cons (m : Machine) (t : Token) (ts : List Token) :
    m.run (t :: ts) = (m.step t).bind fun m => m.run ts := rfl

theorem run_items {done vs : List Value} (members : ∀ v ∈ vs, Takes v) (some : vs ≠ [])
    (room : stack.length + 1 + Value.nestingOfItems vs ≤ maxNesting) (ts : List Token) :
    run ⟨.value, .array done :: stack⟩ (Value.tokensOfItems vs ++ .arrayClose :: ts) =
      run (deliver (.list (done.reverse ++ vs)) stack) ts := by
  induction vs generalizing done with
  | nil => exact absurd rfl some
  | cons v vs ih =>
      simp only [List.mem_cons, forall_eq_or_imp] at members
      simp only [Value.nestingOfItems] at room
      have first (ts : List Token) := members.1 (.array done :: stack) ts (by simp; omega)
      cases vs with
      | nil =>
          rw [Value.tokensOfItems, first, deliver, run_cons]
          simp [step, close]
      | cons w ws =>
          have others := @ih (v :: done) members.2 (by simp) (by omega)
          rw [Value.tokensOfItems_cons_cons, List.append_assoc, first, deliver, List.cons_append,
            run_cons]
          simp [step, others]

theorem run_entries {done es : Dict} {k : String} (members : ∀ e ∈ es, Takes e.2) (some : es ≠ [])
    (once : (Entries.keys (done ++ es)).Nodup)
    (room : stack.length + 1 + Value.nestingOfEntries es ≤ maxNesting) (ts : List Token) :
    run ⟨.key, .object done k :: stack⟩ (Value.tokensOfEntries es ++ .objectClose :: ts) =
      run (deliver (.dict (done ++ es)) stack) ts := by
  induction es generalizing done k with
  | nil => exact absurd rfl some
  | cons e es ih =>
      obtain ⟨key, v⟩ := e
      simp only [List.mem_cons, forall_eq_or_imp] at members
      simp only [Value.nestingOfEntries] at room
      have fresh : key ∉ Entries.keys done := by
        simp only [Entries.keys, List.map_append, List.map_cons] at once
        exact fun old => (List.nodup_append.mp once).2.2 key old key List.mem_cons_self rfl
      have named (ts : List Token) :
          run ⟨.key, .object done k :: stack⟩ (.str key :: .colon :: (v.tokens ++ ts)) =
            run ⟨.separator, .object (done ++ [(key, v)]) key :: stack⟩ ts := by
        have read := members.1 (.object done key :: stack) ts (by simp; omega)
        rw [deliver, Entries.insert_of_not_mem v fresh] at read
        rw [← read]
        rfl
      cases es with
      | nil => exact named (.objectClose :: ts)
      | cons f fs =>
          have others := @ih (done ++ [(key, v)]) key members.2 (by simp)
            (by simpa using once) (by omega)
          rw [Value.tokensOfEntries_cons_cons, List.cons_append, List.cons_append,
            List.append_assoc, named, List.cons_append, run_cons]
          simp [step, others]

theorem run_first_item {v : Value} (exact : v.isExact = true) (vs : List Value) (ts : List Token) :
    run ⟨.itemOrClose, stack⟩ (Value.tokensOfItems (v :: vs) ++ ts) =
      run ⟨.value, stack⟩ (Value.tokensOfItems (v :: vs) ++ ts) := by
  obtain ⟨t, us, first, other⟩ : ∃ t us, v.tokens = t :: us ∧ t ≠ .arrayClose := by
    cases v with
    | null | bool | int | str | list | dict => exact ⟨_, _, rfl, nofun⟩
    | _ => simp [Value.isExact] at exact
  cases vs with
  | nil => simp [Value.tokensOfItems, first, run_cons, step, other]
  | cons w ws => simp [Value.tokensOfItems_cons_cons, first, run_cons, step, other]

theorem run_first_entry (e : String × Value) (es : Dict) (ts : List Token) :
    run ⟨.keyOrClose, stack⟩ (Value.tokensOfEntries (e :: es) ++ ts) =
      run ⟨.key, stack⟩ (Value.tokensOfEntries (e :: es) ++ ts) := by
  cases es <;> rfl

theorem takes {v : Value} (exact : v.IsExact) : Takes v := by
  induction exact with
  | @intro v here inside ih =>
      intro stack ts room
      cases v with
      | null | bool | int | str => rfl
      | list items =>
          simp only [Value.nesting] at room
          have opened : openFrame .itemOrClose (.array []) stack =
            some ⟨.itemOrClose, .array [] :: stack⟩ := if_pos (by omega)
          cases items with
          | nil => simp [Value.tokens, Value.tokensOfItems, run_cons, step, begin, opened, close]
          | cons w ws =>
              have first : w.isExact = true := (inside w List.mem_cons_self).here
              have members :=
                @run_items stack [] (w :: ws) ih (List.cons_ne_nil w ws) (by omega) ts
              rw [Value.tokens, List.cons_append, List.append_assoc, run_cons]
              simp only [step, begin, opened, Option.bind_some]
              -- The first token of a member closes nothing, so the list goes on as any other one.
              exact (run_first_item first ws _).trans members
      | dict es =>
          simp only [Value.nesting] at room
          have opened : openFrame .keyOrClose (.object [] "") stack =
            some ⟨.keyOrClose, .object [] "" :: stack⟩ := if_pos (by omega)
          cases es with
          | nil => simp [Value.tokens, Value.tokensOfEntries, run_cons, step, begin, opened, close]
          | cons e es =>
              have once : (Entries.keys (e :: es)).Nodup := by simpa [Value.isExact] using here
              have each : ∀ e' ∈ e :: es, Takes e'.2 := fun e' member =>
                ih e'.2 (List.mem_map.mpr ⟨e', member, rfl⟩)
              have members :=
                @run_entries stack [] (e :: es) "" each (List.cons_ne_nil e es) once (by omega) ts
              rw [Value.tokens, List.cons_append, List.append_assoc, run_cons]
              simp only [step, begin, opened, Option.bind_some]
              exact (run_first_entry e es _).trans members
      | _ => simp [Value.isExact] at here

end Machine

theorem itemsFit_ofValues {outer : Nat} {vs : List Value} (h : ∀ v ∈ vs, fits outer v.tree = true) :
    itemsFit outer (Tree.ofValues vs) = true := by
  induction vs with
  | nil => rfl
  | cons v vs ih =>
      simp only [List.mem_cons, forall_eq_or_imp] at h
      simp [Tree.ofValues, itemsFit, h.1, ih h.2]

theorem entriesFit_ofEntries {outer : Nat} {es : Dict}
    (h : ∀ e ∈ es, fits outer e.2.tree = true) :
    entriesFit outer (Tree.ofEntries es) = true := by
  induction es with
  | nil => rfl
  | cons e es ih =>
      simp only [List.mem_cons, forall_eq_or_imp] at h
      simp [Tree.ofEntries, entriesFit, h.1, ih h.2]

theorem fits_tree {v : Value} (exact : v.IsExact) {outer : Nat}
    (room : outer + v.nesting ≤ 254) : fits outer v.tree = true := by
  induction exact generalizing outer with
  | @intro v here _ ih =>
      have level (deeper : outer + 1 ≤ 254) : isLevel (outer + 1) = true := by
        simp [isLevel, Nat.mod_eq_of_lt (show outer + 1 < 256 by omega)]
        omega
      cases v with
      | null | bool | str => rfl
      | int i => exact here
      | list items =>
          simp only [Value.nesting] at room
          have members : ∀ v ∈ items, fits (outer + 1) v.tree = true := fun v member =>
            ih v member (by
              have := Value.nestingOfItems_le.mp (Nat.le_refl _) v member
              omega)
          simp [Value.tree, fits, level (by omega), itemsFit_ofValues members]
      | dict es =>
          simp only [Value.nesting] at room
          have members : ∀ e ∈ es, fits (outer + 1) e.2.tree = true := fun e member =>
            ih e.2 (List.mem_map.mpr ⟨e, member, rfl⟩) (by
              have := Value.nestingOfEntries_le.mp (Nat.le_refl _) e member
              omega)
          simp [Value.tree, fits, level (by omega), entriesFit_ofEntries members]
      | _ => simp [Value.isExact] at here

/-- In both layouts a value is written as text that is read as the value again, each mapping with
its entries in their order, if it is one that JSON text can say and at most 254 lists and mappings
stand inside one another. -/
theorem parse_toText {v : Value} (exact : v.IsExact) (room : v.nesting ≤ 254) (l : Layout) :
    ∃ s, toText? l v = some s ∧ (Document.text s).parse = .ok v := by
  refine ⟨String.ofList (write l v.tree), ?_, ?_⟩
  · rw [toText?, if_pos (fits_tree exact (by omega))]
  · have scanned : tokens? (write l v.tree) = some v.tokens :=
      (scannable exact l 0 [] endsNumber_nil).tokens_eq
    have taken : Machine.start.run v.tokens = some (Machine.deliver v []) := by
      have read := Machine.takes exact [] [] (by simp [maxNesting]; omega)
      rwa [List.append_nil] at read
    have reread : ofText? (String.ofList (write l v.tree)) = some v := by
      simp [ofText?, ofTokens?, scanned, taken, Machine.deliver, Machine.result?]
    simp [Document.parse, Document.value?, Document.text?, reread]

theorem parse_toText_cart :
    let items : Value := .list [.int (-1), .str "tab\t\"é\"", .null]
    let v : Value := .dict [("items", items), ("empty", .list [])]
    v.IsExact ∧ v.nesting ≤ 254 ∧
      ∃ s, toText? .indented v = some s ∧ (Document.text s).parse = .ok v := by
  intro items v
  have leaf {u : Value} (here : u.isExact = true) (bare : u.parts = []) : u.IsExact :=
    .intro here (by simp [bare])
  have exact : v.IsExact := by
    refine .of_entries rfl ?_
    simp only [List.mem_cons, List.not_mem_nil, or_false, forall_eq_or_imp, forall_eq]
    refine ⟨.intro rfl ?_, leaf rfl rfl⟩
    simp only [items, Value.parts, List.mem_cons, List.not_mem_nil, or_false, forall_eq_or_imp,
      forall_eq]
    exact ⟨leaf rfl rfl, leaf rfl rfl, leaf rfl rfl⟩
  have room : v.nesting ≤ 254 := by decide
  exact ⟨exact, room, parse_toText exact room .indented⟩

end Json

end ServerUI
