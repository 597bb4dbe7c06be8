import DocQuery.Proofs.Value.DistinctKeys
import DocQuery.Proofs.Value.Texts
import DocQuery.Update

/-!
# What updates are made of

An update document is to hold operators only, with the fields that are changed under them.
Increments and changes of arrays are built so, and so is taking fields away (`Builds`). Values that
are to be set are taken as they are once one of their keys is an operator: `operatorsOnly_iff` says
when nothing else is left beside the operators, and that no field is dropped.
-/

namespace DocQuery

open Entries

/-- Every key is an operator. -/
def OperatorsOnly (update : Entries) : Prop :=
  ∀ e ∈ update, isOperatorKey e.1 = .ok true

/-- The fields under the keys of an update, each with what is written for it. -/
def changedFields (update : Entries) : Entries :=
  update.flatMap fun e => match e.2 with
    | .map es => es
    | _ => []

/-- The opposite of a number, as a value. -/
def Value.Number.opposite : Value.Number → Value
  | .int n => .int (-n)
  | .real x => .float x.neg

/-- What is put into an array for a value: each element of a dense one. -/
def inserted (v : Value) : Value :=
  if v.isDense then .map (single "$each" (.list v.elements)) else v

/-- What is taken out of an array for a value: the elements of a dense one. -/
def removed (v : Value) : Value :=
  if v.isDense then .list v.elements else v

/-- One field with an operand, or a mapping of fields to theirs. -/
inductive NamesFields (operand : Value) : Value → Entries → Prop
  | one (field : Text) : NamesFields operand (.text field) [(.text field, operand)]
  | several {es : Entries} (h : es.Distinct) : NamesFields operand (.map es) es

/-- Further fields that are set with an increment, if any. -/
inductive Further : Value → Entries → Prop
  | none : Further .null []
  | fields {es : Entries} (h : es.Distinct) : Further (.map es) es

/-- An update that is built from field names and operands, with the fields that it is to change. -/
inductive Builds : Except Fault Entries → Entries → Prop
  | increment (field : Text) (amount : Value) {extra : Value} {further : Entries}
      (h : Further extra further) :
      Builds ((Increment.add (.text field) amount extra).map (·.update))
        ((.text field, amount) :: further)
  | decrement (field : Text) {amount extra : Value} {n : Value.Number} {further : Entries}
      (hn : amount.number? = some n) (h : Further extra further) :
      Builds ((Increment.subtract (.text field) amount extra).map (·.update))
        ((.text field, n.opposite) :: further)
  | insert {column value : Value} {fields : Entries} (unique : Bool)
      (h : NamesFields (inserted value) column fields) :
      Builds (arrayInsert column value unique) fields
  | remove {column value : Value} {fields : Entries}
      (h : NamesFields (removed value) column fields) :
      Builds (arrayRemove column value) fields
  | unset {columns : Value} {names : List Text} (hcolumns : columns ≠ .null)
      (h : columns.toColumns = .ok (names.map .text)) :
      Builds (unsetUpdate columns) (names.map fun name => (.text name, .int 1))

/-- An update of operators whose fields are the ones that were asked for. -/
structure IsUpdateOf (u fields : Entries) : Prop where
  operators : OperatorsOnly u
  fields : ∀ e, e ∈ changedFields u ↔ e ∈ fields

variable {column extra amount value columns operand : Value} {fields further values u : Entries}
  {operator field : Text} {n : Value.Number} {x : Except Fault Entries}

theorem isOperatorKey_text (s : Text) :
    isOperatorKey (.text s) = .ok (s.head? == some (.char '$')) := rfl

theorem operatorsOnly_single (h : operator.head? = some (.char '$')) (v : Value) :
    OperatorsOnly (single operator v) := by
  intro e he
  rw [List.mem_singleton.mp he, isOperatorKey_text, h]
  rfl

theorem changedFields_single (operator : Text) (fields : Entries) :
    changedFields (single operator (.map fields)) = fields :=
  List.append_nil _

theorem changedFields_append (u w : Entries) :
    changedFields (u ++ w) = changedFields u ++ changedFields w :=
  List.flatMap_append

theorem isUpdateOf_single (h : operator.head? = some (.char '$')) (fields : Entries) :
    IsUpdateOf (single operator (.map fields)) fields :=
  ⟨operatorsOnly_single h _, fun e => by rw [changedFields_single]⟩

/-- Further fields are set by an operator of their own. -/
theorem map_update_add (h : Further extra further) (field : Text) (amount : Value) :
    (Increment.add (.text field) amount extra).map (·.update) =
      .ok (single "$inc" (.map [(.text field, amount)]) ++
        if further = [] then [] else single "$set" (.map further)) := by
  cases h with
  | none => rfl
  | fields hes =>
    cases further with
    | nil => rfl
    | cons e es =>
      have hlist : ofList (e :: es) = e :: es := update_nil_of_distinct hes
      show Except.ok (single "$inc" (.map [(.text field, amount)]) ++
        single "$set" (.map (ofList (e :: es)))) = _
      rw [hlist]
      rfl

theorem negative_of_number (h : amount.number? = some n) : amount.negative = .ok n.opposite := by
  cases amount with
  | int k =>
    obtain rfl := Option.some.inj h
    rfl
  | bool b =>
    obtain rfl := Option.some.inj h
    cases b <;> rfl
  | float x =>
    obtain rfl := Option.some.inj h
    rfl
  | _ => exact nomatch h

theorem subtract_of_number (h : amount.number? = some n) (column extra : Value) :
    Increment.subtract column amount extra = Increment.add column n.opposite extra := by
  rw [Increment.subtract, negative_of_number h]
  rfl

theorem isUpdateOf_increment (field : Text) (amount : Value) (further : Entries) :
    IsUpdateOf (single "$inc" (.map [(.text field, amount)]) ++
      if further = [] then [] else single "$set" (.map further))
      ((.text field, amount) :: further) := by
  split
  · next h =>
    rw [h, List.append_nil]
    exact isUpdateOf_single rfl _
  · constructor
    · exact List.forall_mem_append.mpr
        ⟨operatorsOnly_single rfl _, operatorsOnly_single rfl _⟩
    · intro e
      rw [changedFields_append, changedFields_single, changedFields_single]
      rfl

theorem arrayUpdate_of_namesFields (operator : Text) (h : NamesFields operand column fields) :
    arrayUpdate operator column operand = .ok (single operator (.map fields)) := by
  cases h <;> rfl

theorem arrayInsert_of_namesFields (unique : Bool)
    (h : NamesFields (inserted value) column fields) :
    arrayInsert column value unique =
      .ok (single (if unique then "$addToSet" else "$push") (.map fields)) :=
  arrayUpdate_of_namesFields _ h

theorem arrayRemove_of_namesFields (h : NamesFields (removed value) column fields) :
    arrayRemove column value =
      .ok (single (if value.isDense then "$pullAll" else "$pull") (.map fields)) := by
  unfold removed at h
  unfold arrayRemove
  split at h
  · next hdense =>
    rw [if_pos hdense, if_pos hdense]
    exact arrayUpdate_of_namesFields _ h
  · next hdense =>
    rw [if_neg hdense, if_neg hdense]
    exact arrayUpdate_of_namesFields _ h

theorem unsetUpdate_of_toColumns {ks : List Value} (hcolumns : columns ≠ .null)
    (h : columns.toColumns = .ok ks) (hks : ∀ k ∈ ks, k.isHashable = true) :
    unsetUpdate columns = .ok (single "$unset" (.map (ofKeys ks (.int 1)))) := by
  have hnull : columns.isNull = false := by
    cases columns with
    | null => exact absurd rfl hcolumns
    | _ => rfl
  have hnames : (if columns.isText then pure [columns] else columns.items) = .ok ks := by
    rw [← h, Value.toColumns, hnull]
    rfl
  have hunder : Value.underKeys ks (.int 1) = .ok (ofKeys ks (.int 1)) := by
    rw [Value.underKeys, Value.forM_checkHashable hks]
    rfl
  have hunset : unsetUpdate columns =
      (if columns.isText then pure [columns] else columns.items) >>= fun ks =>
        Value.underKeys ks (.int 1) >>= fun es => pure (single "$unset" (.map es)) := by
    unfold unsetUpdate
    split <;> rfl
  rw [hunset, hnames]
  exact bind_eq_ok_iff.mpr ⟨ks, rfl, bind_eq_ok_iff.mpr ⟨_, hunder, rfl⟩⟩

/-- Under names that come twice the value is written once. -/
theorem mem_ofKeys_text_iff {names : List Text} {v : Value} {e : Value × Value} :
    e ∈ ofKeys (names.map .text) v ↔ e ∈ names.map fun name => (.text name, v) := by
  have hsource : ∀ e ∈ (names.map Value.text).map (·, v),
      (∃ t ∈ names, e.1 = .text t) ∧ e.2 = v := by
    simp
  have hkey : ∀ e ∈ ofKeys (names.map .text) v, ∃ t ∈ names, e.1 = .text t :=
    forall_key_update (P := fun k => ∃ t ∈ names, k = .text t) (by simp)
      fun e he => (hsource e he).1
  have hvalue : ∀ e ∈ ofKeys (names.map .text) v, e.2 = v :=
    forall_value_update (P := (· = v)) (by simp) fun e he => (hsource e he).2
  rw [List.mem_map]
  constructor
  · intro he
    obtain ⟨t, ht, hk⟩ := hkey e he
    exact ⟨t, ht, Prod.ext hk.symm (hvalue e he).symm⟩
  · rintro ⟨t, ht, rfl⟩
    have hany : hasKey (ofKeys (names.map .text) v) (.text t) = true := by
      have hnames := (any_sameKey_text_iff (allText_map names)).mpr (List.mem_map_of_mem ht)
      rw [ofKeys, ofList, hasKey_update, hasKey_map_const, hnames]
      rfl
    obtain ⟨e, he, hk⟩ := List.any_eq_true.mp hany
    obtain ⟨u, -, hu⟩ := hkey e he
    rw [hu, Value.sameKey_text, beq_iff_eq] at hk
    have heq : e = (.text t, v) := Prod.ext (hu.trans (by rw [hk])) (hvalue e he)
    exact heq ▸ he

theorem exists_isUpdateOf (h : Builds x fields) : ∃ u, x = .ok u ∧ IsUpdateOf u fields := by
  cases h with
  | increment field amount h => exact ⟨_, map_update_add h field amount, isUpdateOf_increment ..⟩
  | decrement field hn h =>
    rw [subtract_of_number hn]
    exact ⟨_, map_update_add h field _, isUpdateOf_increment ..⟩
  | insert unique h =>
    exact ⟨_, arrayInsert_of_namesFields unique h, isUpdateOf_single (by cases unique <;> rfl) _⟩
  | @remove column value fields h =>
    exact ⟨_, arrayRemove_of_namesFields h,
      isUpdateOf_single (by cases value.isDense <;> rfl) _⟩
  | unset hcolumns h =>
    refine ⟨_, unsetUpdate_of_toColumns hcolumns h (hashable_of_allText (allText_map _)),
      operatorsOnly_single rfl _, fun e => ?_⟩
    rw [changedFields_single]
    exact mem_ofKeys_text_iff

theorem isOperatorKey_of_plain {k : Value} {s : Text} (h : k.plain = .ok s) :
    isOperatorKey k = .ok (s.head? == some (.char '$')) := by
  rw [isOperatorKey, h]
  rfl

theorem anyOperatorKey_cons (k : Value) (ks : List Value) : anyOperatorKey (k :: ks) =
    isOperatorKey k >>= fun found => if found then pure true else anyOperatorKey ks := rfl

/-- The keys are looked at up to the first operator. -/
theorem anyOperatorKey_of_eq_ok {ks : List Value} {found : Bool}
    (h : anyOperatorKey ks = .ok found) :
    found = true ∧ (∃ k ∈ ks, isOperatorKey k = .ok true) ∨
      found = false ∧ ∀ k ∈ ks, isOperatorKey k = .ok false := by
  induction ks with
  | nil =>
    obtain rfl := pure_eq_ok_iff.mp h
    exact .inr ⟨rfl, by simp⟩
  | cons k ks ih =>
    rw [anyOperatorKey_cons] at h
    obtain ⟨first, hk, h⟩ := bind_eq_ok_iff.mp h
    cases first with
    | true =>
      obtain rfl := pure_eq_ok_iff.mp h
      exact .inl ⟨rfl, k, by simp, hk⟩
    | false =>
      rcases ih h with ⟨rfl, l, hl, hop⟩ | ⟨rfl, hnone⟩
      · exact .inl ⟨rfl, l, by simp [hl], hop⟩
      · exact .inr ⟨rfl, List.forall_mem_cons.mpr ⟨hk, hnone⟩⟩

theorem exists_anyOperatorKey {ks : List Value} (h : ∀ k ∈ ks, ∃ s, k.plain = .ok s) :
    ∃ found, anyOperatorKey ks = .ok found := by
  induction ks with
  | nil => exact ⟨false, rfl⟩
  | cons k ks ih =>
    obtain ⟨⟨s, hs⟩, hks⟩ := List.forall_mem_cons.mp h
    rw [anyOperatorKey_cons, isOperatorKey_of_plain hs]
    cases s.head? == some (.char '$') with
    | true => exact ⟨true, rfl⟩
    | false => exact ih hks

theorem setUpdate_map (h : values.Distinct) : setUpdate (.map values) =
    (anyOperatorKey (keys values)).map fun found =>
      if found then values else single "$set" (.map values) := by
  have hlist : ofList values = values := update_nil_of_distinct h
  show (anyOperatorKey (keys values) >>= fun found => pure (if found then ofList values else
    single "$set" (.map (ofList values)))) = _
  rw [hlist]
  rfl

/-- Values that are set, where each key up to the first operator has a text. -/
theorem operatorsOnly_of_setUpdate (hvalues : values.Distinct)
    (h : setUpdate (.map values) = .ok u) :
    ((∀ e ∈ values, isOperatorKey e.1 = .ok false) → u = single "$set" (.map values)) ∧
      ((∃ e ∈ values, isOperatorKey e.1 = .ok true) → u = values) ∧
      (OperatorsOnly u ↔ OperatorsOnly values ∨ ∀ e ∈ values, isOperatorKey e.1 = .ok false) := by
  rw [setUpdate_map hvalues] at h
  obtain ⟨found, hfound, rfl⟩ := map_eq_ok_iff.mp h
  rcases anyOperatorKey_of_eq_ok hfound with ⟨rfl, k, hk, hop⟩ | ⟨rfl, hnone⟩
  · obtain ⟨e, he, rfl⟩ := List.mem_map.mp hk
    have hsome : ¬ ∀ e ∈ values, isOperatorKey e.1 = .ok false := fun hnone =>
      nomatch hop.symm.trans (hnone e he)
    exact ⟨fun hnone => absurd hnone hsome, fun _ => rfl, (or_iff_left hsome).symm⟩
  · have hnone : ∀ e ∈ values, isOperatorKey e.1 = .ok false := fun e he =>
      hnone e.1 (List.mem_map_of_mem he)
    refine ⟨fun _ => rfl, ?_, iff_of_true (operatorsOnly_single rfl _) (.inr hnone)⟩
    rintro ⟨e, he, hop⟩
    exact nomatch hop.symm.trans (hnone e he)

/-- What is built from fields holds operators only, and under them just the fields that were asked
for. Values that are to be set stand under one operator if none of their keys is one, and else are
taken as they are; so that there are operators only where all of the keys are operators or none is.
They can be set where each key has a text. -/
theorem operatorsOnly_iff :
    (∀ x fields, Builds x fields →
      ∃ u, x = .ok u ∧ OperatorsOnly u ∧ ∀ e, e ∈ changedFields u ↔ e ∈ fields) ∧
    ∀ values : Entries, values.Distinct →
      ((∀ e ∈ values, ∃ s, e.1.plain = .ok s) → ∃ u, setUpdate (.map values) = .ok u) ∧
      ∀ u, setUpdate (.map values) = .ok u →
        ((∀ e ∈ values, isOperatorKey e.1 = .ok false) → u = single "$set" (.map values)) ∧
        ((∃ e ∈ values, isOperatorKey e.1 = .ok true) → u = values) ∧
        (OperatorsOnly u ↔
          OperatorsOnly values ∨ ∀ e ∈ values, isOperatorKey e.1 = .ok false) := by
  refine ⟨fun x fields h => ?_, fun values hvalues =>
    ⟨fun hkeys => ?_, fun u hu => operatorsOnly_of_setUpdate hvalues hu⟩⟩
  · obtain ⟨u, hu, hfields⟩ := exists_isUpdateOf h
    exact ⟨u, hu, hfields.operators, hfields.fields⟩
  · have htexts : ∀ k ∈ keys values, ∃ s, k.plain = .ok s := fun k hk => by
      obtain ⟨e, he, rfl⟩ := List.mem_map.mp hk
      exact hkeys e he
    obtain ⟨found, hfound⟩ := exists_anyOperatorKey htexts
    rw [setUpdate_map hvalues, hfound]
    exact ⟨_, rfl⟩

/-- A decrement that sets a further field, and an update that is given as operators. -/
theorem operatorsOnly_iff_decrement :
    let further : Entries := [(.text "seen", .bool true)]
    let x := (Increment.subtract (.text "stock") (.int 2) (.map further)).map (·.update)
    let fields : Entries := (.text "stock", .int (-2)) :: further
    let values : Entries := [(.text "$set", .map further), (.text "$unset", .map [])]
    (Builds x fields ∧
      ∃ u, x = .ok u ∧ OperatorsOnly u ∧ ∀ e, e ∈ changedFields u ↔ e ∈ fields) ∧
    values.Distinct ∧ setUpdate (.map values) = .ok values ∧ OperatorsOnly values := by
  intro further x fields values
  have htwo : (Value.int 2).number? = some (.int 2) := rfl
  have hx : Builds x fields := .decrement "stock" htwo (.fields (distinct_single _ _))
  have hvalues : values.Distinct :=
    distinct_cons.mpr ⟨by simp, distinct_single _ _⟩
  have hoperators : OperatorsOnly values := List.forall_mem_cons.mpr
    ⟨rfl, List.forall_mem_singleton.mpr rfl⟩
  have hkeys : ∀ e ∈ values, ∃ s, e.1.plain = .ok s := List.forall_mem_cons.mpr
    ⟨⟨_, rfl⟩, List.forall_mem_singleton.mpr ⟨_, rfl⟩⟩
  obtain ⟨hset, hform⟩ := operatorsOnly_iff.2 values hvalues
  obtain ⟨u, hu⟩ := hset hkeys
  obtain ⟨-, hsame, hiff⟩ := hform u hu
  obtain rfl := hsame ⟨_, List.mem_cons_self, rfl⟩
  exact ⟨⟨hx, operatorsOnly_iff.1 x fields hx⟩, hvalues, hu, hiff.mpr (.inl hoperators)⟩

/-- A field that is to be set stands beside an operator in the update. -/
theorem exists_plain_key :
    ∃ values u : Entries, values.Distinct ∧ setUpdate (.map values) = .ok u ∧
      (∃ e ∈ u, isOperatorKey e.1 = .ok true) ∧ ∃ e ∈ u, isOperatorKey e.1 = .ok false := by
  let inc : Value × Value := (.text "$inc", .map [(.text "views", .int 1)])
  let name : Value × Value := (.text "name", .text "x")
  exact ⟨[inc, name], [inc, name], distinct_cons.mpr ⟨by simp [inc, name], distinct_single _ _⟩,
    rfl, ⟨inc, by simp, rfl⟩, name, by simp, rfl⟩

end DocQuery
