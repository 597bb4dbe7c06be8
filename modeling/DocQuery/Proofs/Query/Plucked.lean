import DocQuery.Proofs.Path
import DocQuery.Proofs.Query.AnyRow
import DocQuery.Proofs.Value.Updates

/-!
# Values that are plucked from rows

To pluck a column is to get the rows with it and to read it in each of them (`Read.run_pluck`).
Where the values are asked for under those of a further column, each key comes where it comes first
and has the value of the last row that has it (`IsKeyed`). Identifiers are written as keys by their
digits under the path of the rows' own identifiers, and nowhere else: `plucked_from_rows`.
-/

namespace DocQuery

open Entries DocQuery.Path Run

variable {r : Replies} {q : Query} {found : List Value} {column key : Text}

/-- The value as a key, an identifier by its digits. -/
def inDigits : Value → Value
  | .objectId hex => .text hex
  | v => v

/-- The key of a row. Only the rows' own identifiers are written by their digits. -/
def rowKey (key : Text) (row : Value) : Value :=
  if key = "_id" then inDigits (valueAt key row) else valueAt key row

theorem inDigits_eq_self_iff {v : Value} : v = inDigits v ↔ ∀ hex, v ≠ .objectId hex := by
  cases v <;> simp [inDigits]

theorem isHashable_inDigits (v : Value) : (inDigits v).isHashable = v.isHashable := by
  cases v <;> rfl

theorem isHashable_rowKey (key : Text) (row : Value) :
    (rowKey key row).isHashable = (valueAt key row).isHashable := by
  unfold rowKey
  split
  · exact isHashable_inDigits _
  · rfl

theorem forall_rowKey_iff :
    (∀ row ∈ found, rowKey key row = inDigits (valueAt key row)) ↔
      key = "_id" ∨ ∀ row ∈ found, ∀ hex, valueAt key row ≠ .objectId hex := by
  by_cases hkey : key = "_id"
  · simp [rowKey, hkey]
  · simp only [rowKey, if_neg hkey, inDigits_eq_self_iff, or_iff_right hkey]

/-- The values of a column under the keys of their rows: the keys as they first come, and under each
the value of the last row that has it. -/
structure IsKeyed (column key : Text) (found : List Value) (es : Entries) : Prop where
  keys_eq : keys es = firsts (found.map (rowKey key))
  last : ∀ e ∈ es, ∃ before row after, found = before ++ row :: after ∧ valueAt column row = e.2 ∧
    (rowKey key row = e.1 ∨ (rowKey key row).sameKey e.1 = true) ∧
      ∀ later ∈ after, (rowKey key later).sameKey e.1 = false

/-- What is written for a row. -/
def pluckedEntry (column key : Text) (row : Value) : Value × Value :=
  (rowKey key row, valueAt column row)

theorem isKeyed_ofList (column key : Text) (found : List Value) :
    IsKeyed column key found (ofList (found.map (pluckedEntry column key))) := by
  constructor
  · rw [keys_ofList, Entries.keys, List.map_map]
    rfl
  · intro e he
    rcases exists_last_of_mem_update distinct_nil he with ⟨before, p, after, h, hlast⟩ | ⟨he, -⟩
    · obtain ⟨before, rest, rfl, rfl, hrest⟩ := List.map_eq_append_iff.mp h
      obtain ⟨row, after, rfl, rfl, rfl⟩ := List.map_eq_cons_iff.mp hrest
      obtain ⟨hvalue, hkey, hafter⟩ := hlast
      exact ⟨before, row, after, rfl, hvalue, hkey, fun later h => hafter _ (List.mem_map_of_mem h)⟩
    · exact absurd he List.not_mem_nil

namespace Read

theorem pluckFrom_null (found : List Value) (column : Text) :
    pluckFrom found (.text column) .null = .ok (.list (found.map (valueAt column))) := by
  have hvalues : found.mapM (Path.read · (.text column)) = Except.ok (found.map (valueAt column)) :=
    List.mapM_pure
  have hpluck : pluckFrom found (.text column) .null =
      found.mapM (Path.read · (.text column)) >>= fun vs => pure (.list vs) := rfl
  rw [hpluck, hvalues]
  rfl

theorem insertPlucked_eq (column key : Text) (es : Entries) (row : Value) :
    insertPlucked (.text column) (.text key) es row =
      (rowKey key row).checkHashable >>= fun _ =>
        pure (es.insert (rowKey key row) (valueAt column row)) := by
  have hkey : (match valueAt key row with
      | .objectId hex => if Value.text key = .text "_id" then .text hex else valueAt key row
      | _ => valueAt key row) = rowKey key row := by
    unfold rowKey
    cases valueAt key row <;> simp [inDigits]
  rw [← hkey]
  rfl

theorem foldlM_insertPlucked (column key : Text) (found : List Value) (es : Entries) :
    found.foldlM (insertPlucked (.text column) (.text key)) es =
      if ∀ row ∈ found, (valueAt key row).isHashable = true then
        .ok (update es (found.map (pluckedEntry column key))) else .error .wrongType := by
  induction found generalizing es with
  | nil => rfl
  | cons row found ih =>
    rw [List.foldlM_cons, insertPlucked_eq, Value.checkHashable, isHashable_rowKey]
    by_cases hrow : (valueAt key row).isHashable = true
    · rw [if_pos hrow]
      simp only [List.forall_mem_cons, hrow, true_and]
      exact ih _
    · rw [if_neg hrow, if_neg fun h => hrow (h row List.mem_cons_self)]
      rfl

theorem pluckFrom_text (found : List Value) (column key : Text) :
    pluckFrom found (.text column) (.text key) =
      if ∀ row ∈ found, (valueAt key row).isHashable = true then
        .ok (.map (ofList (found.map (pluckedEntry column key)))) else .error .wrongType := by
  have hpluck : pluckFrom found (.text column) (.text key) =
      found.foldlM (insertPlucked (.text column) (.text key)) [] >>= fun es => pure (.map es) := rfl
  rw [hpluck, foldlM_insertPlucked]
  split <;> rfl

theorem run_pluck (r : Replies) (column key : Value) (q : Query) :
    let columns : Value := .list (if key.isNull then [column] else [column, key])
    let fetched := (rows r columns).run { subject := q }
    ((pluck column key).run r).run { subject := q } =
      (fetched.1 >>= fun found => pluckFrom found column key, fetched.2) :=
  run_bind_orFail (rows r _) (fun found => pluckFrom found column key) { subject := q }

end Read

/-! ### Plucking and getting -/

/-- What is sent is what is sent to get the rows, and what is answered comes of the rows only. -/
theorem pluck_cases (r : Replies) (column key : Value) (q : Query) :
    let columns : Value := .list (if key.isNull then [column] else [column, key])
    let got := (Step.read (.get columns)).run r q
    let plucked := (Step.read (.pluck column key)).run r q
    plucked.session = got.session ∧
      ((∃ fault, got.answer = .error fault ∧ plucked.answer = .error fault) ∨
        ∃ found, r.rows.items = .ok found ∧ got.answer = .ok (.value (.list found)) ∧
          plucked.answer = (Read.pluckFrom found column key).map .value) := by
  intro columns got plucked
  let fetched := (Read.rows r columns).run { subject := q }
  have hgot : got = { answer := (fetched.1.map .list).map .value, session := fetched.2 } := by
    have hrun : ((Read.get columns).run r).run { subject := q } = _ :=
      run_bind_pure (Read.rows r columns) Value.list _
    show (Step.read (.get columns)).run r _ = _
    rw [Step.run_read, hrun]
  have hplucked : plucked =
      { answer := (fetched.1 >>= fun found => Read.pluckFrom found column key).map .value
        session := fetched.2 } := by
    show (Step.read (.pluck column key)).run r q = _
    rw [Step.run_read, Read.run_pluck]
  rw [hgot, hplucked]
  refine ⟨rfl, ?_⟩
  cases hfetched : fetched.1 with
  | error fault => exact .inl ⟨fault, rfl, rfl⟩
  | ok found => exact .inr ⟨found, Read.items_of_rows hfetched, rfl, rfl⟩

/-- What names between dots lead to is what a row holds at a path. A column is answered as its value
in each row, in the order of the rows; and under a further column as the mapping of the keys of the
rows, unless one of them cannot be a key. The keys of all rows have identifiers by their digits
exactly where the further column is the identifier of the rows or none of them has one there. -/
theorem plucked_from_rows (r : Replies) (q : Query) (column : Text) :
    (∀ path v w, let names := path.splitOn (.char '.')
      valueAt path v = w ↔ Leads v names w ∨ w = .null ∧ ∀ u, ¬ Leads v names u) ∧
    (let got := (Step.read (.get (.list [.text column]))).run r q
      let plucked := (Step.read (.pluck (.text column) .null)).run r q
      plucked.session = got.session ∧
        ((∃ fault, got.answer = .error fault ∧ plucked.answer = .error fault) ∨
          ∃ found, r.rows.items = .ok found ∧ got.answer = .ok (.value (.list found)) ∧
            plucked.answer = .ok (.value (.list (found.map (valueAt column)))))) ∧
    ∀ key : Text,
      let got := (Step.read (.get (.list [.text column, .text key]))).run r q
      let plucked := (Step.read (.pluck (.text column) (.text key))).run r q
      plucked.session = got.session ∧
        ((∃ fault, got.answer = .error fault ∧ plucked.answer = .error fault) ∨
          ∃ found, r.rows.items = .ok found ∧ got.answer = .ok (.value (.list found)) ∧
            ((∃ row ∈ found, (valueAt key row).isHashable = false) →
              plucked.answer = .error .wrongType) ∧
            ((∀ row ∈ found, (valueAt key row).isHashable = true) →
              ∃ es, plucked.answer = .ok (.value (.map es)) ∧ IsKeyed column key found es) ∧
            ((∀ row ∈ found, rowKey key row = inDigits (valueAt key row)) ↔
              key = "_id" ∨ ∀ row ∈ found, ∀ hex, valueAt key row ≠ .objectId hex)) := by
  refine ⟨valueAt_eq_iff, ?_, fun key => ?_⟩
  · obtain ⟨hsession, hfault | ⟨found, hitems, hgot, hplucked⟩⟩ :=
      pluck_cases r (.text column) .null q
    · exact ⟨hsession, .inl hfault⟩
    · rw [Read.pluckFrom_null] at hplucked
      exact ⟨hsession, .inr ⟨found, hitems, hgot, hplucked⟩⟩
  · obtain ⟨hsession, hfault | ⟨found, hitems, hgot, hplucked⟩⟩ :=
      pluck_cases r (.text column) (.text key) q
    · exact ⟨hsession, .inl hfault⟩
    · rw [Read.pluckFrom_text] at hplucked
      refine ⟨hsession, .inr ⟨found, hitems, hgot, ?_, ?_, forall_rowKey_iff⟩⟩
      · rintro ⟨row, hrow, hkey⟩
        rw [if_neg fun h => Bool.noConfusion (hkey.symm.trans (h row hrow))] at hplucked
        exact hplucked
      · intro hkeys
        rw [if_pos hkeys] at hplucked
        exact ⟨_, hplucked, isKeyed_ofList column key found⟩

/-- Rows of which the last has the identifier of the first. -/
theorem plucked_from_rows_repeated :
    let row := fun (hex : String) (name : Text) =>
      Value.map [(.text "_id", .objectId hex), (.text "name", .text name)]
    let found := [row "0a" "x", row "0b" "y", row "0a" "z"]
    let plucked := (Step.read (.pluck (.text "name") (.text "_id"))).run
      { rows := .list found } { collection := {} }
    (∀ v ∈ found, (valueAt "_id" v).isHashable = true) ∧
      ∃ es, plucked.answer = .ok (.value (.map es)) ∧ IsKeyed "name" "_id" found es ∧
        keys es = [.text "0a", .text "0b"] := by
  intro row found plucked
  have hsegments : segments "_id" = ["_id"] := by decide
  have hid : ∀ hex name, valueAt "_id" (row hex name) = .objectId hex := fun hex name => by
    simp [valueAt, hsegments, Path.get, child, get?, row, Value.key, Value.equalsItself]
  have hkeys : ∀ v ∈ found, (valueAt "_id" v).isHashable = true := by
    simp [found, hid, Value.isHashable]
  have hgot : ((Step.read (.get (.list [.text "name", .text "_id"]))).run
      { rows := .list found } { collection := {} }).answer = .ok (.value (.list found)) := rfl
  obtain ⟨-, -, hkeyed⟩ := plucked_from_rows { rows := .list found } { collection := {} } "name"
  obtain ⟨-, ⟨fault, hfault, -⟩ | ⟨_, ⟨⟩, -, -, hmap, -⟩⟩ := hkeyed "_id"
  · cases hgot.symm.trans hfault
  · obtain ⟨es, hes, hkeyed⟩ := hmap hkeys
    refine ⟨hkeys, es, hes, hkeyed, ?_⟩
    rw [hkeyed.keys_eq]
    simp [found, rowKey, hid, inDigits, firsts, Value.key, Value.equalsItself]

/-- A row whose author has an identifier, by which its title is asked for. -/
theorem exists_identifier_key :
    ∃ (q : Query) (r : Replies) (row : Value) (hex : String), q.Reachable ∧
      r.rows = .list [row] ∧ valueAt "author._id" row = .objectId hex ∧
      ((Step.read (.pluck (.text "title") (.text "author._id"))).run r q).answer =
        .ok (.value (.map [(.objectId hex, .text "A")])) := by
  let hex := "5f1d7f3e9b1e8a0012345678"
  let row : Value := .map [(.text "title", .text "A"),
    (.text "author", .map [(.text "_id", .objectId hex)])]
  have hauthor : segments "author._id" = ["author", "_id"] := by decide
  have htitle : segments "title" = ["title"] := by decide
  have hkey : valueAt "author._id" row = .objectId hex := by
    simp [valueAt, hauthor, Path.get, child, get?, row, Value.key, Value.equalsItself]
  have hvalue : valueAt "title" row = .text "A" := by
    simp [valueAt, htitle, Path.get, child, get?, row, Value.key, Value.equalsItself]
  have hpluck : Read.pluckFrom [row] (.text "title") (.text "author._id") =
      .ok (.map [(.objectId hex, .text "A")]) := by
    rw [Read.pluckFrom_text, if_pos (by simp [hkey, Value.isHashable])]
    simp [pluckedEntry, rowKey, hkey, hvalue, ofList, update, Entries.insert]
  refine ⟨{ collection := {} }, { rows := .list [row] }, row, hex, .start _ _, rfl, hkey, ?_⟩
  obtain ⟨-, ⟨fault, hgot, -⟩ | ⟨found, hitems, -, hplucked⟩⟩ :=
    pluck_cases { rows := .list [row] } (.text "title") (.text "author._id") { collection := {} }
  · have hrows : ((Step.read (.get (.list [.text "title", .text "author._id"]))).run
        { rows := .list [row] } { collection := {} }).answer = .ok (.value (.list [row])) := rfl
    cases hrows.symm.trans hgot
  · obtain rfl : [row] = found := Except.ok.inj hitems
    rw [hplucked, hpluck]
    rfl

end DocQuery
