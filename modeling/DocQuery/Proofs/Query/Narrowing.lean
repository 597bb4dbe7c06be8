import DocQuery.Proofs.Predicate.Narrowing
import DocQuery.Proofs.Query.Sending

/-!
# Guards and identifiers

What the predicate that a query gets from an increment or from a given identifier asks for
(`compileFilter_guardOf`, `compileFilter_idPredicate`), and that a step which adds one sends no
filter that holds elsewhere than the query's own did: `holds_narrowed`.
-/

namespace DocQuery

open Predicate

variable {L : Reading} {p : Predicate} {es : Entries} {column id value : Value} {q : Query}
  {r : Replies}

theorem clause_basic_equals {c : Clause}
    (h : (basic column (.text "=") value).clause = .ok c) :
    ∃ isId operand, isIdColumn column = .ok isId ∧
      (if isId then value.withIdentifiers else value).asInstant = .ok operand ∧
        c = .equals column operand := by
  obtain ⟨variant, q, hk, hq, hc⟩ := clause_eq_ok_iff.mp h
  obtain rfl : Kind.basic = variant := by cases hk; rfl
  obtain ⟨-, operator, isId, _, operand, _, ho, hi, -, hv, -, rfl⟩ := canonical_eq_ok_iff.mp hq
  obtain rfl : Value.text "=" = operator := by cases ho; rfl
  obtain rfl : Clause.equals column operand = c := by cases hc; rfl
  refine ⟨isId, operand, hi, ?_, rfl⟩
  cases isId <;> exact hv

theorem clause_basic_exists {c : Clause}
    (h : (basic column (.text "exists") (.bool false)).clause = .ok c) :
    c = testClause column "$exists" (.bool false) := by
  obtain ⟨variant, q, hk, hq, hc⟩ := clause_eq_ok_iff.mp h
  obtain rfl : Kind.basic = variant := by cases hk; rfl
  obtain ⟨-, operator, isId, _, operand, _, ho, hi, -, hv, -, rfl⟩ := canonical_eq_ok_iff.mp hq
  obtain rfl : Value.text "exists" = operator := by cases ho; rfl
  obtain rfl : Value.bool false = operand := by cases isId <;> cases hv <;> rfl
  cases hc; rfl

theorem clause_isNull_not {connective : Value} {c : Clause}
    (h : (isNull column connective true).clause = .ok c) : c = testClause column "$ne" .null := by
  obtain ⟨variant, q, hk, hq, hc⟩ := clause_eq_ok_iff.mp h
  obtain rfl : Kind.notNull = variant := by cases hk; rfl
  obtain ⟨-, _, _, _, _, _, -, -, -, -, -, rfl⟩ := canonical_eq_ok_iff.mp hq
  cases hc; rfl

/-- The field is missing, or is not null. -/
def guardDocument (column : Value) : Entries :=
  [(Clause.anyKey, .list [.map [(column, .map (Entries.single "$exists" (.bool false)))],
    .map [(column, .map (Entries.single "$ne" .null))]])]

theorem render_testClause {operator : Text}
    (h : (testClause column operator value).render = .ok es) :
    es = [(column, .map (Entries.single operator value))] :=
  (Clause.render_tests_eq_ok_iff.mp h).2

theorem compileFilter_guardOf (h : compileFilter [Increment.guardOf column] = .ok es) :
    es = guardDocument column := by
  obtain ⟨c, hc, hd⟩ := (compileFilter_single_eq_ok_iff rfl).mp h
  obtain ⟨variant, q, hk, -, hc⟩ := clause_eq_ok_iff.mp hc
  obtain rfl : Kind.nested = variant := by cases hk; rfl
  obtain ⟨cs, hcs, rfl⟩ := map_eq_ok_iff.mp hc
  obtain ⟨missing, hmissing, hcs⟩ := bind_eq_ok_iff.mp hcs
  obtain ⟨_, hcs', hcs⟩ := bind_eq_ok_iff.mp hcs
  obtain ⟨present, hpresent, hcs'⟩ := bind_eq_ok_iff.mp hcs'
  cases hcs
  cases hcs'
  rw [clause_basic_exists hmissing, clause_isNull_not hpresent] at hd
  have hd : (Clause.document [.under true [testClause column "$exists" (.bool false),
    testClause column "$ne" .null]]).render = .ok es := hd
  rw [Clause.render_document_single] at hd
  obtain ⟨_, _ | ⟨h1, _ | ⟨h2, ⟨⟩⟩⟩, rfl⟩ := Clause.render_under_eq_ok_iff.mp hd
  rw [render_testClause h1, render_testClause h2]
  rfl

theorem holds_guardDocument : (guardDocument column).Holds L ↔
    L column (.map (Entries.single "$exists" (.bool false))) ∨
      L column (.map (Entries.single "$ne" .null)) := by
  refine (@Entries.holds_any L [[(column, .map (Entries.single "$exists" (.bool false)))],
    [(column, .map (Entries.single "$ne" .null))]]).trans ?_
  simp [Entries.holds_single, entryHolds_map]

/-- An identifier in its canonical form. -/
def canonicalId (id : Value) : Except Fault Value :=
  id.withIdentifiers.asInstant

theorem isOr_idPredicate (id : Value) : (idPredicate id).isOr = false := by
  unfold idPredicate Query.testPredicate
  split <;> rfl

theorem compileFilter_idPredicate (hid : id ≠ .missing)
    (h : compileFilter [idPredicate id] = .ok es) :
    ∃ v, canonicalId id = .ok v ∧ es = [(.text "_id", v)] := by
  obtain ⟨c, hc, hd⟩ := (compileFilter_single_eq_ok_iff (isOr_idPredicate id)).mp h
  unfold idPredicate Query.testPredicate at hc
  rw [if_neg hid] at hc
  obtain ⟨isId, v, hi, hv, rfl⟩ := clause_basic_equals hc
  obtain rfl : true = isId := by cases hi; rfl
  exact ⟨v, hv, (Clause.render_equals_eq_ok_iff.mp hd).2⟩

/-- Each filter that a step sends holds exactly where the query's own filter and a further document
hold, one of those that are asked for. -/
def Narrows (q : Query) (step : Step) (r : Replies) (asked : Entries → Prop) : Prop :=
  ∀ c ∈ (step.run r q).session.calls, c.name ≠ "to_list" →
    ∃ earlier more sent, q.filter = .ok earlier ∧ asked more ∧ c.filter = some sent ∧
      ∀ L, sent.Holds L ↔ earlier.Holds L ∧ more.Holds L

theorem narrows_of_onlySends {a : Run Query Value} {step : Step} {asked : Entries → Prop}
    (hp : p.isOr = false) (ha : step.action r = do return .value (← a))
    (hs : OnlySends q a (q.predicates ++ [p]))
    (hasked : ∀ own, compileFilter [p] = .ok own → asked own) : Narrows q step r asked := by
  intro c hc hname
  obtain ⟨sent, hsent, hf⟩ := carries_of_onlySends hs ha c hc hname
  obtain ⟨⟨earlier, hearlier⟩, own, hown⟩ := exists_compileFilter_of_append hsent
  exact ⟨earlier, own, sent, hearlier, hasked own hown, hf,
    fun L => holds_append_iff hp hearlier hown hsent⟩

theorem guard_of_add {column amount extra : Value} {i : Increment}
    (h : Increment.add column amount extra = .ok i) : i.guard = Increment.guardOf column := by
  unfold Increment.add at h
  obtain ⟨-, -, h⟩ := bind_eq_ok_iff.mp h
  dsimp only at h
  split at h <;> obtain ⟨further, -, h⟩ := bind_eq_ok_iff.mp h <;> rw [← pure_eq_ok_iff.mp h]

theorem guard_of_subtract {column amount extra : Value} {i : Increment}
    (h : Increment.subtract column amount extra = .ok i) :
    i.guard = Increment.guardOf column := by
  obtain ⟨_, -, h⟩ := bind_eq_ok_iff.mp h
  exact guard_of_add h

theorem narrows_guarded {a : Run Query Value} {step : Step}
    (ha : step.action r = do return .value (← a))
    (hs : OnlySends q a (q.predicates ++ [Increment.guardOf column])) :
    Narrows q step r fun more => more = guardDocument column :=
  narrows_of_onlySends rfl ha hs fun _ hown => compileFilter_guardOf hown

theorem narrows_increment (column amount extra options : Value) :
    Narrows q (.write (.increment column amount extra options)) r
      fun more => more = guardDocument column := by
  refine narrows_guarded rfl (onlySends_guarded fun i hi => ?_)
  rw [Increment.applyGuard, guard_of_add hi]

theorem narrows_decrement (column amount extra options : Value) :
    Narrows q (.write (.decrement column amount extra options)) r
      fun more => more = guardDocument column := by
  refine narrows_guarded rfl (onlySends_guarded fun i hi => ?_)
  rw [Increment.applyGuard, guard_of_subtract hi]

theorem narrows_find (columns : Value) (hid : id ≠ .missing) :
    Narrows q (.read (.find id columns)) r
      fun more => ∃ v, canonicalId id = .ok v ∧ more = [(.text "_id", v)] := by
  have hid' : id.withIdentifiers ≠ .missing := by
    cases id with
    | text s =>
      rw [Value.withIdentifiers]
      split <;> simp
    | missing => exact absurd rfl hid
    | _ => simp [Value.withIdentifiers]
  refine narrows_of_onlySends (isOr_idPredicate _) rfl (onlySends_find id columns)
    fun own hown => ?_
  obtain ⟨v, hv, h⟩ := compileFilter_idPredicate hid' hown
  rw [canonicalId, Value.withIdentifiers_withIdentifiers] at hv
  exact ⟨v, hv, h⟩

theorem narrows_delete (hid : id ≠ .missing) (hnull : id ≠ .null) :
    Narrows q (.write (.delete id)) r
      fun more => ∃ v, canonicalId id = .ok v ∧ more = [(.text "_id", v)] :=
  narrows_of_onlySends (isOr_idPredicate id) rfl (onlySends_delete hnull)
    fun _ hown => compileFilter_idPredicate hid hown

theorem holds_applyGuard_iff {i : Increment} {ps : List Predicate} {doc guarded : Entries}
    (hi : i.guard = Increment.guardOf column) (hdoc : compileFilter ps = .ok doc)
    (hguarded : compileFilter (i.applyGuard ps) = .ok guarded) :
    guarded.Holds L ↔ doc.Holds L ∧ (L column (.map (Entries.single "$exists" (.bool false))) ∨
      L column (.map (Entries.single "$ne" .null))) := by
  rw [Increment.applyGuard, hi] at hguarded
  obtain ⟨-, own, hown⟩ := exists_compileFilter_of_append hguarded
  rw [holds_append_iff rfl hdoc hown hguarded, compileFilter_guardOf hown, holds_guardDocument]

/-- A conjunctive predicate at the end of a list narrows it; so does the guard of an increment, and
so does the identifier that is given to find or to delete documents. -/
theorem holds_narrowed :
    (∀ (L : Reading) (ps : List Predicate) (g : Predicate) (doc own whole : Entries),
      g.isOr = false → compileFilter ps = .ok doc → compileFilter [g] = .ok own →
        compileFilter (ps ++ [g]) = .ok whole →
          (whole.Holds L ↔ doc.Holds L ∧ own.Holds L)) ∧
    (∀ (L : Reading) (column amount extra : Value) (i : Increment),
      Increment.add column amount extra = .ok i ∨ Increment.subtract column amount extra = .ok i →
        ∀ (ps : List Predicate) (doc guarded : Entries), compileFilter ps = .ok doc →
          compileFilter (i.applyGuard ps) = .ok guarded →
            (guarded.Holds L ↔ doc.Holds L ∧
              (L column (.map (Entries.single "$exists" (.bool false))) ∨
                L column (.map (Entries.single "$ne" .null))))) ∧
    (∀ (q : Query) (r : Replies) (column amount extra options : Value),
      Narrows q (.write (.increment column amount extra options)) r
          (fun more => more = guardDocument column) ∧
        Narrows q (.write (.decrement column amount extra options)) r
          fun more => more = guardDocument column) ∧
    (∀ (q : Query) (r : Replies) (id columns : Value), id ≠ .missing →
      Narrows q (.read (.find id columns)) r
        fun more => ∃ v, canonicalId id = .ok v ∧ more = [(.text "_id", v)]) ∧
    (∀ (q : Query) (r : Replies) (id : Value), id ≠ .missing → id ≠ .null →
      Narrows q (.write (.delete id)) r
        fun more => ∃ v, canonicalId id = .ok v ∧ more = [(.text "_id", v)]) := by
  refine ⟨fun L ps g doc own whole hg hdoc hown hwhole => holds_append_iff hg hdoc hown hwhole,
    fun L column amount extra i hi ps doc guarded hdoc hguarded => ?_,
    fun q r column amount extra options => ⟨narrows_increment column amount extra options,
      narrows_decrement column amount extra options⟩,
    fun q r id columns hid => narrows_find columns hid,
    fun q r id hid hnull => narrows_delete hid hnull⟩
  have hguard : i.guard = Increment.guardOf column := by
    rcases hi with hi | hi
    · exact guard_of_add hi
    · exact guard_of_subtract hi
  exact holds_applyGuard_iff hguard hdoc hguarded

/-- A disjunctive predicate that is narrowed by a conjunctive one, by a guard, and by an identifier
in the calls that find a document and delete it. -/
theorem holds_narrowed_or :
    let L : Reading := fun k _ => k = .text "a"
    let ps := [basic (.text "a") (.text "=") (.int 1) byOr]
    let g := basic (.text "b") (.text "=") (.int 2)
    let doc : Entries := [(.text "$or", .list [.map [(.text "a", .int 1)]])]
    let whole : Entries := doc ++ [(.text "$and", .list [.map [(.text "b", .int 2)]])]
    let guarded : Entries := doc ++ [(.text "$and", .list [.map (guardDocument (.text "n"))])]
    let i : Increment :=
      { update := [(.text "$inc", .map [(.text "n", .int 1)])]
        guard := Increment.guardOf (.text "n") }
    let q : Query := { collection := {}, predicates := ps }
    let find : Step := .read (.find (.int 7) .null)
    let delete : Step := .write (.delete (.int 7))
    let identified : Entries := doc ++ [(.text "$and", .list [.map [(.text "_id", .int 7)]])]
    let narrowed := identified.Holds L ↔ doc.Holds L ∧ Entries.Holds L [(.text "_id", .int 7)]
    (compileFilter ps = .ok doc ∧ compileFilter (ps ++ [g]) = .ok whole ∧
      (whole.Holds L ↔ doc.Holds L ∧ Entries.Holds L [(.text "b", .int 2)])) ∧
    (compileFilter (i.applyGuard ps) = .ok guarded ∧ (guarded.Holds L ↔ doc.Holds L ∧
      (L (.text "n") (.map (Entries.single "$exists" (.bool false))) ∨
        L (.text "n") (.map (Entries.single "$ne" .null))))) ∧
    (∃ c, (find.run {} q).session.calls = [c, fetchCall] ∧ c.filter = some identified ∧ narrowed) ∧
    (delete.run {} q).session.calls = [deleteCall identified] ∧ narrowed := by
  intro L ps g doc whole guarded i q find delete identified narrowed
  obtain ⟨append, guard, -, finds, deletes⟩ := holds_narrowed
  refine ⟨⟨rfl, rfl, append L ps g doc _ whole rfl rfl rfl rfl⟩,
    ⟨rfl, guard L _ (.int 1) .null i (.inl rfl) ps doc guarded rfl rfl⟩, ⟨_, rfl, rfl, ?_⟩, rfl, ?_⟩
  · obtain ⟨_, _, _, hearlier, ⟨v, hv, rfl⟩, hsent, hholds⟩ :=
      finds q {} (.int 7) .null (by simp) _ List.mem_cons_self (by decide)
    cases hearlier
    cases hv
    cases hsent
    exact hholds L
  · obtain ⟨_, _, _, hearlier, ⟨v, hv, rfl⟩, hsent, hholds⟩ :=
      deletes q {} (.int 7) (by simp) (by simp) _ List.mem_cons_self (by decide)
    cases hearlier
    cases hv
    cases hsent
    exact hholds L

end DocQuery
