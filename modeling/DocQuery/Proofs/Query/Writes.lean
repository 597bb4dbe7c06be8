import DocQuery.Proofs.Query.Gathered

/-!
# What writes leave behind

A write that sends a guard or the predicate of an identifier has put it into the query first, and
the query keeps it, also where the filter cannot be had or the store fails. Any other write leaves
the query alone. `write_preserves_iff` says when the filter is afterwards what it was.
-/

namespace DocQuery

open Predicate

variable {q : Query} {p : Predicate} {f : Entries} {column : Value}

theorem compileFilter_guardOf_ne (h : compileFilter [Increment.guardOf column] = .ok f) :
    f ≠ [] := by
  rw [compileFilter_guardOf h]
  simp [guardDocument]

namespace Query

/-- What a write adds is always seen in a filter. -/
theorem filter_added_ne {w : Write} (hp : w.added? = some p)
    (h : (q.addPredicate p).filter = .ok f) : q.filter ≠ .ok f := by
  rcases added_cases hp with ⟨column, rfl⟩ | ⟨id, rfl⟩
  · exact filter_ne_of_seen rfl (fun _ => compileFilter_guardOf_ne) h
  · exact filter_addPredicate_ne h

theorem Gathered.filter_after_iff (h : q.Gathered) (w : Write) :
    (w.after q).filter = q.filter ↔ w.added? = none ∨ ∃ fault, q.filter = .error fault := by
  cases hp : w.added? with
  | none => exact iff_of_true (by rw [Write.after_of_none hp]) (.inl rfl)
  | some p =>
    rw [Write.after_of_some hp]
    cases hf : q.filter with
    | error fault => exact iff_of_true (h.filter_of_error hf p) (.inr ⟨fault, rfl⟩)
    | ok f => exact iff_of_false (fun h => filter_added_ne hp h hf) (by simp)

end Query

/-- A write leaves the shape as it was, whether or not it succeeds. The filter is what it was where
the write adds no predicate and where there was no filter; else the guard of an increment that can
be built, or the predicate of a given identifier, stays and is seen. -/
theorem write_preserves_iff (hq : q.Reachable) (w : Write) (r : Replies) :
    let after := ((Step.write w).run r q).session.subject
    (∀ columns, after.shape columns = q.shape columns) ∧
      (after.filter = q.filter ↔ w.added? = none ∨ ∃ fault, q.filter = .error fault) ∧
      (w.added? = none → after = q) ∧
      ∀ p, w.added? = some p → after = q.addPredicate p ∧
        ((∃ column, p = Increment.guardOf column) ∨ ∃ id, p = idPredicate id) := by
  intro after
  have hafter : after = w.after q := Step.subject_write w r q
  have hadded : ∀ p, w.added? = some p → after = q.addPredicate p :=
    fun p hp => hafter.trans (Write.after_of_some hp)
  have hnone : w.added? = none → after = q := fun h => hafter.trans (Write.after_of_none h)
  refine ⟨fun columns => ?_, ?_, hnone, fun p hp => ⟨hadded p hp, Query.added_cases hp⟩⟩
  · obtain ⟨ps, hps⟩ := w.exists_after_eq q
    rw [hafter, hps]
    rfl
  · rw [hafter]
    exact hq.gathered.filter_after_iff w

/-- An increment that the store refuses. -/
theorem write_preserves_iff_refused :
    let start : Query := { collection := {} }
    let q := ((Refinement.test (.text "a") (.int 1) .missing Predicate.byAnd).apply start).query
    let w : Write := .increment (.text "views") (.int 1) .null .null
    let e : StoreError := { origin := .driver, name := "PyMongoError", message := "down" }
    let outcome := (Step.write w).run { failure := some { error := e } } q
    q.Reachable ∧ outcome.answer = .error (.raised e) ∧
      outcome.session.subject = q.addPredicate (Increment.guardOf (.text "views")) ∧
      outcome.session.subject.filter ≠ q.filter := by
  intro start q w e outcome
  have hq : q.Reachable := Query.Reachable.apply (.start _ _) _
  have hadded : w.added? = some (Increment.guardOf (.text "views")) := rfl
  have hf : q.filter = .ok [(.text "a", .int 1)] := rfl
  obtain ⟨-, hiff, -, hafter⟩ := write_preserves_iff hq w { failure := some { error := e } }
  refine ⟨hq, rfl, (hafter _ hadded).1, fun hsame => ?_⟩
  rcases hiff.mp hsame with hnone | ⟨fault, herror⟩
  · exact nomatch hadded.symm.trans hnone
  · exact nomatch hf.symm.trans herror

/-- Writes that fail and leave a predicate behind: two are refused by the store, and one has no
filter because of its own guard, nor has the query afterwards. -/
theorem exists_left_predicates :
    ∃ (q : Query) (r : Replies) (refused missing : Fault), q.Reachable ∧ q.filter = .ok [] ∧
      let increment (column : String) : Step :=
        .write (.increment (.text column) (.int 1) .null .null)
      let added := (increment "views").run r q
      let deleted := (Step.write (.delete (.int 7))).run r q
      let unnamed := (increment "").run {} q
      (added.answer = .error refused ∧
          added.session.subject.filter = .ok (guardDocument (.text "views"))) ∧
        (deleted.answer = .error refused ∧
          deleted.session.subject.filter = .ok [(.text "_id", .int 7)]) ∧
        unnamed.answer = .error missing ∧ unnamed.session.subject.filter = .error missing := by
  let e : StoreError := { origin := .driver, name := "PyMongoError", message := "down" }
  exact ⟨{ collection := {} }, { failure := some { error := e } }, .raised e, _, .start _ _, rfl,
    ⟨rfl, rfl⟩, ⟨rfl, rfl⟩, rfl, rfl⟩

end DocQuery
