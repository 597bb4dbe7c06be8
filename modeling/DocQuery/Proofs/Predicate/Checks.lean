import DocQuery.Proofs.Predicate.Preorder
import DocQuery.Proofs.Predicate.Single

/-!
# The checks of a tree of predicates

To compile a list is to check the predicates of its tree one by one, in the order of
`Predicate.preorderAll` (`discard_clauses`). So a list has clauses exactly when each predicate of
its tree passes its own check (`exists_clauses_iff`), and otherwise fails as the first one that does
not (`compileFilter_of_first`).
-/

namespace DocQuery

namespace Predicate
variable {p q : Predicate} {ps before after : List Predicate} {c : Clause} {k : Kind} {e : Fault}

/-- The check of a predicate by itself: its group counts as one that can be compiled. -/
def check (p : Predicate) : Except Fault Unit :=
  p.kind? >>= fun k => p.canonical k >>= fun q => discard (q.clauseOfKind (.ok (.document [])) k)

theorem clauseOfKind_congr (hk : k ≠ .nested) (group group' : Except Fault Clause) :
    q.clauseOfKind group k = q.clauseOfKind group' k := by
  cases k <;> first | rfl | exact absurd rfl hk

theorem check_of_nested (h : p.kind? = .ok .nested) : p.check = discard (p.canonical .nested) := by
  rw [check, h]
  show (p.canonical .nested >>= fun q => _) = _
  cases p.canonical .nested <;> rfl

theorem check_of_ne_nested (h : p.kind? ≠ .ok .nested) : p.check = discard p.clause := by
  rw [check, clause_eq]
  cases hk : p.kind? with
  | error e => rfl
  | ok k =>
    have hne : k ≠ .nested := by rintro rfl; exact h hk
    show (p.canonical k >>= fun q => _) = discard (p.canonical k >>= fun q => _)
    rw [discard_bind]
    have hgroup : ∀ q : Predicate,
        q.clauseOfKind (.ok (.document [])) k = q.clauseOfKind (compile p.group) k :=
      fun _ => clauseOfKind_congr hne _ _
    simp only [hgroup]

theorem discard_clause_of_nested (h : p.kind? = .ok .nested) :
    discard p.clause = p.check >>= fun _ => discard (clauses p.group) := by
  rw [check_of_nested h, clause_eq, h]
  show discard (p.canonical .nested >>= fun q => compile p.group) = _
  rw [discard_bind, compile, discard_map]
  cases p.canonical .nested <;> rfl

theorem discard_clauses_cons (p : Predicate) (ps : List Predicate) :
    discard (clauses (p :: ps)) = discard p.clause >>= fun _ => discard (clauses ps) := by
  rw [clauses, discard_bind]
  cases p.clause with
  | error e => rfl
  | ok c =>
    show discard (clauses ps >>= fun cs => pure (c :: cs)) = discard (clauses ps)
    cases clauses ps <;> rfl

theorem discard_clauses_of (h : ∀ p ∈ ps, discard p.clause = forM p.preorder check) :
    discard (clauses ps) = forM (preorderAll ps) check := by
  induction ps with
  | nil => rfl
  | cons p ps ih =>
    rw [discard_clauses_cons, h p (by simp), ih fun q hq => h q (by simp [hq]), preorderAll,
      List.forM_append]

/-- By induction on the tree: a group is checked after the predicate that has it. -/
theorem discard_clause : ∀ p : Predicate, discard p.clause = forM p.preorder check := by
  refine of_groups fun p ih => ?_
  by_cases hk : p.kind? = .ok .nested
  · rw [discard_clause_of_nested hk, preorder_of_nested hk, List.forM_cons, discard_clauses_of ih]
  · rw [preorder_of_ne_nested hk, List.forM_cons, check_of_ne_nested hk]
    cases p.clause <;> rfl

theorem discard_clauses (ps : List Predicate) :
    discard (clauses ps) = forM (preorderAll ps) check :=
  discard_clauses_of fun p _ => discard_clause p

/-- A list has clauses when each predicate of its tree passes. -/
theorem exists_clauses_iff :
    (∃ cs, clauses ps = .ok cs) ↔ ∀ p ∈ preorderAll ps, p.check = .ok () := by
  rw [← discard_eq_ok_iff, discard_clauses, forM_eq_ok_iff]

theorem clauses_eq_error_iff : clauses ps = .error e ↔
    ∃ before p after, preorderAll ps = before ++ p :: after ∧ (∀ q ∈ before, q.check = .ok ()) ∧
      p.check = .error e := by
  rw [← discard_eq_error_iff, discard_clauses, forM_eq_error_iff]

theorem compileFilter_of_clauses (h : clauses ps = .error e) : compileFilter ps = .error e := by
  rw [compileFilter, compile, h]
  rfl

/-- A list fails as the first predicate of its tree that does not pass. -/
theorem compileFilter_of_first (htree : preorderAll ps = before ++ p :: after)
    (hbefore : ∀ q ∈ before, q.check = .ok ()) (hp : p.check = .error e) :
    compileFilter ps = .error e :=
  compileFilter_of_clauses (clauses_eq_error_iff.mpr ⟨before, p, after, htree, hbefore, hp⟩)

end Predicate

end DocQuery
