import DocQuery.Proofs.Predicate.Meaning
import DocQuery.Proofs.Predicate.Preorder

/-!
# Groups around a whole list

A group that is alone in its list and not disjunctive has the clause of its own list, however deep
that lies, and fails as it fails: `compile_inGroups`. What a list compiles to is joined clause by
clause to an empty document when it is taken out of its group, and that leaves it as it is
(`merge_compile`).
-/

namespace DocQuery

namespace Predicate
variable {p : Predicate} {ps : List Predicate} {c : Clause} {cs : List Clause}

/-- The list in groups, one in the other, the outermost with the first connective. -/
def inGroups (connectives : List Value) (ps : List Predicate) : List Predicate :=
  connectives.foldr (fun connective qs => [nested qs connective]) ps

theorem clause_nested (ps : List Predicate) (connective : Value) :
    (nested ps connective).clause = compile ps := by
  rw [clause_eq]
  rfl

theorem compareAll_nil_gathered (l : List Joined) : Clause.compareAll [] (gathered l) = .ok () := by
  generalize hb : (l.head?.map (·.1)).getD false = b
  rw [gathered, hb]
  cases joinedBy b l <;> cases joinedBy (!b) l <;> cases b <;> rfl

theorem compareAll_nil_assemble (hlen : cs.length = ps.length)
    (hn : ∀ c ∈ cs, Clause.Normal c.clauses)
    (h : ∀ c ∈ cs, Clause.compareAll [] c.clauses = .ok ()) :
    Clause.compareAll [] (assemble (disjunctive ps) cs).clauses = .ok () := by
  match ps, cs with
  | [], [] => rfl
  | [p], [c] =>
    have hd : disjunctive [p] = [p.isOr] := rfl
    rw [hd]
    cases p.isOr with
    | true => rfl
    | false =>
      rw [assemble_single_and (hn c (by simp))]
      exact h c (by simp)
  | p :: q :: ps, c :: c' :: cs =>
    rw [assemble_eq_gathered (by simp)]
    exact compareAll_nil_gathered _

/-- By induction on the tree: a group that is alone passes on the clauses of its own list, and all
other clauses side by side are a conjunction and a disjunction, whose keys are known. -/
theorem compareAll_nil_of_clause :
    ∀ (p : Predicate) (c : Clause), p.clause = .ok c → Clause.compareAll [] c.clauses = .ok () := by
  refine of_groups fun p ih c hc => ?_
  obtain ⟨kind, q, -, -, hq⟩ := clause_eq_ok_iff.mp hc
  by_cases hkind : kind = .nested
  · subst hkind
    obtain ⟨cs, hcs, rfl⟩ := map_eq_ok_iff.mp hq
    refine compareAll_nil_assemble (length_of_clauses hcs) (normal_of_clauses hcs) fun c hc => ?_
    obtain ⟨g, hg, hgc⟩ := exists_clause_of_mem hcs hc
    exact ih g hg c hgc
  · rw [clauses_of_clauseOfKind hkind hq]
    rfl

theorem document_clauses_of_compile (h : compile ps = .ok c) : .document c.clauses = c := by
  obtain ⟨cs, -, rfl⟩ := map_eq_ok_iff.mp h
  rw [assemble, Clause.foldl_join]
  rfl

theorem merge_compile (h : compile ps = .ok c) : (Clause.document []).merge c = .ok c := by
  have hcompare : Clause.compareAll [] c.clauses = .ok () :=
    compareAll_nil_of_clause (nested ps) c ((clause_nested ps byAnd).trans h)
  have hjoin : (Clause.document []).join c = c := by
    rw [Clause.join, show (Clause.document []).clauses = [] from rfl,
      Clause.foldl_addTo_nil_of_normal (normal_of_compile h), document_clauses_of_compile h]
  show (Clause.compareAll [] c.clauses >>= fun _ => pure ((Clause.document []).join c)) = _
  rw [hcompare, hjoin]
  rfl

theorem compile_nested {connective : Value} (h : (nested [] connective).isOr = false)
    (ps : List Predicate) : compile [nested ps connective] = compile ps := by
  have hsingle : compile [nested ps connective] =
      (nested ps connective).clause.map fun c => assemble [false] [c] := by
    have hor : disjunctive [nested ps connective] = [false] := congrArg (fun b => [b]) h
    rw [compile, hor]
    show Except.map _ ((nested ps connective).clause >>= fun c => pure [c]) = _
    cases (nested ps connective).clause <;> rfl
  rw [hsingle, clause_nested]
  cases hc : compile ps with
  | error e => rfl
  | ok c =>
    show Except.ok (assemble [false] [c]) = _
    rw [assemble_single_and (normal_of_compile hc), document_clauses_of_compile hc]

end Predicate

open Predicate

/-- A group around a whole list changes nothing, nor does any number of them that are not
disjunctive; what the list compiles to is itself when it is merged into an empty document. -/
theorem compile_inGroups (ps : List Predicate) :
    compile [nested ps] = compile ps ∧
      (∀ c, compile ps = .ok c → (Clause.document []).merge c = .ok c) ∧
      ∀ connectives, (∀ b ∈ connectives, (nested [] b).isOr = false) →
        compile (inGroups connectives ps) = compile ps := by
  refine ⟨compile_nested rfl ps, fun c => merge_compile, fun connectives h => ?_⟩
  induction connectives with
  | nil => rfl
  | cons b connectives ih =>
    obtain ⟨hb, hrest⟩ := List.forall_mem_cons.mp h
    exact (compile_nested hb _).trans (ih hrest)

/-- Two groups around a disjunction whose second part is a group itself. -/
theorem compile_inGroups_disjunction :
    let connectives : List Value := [.text "AND", .member (.connective .and)]
    let adult := basic (.text "age") (.text ">=") (.int 18)
    let ps := [adult, nested [.isNull (.text "city"), adult] byOr]
    (∀ b ∈ connectives, (nested [] b).isOr = false) ∧
      inGroups connectives ps = [nested [nested ps] (.text "AND")] ∧
      compile [nested [nested ps] (.text "AND")] = compile ps ∧
      ∃ c, compile ps = .ok c ∧ (Clause.document []).merge c = .ok c := by
  intro connectives adult ps
  have hconnectives : ∀ b ∈ connectives, (nested [] b).isOr = false := by decide +kernel
  exact ⟨hconnectives, rfl, (compile_inGroups ps).2.2 connectives hconnectives, _, rfl,
    (compile_inGroups ps).2.1 _ rfl⟩

end DocQuery
