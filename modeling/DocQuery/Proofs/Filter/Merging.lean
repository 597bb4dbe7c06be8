import DocQuery.Proofs.Filter.Keys

/-!
# Documents under merging

A document is `Clause.IsNormal` where no two of its clauses are of one kind. Such documents are a
monoid under merging, the empty document being its unit: `merge_monoid`.
-/

namespace DocQuery.Clause

/-- Both are conjunctions, both are disjunctions, or both are tests of one field. -/
inductive SameKind : Clause → Clause → Prop
  | all (cs ds : List Clause) : SameKind (.all cs) (.all ds)
  | any (cs ds : List Clause) : SameKind (.any cs) (.any ds)
  | tests (field : Value) (operators more : Entries) :
      SameKind (.tests field operators) (.tests field more)

/-- No two clauses of the document are of one kind. What is no document is a single clause. -/
def IsNormal (c : Clause) : Prop :=
  c.clauses.Pairwise fun d e => ¬ SameKind d e

variable {a b c d : Clause} {cs ds : List Clause}

/-- Clauses are combined where they are of one kind, and only there. -/
theorem combine_eq_none_iff (hc : c.WellFormed) (hd : d.WellFormed) :
    c.combine d = none ↔ ¬ SameKind c d := by
  constructor
  · intro h hsame
    cases hsame with
    | all | any => exact absurd h (Option.some_ne_none _)
    | tests field operators more =>
      cases hc with
      | tests field hops =>
        have hself : (Value.text field).sameKey (.text field) = true :=
          Value.sameKey_text.trans (beq_self_eq_true field)
        rw [combine, if_pos hself] at h
        exact absurd h (Option.some_ne_none _)
  · intro h
    revert h
    fun_cases combine c d with
    | case1 cs ds => exact fun h => absurd (.all cs ds) h
    | case2 cs ds => exact fun h => absurd (.any cs ds) h
    | case3 f ops g more hfg =>
      cases hc with
      | tests f hops => cases hd with
        | tests g hmore =>
          obtain rfl : f = g := by simpa using hfg
          exact fun h => absurd (.tests _ ops more) h
    | case4 | case5 => exact fun _ => rfl

theorem isNormal_iff (h : c.WellFormed) : c.IsNormal ↔ Normal c.clauses :=
  List.Pairwise.iff_of_mem fun {_ _} hd he =>
    (combine_eq_none_iff (h.forall_clauses _ hd) (h.forall_clauses _ he)).symm

theorem WellFormed.hasDistinctOperators (h : c.WellFormed) : c.HasDistinctOperators := by
  cases h with
  | tests field hops => exact hops
  | _ => trivial

theorem isNormal_join (hc : c.WellFormed) (hd : d.WellFormed) (h : c.IsNormal) :
    (c.join d).IsNormal := by
  rw [isNormal_iff (wellFormed_join hc hd)]
  exact normal_foldl_addTo ((isNormal_iff hc).mp h) d.clauses

theorem document_nil_join (h : Normal cs) : (document []).join (document cs) = document cs :=
  congrArg document (foldl_addTo_nil_of_normal h)

theorem join_assoc (hb : b.WellFormed) (hc : c.WellFormed) (h : b.IsNormal) (a : Clause) :
    (a.join b).join c = a.join (b.join c) := by
  have hbs := (isNormal_iff hb).mp h
  have hassoc := coherent_combine.foldl_addJoining_assoc hbs
    (fun d hd => (hb.forall_clauses d hd).hasDistinctOperators)
    (fun d hd => (hc.forall_clauses d hd).hasDistinctOperators) a.clauses
  rw [← addTo_eq] at hassoc
  exact congrArg document hassoc

/-- Merging keeps normal documents normal. The empty document is its unit, and it is associative
where the clause in the middle is normal. -/
theorem merge_monoid :
    (∀ l r : Clause, l.WellFormed → r.WellFormed → l.IsNormal →
      ∃ cs, l.merge r = .ok (document cs) ∧ (document cs).IsNormal) ∧
    (∀ cs, (document cs).WellFormed → (document cs).merge (document []) = .ok (document cs) ∧
      ((document cs).IsNormal → (document []).merge (document cs) = .ok (document cs))) ∧
    ∀ a b c : Clause, a.WellFormed → b.WellFormed → c.WellFormed → b.IsNormal →
      ∃ ab bc abc, a.merge b = .ok ab ∧ b.merge c = .ok bc ∧
        ab.merge c = .ok abc ∧ a.merge bc = .ok abc := by
  have hempty : (document []).WellFormed := .document (by simp)
  refine ⟨?_, ?_, ?_⟩
  · intro l r hl hr hn
    exact ⟨_, merge_eq_ok hl hr, isNormal_join hl hr hn⟩
  · intro cs hcs
    constructor
    · rw [merge_eq_ok hcs hempty]
      rfl
    · intro hn
      have hnormal : Normal cs := (isNormal_iff hcs).mp hn
      rw [merge_eq_ok hempty hcs, document_nil_join hnormal]
  · intro a b c ha hb hc hn
    have hleft := merge_eq_ok (wellFormed_join ha hb) hc
    have hright := merge_eq_ok ha (wellFormed_join hb hc)
    rw [← join_assoc hb hc hn] at hright
    exact ⟨_, _, _, merge_eq_ok ha hb, merge_eq_ok hb hc, hleft, hright⟩

/-- Tests of one field on either side of a document, and disjunctions around it. -/
theorem merge_monoid_tests :
    let is (v : Text) : Clause := equals (.text "city") (.text v)
    let age (operator : Text) (v : Int) : Clause :=
      tests (.text "age") [(.text operator, .int v)]
    let a := age "$gte" 18
    let b := document [any [is "Oslo"], age "$lt" 65]
    let c := document [age "$gte" 21, any [is "Bergen"]]
    a.WellFormed ∧ b.WellFormed ∧ c.WellFormed ∧ b.IsNormal ∧
      ∃ ab bc, a.merge b = .ok ab ∧ b.merge c = .ok bc ∧
        ab.merge c = a.merge bc ∧ ab.merge c = .ok (document [
          tests (.text "age") [(.text "$gte", .int 21), (.text "$lt", .int 65)],
          any [is "Oslo", is "Bergen"]]) := by
  intro is age a b c
  have hage : ∀ operator v, (age operator v).WellFormed := fun _ _ =>
    .tests "age" (Entries.distinct_single _ _)
  have hany : ∀ v, (any [is v]).WellFormed := fun v =>
    .any (by simpa using .equals "city" (.text v))
  have hb : b.WellFormed := .document (by simp [hage, hany])
  have hc : c.WellFormed := .document (by simp [hage, hany])
  have hn : b.IsNormal := List.pairwise_pair.mpr (nomatch ·)
  obtain ⟨ab, bc, abc, hab, hbc, hleft, hright⟩ := merge_monoid.2.2 a b c (hage _ _) hb hc hn
  obtain rfl : _ = ab := Except.ok.inj hab
  obtain rfl : _ = bc := Except.ok.inj hbc
  exact ⟨hage _ _, hb, hc, hn, _, _, hab, hbc, hleft.trans hright.symm, rfl⟩

end DocQuery.Clause
