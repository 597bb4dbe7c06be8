import DocQuery.Predicate.Canonical
import DocQuery.Proofs.Predicate.Gathering
import DocQuery.Proofs.Predicate.Single

/-!
# What predicates mean

The meaning of a list of predicates under a reading of single filter entries, by the list alone
(`Predicate.listMeaning`): all of the conjunctive ones and, if there are any, one of the disjunctive
ones; a nested predicate means its own list. `holds_compileFilter_iff` says that the filter document
of a list holds exactly when the list's meaning is true.
-/

namespace DocQuery

namespace Predicate

/-- Whether the predicate at a place of a list is disjunctive: by its own connective, or as the
first one of a list whose second one is. -/
def JoinedByOr (own : List Bool) (i : Nat) : Prop :=
  own[i]? = some true ∨ i = 0 ∧ own[1]? = some true

instance (own : List Bool) (i : Nat) : Decidable (JoinedByOr own i) :=
  inferInstanceAs (Decidable (_ ∨ _))

/-- The meaning of a list, by which of its predicates have a disjunctive connective of their own and
by what each of them means. -/
def jointMeaning (own : List Bool) : List Prop → Prop
  | [] => True
  | [m] => m
  | ms => (∀ i m, ms[i]? = some m → ¬ JoinedByOr own i → m) ∧
      ((∃ i < ms.length, JoinedByOr own i) → ∃ i m, ms[i]? = some m ∧ JoinedByOr own i ∧ m)

/-- The document of the predicate's only clause holds. -/
def ClauseHolds (L : Reading) (p : Predicate) : Prop :=
  ∃ c, p.clause = .ok c ∧ c.Holds L

/-- The column lies at the low end of the range or below, or at the high end or above. -/
def OutsideRange (L : Reading) (p : Predicate) : Prop :=
  ∃ q low high, p.canonical .between = .ok q ∧ bounds? q.values = some (low, high) ∧
    (L p.column (.map (Entries.single "$lte" low)) ∨
      L p.column (.map (Entries.single "$gte" high)))

mutual

/-- The meaning of a predicate. -/
def meaning (L : Reading) : Predicate → Prop
  | ⟨kind, column, operator, value, values, connective, negated, group, document⟩ =>
    let p : Predicate :=
      ⟨kind, column, operator, value, values, connective, negated, group, document⟩
    match p.kind? with
    | .ok .nested => jointMeaning (group.map isOr) (meanings L group)
    | .ok .between => if p.negated.truthy then p.OutsideRange L else p.ClauseHolds L
    | _ => p.ClauseHolds L
termination_by structural p => p

def meanings (L : Reading) : List Predicate → List Prop
  | [] => []
  | p :: ps => p.meaning L :: meanings L ps
termination_by structural ps => ps

end

/-- The meaning of a list of predicates. -/
def listMeaning (L : Reading) (ps : List Predicate) : Prop :=
  jointMeaning (ps.map isOr) (meanings L ps)

variable {L : Reading} {p : Predicate} {ps : List Predicate} {c : Clause} {cs : List Clause}
  {ms : List Prop} {es : Entries}

theorem meaning_eq (L : Reading) (p : Predicate) :
    p.meaning L = match p.kind? with
      | .ok .nested => listMeaning L p.group
      | .ok .between => if p.negated.truthy then p.OutsideRange L else p.ClauseHolds L
      | _ => p.ClauseHolds L := by
  cases p
  rw [meaning]
  rfl

theorem length_meanings (L : Reading) (ps : List Predicate) :
    (meanings L ps).length = ps.length := by
  induction ps with
  | nil => rfl
  | cons p ps ih => rw [meanings, List.length_cons, ih, List.length_cons]

theorem getElem?_disjunctive {i : Nat} (hi : i < ps.length) :
    (disjunctive ps)[i]? = some (decide (JoinedByOr (ps.map isOr) i)) := by
  match ps, i with
  | [p], 0 => cases h : p.isOr <;> simp [disjunctive, JoinedByOr, h]
  | p :: q :: ps, 0 =>
    cases h : p.isOr <;> cases h' : q.isOr <;> simp [disjunctive, JoinedByOr, h, h']
  | p :: q :: ps, 1 => cases h' : q.isOr <;> simp [disjunctive, JoinedByOr, h']
  | p :: q :: ps, i + 2 =>
    have hi : i < ps.length := by simp at hi; omega
    cases h : ps[i].isOr <;> simp [disjunctive, JoinedByOr, h, hi]

theorem length_disjunctive (ps : List Predicate) : (disjunctive ps).length = ps.length := by
  match ps with
  | [] => rfl
  | [p] => rfl
  | p :: q :: ps => simp [disjunctive]

/-- The clauses of one connective, by their places. -/
theorem mem_joinedBy_iff {b : Bool} (hlen : cs.length = ps.length) :
    c ∈ joinedBy b ((disjunctive ps).zip cs) ↔
      ∃ i, cs[i]? = some c ∧ (b = true ↔ JoinedByOr (ps.map isOr) i) := by
  have hmem : c ∈ joinedBy b ((disjunctive ps).zip cs) ↔ (b, c) ∈ (disjunctive ps).zip cs := by
    simp [joinedBy]
  rw [hmem, List.mem_iff_getElem?]
  simp only [List.getElem?_zip_eq_some]
  refine exists_congr fun i => ?_
  by_cases hi : i < ps.length
  · rw [getElem?_disjunctive hi, Option.some_inj, and_comm]
    cases b <;> simp
  · have hc : cs[i]? = none := List.getElem?_eq_none (by omega)
    simp [hc]

/-- Each clause that has a document holds when what it stands for is true. -/
def StandFor (L : Reading) (cs : List Clause) (ms : List Prop) : Prop :=
  List.Forall₂ (fun c m => ∀ d, c.render = .ok d → (c.Holds L ↔ m)) cs ms

theorem StandFor.at_place (h : StandFor L cs ms) (hr : ∀ c ∈ cs, ∃ d, c.render = .ok d) (i : Nat) :
    cs[i]? = none ∧ ms[i]? = none ∨
      ∃ c m, cs[i]? = some c ∧ ms[i]? = some m ∧ (c.Holds L ↔ m) := by
  induction h generalizing i with
  | nil => exact .inl ⟨rfl, rfl⟩
  | @cons c m _ _ hcm _ ih =>
    cases i with
    | zero =>
      obtain ⟨d, hd⟩ := hr c (by simp)
      exact .inr ⟨c, m, rfl, rfl, hcm d hd⟩
    | succ i => exact ih (fun c hc => hr c (by simp [hc])) i

theorem connectedHolds_false_iff (h : StandFor L cs ms) (hlen : cs.length = ps.length)
    (hr : ∀ c ∈ cs, ∃ d, c.render = .ok d) :
    ConnectedHolds L false (joinedBy false ((disjunctive ps).zip cs)) ↔
      ∀ i m, ms[i]? = some m → ¬ JoinedByOr (ps.map isOr) i → m := by
  show (∀ c ∈ joinedBy false _, c.Holds L) ↔ _
  simp only [mem_joinedBy_iff hlen, Bool.false_eq_true, false_iff]
  constructor
  · intro hall i m hm hi
    rcases h.at_place hr i with ⟨-, hn⟩ | ⟨c, m', hc, hm', hiff⟩
    · simp [hn] at hm
    · obtain rfl : m' = m := by simpa [hm] using hm'.symm
      exact hiff.mp (hall c ⟨i, hc, hi⟩)
  · rintro hall c ⟨i, hc, hi⟩
    rcases h.at_place hr i with ⟨hn, -⟩ | ⟨c', m, hc', hm, hiff⟩
    · simp [hn] at hc
    · obtain rfl : c' = c := by simpa [hc] using hc'.symm
      exact hiff.mpr (hall i m hm hi)

theorem connectedHolds_true_iff (h : StandFor L cs ms) (hlen : cs.length = ps.length)
    (hr : ∀ c ∈ cs, ∃ d, c.render = .ok d) :
    ConnectedHolds L true (joinedBy true ((disjunctive ps).zip cs)) ↔
      ((∃ i < ms.length, JoinedByOr (ps.map isOr) i) →
        ∃ i m, ms[i]? = some m ∧ JoinedByOr (ps.map isOr) i ∧ m) := by
  have hms : ms.length = cs.length := h.length_eq.symm
  have hne : joinedBy true ((disjunctive ps).zip cs) ≠ [] ↔
      ∃ i < ms.length, JoinedByOr (ps.map isOr) i := by
    constructor
    · intro hl
      obtain ⟨c, hc⟩ := List.exists_mem_of_ne_nil _ hl
      obtain ⟨i, hc, hi⟩ := (mem_joinedBy_iff hlen).mp hc
      obtain ⟨hlt, -⟩ := List.getElem?_eq_some_iff.mp hc
      exact ⟨i, by omega, by simpa using hi⟩
    · rintro ⟨i, hlt, hi⟩
      have hc : cs[i]? = some cs[i] := List.getElem?_eq_getElem (by omega)
      exact List.ne_nil_of_mem ((mem_joinedBy_iff hlen).mpr ⟨i, hc, by simpa using hi⟩)
  have hex : (∃ c ∈ joinedBy true ((disjunctive ps).zip cs), c.Holds L) ↔
      ∃ i m, ms[i]? = some m ∧ JoinedByOr (ps.map isOr) i ∧ m := by
    simp only [mem_joinedBy_iff hlen, true_iff]
    constructor
    · rintro ⟨c, ⟨i, hc, hi⟩, hh⟩
      rcases h.at_place hr i with ⟨hn, -⟩ | ⟨c', m, hc', hm, hiff⟩
      · simp [hn] at hc
      · obtain rfl : c' = c := by simpa [hc] using hc'.symm
        exact ⟨i, m, hm, hi, hiff.mp hh⟩
    · rintro ⟨i, m, hm, hi, hh⟩
      rcases h.at_place hr i with ⟨-, hn⟩ | ⟨c, m', hc, hm', hiff⟩
      · simp [hn] at hm
      · obtain rfl : m' = m := by simpa [hm] using hm'.symm
        exact ⟨c, ⟨i, hc, hi⟩, hiff.mpr hh⟩
  rw [← hne, ← hex]
  exact Iff.rfl

/-- The clauses of a document of gathered clauses have documents of their own. -/
theorem exists_render_of_gathered {l : List Joined}
    (h : (Clause.document (gathered l)).render = .ok es) :
    ∀ p ∈ l, ∃ d, p.2.render = .ok d := by
  obtain ⟨docs, docs', hdocs, hdocs', -⟩ := (render_gathered_eq_ok_iff rfl).mp h
  have of_mem : ∀ {cs : List Clause} {docs : List Entries}, Clause.RenderAs cs docs →
      ∀ c ∈ cs, ∃ d, c.render = .ok d := by
    intro cs docs hr
    induction hr with
    | nil => simp
    | cons hd _ ih => exact List.forall_mem_cons.mpr ⟨⟨_, hd⟩, ih⟩
  rintro ⟨b, c⟩ hp
  have hb : c ∈ joinedBy b l := by simp [joinedBy, hp]
  by_cases hf : b = (l.head?.map (·.1)).getD false
  · exact of_mem hdocs c (hf ▸ hb)
  · have hn : b = !(l.head?.map (·.1)).getD false := by
      generalize (l.head?.map (·.1)).getD false = first at hf ⊢
      cases b <;> cases first <;> simp_all
    exact of_mem hdocs' c (hn ▸ hb)

/-- A list has a document exactly when each of its clauses has one. -/
theorem exists_render_assemble_iff (hlen : cs.length = ps.length)
    (hn : ∀ c ∈ cs, Clause.Normal c.clauses) :
    (∃ es, (assemble (disjunctive ps) cs).render = .ok es) ↔ ∀ c ∈ cs, ∃ d, c.render = .ok d := by
  match ps, cs with
  | [], [] => simp [assemble, Clause.render_document, Clause.renderOnto]
  | [p], [c] =>
    have hd : disjunctive [p] = [p.isOr] := rfl
    rw [hd, List.forall_mem_singleton]
    cases p.isOr with
    | true =>
      rw [assemble_single_or, Clause.render_document_single]
      simp only [Clause.render_under_eq_ok_iff]
      constructor
      · rintro ⟨es, _, _ | ⟨hd, -⟩, -⟩
        exact ⟨_, hd⟩
      · rintro ⟨d, hd⟩
        exact ⟨_, [d], .cons hd .nil, rfl⟩
    | false => rw [assemble_single_and (hn c (by simp)), Clause.render_document_clauses]
  | p :: q :: ps, c :: c' :: cs =>
    rw [assemble_eq_gathered (by simp)]
    constructor
    · rintro ⟨es, hes⟩ d hd
      obtain ⟨i, hi, rfl⟩ := List.mem_iff_getElem.mp hd
      have hb : i < (disjunctive (p :: q :: ps)).length := by rw [length_disjunctive]; omega
      refine exists_render_of_gathered hes ((disjunctive (p :: q :: ps))[i], _) ?_
      exact List.mem_of_getElem? (List.getElem?_zip_eq_some.mpr
        ⟨List.getElem?_eq_getElem hb, List.getElem?_eq_getElem hi⟩)
    · intro hr
      have hjoined : ∀ b, ∃ docs, Clause.RenderAs
          (joinedBy b ((disjunctive (p :: q :: ps)).zip (c :: c' :: cs))) docs := by
        refine fun b => exists_forall₂ fun d hd => ?_
        obtain ⟨i, hi, -⟩ := (mem_joinedBy_iff hlen).mp hd
        exact hr d (List.mem_of_getElem? hi)
      obtain ⟨docs, hdocs⟩ := hjoined _
      obtain ⟨docs', hdocs'⟩ := hjoined _
      exact ⟨_, (render_gathered_eq_ok_iff rfl).mpr ⟨docs, docs', hdocs, hdocs', rfl⟩⟩

theorem holds_assemble_iff (h : StandFor L cs ms) (hlen : cs.length = ps.length)
    (hn : ∀ c ∈ cs, Clause.Normal c.clauses)
    (hes : (assemble (disjunctive ps) cs).render = .ok es) :
    es.Holds L ↔ jointMeaning (ps.map isOr) ms := by
  have hr := (exists_render_assemble_iff hlen hn).mp ⟨es, hes⟩
  match ps, cs, ms, h with
  | [], [], [], _ =>
    obtain rfl : [] = es := by simpa [assemble, Clause.render_document, Clause.renderOnto] using hes
    simp [jointMeaning, Entries.holds_nil]
  | [p], [c], [m], .cons hcm .nil =>
    obtain ⟨d, hd⟩ := hr c (by simp)
    have hc : c.Holds L ↔ m := hcm d hd
    show _ ↔ m
    have hdis : disjunctive [p] = [p.isOr] := rfl
    rw [hdis] at hes
    cases hor : p.isOr with
    | true =>
      rw [hor, assemble_single_or, Clause.render_document_single] at hes
      obtain ⟨_, _ | ⟨hd', ⟨⟩⟩, rfl⟩ := Clause.render_under_eq_ok_iff.mp hes
      rw [← hc, Clause.holds_iff_of_render hd']
      exact (@Entries.holds_any L [_]).trans (by simp)
    | false =>
      rw [hor, assemble_single_and (hn c (by simp)), Clause.render_document_clauses] at hes
      rw [← hc, Clause.holds_iff_of_render hes]
  | p :: q :: ps, c :: c' :: cs, m :: m' :: ms, h =>
    rw [assemble_eq_gathered (by simp)] at hes
    rw [holds_gathered_iff hes, connectedHolds_false_iff h hlen hr,
      connectedHolds_true_iff h hlen hr]
    exact Iff.rfl

/-! ### Single predicates and groups -/

theorem normal_of_compile (h : compile ps = .ok c) : Clause.Normal c.clauses := by
  obtain ⟨cs, -, rfl⟩ := map_eq_ok_iff.mp h
  rw [assemble, Clause.foldl_join]
  exact Clause.normal_joinAll List.Pairwise.nil _

theorem normal_of_clause (h : p.clause = .ok c) : Clause.Normal c.clauses := by
  obtain ⟨variant, q, -, -, h⟩ := clause_eq_ok_iff.mp h
  by_cases hv : variant = .nested
  · subst hv; exact normal_of_compile h
  · rw [clauses_of_clauseOfKind hv h]
    exact Clause.normal_single c

theorem normal_of_clauses (h : clauses ps = .ok cs) : ∀ c ∈ cs, Clause.Normal c.clauses := by
  induction ps generalizing cs with
  | nil =>
    obtain rfl := clauses_nil_eq_ok_iff.mp h
    simp
  | cons p ps ih =>
    obtain ⟨c, ds, hc, hds, rfl⟩ := clauses_cons_eq_ok_iff.mp h
    exact List.forall_mem_cons.mpr ⟨normal_of_clause hc, ih hds⟩

/-- A negated range test holds outside the range. -/
theorem holds_rangeClause_iff {column values low high : Value} {d : Entries}
    (hb : bounds? values = some (low, high)) (h : rangeClause column values true = .ok c)
    (hd : c.render = .ok d) :
    c.Holds L ↔ L column (.map (Entries.single "$lte" low)) ∨
      L column (.map (Entries.single "$gte" high)) := by
  obtain rfl : Clause.any [testClause column "$lte" low, testClause column "$gte" high] = c := by
    simpa [rangeClause, hb] using h
  have holds_test : ∀ {operator operand es},
      (testClause column operator operand).render = .ok es →
        (es.Holds L ↔ L column (.map (Entries.single operator operand))) := by
    intro operator operand es h
    obtain ⟨-, rfl⟩ := Clause.render_tests_eq_ok_iff.mp h
    rw [Entries.holds_single, entryHolds_map]
  rw [Clause.holds_iff_of_render hd]
  have hd : (Clause.under true _).render = .ok d := hd
  obtain ⟨_, _ | ⟨hlow, _ | ⟨hhigh, ⟨⟩⟩⟩, rfl⟩ := Clause.render_under_eq_ok_iff.mp hd
  refine Entries.holds_any.trans ?_
  simp [holds_test hlow, holds_test hhigh]

theorem clauseHolds_iff (h : p.clause = .ok c) : p.ClauseHolds L ↔ c.Holds L := by
  simp [ClauseHolds, h]

/-- A negated range test means that the column lies outside of the range. -/
theorem holds_iff_outsideRange {d : Entries} (hk : p.kind? = .ok .between)
    (hn : p.negated.truthy = true) (h : p.clause = .ok c) (hd : c.render = .ok d) :
    c.Holds L ↔ p.OutsideRange L := by
  obtain ⟨variant, q, hk', hq, h⟩ := clause_eq_ok_iff.mp h
  obtain rfl : Kind.between = variant := by simpa [hk] using hk'
  rw [clauseOfKind, negated_of_canonical hq, hn, column_of_canonical hq] at h
  cases hb : bounds? q.values with
  | none => simp [rangeClause, hb] at h
  | some ends =>
    obtain ⟨low, high⟩ := ends
    rw [holds_rangeClause_iff hb h hd]
    constructor
    · exact fun ho => ⟨q, low, high, hq, hb, ho⟩
    · rintro ⟨q', low', high', hq', hb', ho⟩
      obtain rfl : q = q' := by simpa [hq] using hq'
      obtain ⟨rfl, rfl⟩ : low = low' ∧ high = high' := by simpa [hb] using hb'
      exact ho

mutual

theorem holds_iff_meaning : ∀ (p : Predicate) {c : Clause} {d : Entries}, p.clause = .ok c →
    c.render = .ok d → (c.Holds L ↔ p.meaning L)
  | ⟨kind, column, operator, value, values, connective, negated, group, document⟩, c, d, h, hd => by
    -- the call on the group comes before the fields are folded back, or it would not be structural
    have hgroup := @standFor_meanings group
    generalize hp : Predicate.mk kind column operator value values connective negated group document
      = p at h ⊢
    obtain rfl : group = p.group := by rw [← hp]
    obtain ⟨variant, q, hk, hq, hc⟩ := clause_eq_ok_iff.mp h
    rw [meaning_eq, hk]
    cases variant with
    | nested =>
      obtain ⟨cs, hcs, rfl⟩ := map_eq_ok_iff.mp hc
      rw [Clause.holds_iff_of_render hd]
      exact holds_assemble_iff (hgroup hcs) (length_of_clauses hcs) (normal_of_clauses hcs) hd
    | between =>
      cases hn : p.negated.truthy with
      | true => exact holds_iff_outsideRange hk hn h hd
      | false => exact (clauseHolds_iff h).symm
    | basic | among | notAmong | null | notNull | raw => exact (clauseHolds_iff h).symm
termination_by structural p => p

theorem standFor_meanings : ∀ (ps : List Predicate) {cs : List Clause}, clauses ps = .ok cs →
    StandFor L cs (meanings L ps)
  | [], cs, h => by
    obtain rfl := clauses_nil_eq_ok_iff.mp h
    exact .nil
  | p :: ps, cs, h => by
    obtain ⟨c, ds, hc, hds, rfl⟩ := clauses_cons_eq_ok_iff.mp h
    exact .cons (fun d hd => holds_iff_meaning p hc hd) (standFor_meanings ps hds)
termination_by structural ps => ps

end

theorem compileFilter_eq_ok_iff :
    compileFilter ps = .ok es ↔
      ∃ cs, clauses ps = .ok cs ∧ (assemble (disjunctive ps) cs).render = .ok es := by
  rw [compileFilter, bind_eq_ok_iff]
  constructor
  · rintro ⟨c, hc, hd⟩
    obtain ⟨cs, hcs, rfl⟩ := map_eq_ok_iff.mp hc
    exact ⟨cs, hcs, hd⟩
  · rintro ⟨cs, hcs, hd⟩
    exact ⟨_, map_eq_ok_iff.mpr ⟨cs, hcs, rfl⟩, hd⟩

theorem holds_of_clauses (h : clauses ps = .ok cs)
    (hd : (assemble (disjunctive ps) cs).render = .ok es) : es.Holds L ↔ listMeaning L ps := by
  exact holds_assemble_iff (standFor_meanings ps h) (length_of_clauses h) (normal_of_clauses h) hd

/-- A conjunctive predicate alone has the filter document of its clause. -/
theorem compileFilter_single_eq_ok_iff (hp : p.isOr = false) :
    compileFilter [p] = .ok es ↔ ∃ c, p.clause = .ok c ∧ c.render = .ok es := by
  have hrender : ∀ c, p.clause = .ok c →
      (assemble (disjunctive [p]) [c]).render = c.render := by
    intro c hc
    have hd : disjunctive [p] = [false] := by rw [← hp]; rfl
    rw [hd, assemble_single_and (normal_of_clause hc), Clause.render_document_clauses]
  have hclauses : clauses [p] = p.clause >>= fun c => pure [c] := rfl
  rw [compileFilter_eq_ok_iff, hclauses]
  simp only [bind_eq_ok_iff, pure_eq_ok_iff]
  constructor
  · rintro ⟨_, ⟨c, hc, rfl⟩, hd⟩; exact ⟨c, hc, hrender c hc ▸ hd⟩
  · rintro ⟨c, hc, hd⟩; exact ⟨_, ⟨c, hc, rfl⟩, (hrender c hc).symm ▸ hd⟩

end Predicate

open Predicate

/-- The filter document of a list of predicates holds exactly when the list's meaning is true. -/
theorem holds_compileFilter_iff (L : Reading) {ps : List Predicate} {doc : Entries}
    (h : compileFilter ps = .ok doc) : doc.Holds L ↔ listMeaning L ps := by
  obtain ⟨cs, hcs, hd⟩ := compileFilter_eq_ok_iff.mp h
  exact holds_of_clauses hcs hd

/-- A disjunctive negated range in a group, under a reading that looks at one column only. -/
theorem holds_compileFilter_iff_group :
    let range : Predicate := { ofKind .between byOr with
      column := .text "b", values := .list [.int 2, .int 5], negated := .bool true }
    let ps := [.nested [.basic (.text "a") (.text "=") (.int 1), range], .isNull (.text "c") byOr]
    let doc : Entries := [(.text "$or", .list [
      .map [(.text "$or", .list [.map [(.text "a", .int 1)],
        .map [(.text "$or", .list [.map [(.text "b", .map [(.text "$lte", .int 2)])],
          .map [(.text "b", .map [(.text "$gte", .int 5)])]])]])],
      .map [(.text "c", .null)]])]
    compileFilter ps = .ok doc ∧
      (doc.Holds (fun k _ => k = .text "b") ↔ listMeaning (fun k _ => k = .text "b") ps) :=
  ⟨rfl, holds_compileFilter_iff _ rfl⟩

end DocQuery
