import DocQuery.Proofs.Predicate.Growth
import DocQuery.Proofs.Query.Narrowing
import DocQuery.Proofs.Query.Source

/-!
# What reads and failed refinements leave behind

A read of all rows leaves the query as it was, and so does a total. A read of the first row leaves
it with a limit of one, and one by an identifier with a further predicate: `read_preserves_iff`. A
refinement that fails leaves the query as it was, unless it is a page, from which on the query is
run as an aggregation: `failed_refinement_preserves_iff`.
-/

namespace DocQuery

open Run

variable {α : Type} {q : Query} {r : Replies} {columns id : Value}

namespace Read

/-- The query that a read leaves behind. -/
def leaves (q : Query) : Read → Query
  | first _ | value _ | any => { q with limit := .int 1 }
  | find id _ => { q.addPredicate (idPredicate id.withIdentifiers) with limit := .int 1 }
  | get _ | pluck _ _ | aggregate _ _ | count _ => q

/-- The read leaves the query as it is. Of the reads of the first row, those do that find the limit
of one already there. -/
def Preserves (q : Query) : Read → Prop
  | first _ | value _ | any => q.limit = .int 1
  | find _ _ => False
  | get _ | pluck _ _ | aggregate _ _ | count _ => True

theorem leaves_of_preserves {what : Read} (h : what.Preserves q) : what.leaves q = q := by
  cases what with
  | first | value | any =>
    have hlimit : q.limit = .int 1 := h
    show { q with limit := .int 1 } = q
    rw [← hlimit]
  | find => exact h.elim
  | get | pluck | aggregate | count => rfl

end Read

theorem Query.filter_of_plan {p : Plan} (h : q.plan columns = .ok p) :
    ∃ f, q.filter = .ok f := by
  obtain ⟨s, -, h⟩ := bind_eq_ok_iff.mp h
  obtain ⟨f, hf, -⟩ := bind_eq_ok_iff.mp h
  exact ⟨f, hf⟩

theorem Query.take_one (q : Query) : q.take (.int 1) = .ok { q with limit := .int 1 } := rfl

namespace Read

/-- The session has the query, and the query has a filter. -/
abbrev HasFiltered (q : Query) : Session Query → Prop :=
  Upholds (fun q' => q' = q ∧ ∃ f, q.filter = .ok f) fun _ => True

theorem has_rows (columns : Value) :
    Triple (Has q) (rows r columns) (fun _ => HasFiltered q) (Has q) := by
  refine .bind .subject fun q' s => ?_
  rintro ⟨hs, rfl⟩
  refine Triple.bind (.orFail fun _ ht => ht) (fun p t => ?_) s hs
  rintro ⟨ht, hp⟩
  have hf := Query.filter_of_plan (hs.1 ▸ hp)
  exact (keeps_execute trivial trivial).weaken (fun _ h => ⟨⟨h.1, hf⟩, h.2⟩) (fun _ _ h => h)
    (fun _ h => ⟨h.1.1, h.2⟩) t ht

theorem has_firstRow (columns : Value) :
    Triple (Has q) (firstRow r columns) (fun _ => HasFiltered { q with limit := .int 1 })
      (Has { q with limit := .int 1 }) := by
  refine .bind .subject fun q' s => ?_
  rintro ⟨hs, rfl⟩
  obtain rfl : s.subject = q := hs.1
  rw [Query.take_one, orFail, pure_bind]
  refine Triple.bind (upholds_setSubject (J := (· = { s.subject with limit := .int 1 })) rfl)
    (fun _ => ?_) s hs
  exact .bind (has_rows columns) fun _ => .pure fun _ ht => ht

/-- What is read off the rows may still fail. -/
theorem answered (x : Except Fault α) :
    Triple (HasFiltered q) (orFail x) (fun _ => HasFiltered q) (Has q) :=
  (Triple.orFail fun _ hs => ⟨hs.1.1, hs.2⟩).weaken (fun _ hs => hs) (fun _ _ hs => hs.1)
    fun _ hs => hs

/-- Accumulating takes the aggregate back, and there was none before. -/
theorem has_accumulate (hq : q.aggregate = none) (function columns : Value) :
    Triple (Has q) (accumulate r function columns) (fun _ => HasFiltered q) (Has q) := by
  refine .bind (keeps_orFail _) fun vs => .bind .subject fun q' s => ?_
  rintro ⟨hs, rfl⟩
  obtain rfl : s.subject = q := hs.1
  let asked : Query := { s.subject with aggregate := some { function, columns := vs } }
  have hback : { asked with aggregate := none, columns := s.subject.columns } = s.subject := by
    show { s.subject with aggregate := none } = s.subject
    rw [← hq]
  refine Triple.bind (upholds_setSubject (J := (· = asked)) rfl) (fun _ => ?_) s hs
  refine .bind (.andThen ?_) fun _ => answered _
  refine (has_rows (.list vs)).weaken (fun _ h => h) (fun _ t ht => ⟨⟨?_, ht.1.2⟩, ht.2⟩)
    fun t ht => ⟨?_, ht.2⟩
  · rw [ht.1.1]
    exact hback
  · rw [ht.1]
    exact hback

/-- The query that a read leaves behind has a filter, unless the read has failed. -/
theorem has_run (hq : q.aggregate = none) (what : Read) :
    Triple (Has q) (what.run r) (fun _ => HasFiltered (what.leaves q)) (Has (what.leaves q)) := by
  cases what with
  | get columns => exact .bind (has_rows columns) fun _ => .pure fun _ hs => hs
  | first columns => exact has_firstRow columns
  | find id columns =>
    exact upholds_change (J := (· = q.addPredicate (idPredicate id.withIdentifiers)))
      (fun _ hq => by rw [hq]; rfl) fun _ _ => has_firstRow columns
  | value column =>
    refine .bind (has_firstRow _) fun row => ?_
    split
    · exact answered _
    · exact .pure fun _ hs => hs
  | any => exact .bind (has_firstRow _) fun _ => .pure fun _ hs => hs
  | pluck column key => exact .bind (has_rows _) fun _ => answered _
  | aggregate function columns => exact has_accumulate hq function columns
  | count column =>
    exact .bind (has_accumulate hq _ _) fun _ => .bind (answered _) fun _ => .pure fun _ hs => hs

theorem subject_run (hq : q.aggregate = none) (what : Read) (r : Replies) :
    ((Step.read what).run r q).session.subject = what.leaves q := by
  have hread : Triple (Has q) (what.run r) (fun _ => Has (what.leaves q)) (Has (what.leaves q)) :=
    (has_run hq what).weaken (fun _ hs => hs) (fun _ _ hs => ⟨hs.1.1, hs.2⟩) fun _ hs => hs
  rw [Step.run_read]
  exact (hread.afterwards (upholds_start rfl)).1

end Read

theorem compileFilter_idPredicate_ne {es : Entries} (h : compileFilter [idPredicate id] = .ok es) :
    es ≠ [] := by
  obtain ⟨c, hc, hd⟩ := (Predicate.compileFilter_single_eq_ok_iff (isOr_idPredicate id)).mp h
  have hequals : ∃ operand, c = .equals (.text "_id") operand := by
    unfold idPredicate Query.testPredicate at hc
    split at hc <;> obtain ⟨-, operand, -, -, rfl⟩ := clause_basic_equals hc <;>
      exact ⟨operand, rfl⟩
  obtain ⟨operand, rfl⟩ := hequals
  rw [(Clause.render_equals_eq_ok_iff.mp hd).2]
  simp

/-- A conjunctive predicate that has a document of its own changes the filter. -/
theorem filter_ne_of_seen {p : Predicate} {f : Entries} (hp : p.isOr = false)
    (hseen : ∀ own, compileFilter [p] = .ok own → own ≠ [])
    (h : (q.addPredicate p).filter = .ok f) : q.filter ≠ .ok f := by
  obtain ⟨-, own, hown⟩ := Predicate.exists_compileFilter_of_append h
  intro hsame
  exact Predicate.compileFilter_append_ne hp hsame hown (hseen own hown) h rfl

theorem filter_addPredicate_ne {f : Entries}
    (h : (q.addPredicate (idPredicate id)).filter = .ok f) : q.filter ≠ .ok f :=
  filter_ne_of_seen (isOr_idPredicate id) (fun _ => compileFilter_idPredicate_ne) h

/-- A read that succeeds changes the fields `limit` and `predicates` of the query at most. `get`,
`pluck`, `aggregate` and `count` leave the filter and the shape as they were; `first`, `value` and
`any` set `limit` to one, and so do that only where it was one before; and `find`, which adds the
predicate of its identifier as well, never does. -/
theorem read_preserves_iff {what : Read} {v : Answer} (hq : q.Reachable)
    (hv : ((Step.read what).run r q).answer = .ok v) :
    let after := ((Step.read what).run r q).session.subject
    after = what.leaves q ∧
      ((after.filter = q.filter ∧ after.shape = q.shape) ↔ what.Preserves q) ∧
      (what.Preserves q → after = q) := by
  intro after
  rw [Step.run_read] at hv
  obtain ⟨x, hx, -⟩ := map_eq_ok_iff.mp hv
  have hend := (Read.has_run (r := r) hq.settled.aggregate_eq what).of_ok (upholds_start rfl) hx
  have hafter : after = what.leaves q := by
    show ((Step.read what).run r q).session.subject = _
    rw [Step.run_read]
    exact hend.1.1
  obtain ⟨f, hf⟩ := hend.1.2
  have hsame : what.Preserves q → after = q := fun h => hafter.trans (Read.leaves_of_preserves h)
  refine ⟨hafter, ⟨fun ⟨hfilter, hshape⟩ => ?_, fun h => by rw [hsame h]; exact ⟨rfl, rfl⟩⟩, hsame⟩
  rw [hafter] at hfilter hshape
  -- the shape shows the limit, and the filter shows the predicate of an identifier
  cases what with
  | first | value | any =>
    rw [Query.shape_eq, Query.shape_eq] at hshape
    exact (congrArg Shape.limit (Except.ok.inj hshape)).symm
  | find id columns => exact filter_addPredicate_ne hf (hfilter.symm.trans hf)
  | get | pluck | aggregate | count => exact trivial

/-- A first row of a query that is limited to one row. -/
theorem read_preserves_iff_first :
    let start : Query := { collection := {} }
    let q : Query := { start with limit := .int 1 }
    let what : Read := .first .null
    let row : Value := .map [(.text "n", .int 1)]
    let outcome := (Step.read what).run { rows := .list [row] } q
    q.Reachable ∧ outcome.answer = .ok (.value row) ∧ outcome.session.subject = q := by
  intro start q what row outcome
  have hstart : start.Reachable := .start _ _
  have hq : q.Reachable := hstart.apply (.take (.int 1))
  have hv : outcome.answer = .ok (.value row) := rfl
  obtain ⟨-, -, hsame⟩ := read_preserves_iff hq hv
  exact ⟨hq, hv, hsame rfl⟩

/-- Asking whether there are any rows limits the fetch that comes after it. -/
theorem exists_limiting_read :
    ∃ (q : Query) (r : Replies), q.Reachable ∧
      let asked := (Step.read .any).run r q
      let get : Step := .read (.get .null)
      asked.answer = .ok (.value (.bool true)) ∧ asked.session.subject.shape ≠ q.shape ∧
        (get.run r q).session.calls = [(Plan.find (.map []) []).call, fetchCall] ∧
        (get.run r asked.session.subject).session.calls =
          [(Plan.find (.map []) [(.text "limit", .int 1)]).call, fetchCall] := by
  let rows : List Value := [.map [(.text "n", .int 1)], .map [(.text "n", .int 2)]]
  refine ⟨{ collection := {} }, { rows := .list rows }, .start _ _, rfl, ?_, rfl, rfl⟩
  intro hshape
  exact nomatch congrArg Shape.limit (Except.ok.inj hshape)

/-! ### Refinements that fail -/

variable {change : Refinement} {number perPage : Value} {fault : Fault}

namespace Value
variable {v : Value} {n : Number}

theorem exists_sign (h : v.number? = some n) : ∃ s, v.sign = .ok s := by
  cases v with
  | int | bool | float => exact ⟨_, rfl⟩
  | _ => exact nomatch h

theorem exists_number_of_mul {m : Number} (h : m.mul n = .ok v) : ∃ k, v.number? = some k := by
  unfold Number.mul at h
  split at h
  · cases h
    exact ⟨_, rfl⟩
  · obtain ⟨x, -, h⟩ := bind_eq_ok_iff.mp h
    obtain ⟨y, -, h⟩ := bind_eq_ok_iff.mp h
    cases h
    exact ⟨_, rfl⟩

/-- Only numbers have an offset, and it is a number. -/
theorem exists_number_of_pageOffset (h : pageOffset number perPage = .ok v) :
    (∃ n, perPage.number? = some n) ∧ ∃ n, v.number? = some n := by
  unfold pageOffset at h
  split at h
  · next n _ hn => exact ⟨⟨n, hn⟩, exists_number_of_mul h⟩
  · split at h <;> exact nomatch h
  · exact nomatch h

end Value

namespace Query

theorem exists_skip {count : Value} {n : Value.Number} (h : count.number? = some n) (q : Query) :
    ∃ skipped, q.skip count = .ok skipped := by
  obtain ⟨s, hs⟩ := Value.exists_sign h
  have hcount : ∃ v, count.atLeastZero = .ok v := by
    by_cases hgt : s = some .gt
    · exact ⟨count, bind_eq_ok_iff.mpr ⟨s, hs, if_pos hgt⟩⟩
    · exact ⟨.int 0, bind_eq_ok_iff.mpr ⟨s, hs, if_neg hgt⟩⟩
  obtain ⟨v, hv⟩ := hcount
  exact ⟨_, bind_eq_ok_iff.mpr ⟨v, hv, rfl⟩⟩

theorem exists_take {count : Value} {n : Value.Number} (h : count.number? = some n) (q : Query) :
    ∃ taken, q.take count = .ok taken := by
  obtain ⟨s, hs⟩ := Value.exists_sign h
  have hcount : ∃ b, count.isNonNegative = .ok b := by
    unfold Value.isNonNegative
    rw [hs]
    rcases s with _ | _ | _ | _ <;> exact ⟨_, rfl⟩
  obtain ⟨b, hb⟩ := hcount
  cases b with
  | true => exact ⟨_, bind_eq_ok_iff.mpr ⟨true, hb, rfl⟩⟩
  | false => exact ⟨_, bind_eq_ok_iff.mpr ⟨false, hb, rfl⟩⟩

theorem page_eq {offset : Value} {skipped taken : Query}
    (hoffset : Value.pageOffset number perPage = .ok offset)
    (hskip : Query.skip { q with paginating := true } offset = .ok skipped)
    (htake : skipped.take perPage = .ok taken) : q.page number perPage = { query := taken } := by
  unfold page
  rw [hoffset]
  exact congrArg (Refined.ofExcept _) (bind_eq_ok_iff.mpr ⟨skipped, hskip, htake⟩)

/-- A page that cannot be set is one whose offset cannot be reckoned. -/
theorem pageOffset_of_fault (h : (q.page number perPage).fault = some fault) :
    Value.pageOffset number perPage = .error fault := by
  cases hoffset : Value.pageOffset number perPage with
  | error e =>
    unfold page at h
    rw [hoffset] at h
    exact congrArg Except.error (Option.some.inj h)
  | ok v =>
    obtain ⟨⟨_, hper⟩, ⟨_, hv⟩⟩ := Value.exists_number_of_pageOffset hoffset
    obtain ⟨skipped, hskip⟩ := exists_skip hv { q with paginating := true }
    obtain ⟨taken, htake⟩ := exists_take hper skipped
    rw [page_eq hoffset hskip htake] at h
    exact nomatch h

end Query

namespace Refined

theorem query_of_fault {x : Except Fault Query} (h : (ofExcept q x).fault = some fault) :
    (ofExcept q x).query = q := by
  cases x with
  | ok changed => exact nomatch h
  | error => rfl

end Refined

namespace Refinement

/-- The query that a refinement leaves behind where it fails. -/
def leaves (q : Query) : Refinement → Query
  | page _ _ => { q with paginating := true }
  | _ => q

theorem query_of_fault (h : (change.apply q).fault = some fault) :
    (change.apply q).query = change.leaves q := by
  cases change with
  | select | project | options | orderBy | skip | take | among | between | raw | page =>
    exact Refined.query_of_fault h
  | timeout | distinct | groupBy | null => simp [apply] at h
  | test column => cases column <;> simp [apply] at h
  | group steps connective =>
    rw [apply] at h ⊢
    cases hinner : (applyAll steps q.fresh).fault with
    | some inner => rfl
    | none =>
      simp [hinner] at h
  | groupFrom | ask => rfl

end Refinement

theorem Step.fault_of_refine (h : ((Step.refine change).run r q).answer = .error fault) :
    (change.apply q).fault = some fault := by
  rw [Step.run_refine] at h
  cases hf : (change.apply q).fault with
  | some e =>
    rw [hf] at h
    exact congrArg some (Except.error.inj h)
  | none =>
    rw [hf] at h
    cases h

theorem Query.shape_paginating_iff :
    Query.shape { q with paginating := true } = q.shape ↔ q.paginating = true := by
  rw [shape_eq, shape_eq]
  constructor
  · intro hsame
    exact (Value.bool.inj (congrArg Shape.paginating (Except.ok.inj hsame))).symm
  · intro hpaging
    unfold ownShape
    rw [hpaging]

/-- A refinement that fails leaves the filter and the shape as they were, unless it is a page: its
query is then run as an aggregation, which shows where it was not run so before. -/
theorem failed_refinement_preserves_iff
    (h : ((Step.refine change).run r q).answer = .error fault) :
    let after := ((Step.refine change).run r q).session.subject
    after.filter = q.filter ∧
      (after.shape = q.shape ↔ (∀ number perPage, change ≠ .page number perPage) ∨
        q.paginating = true) ∧
      ((∀ number perPage, change ≠ .page number perPage) → after = q) ∧
      ∀ number perPage, change = .page number perPage →
        after = { q with paginating := true } ∧ Value.pageOffset number perPage = .error fault := by
  intro after
  have hfault := Step.fault_of_refine h
  have hafter : after = change.leaves q := by
    show ((Step.refine change).run r q).session.subject = _
    rw [Step.run_refine]
    exact Refinement.query_of_fault hfault
  rw [hafter]
  cases change with
  | page number perPage =>
    refine ⟨rfl, Query.shape_paginating_iff.trans ⟨.inr, ?_⟩,
      fun hno => absurd rfl (hno number perPage), ?_⟩
    · rintro (hno | hpaging)
      · exact absurd rfl (hno number perPage)
      · exact hpaging
    · rintro _ _ ⟨⟩
      exact ⟨rfl, Query.pageOffset_of_fault hfault⟩
  | _ => exact ⟨rfl, ⟨fun _ => .inl nofun, fun _ => rfl⟩, fun _ => rfl, nofun⟩

/-- A group that fails at its second step, when the first one has added a predicate to it. -/
theorem failed_refinement_preserves_iff_group :
    let q : Query := { collection := {} }
    let steps : List Refinement :=
      [.test (.text "a") (.text "=") (.int 1) Predicate.byAnd,
        .among (.text "b") (.int 3) Predicate.byAnd (.bool false)]
    let outcome := (Step.refine (.group steps Predicate.byAnd)).run {} q
    outcome.answer = .error .wrongType ∧ outcome.session.subject = q := by
  intro q steps outcome
  have hfault : outcome.answer = .error .wrongType := rfl
  obtain ⟨-, -, hsame, -⟩ := failed_refinement_preserves_iff hfault
  exact ⟨hfault, hsame nofun⟩

/-- A page with a text for a number fails, and what was a fetch is an aggregation afterwards. -/
theorem exists_failed_page :
    ∃ (q : Query) (r : Replies), q.Reachable ∧
      let failed := (Step.refine (.page (.text "2") (.int 15))).run r q
      let after := failed.session.subject
      failed.answer = .error .wrongType ∧ after.shape ≠ q.shape ∧
        q.plan = .ok (.find (.map []) []) ∧ after.plan = .ok (.aggregate [] []) := by
  refine ⟨{ collection := {} }, {}, .start _ _, rfl, ?_, rfl, rfl⟩
  intro hshape
  exact nomatch congrArg Shape.paginating (Except.ok.inj hshape)

end DocQuery
