import DocQuery.Proofs.Filter.Merging

/-!
# The document of merged clauses

Where clauses join every other one of their key (`Clause.Mergeable`), the document of two merged
documents is what their documents come to when they are merged entry by entry
(`Entries.mergeWith`): `merged_document`, which also says what the keys of any merged clauses are.
-/

namespace DocQuery

namespace Entries

/-- Arrays one after the other, operators with the later ones written over the earlier. -/
def joinOperands : Value → Value → Value
  | .list vs, .list ws => .list (vs ++ ws)
  | .map es, .map new => .map (update es new)
  | _, w => w

/-- The operand of an entry together with what other entries have under its key. -/
def withOperand (new : Entries) (e : Value × Value) : Value × Value :=
  match new.get? e.1 with
  | some w => (e.1, joinOperands e.2 w)
  | none => e

/-- Two documents in one: the first one's entries in their places, with what the second one has
under their keys, and then the second one's further entries. -/
def mergeWith (es new : Entries) : Entries :=
  es.map (withOperand new) ++ new.filter fun e => !es.hasKey e.1

def joinEntries (e f : Value × Value) : Value × Value :=
  (e.1, joinOperands e.2 f.2)

/-- Adds an entry to a document, joined with the one that has its key. -/
def mergeEntry : Entries → Value × Value → Entries :=
  addJoining (joinSameKey (·.1) joinEntries)

variable {es new : Entries} {e f : Value × Value} {k : Value}

theorem mergeEntry_of_not_hasKey (h : es.hasKey f.1 = false) : mergeEntry es f = es ++ [f] := by
  refine addJoining_of_forall_none fun e he => ?_
  rw [joinSameKey_eq_none_iff]
  exact hasKey_eq_false_iff.mp h e he

theorem mergeEntry_of_hasKey (h : es.Distinct) (hkey : es.hasKey f.1 = true) :
    mergeEntry es f = es.map fun e => if e.1.sameKey f.1 then joinEntries e f else e := by
  induction es with
  | nil => exact nomatch hkey
  | cons e es ih =>
    obtain ⟨he, hes⟩ := distinct_cons.mp h
    by_cases hef : e.1.sameKey f.1 = true
    · have hrest : ∀ d ∈ es, (if d.1.sameKey f.1 then joinEntries d f else d) = d := by
        intro d hd
        have hdf : d.1.sameKey f.1 = false := by
          rw [Value.sameKey_comm, ← Value.sameKey_congr hef, he d hd]
        rw [if_neg (by simp [hdf])]
      have hjoin : joinSameKey (·.1) joinEntries e f = some (joinEntries e f) :=
        joinSameKey_eq_some_iff.mpr ⟨hef, rfl⟩
      rw [mergeEntry, addJoining_cons_of_some hjoin, List.map_cons, if_pos hef,
        List.map_congr_left hrest, List.map_id']
    · have hjoin : joinSameKey (·.1) joinEntries e f = none :=
        joinSameKey_eq_none_iff.mpr (by simpa using hef)
      have hkey : hasKey es f.1 = true := by simpa [hasKey, hef] using hkey
      rw [mergeEntry, addJoining_cons_of_none hjoin, List.map_cons, if_neg hef]
      exact congrArg (e :: ·) (ih hes hkey)

theorem keys_mergeEntry (h : es.Distinct) (hkey : es.hasKey f.1 = true) :
    keys (mergeEntry es f) = keys es := by
  rw [mergeEntry_of_hasKey h hkey, keys, List.map_map]
  refine List.map_congr_left fun e _ => ?_
  by_cases hef : e.1.sameKey f.1 = true <;> simp [hef, joinEntries]

theorem withOperand_joinEntries (h : f.1.sameKey e.1 = true) (hnone : get? new f.1 = none) :
    withOperand new (joinEntries e f) = withOperand (f :: new) e := by
  have hkey : get? new e.1 = none := by rw [← get?_congr h, hnone]
  unfold withOperand
  rw [get?_cons, if_pos h]
  simp [joinEntries, hkey]

theorem withOperand_cons_of_not (h : f.1.sameKey e.1 = false) (new : Entries) :
    withOperand (f :: new) e = withOperand new e := by
  unfold withOperand
  rw [get?_cons, if_neg (by simp [h])]

/-- The first of the further entries may be merged before the rest of them. -/
theorem mergeWith_mergeEntry (hes : es.Distinct) (hnew : Distinct (f :: new)) :
    mergeWith (mergeEntry es f) new = mergeWith es (f :: new) := by
  obtain ⟨hf, hnew⟩ := distinct_cons.mp hnew
  have hget : get? new f.1 = none := get?_eq_none_of_forall fun e he => by
    rw [Value.sameKey_comm, hf e he]
  unfold mergeWith
  cases hkey : es.hasKey f.1 with
  | true =>
    -- the entry changes the operand of its key, and the keys stay
    have hmap : ∀ e ∈ es, withOperand new (if e.1.sameKey f.1 then joinEntries e f else e) =
        withOperand (f :: new) e := by
      intro e _
      rw [Value.sameKey_comm]
      cases hef : f.1.sameKey e.1 with
      | true => exact withOperand_joinEntries hef hget
      | false => exact (withOperand_cons_of_not hef new).symm
    have hfilter : ∀ e ∈ new, (!(mergeEntry es f).hasKey e.1) = !es.hasKey e.1 := by
      intro e _
      rw [hasKey_eq_any_keys, keys_mergeEntry hes hkey, ← hasKey_eq_any_keys]
    rw [List.filter_congr hfilter, mergeEntry_of_hasKey hes hkey, List.map_map,
      List.filter_cons_of_neg (by simp [hkey])]
    exact congrArg (· ++ _) (List.map_congr_left hmap)
  | false =>
    -- the entry stands at the end, where nothing that comes after it has its key
    have hmap : ∀ e ∈ es, withOperand (f :: new) e = withOperand new e := by
      intro e he
      refine withOperand_cons_of_not ?_ new
      rw [Value.sameKey_comm, hasKey_eq_false_iff.mp hkey e he]
    have hfilter : ∀ e ∈ new, (!hasKey (es ++ [f]) e.1) = !es.hasKey e.1 := by
      intro e he
      simp [hasKey, hf e he]
    rw [mergeEntry_of_not_hasKey hkey, List.map_append, List.filter_congr hfilter,
      List.map_congr_left hmap, List.filter_cons_of_pos (by simp [hkey])]
    simp [withOperand, hget]

theorem distinct_mergeEntry (h : es.Distinct) (f : Value × Value) : (mergeEntry es f).Distinct := by
  cases hkey : es.hasKey f.1 with
  | true =>
    unfold Distinct
    rwa [keys_mergeEntry h hkey]
  | false =>
    have hk : ∀ e ∈ es, e.1.sameKey f.1 = false := hasKey_eq_false_iff.mp hkey
    rw [mergeEntry_of_not_hasKey hkey, ← insert_of_forall_not hk f.2]
    exact distinct_insert h _ _

theorem foldl_mergeEntry (hes : es.Distinct) (hnew : new.Distinct) :
    new.foldl mergeEntry es = mergeWith es new := by
  induction new generalizing es with
  | nil =>
    have hsame : ∀ e, withOperand [] e = e := fun _ => rfl
    simp [mergeWith, List.map_id'' hsame]
  | cons f new ih =>
    rw [List.foldl_cons, ih (distinct_mergeEntry hes f) (distinct_cons.mp hnew).2,
      mergeWith_mergeEntry hes hnew]

end Entries

namespace Clause

/-- Connectives and tests of a field that is no operator: what joins every other clause of its
key. -/
inductive Mergeable : Clause → Prop
  | all (cs : List Clause) : Mergeable (.all cs)
  | any (cs : List Clause) : Mergeable (.any cs)
  | tests {field : Text} (h : field.head? ≠ some (.char '$')) (operators : Entries) :
      Mergeable (.tests (.text field) operators)

/-- A clause that is merged by its key, and the one entry of its document. -/
structure WritesEntry (c : Clause) (e : Value × Value) : Prop where
  mergeable : c.Mergeable
  render_eq : c.render = .ok [e]

variable {c : Clause} {cs ds : List Clause} {e : Value × Value} {es : Entries}

theorem mergeable_under (isOr : Bool) (cs : List Clause) : (under isOr cs).Mergeable := by
  cases isOr
  · exact .all cs
  · exact .any cs

theorem writesEntry_under {isOr : Bool} {docs : List Entries} (h : RenderAs cs docs) :
    (under isOr cs).WritesEntry (connectiveKey isOr, .list (docs.map .map)) :=
  ⟨mergeable_under isOr cs, render_under_eq_ok_iff.mpr ⟨docs, h, rfl⟩⟩

theorem writesEntry_tests {field : Text} (h : field.head? ≠ some (.char '$'))
    (operators : Entries) :
    (tests (.text field) operators).WritesEntry (.text field, .map operators) :=
  ⟨.tests h operators, render_tests_eq_ok_iff.mpr ⟨rfl, rfl⟩⟩

theorem Mergeable.under_or_tests (h : c.Mergeable) :
    (∃ isOr cs, c = under isOr cs) ∨
      ∃ (field : Text) (operators : Entries), field.head? ≠ some (.char '$') ∧
        c = .tests (.text field) operators := by
  cases h with
  | all cs => exact .inl ⟨false, cs, rfl⟩
  | any cs => exact .inl ⟨true, cs, rfl⟩
  | tests hfield operators => exact .inr ⟨_, operators, hfield, rfl⟩

/-- The entry is that of a connective, or that of tests of a field. -/
theorem WritesEntry.cases (h : c.WritesEntry e) :
    (∃ isOr cs docs, c = under isOr cs ∧ RenderAs cs docs ∧
      e = (connectiveKey isOr, .list (docs.map .map))) ∨
    ∃ (field : Text) (operators : Entries), field.head? ≠ some (.char '$') ∧
      c = tests (.text field) operators ∧ e = (.text field, .map operators) := by
  rcases h.mergeable.under_or_tests with ⟨isOr, cs, rfl⟩ | ⟨field, operators, hfield, rfl⟩
  · obtain ⟨docs, hdocs, he⟩ := render_under_eq_ok_iff.mp h.render_eq
    exact .inl ⟨isOr, cs, docs, rfl, hdocs, List.head_eq_of_cons_eq he⟩
  · obtain ⟨-, he⟩ := render_tests_eq_ok_iff.mp h.render_eq
    exact .inr ⟨field, operators, hfield, rfl, List.head_eq_of_cons_eq he⟩

theorem sameKey_connectiveKey (isOr : Bool) :
    (connectiveKey isOr).sameKey (connectiveKey isOr) = true := by
  cases isOr <;> decide

theorem sameKey_connectiveKey_not (isOr : Bool) :
    (connectiveKey isOr).sameKey (connectiveKey (!isOr)) = false := by
  cases isOr <;> decide

theorem sameKey_connectiveKey_text {field : Text} (h : field.head? ≠ some (.char '$'))
    (isOr : Bool) : (connectiveKey isOr).sameKey (.text field) = false := by
  cases hsame : (connectiveKey isOr).sameKey (.text field) with
  | false => rfl
  | true =>
    exfalso
    cases isOr
    · obtain rfl : "$and" = field := by simpa [connectiveKey, allKey] using hsame
      exact h rfl
    · obtain rfl : "$or" = field := by simpa [connectiveKey, anyKey] using hsame
      exact h rfl

theorem tracks_combine :
    Tracks WritesEntry combine (joinSameKey (·.1) Entries.joinEntries) := by
  intro c d e f hc hd
  rcases hc.cases with ⟨isOr, cs, left, rfl, hleft, rfl⟩ | ⟨field, ops, hfield, rfl, rfl⟩
  · rcases hd.cases with ⟨isOr', ds, right, rfl, hright, rfl⟩ | ⟨field, ops, hfield, rfl, rfl⟩
    · by_cases h : isOr' = isOr
      · subst h
        rw [combine_under, joinSameKey, if_pos (sameKey_connectiveKey isOr')]
        refine .some ?_
        rw [Entries.joinEntries, Entries.joinOperands, ← List.map_append]
        exact writesEntry_under (List.rel_append hleft hright)
      · obtain rfl : isOr' = !isOr := Bool.eq_not_of_ne h
        rw [combine_under_not, joinSameKey, sameKey_connectiveKey_not]
        exact .none
    · have hcombine : (under isOr cs).combine (tests (.text field) ops) = none := by
        cases isOr <;> rfl
      rw [hcombine, joinSameKey, sameKey_connectiveKey_text hfield]
      exact .none
  · rcases hd.cases with ⟨isOr, ds, right, rfl, hright, rfl⟩ | ⟨other, more, hother, rfl, rfl⟩
    · have hcombine : (tests (.text field) ops).combine (under isOr ds) = none := by
        cases isOr <;> rfl
      rw [hcombine, joinSameKey, Value.sameKey_comm, sameKey_connectiveKey_text hfield]
      exact .none
    · rw [combine, joinSameKey]
      by_cases h : (Value.text field).sameKey (.text other) = true
      · rw [if_pos h, if_pos h]
        exact .some (writesEntry_tests hfield (ops.update more))
      · rw [if_neg h, if_neg h]
        exact .none

/-! ### The document of merged clauses -/

theorem exists_writesEntry (h : c.WellFormed) (hm : c.Mergeable) : ∃ e, c.WritesEntry e := by
  obtain ⟨doc, hdoc⟩ := exists_writes h
  rcases hm.under_or_tests with ⟨isOr, cs, rfl⟩ | ⟨field, operators, hfield, rfl⟩
  · obtain ⟨docs, hdocs, -⟩ := render_under_eq_ok_iff.mp hdoc.render_eq
    exact ⟨_, writesEntry_under hdocs⟩
  · exact ⟨_, writesEntry_tests hfield operators⟩

theorem renderOnto_of_writesEntry (h : List.Forall₂ WritesEntry cs es) (onto : Entries) :
    renderOnto cs onto = .ok (onto.update es) := by
  induction h generalizing onto with
  | nil => rfl
  | @cons c e cs es he _ ih =>
    rw [renderOnto, he.render_eq]
    exact ih (onto.insert e.1 e.2)

/-- Such clauses that cannot be combined have one entry each, in order. -/
theorem render_document_of_writesEntry (h : List.Forall₂ WritesEntry cs es) (hn : Normal cs) :
    (document cs).render = .ok es := by
  have hes : Entries.Distinct es := Entries.apart_iff_distinct.mp (tracks_combine.apart h hn)
  rw [render_document, renderOnto_of_writesEntry h, Entries.update_nil_of_distinct hes]

theorem render_join_of_writesEntry {new : Entries} (hcs : List.Forall₂ WritesEntry cs es)
    (hds : List.Forall₂ WritesEntry ds new) (hn : Normal cs) (hm : Normal ds) :
    ((document cs).join (document ds)).render = .ok (Entries.mergeWith es new) := by
  have hes : Entries.Distinct es := Entries.apart_iff_distinct.mp (tracks_combine.apart hcs hn)
  have hnew : Entries.Distinct new := Entries.apart_iff_distinct.mp (tracks_combine.apart hds hm)
  have hjoined := tracks_combine.foldl_addJoining hcs hds
  rw [← addTo_eq] at hjoined
  rw [← Entries.foldl_mergeEntry hes hnew]
  exact render_document_of_writesEntry hjoined (normal_foldl_addTo hn ds)

/-- The keys that a clause names are those of its document, in order. A merged document has the keys
of the left side and then those of the right side that are new. For normal documents of connectives
and tests it is the two documents merged entry by entry. -/
theorem merged_document :
    (∀ c : Clause, c.WellFormed → ∃ doc, c.render = .ok doc ∧ c.keys = .ok doc.keys) ∧
    (∀ l r : Clause, l.WellFormed → r.WellFormed →
      ∃ m ks ls, l.merge r = .ok m ∧ l.keys = .ok ks ∧ r.keys = .ok ls ∧
        m.keys = .ok (ks ++ ls.filter fun k => !ks.any (·.sameKey k))) ∧
    ∀ cs ds : List Clause, (document cs).WellFormed → (document ds).WellFormed →
      (document cs).IsNormal → (document ds).IsNormal →
      (∀ c ∈ cs ++ ds, c.Mergeable) →
      ∃ m left right, (document cs).merge (document ds) = .ok m ∧
        (document cs).render = .ok left ∧ (document ds).render = .ok right ∧
        m.render = .ok (left.mergeWith right) := by
  refine ⟨?_, ?_, ?_⟩
  · intro c hc
    obtain ⟨doc, hdoc⟩ := exists_writes hc
    exact ⟨doc, hdoc.render_eq, hdoc.keys_eq⟩
  · intro l r hl hr
    obtain ⟨ks, ls, hks, hls, hkeys⟩ := keys_join hl hr
    exact ⟨_, ks, ls, merge_eq_ok hl hr, hks, hls, hkeys⟩
  · intro cs ds hcs hds hn hm hmergeable
    obtain ⟨hmcs, hmds⟩ := List.forall_mem_append.mp hmergeable
    obtain ⟨left, hleft⟩ := exists_forall₂ fun c hc =>
      exists_writesEntry (hcs.forall_clauses c hc) (hmcs c hc)
    obtain ⟨right, hright⟩ := exists_forall₂ fun d hd =>
      exists_writesEntry (hds.forall_clauses d hd) (hmds d hd)
    have hn : Normal cs := (isNormal_iff hcs).mp hn
    have hm : Normal ds := (isNormal_iff hds).mp hm
    exact ⟨_, left, right, merge_eq_ok hcs hds, render_document_of_writesEntry hleft hn,
      render_document_of_writesEntry hright hm, render_join_of_writesEntry hleft hright hn hm⟩

/-- Disjunctions one after the other, and a test of age that is written over. -/
theorem merged_document_disjunctions :
    let is (v : Text) : Clause := equals (.text "city") (.text v)
    let city (v : Text) : Value := .map [(.text "city", .text v)]
    let left := document [any [is "Oslo"], tests (.text "age") [(.text "$gte", .int 18)]]
    let right := document [tests (.text "age") [(.text "$lt", .int 65), (.text "$gte", .int 21)],
      tests (.text "name") [(.text "$ne", .null)], any [is "Bergen"]]
    left.WellFormed ∧ right.WellFormed ∧ left.IsNormal ∧ right.IsNormal ∧
      (∀ c ∈ left.clauses ++ right.clauses, c.Mergeable) ∧
      left.keys = .ok [.text "$or", .text "age"] ∧
      ∃ m, left.merge right = .ok m ∧
        m.keys = .ok [.text "$or", .text "age", .text "name"] ∧
        m.render = .ok [(.text "$or", .list [city "Oslo", city "Bergen"]),
          (.text "age", .map [(.text "$gte", .int 21), (.text "$lt", .int 65)]),
          (.text "name", .map [(.text "$ne", .null)])] := by
  intro is city left right
  have hany : ∀ v, (any [is v]).WellFormed := fun v =>
    .any (by simpa using .equals "city" (.text v))
  have htests : ∀ operators, Entries.Distinct operators →
      ∀ field : Text, (tests (.text field) operators).WellFormed :=
    fun _ h field => .tests field h
  have hpair : Entries.Distinct [(.text "$lt", .int 65), (.text "$gte", .int 21)] :=
    List.pairwise_pair.mpr (by decide)
  have hl : left.WellFormed := .document (by
    simp [hany, htests _ (Entries.distinct_single _ _)])
  have hr : right.WellFormed := .document (by
    simp [hany, htests _ (Entries.distinct_single _ _), htests _ hpair])
  have hnl : left.IsNormal := (isNormal_iff hl).mpr (List.pairwise_pair.mpr rfl)
  have hnr : right.IsNormal := (isNormal_iff hr).mpr
    (List.pairwise_cons.mpr ⟨by simp [combine], List.pairwise_pair.mpr rfl⟩)
  have hm : ∀ c ∈ left.clauses ++ right.clauses, c.Mergeable := by
    have hfield : ∀ field ∈ ["age", "name"], ∀ operators,
        (tests (.text field) operators).Mergeable :=
      fun field hfield operators => .tests (by revert field; decide) operators
    simp [left, right, clauses, Mergeable.any, hfield]
  obtain ⟨doc, hdoc, hkeysLeft⟩ := merged_document.1 left hl
  obtain ⟨m, ks, ls, hmerge, hks, hls, hkeys⟩ := merged_document.2.1 left right hl hr
  obtain ⟨m', d, e, hmerge', hd, he, hrender⟩ := merged_document.2.2 _ _ hl hr hnl hnr hm
  obtain rfl : m = m' := Except.ok.inj (hmerge.symm.trans hmerge')
  obtain rfl := Except.ok.inj hdoc
  obtain rfl := Except.ok.inj hks
  obtain rfl := Except.ok.inj hls
  obtain rfl := Except.ok.inj hd
  obtain rfl := Except.ok.inj he
  exact ⟨hl, hr, hnl, hnr, hm, hkeysLeft, m, hmerge, hkeys, hrender⟩

end Clause

end DocQuery
