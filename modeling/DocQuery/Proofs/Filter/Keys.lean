import DocQuery.Proofs.Filter.Normal
import DocQuery.Proofs.Filter.Rendering

/-!
# The keys of clauses

The keys that a well-formed clause names are those of the document that it writes (`exists_writes`),
so that such clauses can be merged (`merge_eq_ok`), and the document of both has the keys of the
left one and then those of the right one that are new (`keys_join`).
-/

namespace DocQuery.Clause

/-- Fields are text, operators are there once each, and what the caller wrote is a mapping. The bare
clause does not come. -/
inductive WellFormed : Clause → Prop
  | equals (field : Text) (v : Value) : WellFormed (.equals (.text field) v)
  | tests (field : Text) {operators : Entries} (h : operators.Distinct) :
      WellFormed (.tests (.text field) operators)
  | all {cs : List Clause} (h : ∀ c ∈ cs, WellFormed c) : WellFormed (.all cs)
  | any {cs : List Clause} (h : ∀ c ∈ cs, WellFormed c) : WellFormed (.any cs)
  | raw {es : Entries} (h : ∀ e ∈ es, e.1.isHashable = true) : WellFormed (.raw (.map es))
  | document {cs : List Clause} (h : ∀ c ∈ cs, WellFormed c) : WellFormed (.document cs)

/-- The clause has a document, whose keys it names. -/
structure Writes (c : Clause) (doc : Entries) : Prop where
  render_eq : c.render = .ok doc
  keys_eq : c.keys = .ok doc.keys
  hashable : ∀ k ∈ doc.keys, k.isHashable = true

variable {c d joined : Clause} {cs ds : List Clause} {docs : List Entries}

theorem hashable_single {k : Value} (h : k.isHashable = true) (v : Value) :
    ∀ l ∈ Entries.keys [(k, v)], l.isHashable = true := by
  simpa [Entries.keys] using h

theorem keysOnto_cons {ks : List Value} (hk : c.keys = .ok ks)
    (hh : ∀ k ∈ ks, k.isHashable = true) (cs : List Clause) (onto : List Value) :
    keysOnto (c :: cs) onto = keysOnto cs (ks.foldl Entries.addKey onto) := by
  rw [keysOnto, hk]
  show (ks.forM Value.checkHashable >>= fun _ => _) = _
  rw [Value.forM_checkHashable hh]
  rfl

theorem renderAs_of_writes (h : List.Forall₂ Writes cs docs) : RenderAs cs docs :=
  h.imp fun _ _ hw => hw.render_eq

theorem keysOnto_of_writes (h : List.Forall₂ Writes cs docs) (onto : Entries) :
    keysOnto cs onto.keys = .ok (docs.foldl Entries.update onto).keys := by
  induction h generalizing onto with
  | nil => rw [keysOnto]; rfl
  | cons hw _ ih =>
    rw [keysOnto_cons hw.keys_eq hw.hashable, ← Entries.keys_update, ih]
    rfl

theorem hashable_of_writes (h : List.Forall₂ Writes cs docs) {onto : Entries}
    (ho : ∀ k ∈ onto.keys, k.isHashable = true) :
    ∀ k ∈ (docs.foldl Entries.update onto).keys, k.isHashable = true := by
  induction h generalizing onto with
  | nil => exact ho
  | cons hw _ ih =>
    refine ih fun k hk => ?_
    rw [Entries.keys_update] at hk
    exact (Entries.mem_of_mem_foldl_addKey hk).elim (ho k) (hw.hashable k)

theorem writes_under {isOr : Bool} (h : RenderAs cs docs) :
    (under isOr cs).Writes [(connectiveKey isOr, .list (docs.map .map))] where
  render_eq := render_under_eq_ok_iff.mpr ⟨docs, h, rfl⟩
  keys_eq := by cases isOr <;> rfl
  hashable := hashable_single (by cases isOr <;> rfl) _

/-- The keys that a clause names are those of its document, in order. -/
theorem exists_writes (h : c.WellFormed) : ∃ doc, c.Writes doc := by
  induction h with
  | equals field v =>
    exact ⟨_, render_equals_eq_ok_iff.mpr ⟨rfl, rfl⟩, by rw [keys]; rfl, hashable_single rfl _⟩
  | tests field _ =>
    exact ⟨_, render_tests_eq_ok_iff.mpr ⟨rfl, rfl⟩, by rw [keys]; rfl, hashable_single rfl _⟩
  | @all cs _ ih =>
    obtain ⟨docs, hdocs⟩ := exists_forall₂ ih
    have hw : (under false cs).Writes _ := writes_under (renderAs_of_writes hdocs)
    exact ⟨_, hw⟩
  | @any cs _ ih =>
    obtain ⟨docs, hdocs⟩ := exists_forall₂ ih
    have hw : (under true cs).Writes _ := writes_under (renderAs_of_writes hdocs)
    exact ⟨_, hw⟩
  | @raw es h =>
    refine ⟨Entries.ofList es, by rw [render]; rfl, by rw [keys]; rfl, fun k hk => ?_⟩
    rw [Entries.ofList, Entries.keys_update] at hk
    rcases Entries.mem_of_mem_foldl_addKey hk with hk | hk
    · exact absurd hk List.not_mem_nil
    · obtain ⟨e, he, rfl⟩ := List.mem_map.mp hk
      exact h e he
  | document _ ih =>
    obtain ⟨docs, hdocs⟩ := exists_forall₂ ih
    refine ⟨docs.foldl Entries.update [], ?_, ?_, hashable_of_writes hdocs (by simp [Entries.keys])⟩
    · rw [render_document]
      exact renderOnto_eq_ok_iff.mpr ⟨docs, renderAs_of_writes hdocs, rfl⟩
    · rw [keys]
      exact keysOnto_of_writes hdocs []

theorem exists_keysOnto (h : ∀ c ∈ cs, c.WellFormed) :
    ∃ ks : List Value, ∀ onto, keysOnto cs onto = .ok (ks.foldl Entries.addKey onto) := by
  induction cs with
  | nil => exact ⟨[], fun onto => by rw [keysOnto]; rfl⟩
  | cons c cs ih =>
    obtain ⟨hc, hcs⟩ := List.forall_mem_cons.mp h
    obtain ⟨doc, hdoc⟩ := exists_writes hc
    obtain ⟨ks, hks⟩ := ih hcs
    refine ⟨doc.keys ++ ks, fun onto => ?_⟩
    rw [keysOnto_cons hdoc.keys_eq hdoc.hashable, hks, List.foldl_append]

theorem keysOnto_append (cs ds : List Clause) (onto : List Value) :
    keysOnto (cs ++ ds) onto = keysOnto cs onto >>= keysOnto ds := by
  induction cs generalizing onto with
  | nil => rw [keysOnto]; rfl
  | cons c cs ih =>
    rw [List.cons_append, keysOnto, keysOnto]
    simp only [ih, bind_assoc]

/-! ### Merging well-formed clauses -/

theorem WellFormed.forall_clauses (h : c.WellFormed) : ∀ d ∈ c.clauses, d.WellFormed := by
  cases h with
  | document h => exact h
  | equals field v => simpa [clauses] using .equals field v
  | tests field h => simpa [clauses] using .tests field h
  | all h => simpa [clauses] using .all h
  | any h => simpa [clauses] using .any h
  | raw h => simpa [clauses] using .raw h

theorem WellFormed.of_combine (hc : c.WellFormed) (hd : d.WellFormed)
    (h : c.combine d = some joined) : joined.WellFormed := by
  revert h
  fun_cases combine c d with
  | case1 cs ds =>
    rintro ⟨⟩
    cases hc with
    | all hcs => cases hd with
      | all hds => exact .all (List.forall_mem_append.mpr ⟨hcs, hds⟩)
  | case2 cs ds =>
    rintro ⟨⟩
    cases hc with
    | any hcs => cases hd with
      | any hds => exact .any (List.forall_mem_append.mpr ⟨hcs, hds⟩)
  | case3 f ops g more =>
    rintro ⟨⟩
    cases hc with
    | tests field hops => exact .tests field (Entries.distinct_update hops more)
  | case4 | case5 => rintro ⟨⟩

theorem wellFormed_addTo (hds : ∀ d ∈ ds, d.WellFormed) (hc : c.WellFormed) :
    ∀ d ∈ addTo ds c, d.WellFormed := by
  intro d hd
  rw [addTo_eq] at hd
  rcases mem_addJoining hd with hd | rfl | ⟨e, he, hd⟩
  · exact hds d hd
  · exact hc
  · exact (hds e he).of_combine hc hd

theorem wellFormed_foldl_addTo (hds : ∀ d ∈ ds, d.WellFormed) (hcs : ∀ c ∈ cs, c.WellFormed) :
    ∀ d ∈ cs.foldl addTo ds, d.WellFormed := by
  induction cs generalizing ds with
  | nil => exact hds
  | cons c cs ih =>
    obtain ⟨hc, hcs⟩ := List.forall_mem_cons.mp hcs
    exact ih (wellFormed_addTo hds hc) hcs

theorem wellFormed_join (hc : c.WellFormed) (hd : d.WellFormed) : (c.join d).WellFormed :=
  .document (wellFormed_foldl_addTo hc.forall_clauses hd.forall_clauses)

theorem compareKeys_eq_ok (hc : c.WellFormed) (hds : ∀ d ∈ ds, d.WellFormed) :
    compareKeys c ds = .ok () := by
  obtain ⟨doc, hdoc⟩ := exists_writes hc
  induction ds with
  | nil => rfl
  | cons d ds ih =>
    obtain ⟨hd, hds⟩ := List.forall_mem_cons.mp hds
    obtain ⟨other, hother⟩ := exists_writes hd
    rw [compareKeys, hother.keys_eq, hdoc.keys_eq]
    show (if (d.combine c).isSome then pure () else compareKeys c ds) = _
    split
    · rfl
    · exact ih hds

theorem compareAll_eq_ok (hds : ∀ d ∈ ds, d.WellFormed) (hcs : ∀ c ∈ cs, c.WellFormed) :
    compareAll ds cs = .ok () := by
  induction cs generalizing ds with
  | nil => rfl
  | cons c cs ih =>
    obtain ⟨hc, hcs⟩ := List.forall_mem_cons.mp hcs
    rw [compareAll, compareKeys_eq_ok hc hds]
    exact ih (wellFormed_addTo hds hc) hcs

theorem merge_eq_ok (hc : c.WellFormed) (hd : d.WellFormed) : c.merge d = .ok (c.join d) := by
  rw [merge, compareAll_eq_ok hc.forall_clauses hd.forall_clauses]
  rfl

/-- Clauses that can be combined name one key, and it is the same. -/
theorem exists_key_of_combine (h : c.combine d = some joined) :
    ∃ k l, c.keys = .ok [k] ∧ d.keys = .ok [l] ∧ k.sameKey l = true := by
  revert h
  fun_cases combine c d with
  | case1 cs ds => rintro ⟨⟩; exact ⟨allKey, allKey, rfl, rfl, by decide⟩
  | case2 cs ds => rintro ⟨⟩; exact ⟨anyKey, anyKey, rfl, rfl, by decide⟩
  | case3 f ops g more hfg => rintro ⟨⟩; exact ⟨f, g, rfl, rfl, hfg⟩
  | case4 | case5 => rintro ⟨⟩

/-- A clause that joins another one adds no key. -/
theorem keysOnto_addTo (hds : ∀ d ∈ ds, d.WellFormed) (hc : c.WellFormed) (onto : List Value) :
    keysOnto (addTo ds c) onto = keysOnto (ds ++ [c]) onto := by
  induction ds generalizing onto with
  | nil => rfl
  | cons d ds ih =>
    obtain ⟨hd, hds⟩ := List.forall_mem_cons.mp hds
    obtain ⟨doc, hdoc⟩ := exists_writes hd
    rw [List.cons_append, addTo, keysOnto_cons hdoc.keys_eq hdoc.hashable]
    cases h : d.combine c with
    | none => exact (keysOnto_cons hdoc.keys_eq hdoc.hashable _ _).trans (ih hds _)
    | some joined =>
      obtain ⟨k, l, hk, hl, hkl⟩ := exists_key_of_combine h
      obtain ⟨other, hother⟩ := exists_writes hc
      have hdocKeys : doc.keys = [k] := Except.ok.inj (hdoc.keys_eq.symm.trans hk)
      have hotherKeys : other.keys = [l] := Except.ok.inj (hother.keys_eq.symm.trans hl)
      obtain ⟨new, hnew⟩ := exists_keysOnto hds
      have hthere := Entries.any_foldl_addKey (Entries.any_addKey_self hkl onto) new
      show keysOnto (joined :: ds) onto = _
      rw [keysOnto_cons ((keys_eq_of_combine h).trans hdoc.keys_eq) hdoc.hashable, hdocKeys,
        keysOnto_append, List.foldl_cons, List.foldl_nil, hnew]
      show _ = keysOnto [c] _
      rw [keysOnto_cons hother.keys_eq hother.hashable, hotherKeys, keysOnto]
      exact congrArg Except.ok (Entries.addKey_of_any hthere).symm

theorem keysOnto_foldl_addTo (hds : ∀ d ∈ ds, d.WellFormed) (hcs : ∀ c ∈ cs, c.WellFormed)
    (onto : List Value) : keysOnto (cs.foldl addTo ds) onto = keysOnto (ds ++ cs) onto := by
  induction cs generalizing ds with
  | nil => rw [List.append_nil]; rfl
  | cons c cs ih =>
    obtain ⟨hc, hcs⟩ := List.forall_mem_cons.mp hcs
    rw [List.foldl_cons, ih (wellFormed_addTo hds hc) hcs, keysOnto_append, keysOnto_addTo hds hc,
      ← keysOnto_append, List.append_assoc]
    rfl

/-- A clause has the keys of the clauses that stand side by side in its document. -/
theorem keysOnto_clauses {doc : Entries} (h : c.Writes doc) :
    keysOnto c.clauses [] = .ok doc.keys := by
  cases c with
  | document cs =>
    have hkeys := h.keys_eq
    rwa [keys] at hkeys
  | _ =>
    show keysOnto [_] [] = _
    rw [keysOnto_cons h.keys_eq h.hashable, keysOnto,
      Entries.foldl_addKey_eq (distinct_of_render h.render_eq)]
    simp [pure, Except.pure]

theorem keys_join (hc : c.WellFormed) (hd : d.WellFormed) :
    ∃ ks ls, c.keys = .ok ks ∧ d.keys = .ok ls ∧
      (c.join d).keys = .ok (ks ++ ls.filter fun l => !ks.any (·.sameKey l)) := by
  obtain ⟨left, hleft⟩ := exists_writes hc
  obtain ⟨right, hright⟩ := exists_writes hd
  obtain ⟨new, hnew⟩ := exists_keysOnto hd.forall_clauses
  have hnew' : new.foldl Entries.addKey [] = right.keys :=
    Except.ok.inj ((hnew []).symm.trans (keysOnto_clauses hright))
  refine ⟨_, _, hleft.keys_eq, hright.keys_eq, ?_⟩
  rw [join, keys, keysOnto_foldl_addTo hc.forall_clauses hd.forall_clauses, keysOnto_append,
    keysOnto_clauses hleft]
  show keysOnto d.clauses left.keys = _
  rw [hnew, ← Entries.foldl_addKey_eq (distinct_of_render hright.render_eq), ← hnew',
    Entries.foldl_addKey_foldl_addKey]

end DocQuery.Clause
