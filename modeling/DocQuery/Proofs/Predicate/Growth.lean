import DocQuery.Proofs.Predicate.Arrays
import DocQuery.Proofs.Predicate.Narrowing

/-!
# A longer list has another filter

A conjunctive predicate at the end of a list is always seen in the filter document
(`compileFilter_append_ne`): it makes the array of the conjunctive documents longer, or puts the
document of the only predicate into an array.
-/

namespace DocQuery

open Clause (RenderAs connectiveKey)

namespace Predicate
variable {p g : Predicate} {ps : List Predicate} {cs ds : List Clause}
  {own docs : List Entries} {d doc whole : Entries} {b : Bool} {js : List Bool}

theorem joining_append (hg : g.isOr = false) : joining (ps ++ [g]) = joining ps ++ [false] := by
  have hlast : ¬ JoinedByOr (ps.map isOr) ps.length := by
    rintro (h | ⟨h0, h⟩)
    · obtain ⟨hlt, -⟩ := List.getElem?_eq_some_iff.mp h
      simp at hlt
    · obtain ⟨hlt, -⟩ := List.getElem?_eq_some_iff.mp h
      simp at hlt
      omega
  unfold joining
  rw [List.length_append, List.length_singleton, List.range_succ, List.map_append, List.map_append,
    List.map_singleton, List.map_singleton, hg]
  simp only [joinedByOr_append, hlast, decide_false]

theorem arrayOf_append (hlen : js.length = own.length) (j : Bool) (d : Entries) :
    arrayOf b (js ++ [j]) (own ++ [d]) = arrayOf b js own ++ if j = b then [d] else [] := by
  unfold arrayOf
  rw [List.zip_append hlen, List.filter_append, List.map_append]
  cases j <;> cases b <;> rfl

theorem renderAs_append_single {c : Clause} (h : RenderAs (cs ++ [c]) docs) :
    ∃ own d, RenderAs cs own ∧ docs = own ++ [d] := by
  induction cs generalizing docs with
  | nil =>
    obtain ⟨d, _, -, hnil, rfl⟩ := List.forall₂_cons_left_iff.mp h
    obtain rfl := List.forall₂_nil_left_iff.mp hnil
    exact ⟨[], d, .nil, rfl⟩
  | cons c' cs ih =>
    obtain ⟨d', rest, hd', hrest, rfl⟩ := List.forall₂_cons_left_iff.mp h
    obtain ⟨own, d, hown, rfl⟩ := ih hrest
    exact ⟨d' :: own, d, .cons hd' hown, rfl⟩

theorem sizeOf_lt_of_mem_array {k : Value} (hmem : (k, .list (docs.map .map)) ∈ whole)
    (hd : d ∈ docs) : sizeOf d < sizeOf whole := by
  have hentry := List.sizeOf_lt_of_mem hmem
  have hdoc := List.sizeOf_lt_of_mem (List.mem_map_of_mem (f := Value.map) hd)
  simp only [Prod.mk.sizeOf_spec, Value.list.sizeOf_spec, Value.map.sizeOf_spec] at hentry hdoc
  omega

/-- A conjunctive predicate whose own document is not empty does not go unseen. -/
theorem compileFilter_append_ne {alone : Entries} (hg : g.isOr = false)
    (hdoc : compileFilter ps = .ok doc) (halone : compileFilter [g] = .ok alone)
    (hne : alone ≠ []) (hwhole : compileFilter (ps ++ [g]) = .ok whole) : whole ≠ doc := by
  obtain ⟨cs, hcs, hd⟩ := compileFilter_eq_ok_iff.mp hdoc
  obtain ⟨_, hcs', hd'⟩ := compileFilter_eq_ok_iff.mp hwhole
  obtain ⟨_, gs, has, hgs, rfl⟩ := clauses_append_eq_ok_iff.mp hcs'
  obtain rfl := Except.ok.inj (hcs.symm.trans has)
  obtain ⟨c, _, -, hnil, rfl⟩ := clauses_cons_eq_ok_iff.mp hgs
  obtain rfl := clauses_nil_eq_ok_iff.mp hnil
  have hlen := length_of_clauses hcs
  rcases render_assemble_cases (length_of_clauses hcs') (normal_of_clauses hcs') hd' with
    ⟨c', hc', -⟩ | ⟨docs, hdocs, rfl⟩
  · -- the predicate is the only one
    obtain rfl : cs = [] := by
      cases cs with
      | nil => rfl
      | cons => simp at hc'
    obtain rfl := List.length_eq_zero_iff.mp hlen.symm
    obtain rfl : [] = doc := Except.ok.inj hdoc
    obtain rfl := Except.ok.inj (halone.symm.trans hwhole)
    exact hne
  · obtain ⟨own, d, hown, rfl⟩ := renderAs_append_single hdocs
    have hjs : (joining ps).length = own.length := by rw [length_joining, ← hlen, hown.length_eq]
    rw [joining_append hg]
    intro heq
    have hentry : ∀ b ∈ joining ps ++ [false],
        (connectiveKey b, Value.list ((arrayOf b (joining ps ++ [false]) (own ++ [d])).map .map)) ∈
          doc := fun b hb => by
      rw [← heq]
      exact List.mem_map.mpr ⟨b, List.mem_eraseDups.mpr hb, rfl⟩
    rcases render_assemble_cases hlen (normal_of_clauses hcs) hd with
      ⟨c', rfl, hc'⟩ | ⟨own', hown', rfl⟩
    · -- the only earlier document is now a part of the whole one
      obtain ⟨doc', _, hdoc', hnil, rfl⟩ := List.forall₂_cons_left_iff.mp hown
      obtain rfl := List.forall₂_nil_left_iff.mp hnil
      obtain rfl := Except.ok.inj (hdoc'.symm.trans hc')
      obtain ⟨j, hj⟩ := List.length_eq_one_iff.mp hjs
      have hmem : doc' ∈ arrayOf j (joining ps ++ [false]) ([doc'] ++ [d]) := by
        rw [arrayOf_append hjs, hj]
        simp [arrayOf]
      exact absurd (sizeOf_lt_of_mem_array (hentry j (by simp [hj])) hmem) (Nat.lt_irrefl _)
    · -- the array of the conjunctive documents has become longer
      obtain rfl := eq_of_renderAs hown hown'
      obtain ⟨b, -, hb⟩ := List.mem_map.mp (hentry false (by simp))
      obtain ⟨hkey, harray⟩ := Prod.mk.inj hb
      obtain rfl : b = false := by
        cases b with
        | false => rfl
        | true => exact absurd hkey (by decide)
      have hlength := congrArg List.length (Value.list.inj harray)
      rw [arrayOf_append hjs] at hlength
      simp at hlength

end Predicate

end DocQuery
