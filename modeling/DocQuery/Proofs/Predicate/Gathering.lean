import DocQuery.Predicate.Compile
import DocQuery.Proofs.Filter.Normal
import DocQuery.Proofs.Filter.Rendering

/-!
# Gathering clauses under their connectives

What `Predicate.assemble` makes of a list of clauses. Two or more end up in at most one conjunction
and at most one disjunction, that of the first clause in front (`assemble_eq_gathered`); a single
one stays what it is (`assemble_single_and`), or becomes a disjunction of itself
(`assemble_single_or`). `holds_gathered_iff` says when the document holds.
-/

namespace DocQuery

namespace Predicate

open Clause (under connectiveKey joinAll addTo Normal RenderAs combine_under combine_under_not)

/-- A clause and whether it is joined by a disjunction. -/
abbrev Joined := Bool × Clause

/-- The clauses that are joined by the given connective, in order. -/
def joinedBy (isOr : Bool) (l : List Joined) : List Clause :=
  (l.filter (·.1 == isOr)).map (·.2)

/-- The clauses under a connective, if there are any. -/
def connected (isOr : Bool) : List Clause → List Clause
  | [] => []
  | cs => [under isOr cs]

/-- The clauses under their connectives, the connective of the first clause in front. -/
def gathered (l : List Joined) : List Clause :=
  let first := (l.head?.map (·.1)).getD false
  connected first (joinedBy first l) ++ connected (!first) (joinedBy (!first) l)

variable {b : Bool} {c : Clause} {cs as bs : List Clause} {l : List Joined}

theorem joinedBy_cons_self (b : Bool) (c : Clause) (l : List Joined) :
    joinedBy b ((b, c) :: l) = c :: joinedBy b l := by
  simp [joinedBy]

theorem joinedBy_cons_of_ne {b b' : Bool} (h : b' ≠ b) (c : Clause) (l : List Joined) :
    joinedBy b ((b', c) :: l) = joinedBy b l := by
  simp [joinedBy, h]

theorem connected_of_ne_nil (h : cs ≠ []) : connected b cs = [under b cs] := by
  cases cs with
  | nil => exact absurd rfl h
  | cons c cs => rfl

theorem clauses_under (b : Bool) (cs : List Clause) : (under b cs).clauses = [under b cs] := by
  cases b <;> rfl

theorem addTo_connected_self (has : as ≠ []) (bs : List Clause) (c : Clause) :
    addTo (connected b as ++ connected (!b) bs) (under b [c]) =
      connected b (as ++ [c]) ++ connected (!b) bs := by
  have hne : as ++ [c] ≠ [] := by simp
  rw [connected_of_ne_nil has, connected_of_ne_nil hne, List.singleton_append, addTo,
    combine_under]
  rfl

theorem addTo_connected_not (has : as ≠ []) (bs : List Clause) (c : Clause) :
    addTo (connected b as ++ connected (!b) bs) (under (!b) [c]) =
      connected b as ++ connected (!b) (bs ++ [c]) := by
  rw [connected_of_ne_nil has, List.singleton_append, addTo, combine_under_not]
  cases bs with
  | nil => rfl
  | cons d bs =>
    show _ :: addTo [under (!b) (d :: bs)] (under (!b) [c]) = _
    rw [addTo, combine_under]
    rfl

/-- Each clause joins the conjunction or the disjunction, once the first of them is there. -/
theorem joinAll_connected (has : as ≠ []) (bs : List Clause) (l : List Joined) :
    joinAll (connected b as ++ connected (!b) bs) (l.map fun p => under p.1 [p.2]) =
      connected b (as ++ joinedBy b l) ++ connected (!b) (bs ++ joinedBy (!b) l) := by
  induction l generalizing as bs with
  | nil => simp [joinAll, joinedBy]
  | cons p l ih =>
    obtain ⟨b', c⟩ := p
    rw [joinAll, List.map_cons, List.foldl_cons, clauses_under, List.foldl_cons, List.foldl_nil]
    by_cases hb : b' = b
    · subst hb
      rw [addTo_connected_self has, ← joinAll, ih (by simp), joinedBy_cons_self,
        joinedBy_cons_of_ne (by simp)]
      simp
    · obtain rfl : b' = !b := by cases b <;> cases b' <;> simp_all
      rw [addTo_connected_not has, ← joinAll, ih has, joinedBy_cons_self,
        joinedBy_cons_of_ne hb]
      simp

theorem joinAll_nil_eq_gathered (l : List Joined) :
    joinAll [] (l.map fun p => under p.1 [p.2]) = gathered l := by
  cases l with
  | nil => rfl
  | cons p l =>
    obtain ⟨b, c⟩ := p
    have h := @joinAll_connected b [c] (by simp) [] l
    rw [joinAll, List.map_cons, List.foldl_cons, clauses_under]
    show joinAll (connected b [c] ++ connected (!b) []) _ = _
    rw [h, gathered]
    simp only [List.head?_cons, Option.map_some, Option.getD_some]
    rw [joinedBy_cons_self, joinedBy_cons_of_ne (by simp)]
    rfl

theorem underConnective_true (b : Bool) (c : Clause) :
    underConnective true b c = under b [c] := by
  cases b <;> rfl

theorem assemble_eq_gathered {connectives : List Bool} (h : 1 < cs.length) :
    assemble connectives cs = .document (gathered (connectives.zip cs)) := by
  have hunder : underConnective (1 < cs.length) = fun b c => under b [c] := by
    funext b c
    simp only [h, decide_true, underConnective_true]
  rw [assemble, Clause.foldl_join, hunder, ← joinAll_nil_eq_gathered, List.map_zip_eq_zipWith]
  rfl

theorem assemble_single_or (c : Clause) : assemble [true] [c] = .document [under true [c]] := rfl

theorem assemble_single_and (h : Normal c.clauses) :
    assemble [false] [c] = .document c.clauses := by
  show Clause.document (c.clauses.foldl addTo []) = _
  rw [Clause.foldl_addTo_nil_of_normal h]

/-- The entry of the clauses of one connective, if there are any, by their documents. -/
def connectedEntries (isOr : Bool) : List Entries → Entries
  | [] => []
  | docs => [(connectiveKey isOr, .list (docs.map .map))]

variable {es : Entries}

theorem renderOnto_connected {onto : Entries}
    (h : ∀ e ∈ onto, e.1.sameKey (connectiveKey b) = false) :
    Clause.renderOnto (connected b cs) onto = .ok es ↔
      ∃ docs, RenderAs cs docs ∧ es = onto ++ connectedEntries b docs := by
  cases cs with
  | nil =>
    show (pure onto : Except Fault Entries) = .ok es ↔ _
    rw [pure_eq_ok_iff]
    constructor
    · rintro rfl; exact ⟨[], .nil, by simp [connectedEntries]⟩
    · rintro ⟨docs, ⟨⟩, rfl⟩; simp [connectedEntries]
  | cons c cs =>
    show (under b (c :: cs)).render >>= (fun d => pure (onto.update d)) = .ok es ↔ _
    simp only [bind_eq_ok_iff, pure_eq_ok_iff, Clause.render_under_eq_ok_iff]
    constructor
    · rintro ⟨_, ⟨_, _ | ⟨hd, hdocs⟩, rfl⟩, rfl⟩
      exact ⟨_, .cons hd hdocs, Entries.insert_of_forall_not h _⟩
    · rintro ⟨_, _ | ⟨hd, hdocs⟩, rfl⟩
      exact ⟨_, ⟨_, .cons hd hdocs, rfl⟩, Entries.insert_of_forall_not h _⟩

/-- The document has an entry for each connective that some clause has, in order of appearance. -/
theorem render_gathered_eq_ok_iff {first : Bool} (hl : (l.head?.map (·.1)).getD false = first) :
    (Clause.document (gathered l)).render = .ok es ↔
      ∃ docs docs', RenderAs (joinedBy first l) docs ∧ RenderAs (joinedBy (!first) l) docs' ∧
        es = connectedEntries first docs ++ connectedEntries (!first) docs' := by
  have hkey : ∀ docs, ∀ e ∈ connectedEntries first docs,
      e.1.sameKey (connectiveKey (!first)) = false := by
    intro docs e he
    cases docs with
    | nil => simp [connectedEntries] at he
    | cons d docs =>
      rw [List.mem_singleton.mp he]
      cases first <;> rfl
  rw [Clause.render_document, gathered, hl]
  simp only [Clause.renderOnto_append, bind_eq_ok_iff]
  constructor
  · rintro ⟨_, h, h'⟩
    obtain ⟨docs, hdocs, rfl⟩ := (renderOnto_connected (by simp)).mp h
    obtain ⟨docs', hdocs', rfl⟩ := (renderOnto_connected (hkey docs)).mp h'
    exact ⟨docs, docs', hdocs, hdocs', rfl⟩
  · rintro ⟨docs, docs', hdocs, hdocs', rfl⟩
    exact ⟨_, (renderOnto_connected (by simp)).mpr ⟨docs, hdocs, rfl⟩,
      (renderOnto_connected (hkey docs)).mpr ⟨docs', hdocs', rfl⟩⟩

/-! ### When the document holds -/

variable {L : Reading}

/-- What the clauses of one connective say; nothing if there are none. -/
def ConnectedHolds (L : Reading) (isOr : Bool) (cs : List Clause) : Prop :=
  if isOr then cs ≠ [] → ∃ c ∈ cs, c.Holds L else ∀ c ∈ cs, c.Holds L

theorem holds_connectedEntries {docs : List Entries} (h : RenderAs cs docs) (b : Bool) :
    Entries.Holds L (connectedEntries b docs) ↔ ConnectedHolds L b cs := by
  have hall := @Clause.forall_holds_iff cs L docs h
  have hany := @Clause.exists_holds_iff cs L docs h
  cases h with
  | nil => cases b <;> simp [ConnectedHolds, connectedEntries, Entries.holds_nil]
  | cons =>
    cases b with
    | false => exact Entries.holds_all.trans hall
    | true =>
      refine (Entries.holds_any.trans hany).trans ?_
      simp [ConnectedHolds]

theorem holds_gathered_iff (h : (Clause.document (gathered l)).render = .ok es) :
    es.Holds L ↔
      ConnectedHolds L false (joinedBy false l) ∧ ConnectedHolds L true (joinedBy true l) := by
  obtain ⟨docs, docs', hdocs, hdocs', rfl⟩ := (render_gathered_eq_ok_iff rfl).mp h
  rw [Entries.holds_append, holds_connectedEntries hdocs, holds_connectedEntries hdocs']
  cases (l.head?.map (·.1)).getD false with
  | false => exact Iff.rfl
  | true => exact and_comm

end Predicate

end DocQuery
