import Mathlib.Data.List.Forall2
import DocQuery.Filter.Merge
import DocQuery.Proofs.Fallible
import DocQuery.Proofs.Filter.Holds
import DocQuery.Proofs.Value.DistinctKeys

/-!
# Rendered clauses

What the filter document of a clause is made of: `renderEach_eq_ok_iff` for the documents in an
array, `renderOnto_eq_ok_iff` for clauses side by side, and `render_under_eq_ok_iff` for clauses
under a connective. A clause holds (`Clause.Holds`) when its filter document does.
-/

namespace DocQuery

theorem exists_forall₂ {α β : Type} {R : α → β → Prop} {as : List α}
    (h : ∀ a ∈ as, ∃ b, R a b) : ∃ bs, List.Forall₂ R as bs := by
  induction as with
  | nil => exact ⟨[], .nil⟩
  | cons a as ih =>
    obtain ⟨b, hb⟩ := h a (by simp)
    obtain ⟨bs, hbs⟩ := ih fun a ha => h a (by simp [ha])
    exact ⟨b :: bs, .cons hb hbs⟩

namespace Clause
variable {c : Clause} {cs : List Clause} {es : Entries}

/-- The documents of the clauses, in order. -/
def RenderAs (cs : List Clause) (docs : List Entries) : Prop :=
  List.Forall₂ (fun c d => c.render = .ok d) cs docs

theorem renderEach_eq_ok_iff {vs : List Value} :
    renderEach cs = .ok vs ↔ ∃ docs, RenderAs cs docs ∧ vs = docs.map .map := by
  induction cs generalizing vs with
  | nil =>
    rw [renderEach, pure_eq_ok_iff]
    constructor
    · rintro rfl; exact ⟨[], .nil, rfl⟩
    · rintro ⟨docs, ⟨⟩, rfl⟩; rfl
  | cons c cs ih =>
    rw [renderEach]
    simp only [bind_eq_ok_iff, pure_eq_ok_iff]
    constructor
    · rintro ⟨d, hd, ws, hws, rfl⟩
      obtain ⟨docs, hdocs, rfl⟩ := ih.mp hws
      exact ⟨d :: docs, .cons hd hdocs, rfl⟩
    · rintro ⟨_, _ | ⟨hd, hdocs⟩, rfl⟩
      exact ⟨_, hd, _, ih.mpr ⟨_, hdocs, rfl⟩, rfl⟩

theorem renderOnto_eq_ok_iff {onto : Entries} :
    renderOnto cs onto = .ok es ↔
      ∃ docs, RenderAs cs docs ∧ es = docs.foldl Entries.update onto := by
  induction cs generalizing onto with
  | nil =>
    rw [renderOnto, pure_eq_ok_iff]
    constructor
    · rintro rfl; exact ⟨[], .nil, rfl⟩
    · rintro ⟨docs, ⟨⟩, rfl⟩; rfl
  | cons c cs ih =>
    rw [renderOnto, bind_eq_ok_iff]
    constructor
    · rintro ⟨d, hd, h⟩
      obtain ⟨docs, hdocs, rfl⟩ := ih.mp h
      exact ⟨d :: docs, .cons hd hdocs, rfl⟩
    · rintro ⟨_, _ | ⟨hd, hdocs⟩, rfl⟩
      exact ⟨_, hd, ih.mpr ⟨_, hdocs, rfl⟩⟩

theorem renderOnto_append (cs ds : List Clause) (onto : Entries) :
    renderOnto (cs ++ ds) onto = renderOnto cs onto >>= renderOnto ds := by
  induction cs generalizing onto with
  | nil => rfl
  | cons c cs ih =>
    rw [List.cons_append, renderOnto, renderOnto]
    cases c.render with
    | error fault => rfl
    | ok d => exact ih _

theorem render_document (cs : List Clause) : (document cs).render = renderOnto cs [] := by
  rw [render]

/-- No filter document has a key twice. -/
theorem distinct_of_render (h : c.render = .ok es) : es.Distinct := by
  cases c with
  | equals f v | tests f v =>
    rw [render] at h
    obtain ⟨-, -, h⟩ := bind_eq_ok_iff.mp h
    rw [pure_eq_ok_iff] at h
    exact h ▸ Entries.distinct_single _ _
  | all cs | any cs =>
    rw [render] at h
    obtain ⟨vs, -, h⟩ := bind_eq_ok_iff.mp h
    rw [pure_eq_ok_iff] at h
    exact h ▸ Entries.distinct_single _ _
  | raw content =>
    rw [render] at h
    exact Value.distinct_of_toEntries h
  | document cs =>
    rw [render_document] at h
    obtain ⟨docs, -, rfl⟩ := renderOnto_eq_ok_iff.mp h
    have step : ∀ (docs : List Entries) (onto : Entries), onto.Distinct →
        (docs.foldl Entries.update onto).Distinct := by
      intro docs
      induction docs with
      | nil => exact fun _ h => h
      | cons d docs ih => exact fun onto h => ih _ (Entries.distinct_update h d)
    exact step docs [] Entries.distinct_nil
  | bare => rw [render] at h; exact absurd h throw_ne_ok

/-- A clause that is alone in a document has the document for its own. -/
theorem render_document_single (c : Clause) : (document [c]).render = c.render := by
  rw [render_document, renderOnto]
  cases h : c.render with
  | error fault => rfl
  | ok d =>
    simp only [bind, Except.bind, renderOnto]
    rw [Entries.update_nil_of_distinct (distinct_of_render h)]
    rfl

theorem render_document_clauses (c : Clause) : (document c.clauses).render = c.render := by
  cases c with
  | document cs => rfl
  | equals | tests | all | any | raw | bare => exact render_document_single _

variable {column : Value}

theorem render_equals_eq_ok_iff {v : Value} :
    (equals column v).render = .ok es ↔ column.checkHashable = .ok () ∧ es = [(column, v)] := by
  rw [render]
  exact check_bind_pure_eq_ok_iff

theorem render_tests_eq_ok_iff {operators : Entries} :
    (tests column operators).render = .ok es ↔
      column.checkHashable = .ok () ∧ es = [(column, .map operators)] := by
  rw [render]
  exact check_bind_pure_eq_ok_iff

/-- The key of a connective. -/
def connectiveKey (isOr : Bool) : Value :=
  if isOr then anyKey else allKey

/-- The clauses under a connective. -/
def under (isOr : Bool) (cs : List Clause) : Clause :=
  if isOr then any cs else all cs

theorem combine_under (isOr : Bool) (cs ds : List Clause) :
    (under isOr cs).combine (under isOr ds) = some (under isOr (cs ++ ds)) := by
  cases isOr <;> rfl

theorem combine_under_not (isOr : Bool) (cs ds : List Clause) :
    (under isOr cs).combine (under (!isOr) ds) = none := by
  cases isOr <;> rfl

theorem render_under_eq_ok_iff {isOr : Bool} :
    (under isOr cs).render = .ok es ↔
      ∃ docs, RenderAs cs docs ∧ es = [(connectiveKey isOr, .list (docs.map .map))] := by
  have h : (under isOr cs).render =
      renderEach cs >>= fun vs => pure [(connectiveKey isOr, .list vs)] := by
    cases isOr
    · show (all cs).render = _
      rw [render]; rfl
    · show (any cs).render = _
      rw [render]; rfl
  rw [h, bind_eq_ok_iff]
  simp only [pure_eq_ok_iff, renderEach_eq_ok_iff]
  constructor
  · rintro ⟨_, ⟨docs, hdocs, rfl⟩, rfl⟩; exact ⟨docs, hdocs, rfl⟩
  · rintro ⟨docs, hdocs, rfl⟩; exact ⟨_, ⟨docs, hdocs, rfl⟩, rfl⟩

variable {L : Reading}

/-- Whether the filter document of a clause holds. -/
def Holds (L : Reading) (c : Clause) : Prop :=
  ∃ d, c.render = .ok d ∧ d.Holds L

theorem holds_iff_of_render (h : c.render = .ok es) : c.Holds L ↔ es.Holds L := by
  simp [Holds, h]

theorem forall_holds_iff {docs : List Entries} (h : RenderAs cs docs) :
    (∀ d ∈ docs, d.Holds L) ↔ ∀ c ∈ cs, c.Holds L := by
  induction h with
  | nil => simp
  | cons hd _ ih => rw [List.forall_mem_cons, List.forall_mem_cons, ih, holds_iff_of_render hd]

theorem exists_holds_iff {docs : List Entries} (h : RenderAs cs docs) :
    (∃ d ∈ docs, d.Holds L) ↔ ∃ c ∈ cs, c.Holds L := by
  induction h with
  | nil => simp
  | cons hd _ ih =>
    simp only [List.mem_cons, exists_eq_or_imp]
    rw [ih, holds_iff_of_render hd]

end Clause

end DocQuery
