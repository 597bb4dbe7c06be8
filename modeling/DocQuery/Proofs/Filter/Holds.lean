import DocQuery.Filter.Clause

/-!
# When a filter document holds

A `Reading` decides single entries of a filter. Under it a filter document holds (`Entries.Holds`)
when all its entries do, where `$and` and `$or` with a list of documents ask for all of them or for
one of them, and the reading decides every other entry. `holds_iff_forall` and the two lemmas on
`$and` and `$or` are all that later proofs use.
-/

namespace DocQuery

/-- Which keys of a filter hold with which operands. -/
abbrev Reading := Value → Value → Prop

/-- Whether the value is a list of documents, given its items. -/
def areDocuments (vs : List Value) : Bool :=
  vs.all fun v => v matches .map _

mutual

/-- Whether an entry of a filter holds, by its key and its operand. -/
def entryHolds (L : Reading) (k : Value) : Value → Prop
  | .list vs =>
    if k = Clause.allKey ∧ areDocuments vs then allHold L vs
    else if k = Clause.anyKey ∧ areDocuments vs then oneHolds L vs
    else L k (.list vs)
  | v => L k v
termination_by structural v => v

def documentHolds (L : Reading) : Value → Prop
  | .map es => entriesHold L es
  | _ => False
termination_by structural v => v

def allHold (L : Reading) : List Value → Prop
  | [] => True
  | v :: vs => documentHolds L v ∧ allHold L vs
termination_by structural vs => vs

def oneHolds (L : Reading) : List Value → Prop
  | [] => False
  | v :: vs => documentHolds L v ∨ oneHolds L vs
termination_by structural vs => vs

def entriesHold (L : Reading) : List (Value × Value) → Prop
  | [] => True
  | (k, v) :: es => entryHolds L k v ∧ entriesHold L es
termination_by structural es => es

end

/-- Whether a filter document holds. -/
def Entries.Holds (L : Reading) (es : Entries) : Prop :=
  entriesHold L es

variable {L : Reading}

theorem allHold_iff {vs : List Value} : allHold L vs ↔ ∀ v ∈ vs, documentHolds L v := by
  induction vs with
  | nil => simp [allHold]
  | cons v vs ih => rw [allHold, ih, List.forall_mem_cons]

theorem oneHolds_iff {vs : List Value} : oneHolds L vs ↔ ∃ v ∈ vs, documentHolds L v := by
  induction vs with
  | nil => simp [oneHolds]
  | cons v vs ih => simp [oneHolds, ih]

theorem entryHolds_map (k : Value) (es : List (Value × Value)) :
    entryHolds L k (.map es) ↔ L k (.map es) := by
  simp [entryHolds]

theorem areDocuments_map (docs : List Entries) : areDocuments (docs.map .map) = true := by
  simp [areDocuments]

namespace Entries

theorem holds_iff_forall {es : Entries} : es.Holds L ↔ ∀ e ∈ es, entryHolds L e.1 e.2 := by
  unfold Holds
  induction es with
  | nil => simp [entriesHold]
  | cons e es ih => rw [entriesHold, ih, List.forall_mem_cons]

theorem holds_nil : Holds L [] := trivial

theorem holds_append {es fs : Entries} : Holds L (es ++ fs) ↔ es.Holds L ∧ fs.Holds L := by
  simp only [holds_iff_forall, List.forall_mem_append]

theorem holds_single {k v : Value} : Holds L [(k, v)] ↔ entryHolds L k v := by
  simp [holds_iff_forall]

/-- `$and` of documents holds when all of them do. -/
theorem holds_all {docs : List Entries} :
    Holds L [(Clause.allKey, .list (docs.map .map))] ↔ ∀ d ∈ docs, d.Holds L := by
  rw [holds_single, entryHolds, if_pos ⟨rfl, areDocuments_map docs⟩, allHold_iff]
  simp [documentHolds, Holds]

/-- `$or` of documents holds when one of them does. -/
theorem holds_any {docs : List Entries} :
    Holds L [(Clause.anyKey, .list (docs.map .map))] ↔ ∃ d ∈ docs, d.Holds L := by
  have hne : Clause.anyKey ≠ Clause.allKey := by decide
  rw [holds_single, entryHolds, if_neg fun h => hne h.1, if_pos ⟨rfl, areDocuments_map docs⟩,
    oneHolds_iff]
  simp only [List.mem_map]
  constructor
  · rintro ⟨_, ⟨d, hd, rfl⟩, h⟩; exact ⟨d, hd, h⟩
  · rintro ⟨d, hd, h⟩; exact ⟨_, ⟨d, hd, rfl⟩, h⟩

end Entries

end DocQuery
