import DocQuery.Proofs.Text.Halves
import DocQuery.Value.Basic

/-!
# What a value has in common with others that read alike

A tuple can be read as a list (`Value.asLists`), and a character from U+10000 on as its halves
(`Value.withHalves`). `Value.identity` reads a value in both ways. Where each text in two values is
well-formed, the second way tells no fewer values apart than there are (`identity_eq_iff`).
-/

namespace DocQuery.Value

mutual

/-- The value with every tuple in it read as a list. Flags are the same however they were given. -/
def asLists : Value → Value
  | list vs | tuple vs => list (allAsLists vs)
  | map es => map (entriesAsLists es)
  | regex pattern flags => regex pattern ⟨flags.bits, false⟩
  | v => v
termination_by structural v => v

def allAsLists : List Value → List Value
  | [] => []
  | v :: vs => v.asLists :: allAsLists vs
termination_by structural vs => vs

def entriesAsLists : List (Value × Value) → List (Value × Value)
  | [] => []
  | (k, v) :: es => (k, v.asLists) :: entriesAsLists es
termination_by structural es => es

end

/-- A key with the halves of characters in their place. -/
def keyWithHalves : Value → Value
  | text s => text (Text.halved s)
  | k => k

mutual

/-- The value with the halves of characters in their place. -/
def withHalves : Value → Value
  | text s => text (Text.halved s)
  | list vs => list (allWithHalves vs)
  | tuple vs => tuple (allWithHalves vs)
  | map es => map (entriesWithHalves es)
  | regex (text p) flags => regex (text (Text.halved p)) flags
  | v => v
termination_by structural v => v

def allWithHalves : List Value → List Value
  | [] => []
  | v :: vs => v.withHalves :: allWithHalves vs
termination_by structural vs => vs

def entriesWithHalves : List (Value × Value) → List (Value × Value)
  | [] => []
  | (k, v) :: es => (k.keyWithHalves, v.withHalves) :: entriesWithHalves es
termination_by structural es => es

end

/-- The value with tuples read as lists and characters as their halves. -/
def identity (v : Value) : Value :=
  v.asLists.withHalves

/-- Whether a key has no surrogate. -/
def isWellFormedKey : Value → Bool
  | text s => Text.isWellFormed s
  | _ => true

mutual

/-- Whether no text in the value, at any depth, has a surrogate. -/
def isWellFormed : Value → Bool
  | text s | regex (text s) _ => Text.isWellFormed s
  | list vs | tuple vs => allWellFormed vs
  | map es => entriesWellFormed es
  | _ => true
termination_by structural v => v

def allWellFormed : List Value → Bool
  | [] => true
  | v :: vs => v.isWellFormed && allWellFormed vs
termination_by structural vs => vs

def entriesWellFormed : List (Value × Value) → Bool
  | [] => true
  | (k, v) :: es => k.isWellFormedKey && v.isWellFormed && entriesWellFormed es
termination_by structural es => es

end

variable {v w : Value} {vs ws : List Value} {es fs : List (Value × Value)}

theorem allAsLists_eq_map (vs : List Value) : allAsLists vs = vs.map asLists := by
  induction vs with
  | nil => rfl
  | cons v vs ih => rw [allAsLists, List.map_cons, ih]

theorem allWithHalves_eq_map (vs : List Value) : allWithHalves vs = vs.map withHalves := by
  induction vs with
  | nil => rfl
  | cons v vs ih => rw [allWithHalves, List.map_cons, ih]

theorem asLists_list (vs : List Value) : (list vs).asLists = list (vs.map asLists) := by
  rw [asLists, allAsLists_eq_map]

theorem identity_list (vs : List Value) : (list vs).identity = list (vs.map identity) := by
  rw [identity, asLists_list, withHalves, allWithHalves_eq_map, List.map_map]
  rfl

mutual

theorem asLists_withHalves : ∀ v : Value, v.withHalves.asLists = v.identity
  | list vs | tuple vs => congrArg list (allAsLists_allWithHalves vs)
  | map es => congrArg map (entriesAsLists_entriesWithHalves es)
  | regex pattern flags => by cases pattern <;> rfl
  | null | bool _ | int _ | float _ | text _ | member _ | bytes _ | objectId _ | millis _
  | dateTime _ | date _ | compiled _ _ | uuid _ | timestamp _ _ | minKey | maxKey | missing => rfl
termination_by structural v => v

theorem allAsLists_allWithHalves : ∀ vs : List Value,
    allAsLists (allWithHalves vs) = allWithHalves (allAsLists vs)
  | [] => rfl
  | v :: vs => by
    rw [allWithHalves, allAsLists, asLists_withHalves v, allAsLists_allWithHalves vs]
    rfl
termination_by structural vs => vs

theorem entriesAsLists_entriesWithHalves : ∀ es : List (Value × Value),
    entriesAsLists (entriesWithHalves es) = entriesWithHalves (entriesAsLists es)
  | [] => rfl
  | (k, v) :: es => by
    rw [entriesWithHalves, entriesAsLists, asLists_withHalves v,
      entriesAsLists_entriesWithHalves es]
    rfl
termination_by structural es => es

end

mutual

theorem isWellFormed_asLists : ∀ v : Value, v.asLists.isWellFormed = v.isWellFormed
  | list vs | tuple vs => allWellFormed_allAsLists vs
  | map es => entriesWellFormed_entriesAsLists es
  | regex pattern flags => by cases pattern <;> rfl
  | null | bool _ | int _ | float _ | text _ | member _ | bytes _ | objectId _ | millis _
  | dateTime _ | date _ | compiled _ _ | uuid _ | timestamp _ _ | minKey | maxKey | missing => rfl
termination_by structural v => v

theorem allWellFormed_allAsLists : ∀ vs : List Value,
    allWellFormed (allAsLists vs) = allWellFormed vs
  | [] => rfl
  | v :: vs => by
    rw [allAsLists, allWellFormed, allWellFormed, isWellFormed_asLists v,
      allWellFormed_allAsLists vs]
termination_by structural vs => vs

theorem entriesWellFormed_entriesAsLists : ∀ es : List (Value × Value),
    entriesWellFormed (entriesAsLists es) = entriesWellFormed es
  | [] => rfl
  | (k, v) :: es => by
    rw [entriesAsLists, entriesWellFormed, entriesWellFormed, isWellFormed_asLists v,
      entriesWellFormed_entriesAsLists es]
termination_by structural es => es

end

theorem keyWithHalves_inj (hv : v.isWellFormedKey = true) (hw : w.isWellFormedKey = true)
    (h : v.keyWithHalves = w.keyWithHalves) : v = w := by
  cases v with
  | text s =>
    cases w with
    | text t => exact congrArg text (Text.halved_inj hv hw (text.inj h))
    | _ => cases h
  | _ => cases w <;> first | exact h | cases h

mutual

/-- The halves in a value are those of one value only, as long as all its texts are well-formed. -/
theorem withHalves_inj : ∀ (v : Value) {w : Value}, v.isWellFormed = true → w.isWellFormed = true →
    v.withHalves = w.withHalves → v = w
  | list vs, w, hv, hw, h => by
    cases w with
    | list ws => exact congrArg list (allWithHalves_inj vs hv hw (list.inj h))
    | regex p => cases p <;> cases h
    | _ => cases h
  | tuple vs, w, hv, hw, h => by
    cases w with
    | tuple ws => exact congrArg tuple (allWithHalves_inj vs hv hw (tuple.inj h))
    | regex p => cases p <;> cases h
    | _ => cases h
  | map es, w, hv, hw, h => by
    cases w with
    | map fs => exact congrArg map (entriesWithHalves_inj es hv hw (map.inj h))
    | regex p => cases p <;> cases h
    | _ => cases h
  | text s, w, hv, hw, h => by
    cases w with
    | text t => exact congrArg text (Text.halved_inj hv hw (text.inj h))
    | regex p => cases p <;> cases h
    | _ => cases h
  | regex p flags, w, hv, hw, h => by
    cases w with
    | regex q flags' =>
      cases p <;> cases q <;> first | (cases h; done) | (cases h; rfl) | skip
      obtain ⟨hpattern, rfl⟩ := regex.inj h
      rw [Text.halved_inj hv hw (text.inj hpattern)]
    | _ => cases p <;> cases h
  | null, w, hv, hw, h | bool _, w, hv, hw, h | int _, w, hv, hw, h | float _, w, hv, hw, h
  | member _, w, hv, hw, h | bytes _, w, hv, hw, h | objectId _, w, hv, hw, h
  | millis _, w, hv, hw, h | dateTime _, w, hv, hw, h | date _, w, hv, hw, h
  | compiled _ _, w, hv, hw, h | uuid _, w, hv, hw, h | timestamp _ _, w, hv, hw, h
  | minKey, w, hv, hw, h | maxKey, w, hv, hw, h | missing, w, hv, hw, h => by
    cases w with
    | list | tuple | map | text => cases h
    | regex p => cases p <;> cases h
    | _ => exact h
termination_by structural v => v

theorem allWithHalves_inj : ∀ (vs : List Value) {ws : List Value}, allWellFormed vs = true →
    allWellFormed ws = true → allWithHalves vs = allWithHalves ws → vs = ws
  | [], [], hv, hw, h => rfl
  | [], w :: ws, hv, hw, h | v :: vs, [], hv, hw, h => by cases h
  | v :: vs, w :: ws, hv, hw, h => by
    rw [allWellFormed, Bool.and_eq_true] at hv hw
    obtain ⟨hfirst, hrest⟩ := List.cons.inj h
    rw [withHalves_inj v hv.1 hw.1 hfirst, allWithHalves_inj vs hv.2 hw.2 hrest]
termination_by structural vs => vs

theorem entriesWithHalves_inj : ∀ (es : List (Value × Value)) {fs : List (Value × Value)},
    entriesWellFormed es = true → entriesWellFormed fs = true →
      entriesWithHalves es = entriesWithHalves fs → es = fs
  | [], [], he, hf, h => rfl
  | [], f :: fs, he, hf, h | e :: es, [], he, hf, h => by cases h
  | (k, v) :: es, (l, w) :: fs, he, hf, h => by
    rw [entriesWellFormed, Bool.and_eq_true, Bool.and_eq_true] at he hf
    obtain ⟨hentry, hrest⟩ := List.cons.inj h
    obtain ⟨hkey, hvalue⟩ := Prod.mk.inj hentry
    rw [keyWithHalves_inj he.1.1 hf.1.1 hkey, withHalves_inj v he.1.2 hf.1.2 hvalue,
      entriesWithHalves_inj es he.2 hf.2 hrest]
termination_by structural es => es

end

/-- Two values of well-formed texts have one identity only where they are the same, tuples read as
lists. -/
theorem identity_eq_iff (hv : v.isWellFormed = true) (hw : w.isWellFormed = true) :
    v.identity = w.identity ↔ v.asLists = w.asLists :=
  ⟨withHalves_inj _ (v.isWellFormed_asLists.trans hv) (w.isWellFormed_asLists.trans hw),
    congrArg withHalves⟩

end DocQuery.Value
