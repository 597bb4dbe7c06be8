import DocQuery.Decimal.Binary64
import DocQuery.Pattern.Flags
import DocQuery.Value.Member

/-!
# Values

`Value` is the one dynamic type of the library: what a filter compares with, what a document holds
and what a caller passes. A mapping is the list of its entries in insertion order; that its keys are
distinct is not part of the type. Main statement: `Value.same_iff`, by which equality of values is
decided.
-/

namespace DocQuery

/-- A day of the proleptic Gregorian calendar. -/
structure Date where
  year : Int
  month : Nat
  day : Nat
deriving DecidableEq, Repr, Inhabited

/-- A day and a time of day. The offset is in seconds east of UTC; without one the time is naive. -/
structure DateTime where
  date : Date
  hour : Nat := 0
  minute : Nat := 0
  second : Nat := 0
  micro : Nat := 0
  offset : Option Int := none
deriving DecidableEq, Repr, Inhabited

inductive Value where
  | null
  | bool (b : Bool)
  | int (n : Int)
  | float (x : Binary64)
  | text (s : Text)
  | member (m : Member)
  | bytes (bs : List UInt8)
  | list (items : List Value)
  | tuple (items : List Value)
  | map (entries : List (Value × Value))
  /-- An identifier, as its 24 lower-case hexadecimal digits. -/
  | objectId (hex : String)
  /-- An instant, in milliseconds since the epoch. -/
  | millis (ms : Int)
  | dateTime (t : DateTime)
  | date (d : Date)
  /-- A regular expression of the store. -/
  | regex (pattern : Value) (flags : Pattern.Flags)
  /-- A regular expression that the caller has compiled, with its flag bits. -/
  | compiled (pattern : Value) (flags : Int)
  | uuid (s : String)
  | timestamp (seconds increment : Int)
  | minKey
  | maxKey
  /-- The argument that was not given. -/
  | missing
deriving Inhabited

/-- The entries of a mapping, in insertion order. -/
abbrev Entries := List (Value × Value)

namespace Value

mutual

def same : Value → Value → Bool
  | null, null => true
  | bool a, bool b => a == b
  | int a, int b => a == b
  | float a, float b => a == b
  | text a, text b => a == b
  | member a, member b => a == b
  | bytes a, bytes b => a == b
  | list a, list b => sameItems a b
  | tuple a, tuple b => sameItems a b
  | map a, map b => sameEntries a b
  | objectId a, objectId b => a == b
  | millis a, millis b => a == b
  | dateTime a, dateTime b => a == b
  | date a, date b => a == b
  | regex p f, regex q g => p.same q && f == g
  | compiled p f, compiled q g => p.same q && f == g
  | uuid a, uuid b => a == b
  | timestamp s i, timestamp t j => s == t && i == j
  | minKey, minKey => true
  | maxKey, maxKey => true
  | missing, missing => true
  | _, _ => false
termination_by structural v => v

def sameItems : List Value → List Value → Bool
  | [], [] => true
  | a :: as, b :: bs => a.same b && sameItems as bs
  | _, _ => false
termination_by structural vs => vs

def sameEntries : List (Value × Value) → List (Value × Value) → Bool
  | [], [] => true
  | (k, v) :: as, (l, w) :: bs => k.same l && v.same w && sameEntries as bs
  | _, _ => false
termination_by structural es => es

end

mutual

theorem same_self : ∀ v : Value, v.same v = true
  | null | bool _ | int _ | float _ | text _ | member _ | bytes _ | objectId _ | millis _
  | dateTime _ | date _ | uuid _ | timestamp _ _ | minKey | maxKey | missing => by simp [same]
  | list vs => by simp [same, sameItems_self vs]
  | tuple vs => by simp [same, sameItems_self vs]
  | map es => by simp [same, sameEntries_self es]
  | regex p _ => by simp [same, same_self p]
  | compiled p _ => by simp [same, same_self p]

theorem sameItems_self : ∀ vs : List Value, sameItems vs vs = true
  | [] => by simp [sameItems]
  | v :: vs => by simp [sameItems, same_self v, sameItems_self vs]

theorem sameEntries_self : ∀ es : List (Value × Value), sameEntries es es = true
  | [] => by simp [sameEntries]
  | (k, v) :: es => by simp [sameEntries, same_self k, same_self v, sameEntries_self es]

end

mutual

theorem eq_of_same : ∀ v w : Value, v.same w = true → v = w
  | null, w, h | bool _, w, h | int _, w, h | float _, w, h | text _, w, h | member _, w, h
  | bytes _, w, h | objectId _, w, h | millis _, w, h | dateTime _, w, h | date _, w, h
  | uuid _, w, h | timestamp _ _, w, h | minKey, w, h | maxKey, w, h | missing, w, h => by
    cases w <;> simp_all [same]
  | list vs, w, h => by
    cases w <;> simp [same] at h
    rw [eq_of_sameItems _ _ h]
  | tuple vs, w, h => by
    cases w <;> simp [same] at h
    rw [eq_of_sameItems _ _ h]
  | map es, w, h => by
    cases w <;> simp [same] at h
    rw [eq_of_sameEntries _ _ h]
  | regex p f, w, h => by
    cases w <;> simp [same] at h
    rw [eq_of_same _ _ h.1, h.2]
  | compiled p f, w, h => by
    cases w <;> simp [same] at h
    rw [eq_of_same _ _ h.1, h.2]

theorem eq_of_sameItems : ∀ vs ws : List Value, sameItems vs ws = true → vs = ws
  | [], ws, h => by cases ws <;> simp_all [sameItems]
  | v :: vs, ws, h => by
    cases ws <;> simp [sameItems] at h
    rw [eq_of_same _ _ h.1, eq_of_sameItems _ _ h.2]

theorem eq_of_sameEntries : ∀ es fs : List (Value × Value), sameEntries es fs = true → es = fs
  | [], fs, h => by cases fs <;> simp_all [sameEntries]
  | (k, v) :: es, fs, h => by
    cases fs <;> simp [sameEntries] at h
    obtain ⟨⟨hk, hv⟩, hr⟩ := h
    rw [eq_of_same _ _ hk, eq_of_same _ _ hv, eq_of_sameEntries _ _ hr]

end

theorem same_iff {v w : Value} : v.same w = true ↔ v = w :=
  ⟨eq_of_same v w, fun h => h ▸ same_self v⟩

instance : DecidableEq Value := fun _ _ => decidable_of_iff _ same_iff

end Value

end DocQuery
