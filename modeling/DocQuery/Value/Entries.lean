import DocQuery.Value.View

/-!
# Ordered mappings

Entries are kept in the order in which their keys were first written; writing a key again replaces
its value and keeps its place. A key that does not equal itself is a further one each time.
`Entries.keys_insert` and `Entries.keys_update` say so of the keys, `Entries.get?_insert` of the
values. A mapping can be given as itself or as a sequence of pairs, each of which is any sequence of
two values (`Value.toEntries`).
-/

namespace DocQuery

namespace Entries

open Value (sameKey)

def keys (es : Entries) : List Value :=
  es.map (·.1)

def values (es : Entries) : List Value :=
  es.map (·.2)

def get? (es : Entries) (k : Value) : Option Value :=
  (es.find? fun e => e.1.sameKey k).map (·.2)

def hasKey (es : Entries) (k : Value) : Bool :=
  es.any fun e => e.1.sameKey k

/-- Writes a value under a key: in the key's place if it is there, else at the end. -/
def insert : Entries → Value → Value → Entries
  | [], k, v => [(k, v)]
  | e :: es, k, v => if e.1.sameKey k then (e.1, v) :: es else e :: insert es k v

/-- Writes every entry of the second mapping into the first. -/
def update (es new : Entries) : Entries :=
  new.foldl (fun es e => insert es e.1 e.2) es

def ofList (new : List (Value × Value)) : Entries :=
  update [] new

def erase (es : Entries) (k : Value) : Entries :=
  es.filter fun e => !e.1.sameKey k

/-- The same value under each of the keys. -/
def ofKeys (ks : List Value) (v : Value) : Entries :=
  ofList (ks.map (·, v))

/-- The mapping of one key that is text. -/
def single (k : Text) (v : Value) : Entries :=
  [(.text k, v)]

/-- The keys with a further one at the end, unless it is there. -/
def addKey (ks : List Value) (k : Value) : List Value :=
  if ks.any (·.sameKey k) then ks else ks ++ [k]

theorem hasKey_eq_any_keys (es : Entries) (k : Value) :
    hasKey es k = (keys es).any (·.sameKey k) := by
  simp [hasKey, keys, List.any_map, Function.comp_def]

theorem keys_cons (e : Value × Value) (es : Entries) : keys (e :: es) = e.1 :: keys es := rfl

theorem update_cons (es new : Entries) (e : Value × Value) :
    update es (e :: new) = update (insert es e.1 e.2) new := rfl

theorem addKey_cons_of_not {k l : Value} (ks : List Value) (h : ¬ l.sameKey k = true) :
    addKey (l :: ks) k = l :: addKey ks k := by
  simp only [addKey, List.any_cons, h, Bool.false_or]
  split <;> rfl

theorem keys_insert (es : Entries) (k v : Value) : keys (insert es k v) = addKey (keys es) k := by
  induction es with
  | nil => rfl
  | cons e es ih =>
    rw [insert, keys_cons]
    by_cases h : e.1.sameKey k
    · simp [h, keys_cons, addKey]
    · rw [if_neg h, keys_cons, ih, addKey_cons_of_not _ h]

theorem keys_update (es new : Entries) :
    keys (update es new) = (keys new).foldl addKey (keys es) := by
  induction new generalizing es with
  | nil => rfl
  | cons e new ih => rw [update_cons, ih, keys_insert, keys_cons, List.foldl_cons]

theorem get?_insert (es : Entries) (k v l : Value) :
    get? (insert es k v) l = if k.sameKey l then some v else get? es l := by
  induction es with
  | nil => by_cases h : k.sameKey l <;> simp [insert, get?, h]
  | cons e es ih =>
    rw [insert]
    by_cases he : e.1.sameKey k
    · have := Value.sameKey_congr he l
      by_cases hl : k.sameKey l <;> simp_all [get?]
    · by_cases hl : e.1.sameKey l
      · have hk : k.sameKey l = false := by
          rw [Bool.eq_false_iff]
          intro hk
          rw [Value.sameKey_comm] at hk hl
          exact he (by rw [Value.sameKey_comm, ← Value.sameKey_congr hk, hl])
        simp [he, hl, hk, get?]
      · simp only [get?] at ih
        simp [he, hl, get?, ih]

@[simp]
theorem update_nil (es : Entries) : update es [] = es := rfl

end Entries

namespace Value

def toPair (v : Value) : Except Fault (Value × Value) := do
  match ← v.items with
  | [k, w] =>
    k.checkHashable
    pure (k, w)
  | _ => throw .badValue

/-- The entries of a mapping, or of a sequence of pairs, written one after the other. -/
def toEntries : Value → Except Fault Entries
  | map es => pure (Entries.ofList es)
  | v => do
    let pairs ← (← v.items).mapM toPair
    pure (Entries.ofList pairs)

/-- The same value under each of the keys, which must be fit to be keys. -/
def underKeys (ks : List Value) (v : Value) : Except Fault Entries := do
  ks.forM checkHashable
  pure (Entries.ofKeys ks v)

/-- One column as a list of one, none as the empty list, and any other sequence as its items. -/
def toColumns (v : Value) : Except Fault (List Value) :=
  if v.isNull then pure []
  else if v.isText then pure [v]
  else v.items

/-- Whether the value is a list or a tuple, or a mapping whose keys are 0 to n-1, and not empty. -/
def isDense : Value → Bool
  | list vs | tuple vs => !vs.isEmpty
  | map es => !es.isEmpty && es.map (·.1.key) == (List.range es.length).map fun (i : Nat) => int i
  | _ => false

/-- The elements of a dense value. -/
def elements : Value → List Value
  | list vs | tuple vs => vs
  | map es => Entries.values es
  | _ => []

end Value

end DocQuery
