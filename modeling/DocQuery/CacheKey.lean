import DocQuery.Digest.Md5
import DocQuery.Json
import DocQuery.Shape

/-!
# Cache keys

A query is identified by a text: the JSON of its database, collection, filter and of what in its
shape decides which rows it reads. `Value.toJson` tags what JSON cannot tell apart, and keeps the
order of a mapping's entries. The cache key is the digest of that text.
-/

namespace DocQuery

namespace Value

def tagged (tag : Text) (j : Json) : Json :=
  .object [(tag, j)]

/-- The pattern of a regular expression goes into JSON as it is, and only text has a form there. -/
def patternJson (pattern : Value) : Json :=
  match pattern.text? with
  | some s => .text s
  | none => .foreign

mutual

def toJson : Value → Except Fault Json
  | null => pure .null
  | bool b => pure (.bool b)
  | int n => pure (.int n)
  | float x => pure (.real x)
  | text s => pure (.text s)
  | member m => pure (.text m.text)
  | list vs | tuple vs => do pure (.array (← toJsonItems vs))
  | map es => do pure (tagged "$map" (.array (← toJsonEntries es)))
  | objectId hex => pure (tagged "$oid" (.text hex))
  | millis ms => pure (tagged "$date" (.int ms))
  | dateTime t => pure (tagged "$datetime" (.text (Text.ofChars (t.iso 'T'))))
  | date d => pure (tagged "$dateonly" (.text (Text.ofChars d.iso)))
  | regex pattern flags =>
    pure (.object [("$regex", patternJson pattern), ("$options", .int flags.bits)])
  | v => do pure (tagged "$repr" (.text (Text.ofChars (← v.written))))
termination_by structural v => v

def toJsonItems : List Value → Except Fault (List Json)
  | [] => pure []
  | v :: vs => do
    let j ← v.toJson
    pure (j :: (← toJsonItems vs))
termination_by structural vs => vs

/-- Each entry is a pair of the key's text and the value. -/
def toJsonEntries : List (Value × Value) → Except Fault (List Json)
  | [] => pure []
  | (k, v) :: es => do
    let name ← k.plain
    let j ← v.toJson
    pure (.array [.text name, j] :: (← toJsonEntries es))
termination_by structural es => es

end

def identifyingText (v : Value) : Except Fault (List Char) := do
  (← v.toJson).compact

end Value

/-- What identifies a query, as one value. -/
def keyParts (s : Shape) (filter database collection : Value) : Except Fault Value := do
  let aggregate ← match s.aggregate with
    | none => pure .null
    | some a => do pure (.list [.text (← a.functionName), .list a.columns])
  pure (.list [database, collection, filter, .list s.columns, .list s.groups, s.orders, s.offset,
    s.limit, aggregate])

def keyText (s : Shape) (filter database collection : Value) : Except Fault (List Char) := do
  (← keyParts s filter database collection).identifyingText

/-- The digest of an ASCII text, in hexadecimal. -/
def digestText (cs : List Char) : String :=
  String.ofList ((Digest.md5 (cs.map fun c => UInt8.ofNat c.toNat)).flatMap fun b =>
    Text.hex 2 b.toNat)

/-- The key under which the rows of a query can be kept. -/
def cacheKey (s : Shape) (filter database collection : Value) : Except Fault String := do
  pure (digestText (← keyText s filter database collection))

end DocQuery
