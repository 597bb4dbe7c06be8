import DocQuery.Pattern.Reader
import DocQuery.Value.Entries

/-!
# Field paths

A field path names a field of a nested document by the segments between its dots. `Path.get_cons`
reads one segment at a time. A path can also mark the arrays it goes through, by a star segment. A
compiled pattern that stands for a path cuts the separator in the path's place: compiling settles
the flags of a pattern, of text or of octets, and a compiled pattern of text can cut a text.
-/

namespace DocQuery

namespace Value

/-- The text of a pattern, an octet being the character of its number. -/
def patternText : Value → Text
  | text s => s
  | bytes bs => bs.map fun b => Char.ofNat b.toNat
  | _ => []

/-- The bit of the flag under which classes of characters hold ASCII only. -/
def asciiBit : Nat := 256

/-- The bit of the flag under which they range over the character database. -/
def databaseBit : Nat := 32

/-- A compiled pattern under the given flags and those that it sets itself. A pattern of text that
does not ask for ASCII is for all of the character database. -/
def compile (pattern : Value) (flags : Nat) : Value :=
  let own := (Pattern.Regular.read? flags pattern.patternText).elim flags (·.2)
  compiled pattern <|
    if pattern.isText && own / asciiBit % 2 = 0 then (own ||| databaseBit : Nat) else own

/-- A text cut where a compiled pattern of text matches; null stands for a group that has not
matched. -/
def cutText (pattern : Value) (flags : Int) (s : Text) : List Value :=
  match Pattern.Regular.read? flags.toNat pattern.patternText with
  | some (r, _) => (r.split s).map fun piece => piece.elim null text
  | none => [text s]

end Value

namespace Path

/-- Starts the first of the parts with a code point. -/
def consFirst (c : CodePoint) : List Text → List Text
  | [] => [[c]]
  | part :: parts => (c :: part) :: parts

def segments : Text → List Text
  | [] => [[]]
  | .char '.' :: rest => [] :: segments rest
  | c :: rest => consFirst c (segments rest)

/-- The parts of a path between the stars that mark an array. -/
def markedParts : Text → List Text
  | [] => [[]]
  | .char '.' :: .char '*' :: .char '.' :: rest => [] :: markedParts rest
  | c :: rest => consFirst c (markedParts rest)

/-- The path as a name of its own: dots become underscores. -/
def flatten (path : Text) : Text :=
  path.map fun c => if c = .char '.' then .char '_' else c

/-- The parts of a path that is given as a value, as the cut of a text at the separator. -/
def parts (cut : Text → List Text) (separator : Text) (path : Value) :
    Except Fault (List Value) :=
  match path with
  | .bytes _ | .compiled (.bytes _) _ => throw .wrongType
  | .compiled pattern flags => pure (pattern.cutText flags separator)
  | _ => match path.text? with
    | some s => pure ((cut s).map .text)
    | none => throw .noSuchMember

/-- What a value holds under a key; only mappings hold anything. -/
def child (v key : Value) : Value :=
  match v with
  | .map es => (Entries.get? es key).getD .null
  | _ => .null

/-- What a value holds under keys that lead from one to the next, or null. -/
def get (v : Value) (path : List Value) : Value :=
  path.foldl child v

/-- What a value holds at a path that is given as a value. -/
def read (v path : Value) : Except Fault Value := do
  pure (get v (← parts segments "." path))

theorem get_cons (v key : Value) (path : List Value) :
    get v (key :: path) = get (child v key) path := rfl

end Path

end DocQuery
