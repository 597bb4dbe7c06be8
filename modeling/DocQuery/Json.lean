import DocQuery.Value.Written

/-!
# Compact JSON

A `Json` value is printed without blanks and in ASCII: every other character is escaped by its
UTF-16 units. A surrogate is escaped as the unit that it is, so that two of them can be printed as
the one character that they are halves of. Printing fails for an integer with too many digits and
for what JSON has no form for, whichever comes first.
-/

namespace DocQuery

inductive Json where
  | null
  | bool (b : Bool)
  | int (n : Int)
  | real (x : Binary64)
  | text (s : Text)
  | array (items : List Json)
  | object (members : List (Text × Json))
  /-- What JSON has no form for. -/
  | foreign
deriving Inhabited

namespace Json

open Text (backslash doubleQuote)

/-- Numbers are laid out as in written values, but for the names of those that are none. -/
def realLayout : Decimal.Layout where
  positionalFrom := -4
  positionalBelow := 16
  exponentWidth := 2
  notANumber := "NaN"
  infinite := "Infinity"

def unitEscape (n : Nat) : List Char :=
  backslash :: 'u' :: Text.hex 4 n

/-- The escapes of the UTF-16 units of a character. -/
def unicodeEscape (n : Nat) : List Char :=
  if n < 0x10000 then unitEscape n
  else
    unitEscape (0xD800 + (n - 0x10000) / 0x400) ++ unitEscape (0xDC00 + (n - 0x10000) % 0x400)

def escapeChar (c : Char) : List Char :=
  if c = doubleQuote || c = backslash then [backslash, c]
  else if c = '\n' then [backslash, 'n']
  else if c = '\r' then [backslash, 'r']
  else if c = '\t' then [backslash, 't']
  else if c = '\x0c' then [backslash, 'f']
  else if c = '\x08' then [backslash, 'b']
  else if 0x20 ≤ c.toNat ∧ c.toNat < 0x7F then [c]
  else unicodeEscape c.toNat

def escapePoint : CodePoint → List Char
  | .char c => escapeChar c
  | .surrogate n => unitEscape (CodePoint.surrogate n).toNat

def quoted (s : Text) : List Char :=
  doubleQuote :: s.flatMap escapePoint ++ [doubleQuote]

mutual

def compact : Json → Except Fault (List Char)
  | null => pure "null".toList
  | bool true => pure "true".toList
  | bool false => pure "false".toList
  | int n => Value.writeInt n
  | real x => pure (realLayout.write x)
  | text s => pure (quoted s)
  | array js => do pure ('[' :: (← compactItems js) ++ [']'])
  | object ms => do pure ('\x7b' :: (← compactMembers ms) ++ ['\x7d'])
  | foreign => throw .wrongType
termination_by structural j => j

def compactItems : List Json → Except Fault (List Char)
  | [] => pure []
  | [j] => j.compact
  | j :: js => do
    let cs ← j.compact
    pure (cs ++ ',' :: (← compactItems js))
termination_by structural js => js

def compactMembers : List (Text × Json) → Except Fault (List Char)
  | [] => pure []
  | [(name, j)] => do pure (quoted name ++ ':' :: (← j.compact))
  | (name, j) :: ms => do
    let cs ← j.compact
    pure (quoted name ++ ':' :: cs ++ ',' :: (← compactMembers ms))
termination_by structural ms => ms

end

end Json

end DocQuery
