import DocQuery.Text.Basic

/-!
# Flags of patterns

A flag of a pattern is a bit of a number. Six of them can also be given by a letter; flags that were
given by letters are the same flags, and are written by name.
-/

namespace DocQuery.Pattern

/-- A flag that a letter stands for. -/
structure LetterFlag where
  letter : Char
  bit : Nat
  name : String
deriving DecidableEq, Repr

/-- The flags that letters stand for, in the order in which their names are written. -/
def letterFlags : List LetterFlag :=
  [⟨'i', 2, "re.IGNORECASE"⟩, ⟨'l', 4, "re.LOCALE"⟩, ⟨'u', 32, "re.UNICODE"⟩,
    ⟨'m', 8, "re.MULTILINE"⟩, ⟨'s', 16, "re.DOTALL"⟩, ⟨'x', 64, "re.VERBOSE"⟩]

/-- The bits of the flag letters; other letters have none. -/
def bitsOfLetters (letters : Text) : Nat :=
  ((letterFlags.filter fun f => letters.contains f.letter).map (·.bit)).foldr (· + ·) 0

/-- The flags of a pattern, and whether letters gave them. -/
structure Flags where
  bits : Int
  byLetters : Bool := false
deriving DecidableEq, Repr, Inhabited

namespace Flags

def ofLetters (letters : Text) : Flags :=
  ⟨bitsOfLetters letters, true⟩

def empty : Flags :=
  ⟨0, false⟩

/-- The flag under which a pattern ignores case. -/
def ignoreCase : Flags :=
  ofLetters "i"

def names (flags : Flags) : List String :=
  (letterFlags.filter fun f => flags.bits.toNat / f.bit % 2 == 1).map (·.name)

end Flags

end DocQuery.Pattern
