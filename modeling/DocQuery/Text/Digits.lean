/-!
# Numerals

Decimal and fixed-width numerals as lists of characters, and reading an integer from text. A numeral
that is read may be signed, padded with blanks and grouped by single underscores, in the digits of
any script. Where an integer becomes text or comes from text, the number of its digits is limited.
-/

namespace DocQuery.Text

def decimal (n : Nat) : List Char :=
  Nat.toDigits 10 n

/-- The numeral of an integer, however long it is. -/
def signed (n : Int) : List Char :=
  if n < 0 then '-' :: decimal n.natAbs else decimal n.natAbs

/-- The most digits of an integer that is written as text or read from it. -/
def maxDigits : Nat := 4300

/-- Whether an integer can be written as text. -/
def isWritable (n : Int) : Bool :=
  (decimal n.natAbs).length ≤ maxDigits

/-- A decimal numeral of at least the given width, filled with zeros. -/
def padded (width n : Nat) : List Char :=
  List.replicate (width - (decimal n).length) '0' ++ decimal n

/-- A hexadecimal numeral of exactly the given width, in lower case. -/
def hex : Nat → Nat → List Char
  | 0, _ => []
  | width + 1, n => hex width (n / 16) ++ [Nat.digitChar (n % 16)]

@[simp]
theorem length_hex (width n : Nat) : (hex width n).length = width := by
  induction width generalizing n with
  | zero => rfl
  | succ width ih => simp [hex, ih]

def isHexDigit (c : Char) : Bool :=
  c.isDigit || ('a' ≤ c && c ≤ 'f') || ('A' ≤ c && c ≤ 'F')

def hexValue (c : Char) : Nat :=
  if c.isDigit then c.toNat - 0x30 else c.toLower.toNat - 0x57

/-! ### Reading integers -/

/-- The characters that may stand around the numeral of an integer. -/
def isBlank (c : Char) : Bool :=
  let n := c.toNat
  (0x9 ≤ n && n ≤ 0xD) || n == 0x20 || n == 0x85 || n == 0xA0 || n == 0x1680 ||
    (0x2000 ≤ n && n ≤ 0x200A) || n == 0x2028 || n == 0x2029 || n == 0x202F || n == 0x205F ||
    n == 0x3000

/-- The zero of each run of ten decimal digits. -/
def zeros : List Nat :=
  [0x30, 0x660, 0x6F0, 0x7C0, 0x966, 0x9E6, 0xA66, 0xAE6, 0xB66, 0xBE6, 0xC66, 0xCE6, 0xD66,
    0xDE6, 0xE50, 0xED0, 0xF20, 0x1040, 0x1090, 0x17E0, 0x1810, 0x1946, 0x19D0, 0x1A80, 0x1A90,
    0x1B50, 0x1BB0, 0x1C40, 0x1C50, 0xA620, 0xA8D0, 0xA900, 0xA9D0, 0xA9F0, 0xAA50, 0xABF0,
    0xFF10, 0x104A0, 0x10D30, 0x11066, 0x110F0, 0x11136, 0x111D0, 0x112F0, 0x11450, 0x114D0,
    0x11650, 0x116C0, 0x11730, 0x118E0, 0x11950, 0x11C50, 0x11D50, 0x11DA0, 0x16A60, 0x16AC0,
    0x16B50, 0x1D7CE, 0x1D7D8, 0x1D7E2, 0x1D7EC, 0x1D7F6, 0x1E140, 0x1E2F0, 0x1E950, 0x1FBF0]

def digitValue? (c : Char) : Option Nat :=
  (zeros.find? fun z => z ≤ c.toNat && c.toNat < z + 10).map (c.toNat - ·)

/-- Reads digits with at most one underscore between two of them, after those `read` so far. -/
def readDigits (read : Nat) : List Char → Option Nat
  | [] => none
  | [c] => (digitValue? c).map (read * 10 + ·)
  | c :: '_' :: rest => (digitValue? c).bind fun d => readDigits (read * 10 + d) rest
  | c :: rest => (digitValue? c).bind fun d => readDigits (read * 10 + d) rest

def trimBlanks (cs : List Char) : List Char :=
  ((cs.dropWhile isBlank).reverse.dropWhile isBlank).reverse

def readNat? (cs : List Char) : Option Nat :=
  if (cs.filter (· != '_')).length ≤ maxDigits then readDigits 0 cs else none

def readInt? (cs : List Char) : Option Int :=
  match trimBlanks cs with
  | '-' :: rest => (readNat? rest).map fun n => -(n : Int)
  | '+' :: rest => (readNat? rest).map Int.ofNat
  | rest => (readNat? rest).map Int.ofNat

end DocQuery.Text
