import DocQuery.Text.Basic
import DocQuery.Text.Digits
import DocQuery.Text.Printable

/-!
# Quoted text

How a text and a sequence of octets are shown between quotes. The quote is an apostrophe unless the
content has an apostrophe and no double quote; the quote itself and the backslash are escaped, and
what is not printable is written by its number.
-/

namespace DocQuery.Text

def apostrophe : Char := '\x27'

def doubleQuote : Char := '\x22'

def backslash : Char := '\x5c'

def quoteFor (s : Text) : Char :=
  if s.contains apostrophe && !s.contains doubleQuote then doubleQuote else apostrophe

/-- The escape of a code point by its number, in the shortest of three widths. -/
def numericEscape (n : Nat) : List Char :=
  if n ≤ 0xFF then backslash :: 'x' :: hex 2 n
  else if n ≤ 0xFFFF then backslash :: 'u' :: hex 4 n
  else backslash :: 'U' :: hex 8 n

def escapeChar (quote c : Char) : List Char :=
  if c = quote || c = backslash then [backslash, c]
  else if c = '\t' then [backslash, 't']
  else if c = '\n' then [backslash, 'n']
  else if c = '\r' then [backslash, 'r']
  else if isPrintable c then [c]
  else numericEscape c.toNat

def escapePoint (quote : Char) : CodePoint → List Char
  | .char c => escapeChar quote c
  | .surrogate n => numericEscape (CodePoint.surrogate n).toNat

def quoted (s : Text) : List Char :=
  let quote := quoteFor s
  quote :: s.flatMap (escapePoint quote) ++ [quote]

/-- The character of an octet, which is not printable from 127 on. -/
def octetChar (b : UInt8) : Char :=
  Char.ofNat b.toNat

def escapeOctet (quote : Char) (b : UInt8) : List Char :=
  if b < 0x7F then escapeChar quote (octetChar b) else numericEscape b.toNat

def quotedOctets (bs : List UInt8) : List Char :=
  let quote := quoteFor (ofChars (bs.map octetChar))
  'b' :: quote :: bs.flatMap (escapeOctet quote) ++ [quote]

end DocQuery.Text
