/-!
JSON string literals. The plain form escapes the quotation mark, the backslash
and the controls below the space, and leaves every other character as it is.
The ASCII form escapes whatever is outside the visible ASCII range too, beyond
the first 65536 code points as a pair of surrogates.
-/
namespace Conform.Text

def hexText (width n : Nat) : List Char :=
  let digits := Nat.toDigits 16 n
  List.replicate (width - digits.length) '0' ++ digits

def unicodeEscape (unit : Nat) : List Char := '\\' :: 'u' :: hexText 4 unit

def escapeChar (c : Char) : List Char :=
  if c = '"' then ['\\', '"']
  else if c = '\\' then ['\\', '\\']
  else if c = '\n' then ['\\', 'n']
  else if c = '\r' then ['\\', 'r']
  else if c = '\t' then ['\\', 't']
  else if c = '\x08' then ['\\', 'b']
  else if c = '\x0c' then ['\\', 'f']
  else if c.toNat < 32 then unicodeEscape c.toNat
  else [c]

def units16 (code : Nat) : List Nat :=
  if code < 0x10000 then [code]
  else [0xd800 + (code - 0x10000) / 0x400, 0xdc00 + (code - 0x10000) % 0x400]

def escapeAsciiChar (c : Char) : List Char :=
  if c.toNat < 127 then escapeChar c else (units16 c.toNat).flatMap unicodeEscape

def quotedWith (escape : Char → List Char) (cs : List Char) : List Char :=
  '"' :: (cs.flatMap escape ++ ['"'])

def jsonString (cs : List Char) : List Char := quotedWith escapeChar cs

def asciiJsonString (cs : List Char) : List Char := quotedWith escapeAsciiChar cs

end Conform.Text
