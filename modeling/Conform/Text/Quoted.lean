import Conform.Text.Escaped
import Conform.Text.Printable

/-!
Literals for people: text or octets between apostrophes, or between quotation
marks when there is an apostrophe inside and no quotation mark. What is not
printable is escaped by its number.
-/
namespace Conform.Text

def quoteMark (cs : List Char) : Char :=
  if cs.contains '\'' && !cs.contains '"' then '"' else '\''

def codeEscape (code : Nat) : List Char :=
  if code < 0x100 then '\\' :: 'x' :: hexText 2 code
  else if code < 0x10000 then unicodeEscape code
  else '\\' :: 'U' :: hexText 8 code

def quoteChar (shown : Char → Bool) (mark c : Char) : List Char :=
  if c = mark ∨ c = '\\' then ['\\', c]
  else if c = '\n' then ['\\', 'n']
  else if c = '\r' then ['\\', 'r']
  else if c = '\t' then ['\\', 't']
  else if shown c then [c]
  else codeEscape c.toNat

def quotedShowing (shown : Char → Bool) (cs : List Char) : List Char :=
  let mark := quoteMark cs
  mark :: (cs.flatMap (quoteChar shown mark) ++ [mark])

def quoted (cs : List Char) : List Char := quotedShowing isPrintable cs

def quotedBytes (bytes : List UInt8) : List Char :=
  'b' :: quotedShowing (fun c => 32 ≤ c.toNat && c.toNat < 127)
    (bytes.map fun b => Char.ofNat b.toNat)

end Conform.Text
