import Conform.Text.Escaped

/-!
Octets read as text in one of the Unicode encodings. The encoding is told from
a byte order mark, or else from where the zero octets stand in the first four.
A fault names the encoding and the octets that cannot be read. Text has no
surrogates, so each of them that stands alone has a character at the end of the
last private plane for a stand-in, and no two have the same.
-/
namespace Conform.Text

inductive Encoding where
  | utf8
  | utf16 (bigEndian : Bool)
  | utf32 (bigEndian : Bool)
  deriving DecidableEq, Repr

namespace Encoding

def endianName (bigEndian : Bool) : String := if bigEndian then "be" else "le"

def name : Encoding → String
  | .utf8 => "utf-8"
  | .utf16 big => "utf-16-" ++ endianName big
  | .utf32 big => "utf-32-" ++ endianName big

end Encoding

inductive Undecodable where
  | startByte
  | continuation
  | unfinished
  | truncated
  | outOfRange
  deriving DecidableEq, Repr

def Undecodable.reason : Undecodable → String
  | .startByte => "invalid start byte"
  | .continuation => "invalid continuation byte"
  | .unfinished => "unexpected end of data"
  | .truncated => "truncated data"
  | .outOfRange => "code point not in range(0x110000)"

/-- Octets `start` to `start + length - 1` cannot be read; `first` is the one at `start`. -/
structure EncodingFault where
  encoding : Encoding
  start : Nat
  length : Nat
  first : UInt8
  cause : Undecodable
  deriving DecidableEq, Repr

def byteText (b : UInt8) : String := "0x" ++ String.ofList (hexText 2 b.toNat)

def EncodingFault.message (f : EncodingFault) : String :=
  let place :=
    if f.length = 1 then s!"byte {byteText f.first} in position {f.start}"
    else s!"bytes in position {f.start}-{f.start + f.length - 1}"
  "'" ++ f.encoding.name ++ "' codec can't decode " ++ place ++ ": " ++ f.cause.reason

/-- The character of a code point, or the stand-in for a surrogate. -/
def scalar (code : Nat) : Char :=
  if code.isValidChar then Char.ofNat code else Char.ofNat (0x10f800 + (code - 0xd800))

def isTail (b : UInt8) : Bool := 0x80 ≤ b && b ≤ 0xbf

/-- How many octets follow a first one, and the range of the next of them. -/
def following? (b : UInt8) : Option (Nat × UInt8 × UInt8) :=
  if b < 0x80 then some (0, 0x80, 0xbf)
  else if b < 0xc2 then none
  else if b < 0xe0 then some (1, 0x80, 0xbf)
  else if b = 0xe0 then some (2, 0xa0, 0xbf)
  else if b = 0xed then some (2, 0x80, 0x9f)
  else if b < 0xf0 then some (2, 0x80, 0xbf)
  else if b = 0xf0 then some (3, 0x90, 0xbf)
  else if b < 0xf4 then some (3, 0x80, 0xbf)
  else if b = 0xf4 then some (3, 0x80, 0x8f)
  else none

def tailBits (b : UInt8) : Nat := b.toNat % 64

def leadBits (count : Nat) (b : UInt8) : Nat :=
  match count with
  | 0 => b.toNat
  | 1 => b.toNat % 32
  | 2 => b.toNat % 16
  | _ => b.toNat % 8

/-- The first character and the number of its octets, or what is wrong with how many octets. -/
def utf8First (b : UInt8) (rest : List UInt8) : Except (Undecodable × Nat) (Char × Nat) :=
  match following? b with
  | none => .error (.startByte, 1)
  | some (0, _, _) => .ok (scalar b.toNat, 1)
  | some (count, low, high) =>
    let point (tails : List UInt8) : Char :=
      scalar (tails.foldl (fun n t => n * 64 + tailBits t) (leadBits count b))
    match rest with
    | [] => .error (.unfinished, 1)
    | c :: more =>
      if low ≤ c && c ≤ high then
        let tails := (more.take (count - 1)).takeWhile isTail
        if tails.length = count - 1 then .ok (point (c :: tails), count + 1)
        else
          .error (if more.length = tails.length then .unfinished else .continuation,
            tails.length + 2)
      else match more with
        | d :: _ =>
          if b = 0xed && 0xa0 ≤ c && c ≤ 0xbf && isTail d then .ok (point [c, d], 3)
          else .error (.continuation, 1)
        | [] => .error (.continuation, 1)

/-- Reads octets from position `start`; `skip` of them belong to the character before. -/
def utf8From (start skip : Nat) : List UInt8 → Except EncodingFault (List Char)
  | [] => .ok []
  | b :: rest =>
    match skip with
    | n + 1 => utf8From (start + 1) n rest
    | 0 =>
      match utf8First b rest with
      | .error (cause, length) => .error ⟨.utf8, start, length, b, cause⟩
      | .ok (c, count) => (c :: ·) <$> utf8From (start + 1) (count - 1) rest

def unit (bigEndian : Bool) (bytes : List UInt8) : Nat :=
  (if bigEndian then bytes else bytes.reverse).foldl (fun n b => n * 256 + b.toNat) 0

def joinUnits : List Nat → List Char
  | [] => []
  | [u] => [scalar u]
  | u :: v :: rest =>
    if 0xd800 ≤ u ∧ u < 0xdc00 ∧ 0xdc00 ≤ v ∧ v < 0xe000 then
      scalar (0x10000 + (u - 0xd800) * 0x400 + (v - 0xdc00)) :: joinUnits rest
    else scalar u :: joinUnits (v :: rest)

def utf16From (big : Bool) (start : Nat) : List UInt8 → Except EncodingFault (List Nat)
  | [] => .ok []
  | [b] => .error ⟨.utf16 big, start, 1, b, .truncated⟩
  | a :: b :: rest => (unit big [a, b] :: ·) <$> utf16From big (start + 2) rest

def utf32From (big : Bool) (start : Nat) : List UInt8 → Except EncodingFault (List Char)
  | [] => .ok []
  | a :: b :: c :: d :: rest =>
    let code := unit big [a, b, c, d]
    if code < 0x110000 then (scalar code :: ·) <$> utf32From big (start + 4) rest
    else .error ⟨.utf32 big, start, 4, a, .outOfRange⟩
  | a :: rest => .error ⟨.utf32 big, start, rest.length + 1, a, .truncated⟩

def detect : List UInt8 → Encoding × Nat
  | 0x00 :: 0x00 :: 0xfe :: 0xff :: _ => (.utf32 true, 4)
  | 0xff :: 0xfe :: 0x00 :: 0x00 :: _ => (.utf32 false, 4)
  | 0xfe :: 0xff :: _ => (.utf16 true, 2)
  | 0xff :: 0xfe :: _ => (.utf16 false, 2)
  | 0xef :: 0xbb :: 0xbf :: _ => (.utf8, 3)
  | a :: b :: c :: d :: _ =>
    if a = 0 then (if b = 0 then .utf32 true else .utf16 true, 0)
    else if b = 0 then (if c = 0 && d = 0 then .utf32 false else .utf16 false, 0)
    else (.utf8, 0)
  | [a, b] => (if a = 0 then .utf16 true else if b = 0 then .utf16 false else .utf8, 0)
  | _ => (.utf8, 0)

/-- Positions count the mark in front, except in the eight bit encoding. -/
def decodeBytes (bytes : List UInt8) : Except EncodingFault (List Char) :=
  let (encoding, mark) := detect bytes
  let body := bytes.drop mark
  match encoding with
  | .utf8 => utf8From 0 0 body
  | .utf16 big => joinUnits <$> utf16From big mark body
  | .utf32 big => utf32From big mark body

end Conform.Text
