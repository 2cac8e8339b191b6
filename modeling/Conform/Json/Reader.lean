import Conform.Text.Encoding
import Conform.Value.Basic

/-!
JSON text read as values. Every function takes the text that is left and gives
back what is left after it, and a complaint carries the length of the text left
at the place it is about. Integers past the safe range are read as the nearest
number, and of two entries with one name the second value stays in the first
place.
-/
namespace Conform.Json

inductive Complaint where
  | expectingValue
  | expectingName
  | expectingColon
  | expectingComma
  | extraData
  | unterminatedString
  | controlCharacter
  | badEscape
  | badUnicodeEscape
  deriving DecidableEq, Repr

def Complaint.text : Complaint → String
  | .expectingValue => "Expecting value"
  | .expectingName => "Expecting property name enclosed in double quotes"
  | .expectingColon => "Expecting ':' delimiter"
  | .expectingComma => "Expecting ',' delimiter"
  | .extraData => "Extra data"
  | .unterminatedString => "Unterminated string starting at"
  | .controlCharacter => "Invalid control character at"
  | .badEscape => "Invalid \\escape"
  | .badUnicodeEscape => "Invalid \\uXXXX escape"

/-- A place in a text: the line and the column count from one, the offset from zero. -/
structure Place where
  line : Nat
  column : Nat
  offset : Nat
  deriving DecidableEq, Repr

inductive DecodeError where
  | byteOrderMark
  | constant (name : String)
  | malformed (complaint : Complaint) (place : Place)
  | undecodable (fault : Text.EncodingFault)
  deriving DecidableEq, Repr

def Place.text (p : Place) : String := s!"line {p.line} column {p.column} (char {p.offset})"

def DecodeError.message : DecodeError → String
  | .byteOrderMark =>
    "Unexpected UTF-8 BOM (decode using utf-8-sig): " ++ Place.text ⟨1, 1, 0⟩
  | .constant name => s!"Unexpected token {name} in JSON"
  | .malformed complaint place => complaint.text ++ ": " ++ place.text
  | .undecodable fault => fault.message

def placeOf (text : List Char) (left : Nat) : Place :=
  let before := text.take (text.length - left)
  { line := before.count '\n' + 1
    column := (before.reverse.takeWhile (· ≠ '\n')).length + 1
    offset := before.length }

inductive Halt where
  | tooDeep
  | constant (name : String)
  | malformed (complaint : Complaint) (left : Nat)
  deriving DecidableEq, Repr

def complain {α : Type} (complaint : Complaint) (left : List Char) : Except Halt α :=
  .error (.malformed complaint left.length)

def isBlank (c : Char) : Bool := c == ' ' || c == '\t' || c == '\n' || c == '\r'

def skipBlanks (cs : List Char) : List Char := cs.dropWhile isBlank

def hexValue? (c : Char) : Option Nat :=
  if c.isDigit then some (c.toNat - 48)
  else if 'a' ≤ c ∧ c ≤ 'f' then some (c.toNat - 87)
  else if 'A' ≤ c ∧ c ≤ 'F' then some (c.toNat - 55)
  else none

def hexUnit? (a b c d : Char) : Option Nat := do
  let a ← hexValue? a
  let b ← hexValue? b
  let c ← hexValue? c
  let d ← hexValue? d
  some (a * 4096 + b * 256 + c * 16 + d)

def unescape? (c : Char) : Option Char :=
  if c = '"' ∨ c = '\\' ∨ c = '/' then some c
  else if c = 'n' then some '\n'
  else if c = 'r' then some '\r'
  else if c = 't' then some '\t'
  else if c = 'b' then some '\x08'
  else if c = 'f' then some '\x0c'
  else none

/-- The codes of a string after its opening mark; `start` is what was left before the
    mark. Numbered escapes are kept apart here and joined in pairs afterwards. The last
    character of such an escape is never the last of the text. -/
def stringCodes (start : Nat) : List Char → Except Halt (List Nat × List Char)
  | [] => .error (.malformed .unterminatedString start)
  | c :: rest =>
    if c = '"' then .ok ([], rest)
    else if c = '\\' then
      match rest with
      | [] => .error (.malformed .unterminatedString start)
      | e :: after =>
        if e = 'u' then
          match after with
          | h₁ :: h₂ :: h₃ :: h₄ :: more =>
            match hexUnit? h₁ h₂ h₃ h₄ with
            | none => complain .badUnicodeEscape rest
            | some code =>
              if more.isEmpty then complain .badUnicodeEscape rest
              else do
                let (codes, left) ← stringCodes start more
                .ok (code :: codes, left)
          | _ => complain .badUnicodeEscape rest
        else
          match unescape? e with
          | none => complain .badEscape (c :: rest)
          | some meant => do
            let (codes, left) ← stringCodes start after
            .ok (meant.toNat :: codes, left)
    else if c.toNat < 32 then complain .controlCharacter (c :: rest)
    else do
      let (codes, left) ← stringCodes start rest
      .ok (c.toNat :: codes, left)

def stringAfterMark (rest : List Char) : Except Halt (String × List Char) := do
  let (codes, left) ← stringCodes (rest.length + 1) rest
  .ok (String.ofList (Text.joinUnits codes), left)

structure Numeral where
  negative : Bool
  whole : List Char
  fraction : Option (List Char)
  exponent : Option Int
  deriving DecidableEq, Repr

namespace Numeral

def isInteger (n : Numeral) : Bool := n.fraction.isNone && n.exponent.isNone

def rounded (n : Numeral) : Binary64 :=
  let places := n.fraction.getD []
  Binary64.ofDecimal n.negative (Binary64.digitsValue (n.whole ++ places))
    (n.exponent.getD 0 - places.length)

/-- An integer is exact where the number nearest to it is safe, and everything else is the
    nearest number. -/
def value (n : Numeral) : Scalar :=
  if n.isInteger && n.rounded.isWithin maxSafeInteger then
    let whole := Binary64.digitsValue n.whole
    .int (if n.negative then -(whole : Int) else whole)
  else .float n.rounded

end Numeral

/-- The digits before the point: a zero alone, or any that do not start with one. -/
def wholeDigits? : List Char → Option (List Char × List Char)
  | [] => none
  | c :: rest =>
    if c = '0' then some (['0'], rest)
    else if c.isDigit then some (Binary64.splitDigits (c :: rest))
    else none

def fractionDigits : List Char → Option (List Char) × List Char
  | '.' :: rest => match Binary64.splitDigits rest with
    | ([], _) => (none, '.' :: rest)
    | (ds, left) => (some ds, left)
  | cs => (none, cs)

/-- An exponent mark counts only with a digit after it and its sign. -/
def exponentDigits : List Char → Option Int × List Char
  | [] => (none, [])
  | c :: rest =>
    if c = 'e' ∨ c = 'E' then
      let (negative, signless) := Binary64.splitSign rest
      match Binary64.splitDigits signless with
      | ([], _) => (none, c :: rest)
      | (ds, left) =>
        let n : Int := Binary64.digitsValue ds
        (some (if negative then -n else n), left)
    else (none, c :: rest)

def numeral? (cs : List Char) : Option (Numeral × List Char) :=
  let (negative, body) := match cs with
    | '-' :: rest => (true, rest)
    | _ => (false, cs)
  match wholeDigits? body with
  | none => none
  | some (whole, left) =>
    let (fraction, left) := fractionDigits left
    let (exponent, left) := exponentDigits left
    some (⟨negative, whole, fraction, exponent⟩, left)

def afterWord? (word : String) (cs : List Char) : Option (List Char) :=
  if word.toList.isPrefixOf cs then some (cs.drop word.length) else none

def words : List (String × Scalar) :=
  [("null", .null), ("true", .bool true), ("false", .bool false)]

/-- The words that stand for numbers that JSON does not have. -/
def constants : List (String × Binary64) :=
  [("NaN", .nan), ("Infinity", .infinite false), ("-Infinity", .infinite true)]

def plainValue (allowNaN : Bool) (cs : List Char) : Except Halt (Value × List Char) :=
  match words.findSome? fun (w, a) => (afterWord? w cs).map fun left => (a, left) with
  | some (a, left) => .ok (.scalar a, left)
  | none =>
    match constants.findSome? fun (w, x) => (afterWord? w cs).map fun left => (w, x, left) with
    | some (w, x, left) =>
      if allowNaN then .ok (.scalar (.float x), left) else .error (.constant w)
    | none => match numeral? cs with
      | some (n, left) => .ok (.scalar n.value, left)
      | none => complain .expectingValue cs

/-- The items of an array up to its closing bracket, at most `fuel` of them. -/
def arrayItems (item : List Char → Except Halt (Value × List Char)) :
    Nat → List Char → Except Halt (List Value × List Char)
  | 0, cs => complain .expectingValue cs
  | fuel + 1, cs => do
    let (v, left) ← item cs
    match skipBlanks left with
    | ']' :: after => .ok ([v], after)
    | ',' :: after => do
      let (vs, left) ← arrayItems item fuel (skipBlanks after)
      .ok (v :: vs, left)
    | left => complain .expectingComma left

def objectMembers (item : List Char → Except Halt (Value × List Char)) :
    Nat → List Char → Except Halt (List (Key × Value) × List Char)
  | 0, cs => complain .expectingName cs
  | fuel + 1, cs =>
    match cs with
    | '"' :: rest => do
      let (name, left) ← stringAfterMark rest
      match skipBlanks left with
      | ':' :: after => do
        let (v, left) ← item (skipBlanks after)
        match skipBlanks left with
        | '\x7d' :: after => .ok ([(.scalar (.text name), v)], after)
        | ',' :: after => do
          let (es, left) ← objectMembers item fuel (skipBlanks after)
          .ok ((.scalar (.text name), v) :: es, left)
        | left => complain .expectingComma left
      | left => complain .expectingColon left
    | _ => complain .expectingName cs

/-- One value at the start of a text, with room for so many containers. -/
def readValue (allowNaN : Bool) : Nat → List Char → Except Halt (Value × List Char)
  | _, '"' :: rest => do
    let (s, left) ← stringAfterMark rest
    .ok (.text s, left)
  | 0, '[' :: _ => .error .tooDeep
  | 0, '\x7b' :: _ => .error .tooDeep
  | room + 1, '[' :: rest =>
    match skipBlanks rest with
    | ']' :: after => .ok (.list [], after)
    | cs => do
      let (vs, left) ← arrayItems (readValue allowNaN room) (cs.length + 1) cs
      .ok (.list vs, left)
  | room + 1, '\x7b' :: rest =>
    match skipBlanks rest with
    | '\x7d' :: after => .ok (.dict [], after)
    | cs => do
      let (es, left) ← objectMembers (readValue allowNaN room) (cs.length + 1) cs
      .ok (.dict (entriesOf es), left)
  | _, cs => plainValue allowNaN cs

def readText (allowNaN : Bool) (cs : List Char) : Except Halt Value := do
  let (v, left) ← readValue allowNaN readingLimit (skipBlanks cs)
  match skipBlanks left with
  | [] => .ok v
  | left => complain .extraData left

def decodeText (allowNaN : Bool) (cs : List Char) : Except Fault (Except DecodeError Value) :=
  match readText allowNaN cs with
  | .ok v => .ok (.ok v)
  | .error .tooDeep => .error .tooDeep
  | .error (.constant name) => .ok (.error (.constant name))
  | .error (.malformed complaint left) => .ok (.error (.malformed complaint (placeOf cs left)))

def byteOrderMark : Char := '\ufeff'

/-- Reads text, or octets in a Unicode encoding. A byte order mark is for octets only. -/
def decode (allowNaN : Bool) (source : Value) : Except Fault (Except DecodeError Value) :=
  match source.text?, source with
  | some s, _ =>
    if s.toList.head? = some byteOrderMark then .ok (.error .byteOrderMark)
    else decodeText allowNaN s.toList
  | none, .scalar (.bytes bytes) => match Text.decodeBytes bytes with
    | .ok cs => decodeText allowNaN cs
    | .error fault => .ok (.error (.undecodable fault))
  | none, v => .error (.notText v.typeName)

end Conform.Json
