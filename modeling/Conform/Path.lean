import Conform.Text.Escaped
import Conform.Value.Display

/-!
Where in a value something is: the segments of a path, how they are written on
one line, and how containers are addressed by name. Lists and tuples answer to
the decimal texts of their indices.
-/
namespace Conform

inductive Segment where
  | name (s : String)
  | index (n : Int)
  | symbol (s : Symbol)
  deriving DecidableEq

namespace Segment

def display : Segment → Except Fault (List Char)
  | .name s => .ok s.toList
  | .index n => integerText n
  | .symbol s => s.display

/-- A segment with a character that is not printable is written as a JSON string. -/
def render (segment : Segment) : Except Fault (List Char) := do
  let text ← segment.display
  .ok (if text.all Text.isPrintable then text else Text.asciiJsonString text)

/-- The segment is this name, or a symbol that stands for it. -/
def isName (segment : Segment) (name : String) : Bool :=
  match segment with
  | .name s => s == name
  | .index _ => false
  | .symbol s => (Scalar.symbol s).text? == some name

end Segment

def renderPath (path : List Segment) : Except Fault (List Char) := do
  let parts ← path.mapM Segment.render
  .ok (List.intercalate ['.'] parts)

/-- Text and integer keys are segments as they are, symbols of both sorts included;
    every other key is one by its plain form. -/
def Key.segment (key : Key) : Except Fault Segment :=
  match key with
  | .scalar (.text s) => .ok (.name s)
  | .scalar (.int n) => .ok (.index n)
  | .scalar (.symbol ⟨family, name, .int n, true⟩) =>
    .ok (.symbol ⟨family, name, .int n, true⟩)
  | .scalar (.symbol ⟨family, name, .text s, true⟩) =>
    .ok (.symbol ⟨family, name, .text s, true⟩)
  | key => do
    let text ← key.display
    .ok (.name (String.ofList text))

def indexName (i : Nat) : String := String.ofList (Nat.toDigits 10 i)

def indexDigits? (name : String) : Option (List Char) :=
  match name.toList with
  | ['0'] => some ['0']
  | c :: rest => if (c :: rest).all Char.isDigit ∧ c ≠ '0' then some (c :: rest) else none
  | [] => none

namespace Container

/-- Reads one name, with `undefined` for what is not there. An index that is too long
    to be read at all is a fault. -/
def lookup (c : Container) (name : String) : Except Fault Value :=
  match c with
  | .map entries => .ok ((valueUnder? entries (.scalar (.text name))).getD .undefined)
  | .seq items => match indexDigits? name with
    | none => .ok .undefined
    | some digits =>
      if digitLimit < digits.length then .error (.unreadableInteger digits.length)
      else .ok (items.getD (Nat.ofDigitChars 10 digits 0) .undefined)

def labelled : Container → List (Except Fault Segment × Value)
  | .map entries => entries.map fun (k, v) => (k.segment, v)
  | .seq items => items.mapIdx fun i v => (.ok (.name (indexName i)), v)

def segments (c : Container) : Except Fault (List (Segment × Value)) :=
  c.labelled.mapM fun (segment, v) => do
    let s ← segment
    .ok (s, v)

end Container
end Conform
