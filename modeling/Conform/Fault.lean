/-!
What stops an operation altogether, as opposed to a failure that it reports in
its result. Each cause has one text; nesting that is too deep has none.
-/
namespace Conform

/-- The greatest number of decimal digits of an integer that is written or read as text. -/
def digitLimit : Nat := 4300

/-- The deepest nesting of containers that writing, comparing and copying follow. -/
def nestingLimit : Nat := 500

/-- The deepest nesting of brackets that reading follows, which is about twice as deep. -/
def readingLimit : Nat := 991

theorem nestingLimit_le_readingLimit : nestingLimit ≤ readingLimit := by decide

inductive FailureKind where
  | general
  | shape
  | decode
  | encode
  | unwrap
  deriving DecidableEq, Repr

def FailureKind.name : FailureKind → String
  | .general => "TypeHelperError"
  | .shape => "ShapeError"
  | .decode => "DecodeError"
  | .encode => "EncodeError"
  | .unwrap => "UnwrapError"

inductive Fault where
  | tooDeep
  | unwritableInteger
  | unreadableInteger (digits : Nat)
  | unhashable (type : String)
  | uncopyable (type : String)
  | unknownKind (shown known : String)
  | emptyUnion
  | notStruct
  | noFields
  | notExportable
  | notText (type : String)
  | checkRaised (message : String)
  | thrown (kind : FailureKind) (message : String)
  deriving DecidableEq, Repr, Inhabited

def integerLimitText : String :=
  s!"Exceeds the limit ({digitLimit} digits) for integer string conversion"

def integerLimitAdvice : String := "; use sys.set_int_max_str_digits() to increase the limit"

def Fault.message? : Fault → Option String
  | .tooDeep => none
  | .unwritableInteger => some (integerLimitText ++ integerLimitAdvice)
  | .unreadableInteger digits =>
    some (integerLimitText ++ s!": value has {digits} digits" ++ integerLimitAdvice)
  | .unhashable type => some s!"unhashable type: '{type}'"
  | .uncopyable type => some s!"cannot pickle '{type}' object"
  | .unknownKind shown known => some s!"Unknown atomic kind {shown}, expected one of: {known}"
  | .emptyUnion => some "union() requires at least one helper"
  | .notStruct => some "Annotation is not a struct type"
  | .noFields => some "'TypeHelper' object has no attribute 'fields'"
  | .notExportable => some "Schema must be a struct"
  | .notText type => some s!"the JSON object must be str, bytes or bytearray, not {type}"
  | .checkRaised message => some message
  | .thrown _ message => some message

end Conform
