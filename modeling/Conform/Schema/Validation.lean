import Conform.Json.Reader
import Conform.Schema.Basic
import Conform.Value.Copy

/-!
What schemas are for: checking values, reading JSON text into checked values,
and copying values by way of JSON. Failures come back in the result.
-/
namespace Conform

inductive Rejection where
  | decode (error : Json.DecodeError)
  | encode (error : Json.EncodeError)
  | shape (error : ShapeError)
  deriving DecidableEq

def Rejection.message : Rejection → String
  | .decode error => error.message
  | .encode error => error.message
  | .shape error => error.message

namespace Json

def decodeLogged (allowNaN : Bool) (source : Value) : Run (Except DecodeError Value) := do
  match ← Run.ofExcept (decode allowNaN source) with
  | .ok v => pure (.ok v)
  | .error error => do
    Run.emit (.log .json ("JSON decode failed: " ++ error.message))
    pure (.error error)

/-- Writes JSON, and leaves a line in the log when a value cannot be written. That the
    undefined value alone cannot be is not worth a line. -/
def encodeLogged (allowNaN : Bool) (v : Value) : Run (Except EncodeError String) := do
  match ← Run.ofExcept (encode allowNaN v) with
  | .ok text => pure (.ok text)
  | .error .undefined => pure (.error .undefined)
  | .error error => do
    Run.emit (.log .json ("JSON encode failed: " ++ error.message))
    pure (.error error)

end Json

namespace Schema

def validateBase (s : Schema) (v : Value) : Run (Except Failure Value) := do
  match ← s.shape.check v with
  | .accept => pure (.ok v)
  | .reject failure => pure (.error failure)

def validate (s : Schema) (v : Value) : Run (Except ShapeError Value) := do
  match ← s.validateBase v with
  | .ok v => pure (.ok v)
  | .error failure => do
    let error ← failure.toError
    pure (.error error)

inductive OnFailure where
  | ignore
  | collect
  | throw
  deriving DecidableEq, Repr

def guard (s : Schema) (v : Value) (onFailure : OnFailure) : Run (Bool × List ShapeError) := do
  match ← s.validateBase v with
  | .ok _ => pure (true, [])
  | .error failure => match onFailure with
    | .ignore => pure (false, [])
    | .collect => do
      let error ← failure.toError
      pure (false, [error])
    | .throw => do
      let error ← failure.toError
      Run.raise (.thrown .shape error.message)

def validated (s : Schema) (v : Value) : Run (Except Rejection Value) := do
  match ← s.validate v with
  | .ok v => pure (.ok v)
  | .error error => pure (.error (.shape error))

def parse (s : Schema) (allowNaN : Bool) (source : Value) : Run (Except Rejection Value) := do
  match ← Json.decodeLogged allowNaN source with
  | .ok v => s.validated v
  | .error error => pure (.error (.decode error))

def parseWithDefault (s : Schema) (allowNaN : Bool) (source default : Value) : Run Value := do
  match ← s.parse allowNaN source with
  | .ok v => pure v
  | .error rejection => do
    Run.emit (.log .schema ("Falling back to default value: " ++ rejection.message))
    Run.ofExcept default.copy

/-- A copy that has been through JSON text, checked once more. -/
def clone (s : Schema) (allowNaN : Bool) (v : Value) : Run (Except Rejection Value) := do
  match ← Json.encodeLogged allowNaN v with
  | .error error => pure (.error (.encode error))
  | .ok text => s.parse allowNaN (.text text)

end Schema
end Conform
