/-!
Calendar dates, clock times and their combination, with an optional offset from
universal time in seconds. Times with an offset are compared as instants; a
time with an offset never equals one without.
-/
namespace Conform

structure Date where
  year : Nat
  month : Nat
  day : Nat
  deriving DecidableEq, Repr

structure Clock where
  hour : Nat
  minute : Nat
  second : Nat
  micro : Nat
  offset : Option Int
  deriving DecidableEq, Repr

structure Moment where
  date : Date
  clock : Clock
  deriving DecidableEq, Repr

def padded (width n : Nat) : String :=
  let digits := Nat.toDigits 10 n
  String.ofList (List.replicate (width - digits.length) '0' ++ digits)

namespace Date

def iso (d : Date) : String := s!"{padded 4 d.year}-{padded 2 d.month}-{padded 2 d.day}"

def isLeap (year : Nat) : Bool := year % 4 = 0 && (year % 100 ≠ 0 || year % 400 = 0)

def monthLength (year month : Nat) : Nat :=
  if month = 2 then (if isLeap year then 29 else 28)
  else if month = 4 || month = 6 || month = 9 || month = 11 then 30
  else 31

def ordinal (d : Date) : Nat :=
  let y := d.year - 1
  365 * y + y / 4 - y / 100 + y / 400
    + (List.range (d.month - 1)).foldl (fun days m => days + monthLength d.year (m + 1)) d.day

def repr (d : Date) : String := s!"datetime.date({d.year}, {d.month}, {d.day})"

end Date

namespace Clock

def offsetText (seconds : Int) : String :=
  let n := seconds.natAbs
  let rest := if n % 60 = 0 then "" else ":" ++ padded 2 (n % 60)
  (if seconds < 0 then "-" else "+") ++ padded 2 (n / 3600) ++ ":" ++ padded 2 (n / 60 % 60) ++ rest

def iso (t : Clock) : String :=
  padded 2 t.hour ++ ":" ++ padded 2 t.minute ++ ":" ++ padded 2 t.second
    ++ (if t.micro = 0 then "" else "." ++ padded 6 t.micro)
    ++ (t.offset.map offsetText).getD ""

def seconds (t : Clock) : Nat := t.hour * 3600 + t.minute * 60 + t.second

/-- Seconds and microseconds are shown only where they are not zero. -/
def parts (t : Clock) : List Nat :=
  [t.hour, t.minute]
    ++ (if t.micro ≠ 0 then [t.second, t.micro] else if t.second ≠ 0 then [t.second] else [])

/-- An offset below zero is shown as a day less and the rest of that day. -/
def zoneText (offset : Int) : String :=
  if offset = 0 then "datetime.timezone.utc"
  else
    let days := offset / 86400
    let seconds := offset % 86400
    let inner :=
      (if days = 0 then [] else [s!"days={days}"])
        ++ (if seconds = 0 then [] else [s!"seconds={seconds}"])
    "datetime.timezone(datetime.timedelta(" ++ ", ".intercalate inner ++ "))"

def arguments (t : Clock) : List String :=
  t.parts.map toString ++ (t.offset.map fun o => ["tzinfo=" ++ zoneText o]).getD []

def repr (t : Clock) : String := "datetime.time(" ++ ", ".intercalate t.arguments ++ ")"

/-- The same time of day, or with offsets the same time of a day in universal time. -/
def same (t u : Clock) : Bool :=
  match t.offset, u.offset with
  | none, none => t == u
  | some o, some p =>
    (t.seconds : Int) - o == (u.seconds : Int) - p && t.micro == u.micro
  | _, _ => false

end Clock

namespace Moment

def isoWith (mark : String) (m : Moment) : String := m.date.iso ++ mark ++ m.clock.iso

def iso (m : Moment) : String := m.isoWith "T"

def repr (m : Moment) : String :=
  let d := m.date
  "datetime.datetime(" ++
    ", ".intercalate (toString d.year :: toString d.month :: toString d.day :: m.clock.arguments)
    ++ ")"

def instant (m : Moment) (offset : Int) : Int :=
  (m.date.ordinal : Int) * 86400 + m.clock.seconds - offset

def same (m n : Moment) : Bool :=
  match m.clock.offset, n.clock.offset with
  | none, none => m == n
  | some o, some p => m.instant o == n.instant p && m.clock.micro == n.clock.micro
  | _, _ => false

end Moment

def fixedFields? : List (Option Char × Nat) → List Char → Option (List Nat × List Char)
  | [], cs => some ([], cs)
  | (separator, width) :: fields, cs => do
    let cs ← match separator, cs with
      | none, cs => some cs
      | some s, c :: rest => if c = s then some rest else none
      | some _, [] => none
    let digits := cs.take width
    if digits.length = width ∧ digits.all Char.isDigit then
      let (ns, rest) ← fixedFields? fields (cs.drop width)
      some (Nat.ofDigitChars 10 digits 0 :: ns, rest)
    else none

def Date.ofIsoPrefix? (cs : List Char) : Option (Date × List Char) := do
  match ← fixedFields? [(none, 4), (some '-', 2), (some '-', 2)] cs with
  | ([y, m, d], rest) => some (⟨y, m, d⟩, rest)
  | _ => none

def Clock.offsetOfIso? : List Char → Option (Option Int)
  | [] => some none
  | sign :: rest => do
    let direction : Int ← if sign = '+' then some 1 else if sign = '-' then some (-1) else none
    match ← fixedFields? [(none, 2), (some ':', 2)] rest with
    | ([h, m], []) => some (some (direction * (h * 3600 + m * 60 : Nat)))
    | ([h, m], rest) => match ← fixedFields? [(some ':', 2)] rest with
      | ([s], []) => some (some (direction * (h * 3600 + m * 60 + s : Nat)))
      | _ => none
    | _ => none

def Clock.ofIso? (cs : List Char) : Option Clock := do
  match ← fixedFields? [(none, 2), (some ':', 2), (some ':', 2)] cs with
  | ([h, m, s], rest) =>
    let (micro, rest) ← match rest with
      | '.' :: _ => match ← fixedFields? [(some '.', 6)] rest with
        | ([u], rest) => some (u, rest)
        | _ => none
      | _ => some (0, rest)
    let offset ← offsetOfIso? rest
    some ⟨h, m, s, micro, offset⟩
  | _ => none

def Date.ofIso? (text : String) : Option Date := do
  match ← Date.ofIsoPrefix? text.toList with
  | (d, []) => some d
  | _ => none

def Moment.ofIso? (text : String) : Option Moment := do
  match ← Date.ofIsoPrefix? text.toList with
  | (d, _ :: rest) => (Clock.ofIso? rest).map fun t => ⟨d, t⟩
  | _ => none

end Conform
