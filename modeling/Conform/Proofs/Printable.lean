import Conform.Moment
import Conform.Scalar

/-!
What is printable in every case: numbers in any notation, dates and times, escaped
text, and text in the form that diagnostics fall back to.
-/
namespace Conform

namespace Text

def Printable (cs : List Char) : Prop := ∀ c ∈ cs, isPrintable c = true

instance (cs : List Char) : Decidable (Printable cs) :=
  List.decidableBAll (fun c => isPrintable c = true) cs

@[simp] theorem printable_nil : Printable [] := by
  intro c member
  cases member

@[simp] theorem printable_cons {c : Char} {cs : List Char} :
    Printable (c :: cs) ↔ isPrintable c = true ∧ Printable cs :=
  List.forall_mem_cons

@[simp] theorem printable_append {cs ds : List Char} :
    Printable (cs ++ ds) ↔ Printable cs ∧ Printable ds :=
  List.forall_mem_append

theorem printable_flatMap {α : Type} {f : α → List Char} {xs : List α}
    (each : ∀ x ∈ xs, Printable (f x)) : Printable (xs.flatMap f) := by
  intro c member
  obtain ⟨x, listed, inside⟩ := List.mem_flatMap.mp member
  exact each x listed c inside

theorem isPrintable_visible {c : Char} (low : 32 ≤ c.toNat) (high : c.toNat < 127) :
    isPrintable c = true := by
  obtain ⟨ranges, form⟩ : ∃ ranges, unprintableRanges = (0, 31) :: (127, 160) :: ranges :=
    ⟨_, rfl⟩
  have past : decide (c.toNat ≤ 31) = false := by
    rw [decide_eq_false_iff_not]
    omega
  have within : decide (c.toNat ≤ 160) = true := by
    rw [decide_eq_true_eq]
    omega
  rw [isPrintable, form, List.find?_cons, past, List.find?_cons, within]
  simpa using high

theorem printable_toDigits {base : Nat} (least : 1 < base) (most : base ≤ 16) (n : Nat) :
    Printable (Nat.toDigits base n) := by
  have digit : ∀ d < 16, Printable [d.digitChar] := by decide
  induction n using Nat.strongRecOn with
  | ind n ih =>
    by_cases small : n < base
    · rw [Nat.toDigits_of_lt_base small]
      exact digit n (by omega)
    · rw [Nat.toDigits_of_base_le least (by omega), printable_append]
      have remainder : n % base < base := Nat.mod_lt n (by omega)
      exact ⟨ih (n / base) (Nat.div_lt_self (by omega) least), digit (n % base) (by omega)⟩

theorem printable_zeros (count : Nat) : Printable (List.replicate count '0') := by
  intro c member
  rw [List.eq_of_mem_replicate member]
  decide

theorem printable_hexText (width n : Nat) : Printable (hexText width n) := by
  rw [hexText, printable_append]
  exact ⟨printable_zeros _, printable_toDigits (by decide) (by decide) n⟩

theorem printable_unicodeEscape (unit : Nat) : Printable (unicodeEscape unit) := by
  rw [unicodeEscape, printable_cons, printable_cons]
  exact ⟨by decide, by decide, printable_hexText 4 unit⟩

theorem printable_codeEscape (code : Nat) : Printable (codeEscape code) := by
  unfold codeEscape
  split
  · simp only [printable_cons]
    exact ⟨by decide, by decide, printable_hexText 2 code⟩
  · split
    · exact printable_unicodeEscape code
    · simp only [printable_cons]
      exact ⟨by decide, by decide, printable_hexText 8 code⟩

theorem escapeChar_cases (c : Char) :
    Printable (escapeChar c) ∨ escapeChar c = [c] ∧ 32 ≤ c.toNat := by
  unfold escapeChar
  repeat' split
  all_goals first
    | exact Or.inl (by decide)
    | exact Or.inl (printable_unicodeEscape _)
    | exact Or.inr ⟨rfl, by omega⟩

theorem printable_escapeAsciiChar (c : Char) : Printable (escapeAsciiChar c) := by
  unfold escapeAsciiChar
  split
  · rename_i ascii
    rcases escapeChar_cases c with shown | ⟨same, low⟩
    · exact shown
    · rw [same, printable_cons]
      exact ⟨isPrintable_visible low ascii, printable_nil⟩
  · exact printable_flatMap fun unit _ => printable_unicodeEscape unit

theorem printable_asciiJsonString (cs : List Char) : Printable (asciiJsonString cs) := by
  rw [asciiJsonString, quotedWith, printable_cons, printable_append]
  exact ⟨by decide, printable_flatMap fun c _ => printable_escapeAsciiChar c, by decide⟩

theorem printable_quotedShowing {shown : Char → Bool}
    (visible : ∀ c, shown c = true → isPrintable c = true) (cs : List Char) :
    Printable (quotedShowing shown cs) := by
  have mark : isPrintable (quoteMark cs) = true := by
    unfold quoteMark
    split <;> decide
  have each : ∀ c, Printable (quoteChar shown (quoteMark cs) c) := by
    intro c
    unfold quoteChar
    split
    · rename_i special
      rcases special with same | same
      · simp only [same, printable_cons]
        exact ⟨by decide, mark, printable_nil⟩
      · rw [same]
        decide
    · repeat' split
      · decide
      · decide
      · decide
      · rename_i seen
        exact printable_cons.mpr ⟨visible c seen, printable_nil⟩
      · exact printable_codeEscape _
  simp only [quotedShowing, printable_cons, printable_append]
  exact ⟨mark, printable_flatMap fun c _ => each c, mark, printable_nil⟩

theorem printable_quoted (cs : List Char) : Printable (quoted cs) :=
  printable_quotedShowing (fun _ seen => seen) cs

theorem printable_quotedBytes (bytes : List UInt8) : Printable (quotedBytes bytes) := by
  rw [quotedBytes, printable_cons]
  refine ⟨by decide, printable_quotedShowing ?_ _⟩
  intro c visible
  rw [Bool.and_eq_true, decide_eq_true_eq, decide_eq_true_eq] at visible
  exact isPrintable_visible visible.1 visible.2

end Text

namespace Binary64

open Text

theorem printable_exponentText (e : Int) : Printable (exponentText e) := by
  have digits := printable_toDigits (by decide : 1 < 10) (by decide) e.natAbs
  have zero : isPrintable '0' = true := by decide
  rw [exponentText]
  simp only [printable_cons]
  refine ⟨by decide, ?_, ?_⟩
  · split <;> decide
  · split
    · exact printable_cons.mpr ⟨zero, digits⟩
    · exact digits

theorem printable_layout {digits : List Char} (shown : Printable digits) (first : Int) :
    Printable (layout digits first) := by
  have zero : isPrintable '0' = true := by decide
  have point : isPrintable '.' = true := by decide
  have exponent := printable_exponentText first
  unfold layout
  split
  · simp only [printable_cons, printable_append]
    exact ⟨zero, point, printable_zeros _, shown⟩
  · split
    · dsimp only
      split
      · simp only [printable_append, printable_cons]
        exact ⟨⟨shown, printable_zeros _⟩, point, zero, printable_nil⟩
      · simp only [printable_append, printable_cons]
        exact ⟨fun c member => shown c (List.mem_of_mem_take member), point,
          fun c member => shown c (List.mem_of_mem_drop member)⟩
    · split
      · exact printable_nil
      · exact printable_cons.mpr ⟨(printable_cons.mp shown).1, exponent⟩
      · obtain ⟨head, tail⟩ := printable_cons.mp shown
        simp only [printable_cons, printable_append]
        exact ⟨head, point, tail, exponent⟩

theorem printable_text (x : Binary64) : Printable x.text := by
  have signed : ∀ (negative : Bool) {cs : List Char}, Printable cs →
      Printable (signed negative cs) := by
    intro negative cs shown
    cases negative with
    | false => exact shown
    | true => exact printable_cons.mpr ⟨by decide, shown⟩
  cases x with
  | nan => decide
  | infinite negative => exact signed negative (by decide)
  | finite negative m e canonical =>
    refine signed negative ?_
    unfold magnitudeText
    split
    · decide
    · apply printable_layout
      have digits := printable_toDigits (by decide : 1 < 10) (by decide)
        (shortest m e).coefficient
      intro c member
      rw [dropTrailingZeros, List.mem_reverse] at member
      exact digits c (List.mem_reverse.mp ((List.dropWhile_sublist _).subset member))

end Binary64

namespace Text

theorem printable_intercalate {separator : List Char} {parts : List (List Char)}
    (between : Printable separator) (each : ∀ part ∈ parts, Printable part) :
    Printable (separator.intercalate parts) := by
  induction parts with
  | nil => exact printable_nil
  | cons part parts ih =>
    obtain ⟨first, others⟩ := List.forall_mem_cons.mp each
    cases parts with
    | nil => simpa using first
    | cons next parts =>
      rw [List.intercalate_cons_cons, printable_append, printable_append]
      exact ⟨⟨first, between⟩, ih others⟩

theorem printable_nat (n : Nat) : Printable (toString n).toList := by
  rw [Nat.toString_eq_repr, Nat.toList_repr]
  exact printable_toDigits (by decide) (by decide) n

theorem printable_int (n : Int) : Printable (toString n).toList := by
  rw [Int.toString_eq_repr]
  cases n with
  | ofNat n => exact printable_nat n
  | negSucc n =>
    rw [Int.repr, String.toList_append, printable_append]
    exact ⟨by decide, printable_nat (n + 1)⟩

theorem printable_padded (width n : Nat) : Printable (padded width n).toList := by
  rw [padded, String.toList_ofList, printable_append]
  exact ⟨printable_zeros _, printable_toDigits (by decide) (by decide) n⟩

end Text

open Text

theorem Date.printable_iso (d : Date) : Printable d.iso.toList := by
  have dash : Printable "-".toList := by decide
  simp only [iso, String.toList_append, printable_append]
  exact ⟨⟨⟨⟨printable_padded _ _, dash⟩, printable_padded _ _⟩, dash⟩, printable_padded _ _⟩

theorem Date.printable_repr (d : Date) : Printable d.repr.toList := by
  have start : Printable "datetime.date(".toList := by decide
  have comma : Printable ", ".toList := by decide
  have close : Printable ")".toList := by decide
  unfold repr
  simp only [String.toList_append, printable_append]
  exact ⟨⟨⟨⟨⟨⟨start, printable_nat _⟩, comma⟩, printable_nat _⟩, comma⟩, printable_nat _⟩, close⟩

theorem Clock.printable_offsetText (seconds : Int) : Printable (offsetText seconds).toList := by
  have colon : isPrintable ':' = true := by decide
  have sign : Printable (if seconds < 0 then "-" else "+").toList := by
    split <;> decide
  have rest : Printable (if seconds.natAbs % 60 = 0 then ""
      else ":" ++ padded 2 (seconds.natAbs % 60)).toList := by
    split
    · exact printable_nil
    · simp [printable_padded, colon]
  simp only [offsetText, String.toList_append, printable_append]
  exact ⟨⟨⟨⟨sign, printable_padded _ _⟩, by decide⟩, printable_padded _ _⟩, rest⟩

theorem Clock.printable_iso (t : Clock) : Printable t.iso.toList := by
  have colon : isPrintable ':' = true := by decide
  have point : isPrintable '.' = true := by decide
  have fraction : Printable (if t.micro = 0 then "" else "." ++ padded 6 t.micro).toList := by
    split
    · exact printable_nil
    · simp [printable_padded, point]
  have zone : Printable ((t.offset.map offsetText).getD "").toList := by
    cases t.offset with
    | none => exact printable_nil
    | some offset => exact printable_offsetText offset
  simp [iso, printable_padded, colon, fraction, zone]

theorem Clock.printable_zoneText (offset : Int) : Printable (zoneText offset).toList := by
  unfold zoneText
  split
  · decide
  · have days : Printable "days=".toList := by decide
    have seconds : Printable "seconds=".toList := by decide
    have start : Printable "datetime.timezone(datetime.timedelta(".toList := by decide
    have close : Printable "))".toList := by decide
    simp only [String.toList_append, String.toList_intercalate, printable_append]
    refine ⟨⟨start, printable_intercalate (by decide) ?_⟩, close⟩
    rw [List.forall_mem_map, List.forall_mem_append]
    constructor
    · split
      · simp
      · rw [List.forall_mem_singleton]
        simp only [String.toList_append, printable_append]
        exact ⟨days, printable_int _⟩
    · split
      · simp
      · rw [List.forall_mem_singleton]
        simp only [String.toList_append, printable_append]
        exact ⟨seconds, printable_int _⟩

theorem Clock.printable_arguments (t : Clock) :
    ∀ argument ∈ t.arguments, Printable argument.toList := by
  rw [arguments, List.forall_mem_append, List.forall_mem_map]
  constructor
  · intro n _
    exact printable_nat n
  · cases t.offset with
    | none => simp
    | some offset =>
      have start : Printable "tzinfo=".toList := by decide
      rw [Option.map_some, Option.getD_some, List.forall_mem_singleton, String.toList_append,
        printable_append]
      exact ⟨start, printable_zoneText offset⟩

theorem Clock.printable_repr (t : Clock) : Printable t.repr.toList := by
  have start : Printable "datetime.time(".toList := by decide
  have close : Printable ")".toList := by decide
  unfold repr
  simp only [String.toList_append, String.toList_intercalate, printable_append]
  refine ⟨⟨start, printable_intercalate (by decide) ?_⟩, close⟩
  rw [List.forall_mem_map]
  exact printable_arguments t

theorem Moment.printable_isoWith {mark : String} (between : Printable mark.toList) (m : Moment) :
    Printable (m.isoWith mark).toList := by
  simp only [isoWith, String.toList_append, printable_append]
  exact ⟨⟨Date.printable_iso _, between⟩, Clock.printable_iso _⟩

theorem Moment.printable_repr (m : Moment) : Printable m.repr.toList := by
  have start : Printable "datetime.datetime(".toList := by decide
  have close : Printable ")".toList := by decide
  unfold repr
  simp only [String.toList_append, String.toList_intercalate, printable_append]
  refine ⟨⟨start, printable_intercalate (by decide) ?_⟩, close⟩
  simp only [List.forall_mem_map, List.forall_mem_cons]
  exact ⟨printable_nat _, printable_nat _, printable_nat _, Clock.printable_arguments _⟩

end Conform
