import Conform.Json.Reader
import Conform.Proofs.Digits
import Conform.Proofs.Shortest

/-!
Numbers read back. A numeral is spelled as a sign, its digits, a point with the
digits after it, and an exponent; read from a text that goes on with none of
these, it comes back part by part. The layouts of a run of digits all spell the
same decimal.
-/
namespace Conform.Json

open Binary64 Digits

def Boundary (rest : List Char) : Prop := ∀ c ∈ rest.head?, c = ',' ∨ c = ']' ∨ c = '\x7d'

def NoDigit (rest : List Char) : Prop := ∀ c ∈ rest.head?, ¬ c.isDigit

theorem Boundary.noDigit {rest : List Char} (boundary : Boundary rest) : NoDigit rest := by
  intro c head
  rcases boundary c head with rfl | rfl | rfl <;> decide

theorem noDigit_cons {c : Char} {cs : List Char} (other : ¬ c.isDigit) : NoDigit (c :: cs) := by
  intro d head
  cases head
  exact other

theorem splitDigits_append {ds rest : List Char} (digits : ∀ d ∈ ds, d.isDigit)
    (stop : NoDigit rest) : splitDigits (ds ++ rest) = (ds, rest) := by
  unfold splitDigits
  rw [List.takeWhile_append_of_pos digits, List.dropWhile_append_of_pos digits]
  cases rest with
  | nil => simp
  | cons c cs =>
    have other := stop c rfl
    simp [other]

theorem digitsValue_cons_zero (ds : List Char) : digitsValue ('0' :: ds) = digitsValue ds := by
  unfold digitsValue
  rw [Nat.ofDigitChars_cons]
  rfl

theorem digitsValue_zeros_append (k : Nat) (ds : List Char) :
    digitsValue (List.replicate k '0' ++ ds) = digitsValue ds := by
  induction k with
  | zero => rfl
  | succ k ih => rw [List.replicate_succ, List.cons_append, digitsValue_cons_zero, ih]

theorem digitsValue_append_zeros (ds : List Char) (k : Nat) :
    digitsValue (ds ++ List.replicate k '0') = digitsValue ds * 10 ^ k := by
  unfold digitsValue
  have zeros := digitsValue_zeros_append k []
  rw [List.append_nil] at zeros
  unfold digitsValue at zeros
  rw [Nat.ofDigitChars_append, Nat.ofDigitChars_eq_ofDigitChars_zero, zeros, List.length_replicate,
    Nat.mul_comm]
  rfl

theorem digitsValue_toDigits (n : Nat) : digitsValue (Nat.toDigits 10 n) = n :=
  Nat.ofDigitChars_ten_toDigits

def WholePart (ds : List Char) : Prop :=
  ds = ['0'] ∨ (∀ d ∈ ds, d.isDigit) ∧ ∃ c cs, ds = c :: cs ∧ c ≠ '0'

def fractionText : Option (List Char) → List Char
  | none => []
  | some ds => '.' :: ds

def exponentPart : Option Int → List Char
  | none => []
  | some e => exponentText e

theorem wholeDigits?_append {ds rest : List Char} (whole : WholePart ds) (stop : NoDigit rest) :
    wholeDigits? (ds ++ rest) = some (ds, rest) := by
  rcases whole with rfl | ⟨digits, c, cs, rfl, nonzero⟩
  · rfl
  · have digit := digits c (by simp)
    have split := splitDigits_append digits stop
    unfold wholeDigits?
    rw [List.cons_append] at split ⊢
    simp only [if_neg nonzero, if_pos digit, split]

theorem fractionDigits_append {fraction : Option (List Char)} {rest : List Char}
    (digits : ∀ ds ∈ fraction, ds ≠ [] ∧ ∀ d ∈ ds, d.isDigit) (stop : NoDigit rest)
    (point : rest.head? ≠ some '.') :
    fractionDigits (fractionText fraction ++ rest) = (fraction, rest) := by
  cases fraction with
  | none =>
    change fractionDigits rest = (none, rest)
    unfold fractionDigits
    split
    · exact absurd rfl point
    · rfl
  | some ds =>
    obtain ⟨nonempty, all⟩ := digits ds rfl
    have split := splitDigits_append all stop
    obtain ⟨d, more, rfl⟩ := List.exists_cons_of_ne_nil nonempty
    change fractionDigits ('.' :: (d :: more ++ rest)) = (some (d :: more), rest)
    simp only [fractionDigits, split]

theorem exponentText_digits (e : Int) : ∃ ds, ds ≠ [] ∧ (∀ d ∈ ds, d.isDigit) ∧
    digitsValue ds = e.natAbs ∧
    exponentText e = 'e' :: (if e < 0 then '-' else '+') :: ds := by
  by_cases short : (Nat.toDigits 10 e.natAbs).length < 2
  · refine ⟨'0' :: Nat.toDigits 10 e.natAbs, by simp, ?_, ?_, ?_⟩
    · intro d member
      rcases List.mem_cons.mp member with rfl | member
      · decide
      · exact isDigit_of_mem member
    · rw [digitsValue_cons_zero, digitsValue_toDigits]
    · unfold exponentText
      simp only [if_pos short]
  · refine ⟨Nat.toDigits 10 e.natAbs, Nat.toDigits_ne_nil, fun d => isDigit_of_mem,
      digitsValue_toDigits _, ?_⟩
    unfold exponentText
    simp only [if_neg short]

theorem exponentDigits_unmarked {rest : List Char}
    (unmarked : ∀ c ∈ rest.head?, ¬ (c = 'e' ∨ c = 'E')) : exponentDigits rest = (none, rest) := by
  cases rest with
  | nil => rfl
  | cons c cs =>
    unfold exponentDigits
    simp only [if_neg (unmarked c rfl)]

theorem exponentDigits_append (exponent : Option Int) {rest : List Char}
    (boundary : Boundary rest) :
    exponentDigits (exponentPart exponent ++ rest) = (exponent, rest) := by
  cases exponent with
  | none =>
    refine exponentDigits_unmarked fun c head => ?_
    rcases boundary c head with rfl | rfl | rfl <;> decide
  | some e =>
    obtain ⟨ds, nonempty, digits, value, text⟩ := exponentText_digits e
    obtain ⟨d, more, rfl⟩ := List.exists_cons_of_ne_nil nonempty
    have split := splitDigits_append digits boundary.noDigit
    rw [List.cons_append] at split
    change exponentDigits (exponentText e ++ rest) = (some e, rest)
    rw [text]
    by_cases negative : e < 0
    · have same : -(e.natAbs : Int) = e := by omega
      rw [if_pos negative]
      simp only [List.cons_append, exponentDigits, splitSign, true_or, if_true, split, value, same]
    · have same : (e.natAbs : Int) = e := by omega
      rw [if_neg negative]
      simp [exponentDigits, splitSign, split, value, same]

theorem exponentPart_head (exponent : Option Int) {rest : List Char} (boundary : Boundary rest) :
    NoDigit (exponentPart exponent ++ rest) ∧ (exponentPart exponent ++ rest).head? ≠ some '.' := by
  cases exponent with
  | none =>
    refine ⟨boundary.noDigit, fun point => ?_⟩
    rcases boundary '.' point with same | same | same <;> exact absurd same (by decide)
  | some e => exact ⟨noDigit_cons (by decide), by simp [exponentPart, exponentText]⟩

theorem fractionText_head (fraction : Option (List Char)) {rest : List Char}
    (stop : NoDigit rest) : NoDigit (fractionText fraction ++ rest) := by
  cases fraction with
  | none => exact stop
  | some ds => exact noDigit_cons (by decide)

theorem signed_append (negative : Bool) (text rest : List Char) :
    signed negative text ++ rest = signed negative (text ++ rest) := by
  cases negative <;> rfl

theorem numeral?_signed (negative : Bool) {whole rest middle left : List Char}
    {fraction : Option (List Char)} {exponent : Option Int} (wholePart : WholePart whole)
    (stop : NoDigit rest) (second : fractionDigits rest = (fraction, middle))
    (third : exponentDigits middle = (exponent, left)) :
    numeral? (signed negative (whole ++ rest)) =
      some (⟨negative, whole, fraction, exponent⟩, left) := by
  have first := wholeDigits?_append wholePart stop
  cases negative with
  | true => simp [numeral?, signed, first, second, third]
  | false =>
    obtain ⟨c, cs, rfl, unsigned⟩ : ∃ c cs, whole = c :: cs ∧ c ≠ '-' := by
      rcases wholePart with rfl | ⟨digits, c, cs, rfl, _⟩
      · exact ⟨'0', [], rfl, by decide⟩
      · refine ⟨c, cs, rfl, ?_⟩
        rintro rfl
        exact absurd (digits '-' (by simp)) (by decide)
    rw [List.cons_append] at first
    simp [numeral?, signed, unsigned, first, second, third]

theorem numeral?_spelled (negative : Bool) {whole : List Char} (fraction : Option (List Char))
    (exponent : Option Int) {rest : List Char} (wholePart : WholePart whole)
    (digits : ∀ ds ∈ fraction, ds ≠ [] ∧ ∀ d ∈ ds, d.isDigit) (boundary : Boundary rest) :
    numeral? (signed negative (whole ++ (fractionText fraction ++ (exponentPart exponent ++ rest))))
      = some (⟨negative, whole, fraction, exponent⟩, rest) := by
  obtain ⟨stop, point⟩ := exponentPart_head exponent boundary
  exact numeral?_signed negative wholePart (fractionText_head fraction stop)
    (fractionDigits_append digits stop point) (exponentDigits_append exponent boundary)

/-- The text does not go on with what belongs to an integer, nor with a point or an exponent. -/
def EndsInteger (rest : List Char) : Prop :=
  ∀ c ∈ rest.head?, ¬ c.isDigit ∧ c ≠ '.' ∧ ¬ (c = 'e' ∨ c = 'E')

theorem Boundary.endsInteger {rest : List Char} (boundary : Boundary rest) : EndsInteger rest := by
  intro c head
  rcases boundary c head with rfl | rfl | rfl <;> decide

theorem numeral?_integerLiteral (negative : Bool) {ds rest : List Char} (digits : WholePart ds)
    (ends : EndsInteger rest) :
    numeral? (signed negative (ds ++ rest)) = some (⟨negative, ds, none, none⟩, rest) := by
  have stop : NoDigit rest := fun c head => (ends c head).1
  have point : rest.head? ≠ some '.' := fun head => (ends '.' head).2.1 rfl
  have pointless : fractionDigits rest = (none, rest) :=
    @fractionDigits_append none rest (by simp) stop point
  exact numeral?_signed negative digits stop pointless
    (exponentDigits_unmarked fun c head => (ends c head).2.2)

end Conform.Json
