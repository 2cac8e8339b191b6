import Conform.Json.Writer
import Conform.Proofs.Numerals
import Conform.Proofs.SafeIntegers

/-!
What is read from the text of a number. A finite number comes back as itself, an
integer exactly while it is safe and otherwise as the number nearest to it.
-/
namespace Conform.Json

open Binary64 Digits

theorem value_of_decimal {n : Numeral} (marked : n.fraction ≠ none ∨ n.exponent ≠ none) :
    n.value = .float (ofDecimal n.negative (digitsValue (n.whole ++ n.fraction.getD []))
      (n.exponent.getD 0 - (n.fraction.getD []).length)) := by
  obtain ⟨negative, whole, fraction, exponent⟩ := n
  cases fraction with
  | some ds => rfl
  | none => cases exponent with
    | some e => rfl
    | none => exact absurd marked (by simp)

/-- It makes no difference that an integer is rounded before it is compared with the limit. -/
theorem value_of_integer (negative : Bool) (whole : List Char) :
    Numeral.value ⟨negative, whole, none, none⟩ =
      if digitsValue whole ≤ maxSafeInteger then
        .int (if negative then -(digitsValue whole : Int) else digitsValue whole)
      else .float (nearest negative (digitsValue whole)) := by
  have rounding : Numeral.rounded ⟨negative, whole, none, none⟩ =
      ofDecimal negative (digitsValue whole) 0 := by
    simp [Numeral.rounded]
  have within := isWithin_integer negative (digitsValue whole)
  rw [← rounding] at within
  rw [Numeral.value, show Numeral.isInteger ⟨negative, whole, none, none⟩ = true from rfl,
    Bool.true_and]
  by_cases safe : digitsValue whole ≤ maxSafeInteger
  · rw [if_pos (within.mpr safe), if_pos safe]
  · rw [if_neg (mt within.mp safe), if_neg safe, rounding,
      ofDecimal_eq_nearest negative 0 (by omega), zpow_zero, mul_one]

/-- A text that spells, with a point or an exponent, the decimal whose digits are `ds`,
    the first of them at the place `first`. -/
def Spells (ds : List Char) (first : Int) (text : List Char) : Prop :=
  ∃ whole fraction exponent, WholePart whole ∧
    (∀ fs ∈ fraction, fs ≠ [] ∧ ∀ d ∈ fs, d.isDigit) ∧ (fraction ≠ none ∨ exponent ≠ none) ∧
    text = whole ++ (fractionText fraction ++ exponentPart exponent) ∧
    (digitsValue ds : Rat) * 10 ^ (first - ds.length + 1) =
      digitsValue (whole ++ fraction.getD []) *
        10 ^ (exponent.getD 0 - ((fraction.getD []).length : Int))

theorem isDigit_of_mem_zeros {k : Nat} {d : Char} (member : d ∈ List.replicate k '0') :
    d.isDigit := by
  rw [List.eq_of_mem_replicate member]
  decide

section layouts

variable {c : Char} {cs : List Char} (first : Int)

theorem spells_fraction (digits : ∀ d ∈ c :: cs, d.isDigit) (below : first < 0) :
    Spells (c :: cs) first ('0' :: '.' :: (List.replicate (-first - 1).toNat '0' ++ c :: cs)) := by
  refine ⟨['0'], some (List.replicate (-first - 1).toNat '0' ++ c :: cs), none, Or.inl rfl, ?_,
    Or.inl (by simp), by simp [fractionText, exponentPart], ?_⟩
  · intro fs same
    obtain rfl := Option.some.inj same
    refine ⟨by simp, fun d member => ?_⟩
    rcases List.mem_append.mp member with zero | member
    · exact isDigit_of_mem_zeros zero
    · exact digits d member
  · simp only [Option.getD_some, Option.getD_none, List.singleton_append, digitsValue_cons_zero,
      digitsValue_zeros_append, List.length_append, List.length_replicate]
    congr 2
    omega

theorem spells_whole (digits : ∀ d ∈ c :: cs, d.isDigit) (nonzero : c ≠ '0') (above : 0 ≤ first)
    (short : (c :: cs).length ≤ first.toNat + 1) :
    Spells (c :: cs) first
      (c :: cs ++ List.replicate (first.toNat + 1 - (c :: cs).length) '0' ++ ['.', '0']) := by
  refine ⟨c :: cs ++ List.replicate (first.toNat + 1 - (c :: cs).length) '0', some ['0'], none,
    ?_, ?_, Or.inl (by simp), by simp [fractionText, exponentPart], ?_⟩
  · refine Or.inr ⟨fun d member => ?_, c, _, rfl, nonzero⟩
    rcases List.mem_append.mp member with member | zero
    · exact digits d member
    · exact isDigit_of_mem_zeros zero
  · intro fs same
    obtain rfl := Option.some.inj same
    refine ⟨by simp, fun d member => ?_⟩
    rw [List.mem_singleton.mp member]
    decide
  · have zeros := digitsValue_append_zeros (c :: cs) (first.toNat + 1 - (c :: cs).length + 1)
    rw [List.replicate_succ', ← List.append_assoc] at zeros
    simp only [Option.getD_some, Option.getD_none, zeros, List.length_singleton]
    push_cast
    rw [mul_assoc, ← zpow_natCast, ← zpow_add₀ (by norm_num)]
    congr 2
    omega

theorem spells_split (digits : ∀ d ∈ c :: cs, d.isDigit) (nonzero : c ≠ '0') (above : 0 ≤ first)
    (long : first.toNat + 1 < (c :: cs).length) :
    Spells (c :: cs) first
      ((c :: cs).take (first.toNat + 1) ++ '.' :: (c :: cs).drop (first.toNat + 1)) := by
  refine ⟨(c :: cs).take (first.toNat + 1), some ((c :: cs).drop (first.toNat + 1)), none, ?_, ?_,
    Or.inl (by simp), by simp [fractionText, exponentPart], ?_⟩
  · exact Or.inr ⟨fun d member => digits d (List.mem_of_mem_take member), c, _, rfl, nonzero⟩
  · intro fs same
    obtain rfl := Option.some.inj same
    refine ⟨fun empty => ?_, fun d member => digits d (List.mem_of_mem_drop member)⟩
    have := List.drop_eq_nil_iff.mp empty
    omega
  · simp only [Option.getD_some, Option.getD_none, List.take_append_drop, List.length_drop]
    congr 2
    omega

theorem spells_single (digit : c.isDigit) (nonzero : c ≠ '0') :
    Spells [c] first (c :: exponentText first) := by
  exact ⟨[c], none, some first, Or.inr ⟨by simpa using digit, c, [], rfl, nonzero⟩, by simp,
    Or.inr (by simp), by simp [fractionText, exponentPart], by simp⟩

theorem spells_exponent {d : Char} (digits : ∀ x ∈ c :: d :: cs, x.isDigit) (nonzero : c ≠ '0') :
    Spells (c :: d :: cs) first (c :: '.' :: (d :: cs ++ exponentText first)) := by
  refine ⟨[c], some (d :: cs), some first, ?_, ?_, Or.inl (by simp),
    by simp [fractionText, exponentPart], ?_⟩
  · exact Or.inr ⟨by simpa using digits c (by simp), c, [], rfl, nonzero⟩
  · intro fs same
    obtain rfl := Option.some.inj same
    exact ⟨by simp, fun x member => digits x (List.mem_cons_of_mem c member)⟩
  · simp only [Option.getD_some, List.singleton_append, List.length_cons]
    congr 2
    omega

theorem spells_layout (digits : ∀ d ∈ c :: cs, d.isDigit) (nonzero : c ≠ '0') :
    Spells (c :: cs) first (layout (c :: cs) first) := by
  unfold layout
  by_cases below : -4 ≤ first ∧ first < 0
  · rw [if_pos below]
    exact spells_fraction first digits below.2
  · rw [if_neg below]
    by_cases above : 0 ≤ first ∧ first < 16
    · rw [if_pos above]
      dsimp only
      split
      · rename_i short
        exact spells_whole first digits nonzero above.1 short
      · rename_i long
        exact spells_split first digits nonzero above.1 (not_le.mp long)
    · rw [if_neg above]
      cases cs with
      | nil => exact spells_single first (digits c (by simp)) nonzero
      | cons d ds => exact spells_exponent first digits nonzero

end layouts

theorem dropTrailingZeros_append (ds : List Char) :
    ∃ k, ds = dropTrailingZeros ds ++ List.replicate k '0' := by
  refine ⟨(ds.reverse.takeWhile (· == '0')).length, ?_⟩
  have zeros : ds.reverse.takeWhile (· == '0') =
      List.replicate (ds.reverse.takeWhile (· == '0')).length '0' := by
    refine List.eq_replicate_iff.mpr ⟨rfl, fun d member => ?_⟩
    have all : (ds.reverse.takeWhile (· == '0')).all (· == '0') := List.all_takeWhile
    simpa using List.all_eq_true.mp all d member
  unfold dropTrailingZeros
  rw [← List.reverse_replicate, ← zeros, ← List.reverse_append, List.takeWhile_append_dropWhile,
    List.reverse_reverse]

theorem trimmed_digits {c : Nat} (positive : 0 < c) :
    ∃ d ds, dropTrailingZeros (Nat.toDigits 10 c) = d :: ds ∧ (∀ x ∈ d :: ds, x.isDigit) ∧
      d ≠ '0' ∧ ∃ k, (Nat.toDigits 10 c).length = (d :: ds).length + k ∧
        c = digitsValue (d :: ds) * 10 ^ k := by
  obtain ⟨k, whole⟩ := dropTrailingZeros_append (Nat.toDigits 10 c)
  have value : c = digitsValue (dropTrailingZeros (Nat.toDigits 10 c)) * 10 ^ k := by
    rw [← digitsValue_append_zeros, ← whole, digitsValue_toDigits]
  have head := head_ne_zero positive
  have digits : ∀ x ∈ Nat.toDigits 10 c, x.isDigit := fun x => isDigit_of_mem
  have length := congrArg List.length whole
  cases form : dropTrailingZeros (Nat.toDigits 10 c) with
  | nil =>
    rw [form] at value
    simp [digitsValue] at value
    omega
  | cons d ds =>
    rw [form] at value length whole
    rw [whole] at head digits
    refine ⟨d, ds, rfl, fun x member => digits x (List.mem_append_left _ member), ?_, k, ?_, value⟩
    · rintro rfl
      exact head rfl
    · rwa [List.length_append, List.length_replicate] at length

theorem numeral?_finite {m : Nat} {e : Int} (negative : Bool) (canonical : Canonical m e)
    {rest : List Char} (boundary : Boundary rest) :
    ∃ n : Numeral, numeral? (Binary64.text (.finite negative m e canonical) ++ rest) =
      some (n, rest) ∧ n.value = .float (.finite negative m e canonical) := by
  rcases Nat.eq_zero_or_pos m with rfl | positive
  · obtain rfl : e = -1074 := by
      rcases canonical.2.2.2 with large | least
      · exact absurd large (by decide)
      · exact least
    refine ⟨⟨negative, ['0'], some ['0'], none⟩, ?_, rfl⟩
    have read := numeral?_spelled negative (some ['0']) none
      (Or.inl rfl) (by simp) boundary
    cases negative <;> exact read
  · obtain ⟨above, back⟩ := ofDecimal_shortest negative canonical positive
    generalize shown : shortest m e = d at above back
    obtain ⟨c, cs, trimmed, digits, nonzero, k, length, value⟩ := trimmed_digits above
    obtain ⟨whole, fraction, exponent, wholePart, fractional, marked, spelled, same⟩ :=
      spells_layout (d.exponent + (Nat.toDigits 10 d.coefficient).length - 1) digits nonzero
    refine ⟨⟨negative, whole, fraction, exponent⟩, ?_, ?_⟩
    · have read := numeral?_spelled negative fraction exponent wholePart
        fractional boundary
      have text : Binary64.text (.finite negative m e canonical) =
          signed negative (whole ++ (fractionText fraction ++ exponentPart exponent)) := by
        change signed negative (magnitudeText m e) = _
        unfold magnitudeText
        rw [if_neg (by omega), shown]
        dsimp only
        rw [trimmed, spelled]
      rw [text, ← read]
      cases negative <;> simp [signed]
    · rw [value_of_decimal marked, ← back]
      congr 1
      refine (ofDecimal_eq_of_value_eq negative above ?_).symm
      rw [← same, length, value]
      push_cast
      rw [mul_assoc, ← zpow_natCast, ← zpow_add₀ (by norm_num)]
      congr 2
      omega

theorem wholePart_toDigits (n : Nat) : WholePart (Nat.toDigits 10 n) := by
  rcases Nat.eq_zero_or_pos n with rfl | positive
  · exact Or.inl rfl
  · obtain ⟨c, cs, form⟩ := List.exists_cons_of_ne_nil (Nat.toDigits_ne_nil (n := n))
    refine Or.inr ⟨fun d => isDigit_of_mem, c, cs, form, ?_⟩
    rintro rfl
    exact head_ne_zero positive (by rw [form]; rfl)

def plainInteger (n : Int) : Scalar :=
  if n.natAbs ≤ maxSafeInteger then .int n else .float (ofInt n)

def signedInteger (negative : Bool) (ds : List Char) : Int :=
  if negative then -(digitsValue ds : Int) else digitsValue ds

theorem natAbs_signedInteger (negative : Bool) (ds : List Char) :
    (signedInteger negative ds).natAbs = digitsValue ds := by
  cases negative <;> simp [signedInteger]

theorem value_eq_plainInteger (negative : Bool) (ds : List Char) :
    Numeral.value ⟨negative, ds, none, none⟩ = plainInteger (signedInteger negative ds) := by
  rw [value_of_integer, plainInteger, natAbs_signedInteger]
  by_cases safe : digitsValue ds ≤ maxSafeInteger
  · rw [if_pos safe, if_pos safe]
    rfl
  · rw [if_neg safe, if_neg safe, ofInt, natAbs_signedInteger]
    have sign : decide (signedInteger negative ds < 0) = negative := by
      cases negative with
      | true => exact decide_eq_true (by simp only [signedInteger, if_true]; omega)
      | false => exact decide_eq_false (by simp [signedInteger])
    rw [sign]

theorem signedInteger_toDigits (n : Int) :
    signedInteger (n < 0) (Nat.toDigits 10 n.natAbs) = n := by
  rw [signedInteger, digitsValue_toDigits]
  by_cases negative : n < 0
  · simp only [negative, decide_true, if_true]
    omega
  · simp only [negative, decide_false, Bool.false_eq_true, if_false]
    omega

theorem numeral?_integer (n : Int) {rest : List Char} (boundary : Boundary rest) :
    ∃ m : Numeral, numeral? (signed (n < 0) (Nat.toDigits 10 n.natAbs) ++ rest) =
      some (m, rest) ∧ m.value = plainInteger n := by
  refine ⟨⟨n < 0, Nat.toDigits 10 n.natAbs, none, none⟩, ?_, ?_⟩
  · rw [signed_append]
    exact numeral?_integerLiteral _ (wholePart_toDigits n.natAbs) boundary.endsInteger
  · rw [value_eq_plainInteger, signedInteger_toDigits]

theorem wholeDigits?_head {body : List Char} {p : List Char × List Char}
    (found : wholeDigits? body = some p) : ∃ d tail, body = d :: tail ∧ d.isDigit := by
  unfold wholeDigits? at found
  split at found
  · cases found
  · split at found
    · subst_vars
      exact ⟨_, _, rfl, by decide⟩
    · split at found
      · rename_i digit
        exact ⟨_, _, rfl, digit⟩
      · cases found

theorem numeral?_head {cs : List Char} {r : Numeral × List Char} (read : numeral? cs = some r) :
    ∃ negative d tail, cs = signed negative (d :: tail) ∧ d.isDigit := by
  obtain ⟨negative, body, rfl, p, found⟩ : ∃ negative body, cs = signed negative body ∧
      ∃ p, wholeDigits? body = some p := by
    unfold numeral? at read
    split at read
    rename_i negative body sign
    refine ⟨negative, body, ?_, ?_⟩
    · split at sign
      · cases sign
        rfl
      · cases sign
        rfl
    · split at read
      · cases read
      · rename_i found
        exact ⟨_, found⟩
  obtain ⟨d, tail, rfl, digit⟩ := wholeDigits?_head found
  exact ⟨negative, d, tail, rfl, digit⟩

theorem afterWord?_numeral {d : Char} (digit : d.isDigit) (negative : Bool) (tail : List Char)
    (word : String) (member : word ∈ words.map (·.1) ++ constants.map (·.1)) :
    afterWord? word (signed negative (d :: tail)) = none := by
  have other : ∀ c, ¬ c.isDigit → c ≠ d := by
    rintro c letter rfl
    exact letter digit
  simp only [words, constants, List.map_cons, List.map_nil, List.cons_append, List.nil_append,
    List.mem_cons, List.not_mem_nil, or_false] at member
  rcases member with rfl | rfl | rfl | rfl | rfl | rfl <;> cases negative <;>
    simp [afterWord?, signed, other 'n' (by decide), other 't' (by decide), other 'f' (by decide),
      other 'N' (by decide), other 'I' (by decide), other '-' (by decide)]

theorem plainValue_numeral {allowNaN : Bool} {cs left : List Char} {n : Numeral}
    (read : numeral? cs = some (n, left)) :
    plainValue allowNaN cs = .ok (.scalar n.value, left) := by
  obtain ⟨negative, d, tail, form, digit⟩ := numeral?_head read
  have missed := afterWord?_numeral digit negative tail
  rw [← form] at missed
  unfold plainValue
  split
  · rename_i taken
    obtain ⟨p, member, some_left⟩ := List.exists_of_findSome?_eq_some taken
    have miss := missed p.1 (List.mem_append_left _ (List.mem_map_of_mem member))
    simp [miss] at some_left
  · split
    · rename_i taken
      obtain ⟨p, member, some_left⟩ := List.exists_of_findSome?_eq_some taken
      have miss := missed p.1 (List.mem_append_right _ (List.mem_map_of_mem member))
      simp [miss] at some_left
    · rw [read]

end Conform.Json
