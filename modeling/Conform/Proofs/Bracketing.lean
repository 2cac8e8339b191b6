import Conform.Proofs.Decoded
import Mathlib.Data.List.TakeWhile

/-!
How deep a text nests its brackets, and that reading follows it no deeper. The brackets
are counted outside of strings, in any text, well formed or not. Whatever a reader takes
from the front of a text is balanced, so what is left is nested no deeper than the whole.
-/
namespace Conform.Json

/-- The most brackets that are open at once in what is left of a text, those before it left
    aside. The flag tells whether it starts within a string, where none count. -/
def nestingFrom : Bool → List Char → Nat
  | _, [] => 0
  | true, '\\' :: _ :: rest => nestingFrom true rest
  | true, c :: rest => nestingFrom (c ≠ '"') rest
  | false, c :: rest =>
    if c = '[' ∨ c = '\x7b' then nestingFrom false rest + 1
    else if c = ']' ∨ c = '\x7d' then nestingFrom false rest - 1
    else nestingFrom (c = '"') rest

def nesting (cs : List Char) : Nat := nestingFrom false cs

def IsNeutral (c : Char) : Prop := c ∉ ['[', '\x7b', ']', '\x7d', '"']

instance (c : Char) : Decidable (IsNeutral c) := inferInstanceAs (Decidable (_ ∉ _))

theorem nesting_neutral {c : Char} (neutral : IsNeutral c) (cs : List Char) :
    nesting (c :: cs) = nesting cs := by
  simp only [IsNeutral, List.mem_cons, List.not_mem_nil, or_false, not_or] at neutral
  simp [nesting, nestingFrom, neutral]

theorem nesting_append {cs : List Char} (neutral : ∀ c ∈ cs, IsNeutral c) (left : List Char) :
    nesting (cs ++ left) = nesting left := by
  induction cs with
  | nil => rfl
  | cons c cs ih =>
    rw [List.forall_mem_cons] at neutral
    rw [List.cons_append, nesting_neutral neutral.1, ih neutral.2]

theorem nesting_dropWhile {p : Char → Bool} (neutral : ∀ c, p c = true → IsNeutral c)
    (cs : List Char) : nesting (cs.dropWhile p) = nesting cs := by
  calc nesting (cs.dropWhile p)
      = nesting (cs.takeWhile p ++ cs.dropWhile p) :=
        (nesting_append (fun c member => neutral c (List.mem_takeWhile_imp member)) _).symm
    _ = nesting cs := by rw [List.takeWhile_append_dropWhile]

theorem isNeutral_of_isBlank (c : Char) (blank : isBlank c = true) : IsNeutral c := by
  simp only [isBlank, Bool.or_eq_true, beq_iff_eq] at blank
  rcases blank with ((rfl | rfl) | rfl) | rfl <;> decide

theorem isNeutral_of_isDigit (c : Char) (digit : c.isDigit = true) : IsNeutral c := by
  intro member
  simp only [List.mem_cons, List.not_mem_nil, or_false] at member
  rcases member with rfl | rfl | rfl | rfl | rfl <;> cases digit

theorem nesting_skipBlanks (cs : List Char) : nesting (skipBlanks cs) = nesting cs :=
  nesting_dropWhile isNeutral_of_isBlank cs

theorem nesting_splitDigits (cs : List Char) : nesting (Binary64.splitDigits cs).2 = nesting cs :=
  nesting_dropWhile isNeutral_of_isDigit cs

theorem nesting_wholeDigits? {cs ds left : List Char} (read : wholeDigits? cs = some (ds, left)) :
    nesting left = nesting cs := by
  unfold wholeDigits? at read
  split at read
  · cases read
  · rename_i c rest
    split at read
    · rename_i zero
      cases read
      exact (nesting_neutral (zero ▸ by decide) _).symm
    · split at read
      · cases read
        exact nesting_dropWhile isNeutral_of_isDigit _
      · cases read

theorem nesting_fractionDigits (cs : List Char) : nesting (fractionDigits cs).2 = nesting cs := by
  unfold fractionDigits
  split
  · rename_i rest
    split
    · rfl
    · rename_i ds left _ taken
      have after := nesting_splitDigits rest
      rw [taken] at after
      exact after.trans (nesting_neutral (by decide) rest).symm
  · rfl

theorem nesting_splitSign (cs : List Char) : nesting (Binary64.splitSign cs).2 = nesting cs := by
  unfold Binary64.splitSign
  split
  · exact (nesting_neutral (by decide) _).symm
  · exact (nesting_neutral (by decide) _).symm
  · rfl

theorem nesting_exponentDigits (cs : List Char) : nesting (exponentDigits cs).2 = nesting cs := by
  unfold exponentDigits
  split
  · rfl
  · rename_i c rest
    split
    · rename_i mark
      have neutral : IsNeutral c := by rcases mark with rfl | rfl <;> decide
      have after := nesting_splitDigits (Binary64.splitSign rest).2
      dsimp only
      split
      · rfl
      · rename_i ds left _ taken
        rw [taken, nesting_splitSign] at after
        exact after.trans (nesting_neutral neutral rest).symm
    · rfl

theorem nesting_numeral? {cs left : List Char} {n : Numeral} (read : numeral? cs = some (n, left)) :
    nesting left = nesting cs := by
  unfold numeral? at read
  split at read
  rename_i negative body sign
  have unsigned : nesting body = nesting cs := by
    split at sign
    · cases sign
      exact (nesting_neutral (by decide) _).symm
    · cases sign
      rfl
  split at read
  · cases read
  · rename_i whole rest found
    cases read
    exact (nesting_exponentDigits _).trans ((nesting_fractionDigits rest).trans
      ((nesting_wholeDigits? found).trans unsigned))

theorem nesting_afterWord? {word : String} (neutral : ∀ c ∈ word.toList, IsNeutral c)
    {cs left : List Char} (found : afterWord? word cs = some left) : nesting left = nesting cs := by
  unfold afterWord? at found
  split at found
  · rename_i before
    cases found
    obtain ⟨rest, rfl⟩ := List.isPrefixOf_iff_prefix.mp before
    rw [nesting_append neutral, ← String.length_toList, List.drop_left]
  · cases found

/-- A reader comes to an end at a text that is nested this deep at most, or complains about
    something else than nesting. -/
def Ends {α : Type} (level : Nat) : Except Halt (α × List Char) → Prop
  | .ok (_, left) => nesting left ≤ level
  | .error halt => halt ≠ .tooDeep

section

variable {α β : Type} {level : Nat}

theorem ends_ok {a : α} {left : List Char} (here : nesting left ≤ level) :
    Ends level (.ok (a, left)) := here

theorem ends_error {halt : Halt} (other : halt ≠ .tooDeep) :
    Ends level (.error halt : Except Halt (α × List Char)) := other

theorem ends_malformed (complaint : Complaint) (rest : Nat) :
    Ends level (.error (.malformed complaint rest) : Except Halt (α × List Char)) :=
  ends_error (by simp)

theorem Ends.bind {x : Except Halt (α × List Char)}
    {next : α × List Char → Except Halt (β × List Char)} {before : Nat} (first : Ends before x)
    (rest : ∀ a left, nesting left ≤ before → Ends level (next (a, left))) :
    Ends level (x >>= next) := by
  cases x with
  | error halt => exact first
  | ok read => exact rest read.1 read.2 first

end

theorem nestingFrom_inside {c : Char} (unescaped : c ≠ '\\') (inside : c ≠ '"') (cs : List Char) :
    nestingFrom true (c :: cs) = nestingFrom true cs := by
  rw [nestingFrom, decide_eq_true inside]
  intro e rest same
  cases same
  exact absurd rfl unescaped

theorem nestingFrom_digit {c : Char} {n : Nat} (digit : hexValue? c = some n) (cs : List Char) :
    nestingFrom true (c :: cs) = nestingFrom true cs := by
  apply nestingFrom_inside <;> rintro rfl <;> cases digit

theorem nestingFrom_unit {h₁ h₂ h₃ h₄ : Char} {code : Nat} (unit : hexUnit? h₁ h₂ h₃ h₄ = some code)
    (cs : List Char) : nestingFrom true (h₁ :: h₂ :: h₃ :: h₄ :: cs) = nestingFrom true cs := by
  obtain ⟨a, first, b, second, c, third, d, fourth, _⟩ : ∃ a, hexValue? h₁ = some a ∧
      ∃ b, hexValue? h₂ = some b ∧ ∃ c, hexValue? h₃ = some c ∧
        ∃ d, hexValue? h₄ = some d ∧ a * 4096 + b * 256 + c * 16 + d = code := by
    simpa [hexUnit?, Option.bind_eq_some_iff] using unit
  rw [nestingFrom_digit first, nestingFrom_digit second, nestingFrom_digit third,
    nestingFrom_digit fourth]

theorem stringCodes_ends (start : Nat) (cs : List Char) :
    Ends (nestingFrom true cs) (stringCodes start cs) := by
  fun_induction stringCodes start cs with
  | case1 | case3 | case4 | case5 | case7 | case8 | case10 => exact ends_malformed _ _
  | case2 rest => exact ends_ok (Nat.le_refl _)
  | case6 h₁ h₂ h₃ h₄ more code unit _ _ ih =>
    have digits : nestingFrom true ('\\' :: 'u' :: h₁ :: h₂ :: h₃ :: h₄ :: more) =
        nestingFrom true more := nestingFrom_unit unit more
    rw [digits]
    exact ih.bind fun _ _ here => ends_ok here
  | case9 e after _ meant _ _ ih => exact ih.bind fun _ _ here => ends_ok here
  | case11 c rest inside unescaped _ ih =>
    rw [nestingFrom_inside unescaped inside]
    exact ih.bind fun _ _ here => ends_ok here

theorem stringAfterMark_ends (cs : List Char) : Ends (nesting ('"' :: cs)) (stringAfterMark cs) :=
  (stringCodes_ends _ cs).bind fun _ _ here => ends_ok here

theorem plainValue_ends (allowNaN : Bool) (cs : List Char) :
    Ends (nesting cs) (plainValue allowNaN cs) := by
  have neutralWords : ∀ p ∈ words, ∀ c ∈ p.1.toList, IsNeutral c := by
    simp [words, IsNeutral]
  have neutralConstants : ∀ p ∈ constants, ∀ c ∈ p.1.toList, IsNeutral c := by
    simp [constants, IsNeutral]
  unfold plainValue
  split
  · rename_i a rest taken
    obtain ⟨p, member, found⟩ := List.exists_of_findSome?_eq_some taken
    obtain ⟨_, after, same⟩ := Option.map_eq_some_iff.mp found
    cases same
    exact ends_ok (Nat.le_of_eq (nesting_afterWord? (neutralWords p member) after))
  · split
    · rename_i w x rest taken
      obtain ⟨p, member, found⟩ := List.exists_of_findSome?_eq_some taken
      obtain ⟨_, after, same⟩ := Option.map_eq_some_iff.mp found
      cases same
      split
      · exact ends_ok (Nat.le_of_eq (nesting_afterWord? (neutralConstants p member) after))
      · exact ends_error (by simp)
    · split
      · rename_i n rest numeral
        exact ends_ok (Nat.le_of_eq (nesting_numeral? numeral))
      · exact ends_malformed _ _

theorem nesting_of_skipBlanks {c : Char} {cs left : List Char} (next : skipBlanks left = c :: cs) :
    nesting (c :: cs) = nesting left := by
  rw [← next, nesting_skipBlanks]

theorem nesting_after_neutral {c : Char} (neutral : IsNeutral c) {after left : List Char}
    (next : skipBlanks left = c :: after) : nesting (skipBlanks after) = nesting left := by
  rw [nesting_skipBlanks, ← nesting_neutral neutral, nesting_of_skipBlanks next]

theorem nesting_opening {c : Char} (opening : c = '[' ∨ c = '\x7b') (cs : List Char) :
    nesting (c :: cs) = nesting cs + 1 := by
  rcases opening with rfl | rfl <;> rfl

theorem nesting_after_closing {c : Char} (closing : c = ']' ∨ c = '\x7d') {after left : List Char}
    (next : skipBlanks left = c :: after) : nesting after ≤ nesting left + 1 := by
  have closed : nesting (c :: after) = nesting after - 1 := by
    rcases closing with rfl | rfl <;> rfl
  rw [nesting_of_skipBlanks next] at closed
  omega

section

variable {item : List Char → Except Halt (Value × List Char)} {room : Nat}
  (ends : ∀ cs, nesting cs ≤ room → Ends (nesting cs) (item cs))
include ends

theorem arrayItems_ends (fuel : Nat) {cs : List Char} (fits : nesting cs ≤ room) :
    Ends (nesting cs + 1) (arrayItems item fuel cs) := by
  induction fuel generalizing cs with
  | zero => exact ends_malformed _ _
  | succ fuel ih =>
    refine (ends cs fits).bind fun v rest flat => ?_
    dsimp only
    split
    · rename_i after next
      have closed := nesting_after_closing (Or.inl rfl) next
      exact ends_ok (closed.trans (Nat.succ_le_succ flat))
    · rename_i after next
      have onward := (nesting_after_neutral (by decide) next).trans_le flat
      exact (ih (onward.trans fits)).bind fun _ _ here =>
        ends_ok (here.trans (Nat.succ_le_succ onward))
    · exact ends_malformed _ _

theorem objectMembers_ends (fuel : Nat) {cs : List Char} (fits : nesting cs ≤ room) :
    Ends (nesting cs + 1) (objectMembers item fuel cs) := by
  induction fuel generalizing cs with
  | zero => exact ends_malformed _ _
  | succ fuel ih =>
    unfold objectMembers
    split
    · rename_i quoted
      refine (stringAfterMark_ends quoted).bind fun name rest named => ?_
      dsimp only
      split
      · rename_i after next
        have value := (nesting_after_neutral (by decide) next).trans_le named
        refine (ends _ (value.trans fits)).bind fun v rest flat => ?_
        dsimp only
        split
        · rename_i after next
          have closed := nesting_after_closing (Or.inr rfl) next
          exact ends_ok (closed.trans (Nat.succ_le_succ (flat.trans value)))
        · rename_i after next
          have onward := (nesting_after_neutral (by decide) next).trans_le (flat.trans value)
          exact (ih (onward.trans fits)).bind fun _ _ here =>
            ends_ok (here.trans (Nat.succ_le_succ onward))
        · exact ends_malformed _ _
      · exact ends_malformed _ _
    · exact ends_malformed _ _

end

/-- With room for the nesting of the text, a value is read with all the brackets it opens. -/
theorem readValue_ends (allowNaN : Bool) (room : Nat) {cs : List Char} (fits : nesting cs ≤ room) :
    Ends (nesting cs) (readValue allowNaN room cs) := by
  induction room using Nat.strongRecOn generalizing cs with
  | ind room ih =>
    unfold readValue
    split
    · rename_i quoted
      exact (stringAfterMark_ends quoted).bind fun _ _ here => ends_ok here
    · exact absurd fits (Nat.not_succ_le_zero _)
    · exact absurd fits (Nat.not_succ_le_zero _)
    · rename_i room inner
      rw [nesting_opening (Or.inl rfl)] at fits ⊢
      split
      · rename_i after next
        exact ends_ok (nesting_after_closing (Or.inl rfl) next)
      · have within : nesting (skipBlanks inner) ≤ room := by
          rw [nesting_skipBlanks]
          exact Nat.le_of_succ_le_succ fits
        have items := arrayItems_ends (fun _ => ih room (Nat.lt_succ_self room))
          ((skipBlanks inner).length + 1) within
        rw [nesting_skipBlanks] at items
        exact items.bind fun _ _ here => ends_ok here
    · rename_i room inner
      rw [nesting_opening (Or.inr rfl)] at fits ⊢
      split
      · rename_i after next
        exact ends_ok (nesting_after_closing (Or.inr rfl) next)
      · have within : nesting (skipBlanks inner) ≤ room := by
          rw [nesting_skipBlanks]
          exact Nat.le_of_succ_le_succ fits
        have members := objectMembers_ends (fun _ => ih room (Nat.lt_succ_self room))
          ((skipBlanks inner).length + 1) within
        rw [nesting_skipBlanks] at members
        exact members.bind fun _ _ here => ends_ok here
    · exact plainValue_ends allowNaN _

theorem readText_ne_tooDeep (allowNaN : Bool) {cs : List Char} (fits : nesting cs ≤ readingLimit) :
    readText allowNaN cs ≠ .error .tooDeep := by
  intro deep
  have ends : Ends _ (readValue allowNaN readingLimit (skipBlanks cs)) :=
    readValue_ends allowNaN readingLimit (by rwa [nesting_skipBlanks])
  rcases except_bind_error_iff.mp deep with inner | ⟨⟨v, left⟩, _, rest⟩
  · rw [inner] at ends
    exact ends rfl
  · dsimp only at rest
    split at rest <;> cases rest

/-- A value is nested no deeper than the text that it is read from: room for the nesting of the
    text makes no difference to more room. -/
theorem depth_le_nesting {allowNaN : Bool} {room : Nat} {cs left : List Char} {v : Value}
    (read : readValue allowNaN room cs = .ok (v, left)) : v.depth ≤ nesting cs := by
  rcases Nat.le_total room (nesting cs) with small | large
  · exact (readValue_sound room read).2.2.trans small
  · have ends := readValue_ends allowNaN (nesting cs) (Nat.le_refl (nesting cs))
    rcases readValue_alike (p := (· = Halt.tooDeep)) (fun _ => alikeUnless_self _)
      (Or.inr ⟨large, rfl⟩) cs with same | ⟨halt, stopped, deep⟩
    · exact (readValue_sound (nesting cs) (same.trans read)).2.2
    · rw [stopped] at ends
      exact absurd deep ends

theorem depth_le_of_readText {allowNaN : Bool} {cs : List Char} {v : Value}
    (read : readText allowNaN cs = .ok v) : v.depth ≤ nesting cs := by
  obtain ⟨⟨w, left⟩, first, rest⟩ := except_bind_ok_iff.mp read
  dsimp only at rest
  split at rest
  · cases rest
    exact (depth_le_nesting first).trans_eq (nesting_skipBlanks cs)
  · cases rest

theorem decode_returns (allowNaN : Bool) {text : String}
    (fits : nesting text.toList ≤ readingLimit) :
    ∃ r, decode allowNaN (.text text) = .ok r := by
  have source : (Value.text text).text? = some text := rfl
  unfold decode
  rw [source]
  dsimp only
  split
  · exact ⟨_, rfl⟩
  · have shallow := readText_ne_tooDeep allowNaN fits
    unfold decodeText
    split
    · exact ⟨_, rfl⟩
    · rename_i deep
      exact absurd deep shallow
    · exact ⟨_, rfl⟩
    · exact ⟨_, rfl⟩

end Conform.Json
