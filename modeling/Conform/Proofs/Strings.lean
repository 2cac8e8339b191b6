import Conform.Json.Reader

/-!
Strings read back. Each escape is read as the code of the character it stands
for, and since no character is a surrogate the codes join to the same characters.
-/
namespace Conform.Json

open Text

theorem hexText_control : ∀ n < 32,
    hexText 4 n = ['0', '0', (n / 16).digitChar, (n % 16).digitChar] := by decide

theorem hexUnit?_control : ∀ n < 32,
    hexUnit? '0' '0' (n / 16).digitChar (n % 16).digitChar = some n := by decide

/-- The code after an escaped character is read next; some text must follow it. -/
theorem stringCodes_escapeChar {start : Nat} {c d : Char} {more left : List Char}
    {codes : List Nat} (read : stringCodes start (d :: more) = .ok (codes, left)) :
    stringCodes start (escapeChar c ++ d :: more) = .ok (c.toNat :: codes, left) := by
  have named : ∀ e meant, e ≠ 'u' → unescape? e = some meant →
      stringCodes start ('\\' :: e :: d :: more) = .ok (meant.toNat :: codes, left) := by
    intro e meant other means
    unfold stringCodes
    simp [other, means, read, bind, Except.bind]
  unfold escapeChar
  split
  · subst c
    exact named '"' _ (by decide) (by decide)
  split
  · subst c
    exact named '\\' _ (by decide) (by decide)
  split
  · subst c
    exact named 'n' _ (by decide) (by decide)
  split
  · subst c
    exact named 'r' _ (by decide) (by decide)
  split
  · subst c
    exact named 't' _ (by decide) (by decide)
  split
  · subst c
    exact named 'b' _ (by decide) (by decide)
  split
  · subst c
    exact named 'f' _ (by decide) (by decide)
  split
  · rename_i control
    simp only [unicodeEscape, hexText_control _ control, List.cons_append, List.nil_append]
    unfold stringCodes
    simp [hexUnit?_control _ control, read, bind, Except.bind]
  · rename_i mark escape _ _ _ _ _ control
    unfold stringCodes
    simp [mark, escape, control, read, bind, Except.bind]

theorem stringCodes_escaped (start : Nat) (cs rest : List Char) :
    stringCodes start (cs.flatMap escapeChar ++ '"' :: rest) = .ok (cs.map Char.toNat, rest) := by
  induction cs with
  | nil =>
    rw [List.flatMap_nil, List.nil_append, stringCodes.eq_def]
    rfl
  | cons c cs ih =>
    obtain ⟨d, more, form⟩ : ∃ d more, cs.flatMap escapeChar ++ '"' :: rest = d :: more :=
      List.exists_cons_of_ne_nil (by simp)
    rw [List.flatMap_cons, List.append_assoc, form]
    rw [form] at ih
    exact stringCodes_escapeChar ih

theorem scalar_toNat (c : Char) : scalar c.toNat = c := by
  have valid : c.toNat.isValidChar := c.valid
  unfold scalar
  rw [if_pos valid, Char.ofNat_toNat]

theorem not_surrogate (c : Char) : ¬ (0xd800 ≤ c.toNat ∧ c.toNat < 0xdc00) := by
  rcases c.valid with low | high
  · exact fun range => absurd low (by simp only [Char.toNat] at range; omega)
  · exact fun range => absurd high.1 (by simp only [Char.toNat] at range; omega)

theorem joinUnits_toNat (cs : List Char) : joinUnits (cs.map Char.toNat) = cs := by
  induction cs with
  | nil => rfl
  | cons c cs ih =>
    cases cs with
    | nil => exact congrArg (· :: []) (scalar_toNat c)
    | cons d cs =>
      have single := not_surrogate c
      simp only [List.map_cons] at ih ⊢
      rw [joinUnits, if_neg (fun pair => single ⟨pair.1, pair.2.1⟩), ih, scalar_toNat]

theorem stringAfterMark_jsonString (cs rest : List Char) :
    stringAfterMark (cs.flatMap escapeChar ++ '"' :: rest) = .ok (String.ofList cs, rest) := by
  unfold stringAfterMark
  rw [stringCodes_escaped]
  simp only [bind, Except.bind, joinUnits_toNat]

end Conform.Json
