import Conform.Proofs.Cloning
import Conform.Proofs.Nearest

/-!
What reading makes of a text. Every reader leaves an end of its text, and what it
reads is a tree of lists and plain maps with distinct names. Its leaves are null,
truth values, texts and the values of numerals in the text, and in the lenient mode
the numbers that JSON does not have. A numeral is a number of JSON unless it is past
the largest one, when it is read as an infinity. Room for more containers changes
nothing in what is read with less.
-/
namespace Conform

namespace Value

theorem mem_place {pairs : List (String × Value)} {k : String} {v : Value} {p : String × Value}
    (member : p ∈ place pairs k v) : p ∈ pairs ∨ p = (k, v) := by
  unfold place at member
  split at member
  · obtain ⟨q, old, rfl⟩ := List.mem_map.mp member
    split
    · exact Or.inr rfl
    · exact Or.inl old
  · rcases List.mem_append.mp member with old | new
    · exact Or.inl old
    · exact Or.inr (List.mem_singleton.mp new)

theorem mem_of_mem_lastByName {pairs : List (String × Value)} {p : String × Value}
    (member : p ∈ lastByName pairs) : p ∈ pairs := by
  induction pairs using List.reverseRecOn with
  | nil => cases member
  | append_singleton pairs q ih =>
    rw [lastByName_snoc] at member
    rw [List.mem_append, List.mem_singleton]
    exact (mem_place member).imp_left ih

end Value

namespace Json

theorem skipBlanks_suffix (cs : List Char) : skipBlanks cs <:+ cs := List.dropWhile_suffix _

theorem stringCodes_suffix {start : Nat} {cs left : List Char} {codes : List Nat}
    (read : stringCodes start cs = .ok (codes, left)) : left <:+ cs := by
  fun_induction stringCodes start cs generalizing codes left with
  | case1 | case3 | case4 | case5 | case7 | case8 | case10 => cases read
  | case2 rest =>
    cases read
    exact List.suffix_cons _ _
  | case6 h₁ h₂ h₃ h₄ more code _ _ _ ih =>
    obtain ⟨⟨inner, _⟩, read, same⟩ := except_bind_ok_iff.mp read
    cases same
    exact (ih read).trans (List.suffix_append ['\\', 'u', h₁, h₂, h₃, h₄] more)
  | case9 e after _ meant _ _ ih =>
    obtain ⟨⟨inner, _⟩, read, same⟩ := except_bind_ok_iff.mp read
    cases same
    exact (ih read).trans (List.suffix_append ['\\', e] after)
  | case11 c rest _ _ _ ih =>
    obtain ⟨⟨inner, _⟩, read, same⟩ := except_bind_ok_iff.mp read
    cases same
    exact (ih read).trans (List.suffix_cons c rest)

theorem stringAfterMark_suffix {cs left : List Char} {s : String}
    (read : stringAfterMark cs = .ok (s, left)) : left <:+ cs := by
  obtain ⟨⟨codes, _⟩, read, same⟩ := except_bind_ok_iff.mp read
  cases same
  exact stringCodes_suffix read

theorem splitDigits_suffix (cs : List Char) : (Binary64.splitDigits cs).2 <:+ cs :=
  List.dropWhile_suffix _

theorem wholeDigits?_suffix {cs ds left : List Char} (read : wholeDigits? cs = some (ds, left)) :
    left <:+ cs := by
  unfold wholeDigits? at read
  split at read
  · cases read
  · split at read
    · cases read
      exact List.suffix_cons _ _
    · split at read
      · cases read
        exact List.dropWhile_suffix _
      · cases read

theorem fractionDigits_suffix (cs : List Char) : (fractionDigits cs).2 <:+ cs := by
  unfold fractionDigits
  split
  · rename_i rest
    split
    · exact List.suffix_refl _
    · rename_i ds left _ split
      have shorter := splitDigits_suffix rest
      rw [split] at shorter
      exact shorter.trans (List.suffix_cons _ _)
  · exact List.suffix_refl _

theorem splitSign_suffix (cs : List Char) : (Binary64.splitSign cs).2 <:+ cs := by
  unfold Binary64.splitSign
  split
  · exact List.suffix_cons _ _
  · exact List.suffix_cons _ _
  · exact List.suffix_refl _

theorem exponentDigits_suffix (cs : List Char) : (exponentDigits cs).2 <:+ cs := by
  unfold exponentDigits
  split
  · exact List.suffix_refl _
  · rename_i c rest
    split
    · have signless := splitSign_suffix rest
      have shorter := splitDigits_suffix (Binary64.splitSign rest).2
      dsimp only
      split
      · exact List.suffix_refl _
      · rename_i ds left _ split
        rw [split] at shorter
        exact (shorter.trans signless).trans (List.suffix_cons _ _)
    · exact List.suffix_refl _

theorem numeral?_suffix {cs left : List Char} {n : Numeral} (read : numeral? cs = some (n, left)) :
    left <:+ cs := by
  unfold numeral? at read
  split at read
  rename_i negative body sign
  have unsigned : body <:+ cs := by
    split at sign
    · cases sign
      exact List.suffix_cons _ _
    · cases sign
      exact List.suffix_refl _
  split at read
  · cases read
  · rename_i whole rest found
    cases read
    exact (exponentDigits_suffix _).trans ((fractionDigits_suffix rest).trans
      ((wholeDigits?_suffix found).trans unsigned))

/-- What a reader finds has a property in the text, and an end of the text is left. -/
def Sound {α : Type} (P : List Char → α → Prop) (read : List Char → Except Halt (α × List Char)) :
    Prop :=
  ∀ {cs x left}, read cs = .ok (x, left) → left <:+ cs ∧ P cs x

section

variable {item : List Char → Except Halt (Value × List Char)} {P : List Char → Value → Prop}
  (sound : Sound P item) (later : ∀ {cs ds v}, cs <:+ ds → P cs v → P ds v)
include sound later

theorem arrayItems_sound (fuel : Nat) :
    Sound (fun cs vs => ∀ v ∈ vs, P cs v) (arrayItems item fuel) := by
  intro cs vs left read
  induction fuel generalizing cs vs left with
  | zero => cases read
  | succ fuel ih =>
    obtain ⟨⟨v, rest⟩, first, read⟩ := except_bind_ok_iff.mp read
    obtain ⟨shorter, holds⟩ := sound first
    have blank := (skipBlanks_suffix rest).trans shorter
    dsimp only at read
    split at read
    · rename_i after closing
      cases read
      rw [closing] at blank
      exact ⟨(List.suffix_cons _ _).trans blank, List.forall_mem_singleton.mpr holds⟩
    · rename_i after comma
      obtain ⟨⟨ws, end_⟩, others, same⟩ := except_bind_ok_iff.mp read
      cases same
      rw [comma] at blank
      have inside := (skipBlanks_suffix after).trans ((List.suffix_cons _ _).trans blank)
      obtain ⟨ends, rest⟩ := ih others
      exact ⟨ends.trans inside, List.forall_mem_cons.mpr
        ⟨holds, fun w member => later inside (rest w member)⟩⟩
    · cases read

omit sound later in
theorem arrayItems_length {fuel : Nat} {cs left : List Char} {vs : List Value}
    (read : arrayItems item fuel cs = .ok (vs, left)) : vs.length ≤ fuel := by
  induction fuel generalizing cs vs left with
  | zero => cases read
  | succ fuel ih =>
    obtain ⟨⟨v, rest⟩, first, read⟩ := except_bind_ok_iff.mp read
    dsimp only at read
    split at read
    · cases read
      exact Nat.succ_le_succ (Nat.zero_le _)
    · obtain ⟨⟨ws, end_⟩, others, same⟩ := except_bind_ok_iff.mp read
      cases same
      exact Nat.succ_le_succ (ih others)
    · cases read

theorem objectMembers_sound (fuel : Nat) :
    Sound (fun cs es => ∃ members : List (String × Value), es = members.map Value.named ∧
      ∀ m ∈ members, P cs m.2) (objectMembers item fuel) := by
  intro cs es left read
  induction fuel generalizing cs es left with
  | zero => cases read
  | succ fuel ih =>
    unfold objectMembers at read
    split at read
    · rename_i quoted
      obtain ⟨⟨name, rest⟩, string, read⟩ := except_bind_ok_iff.mp read
      have named := (stringAfterMark_suffix string).trans (List.suffix_cons '"' quoted)
      have blank := (skipBlanks_suffix rest).trans named
      dsimp only at read
      split at read
      · rename_i after colon
        rw [colon] at blank
        have value := (skipBlanks_suffix after).trans ((List.suffix_cons _ _).trans blank)
        obtain ⟨⟨v, rest⟩, first, read⟩ := except_bind_ok_iff.mp read
        obtain ⟨shorter, holds⟩ := sound first
        have blank := (skipBlanks_suffix rest).trans (shorter.trans value)
        dsimp only at read
        split at read
        · rename_i after closing
          cases read
          rw [closing] at blank
          exact ⟨(List.suffix_cons _ _).trans blank, [(name, v)], rfl,
            List.forall_mem_singleton.mpr (later value holds)⟩
        · rename_i after comma
          obtain ⟨⟨fs, end_⟩, others, same⟩ := except_bind_ok_iff.mp read
          cases same
          rw [comma] at blank
          have inside := (skipBlanks_suffix after).trans ((List.suffix_cons _ _).trans blank)
          obtain ⟨ends, members, rfl, rest⟩ := ih others
          exact ⟨ends.trans inside, (name, v) :: members, rfl, List.forall_mem_cons.mpr
            ⟨later value holds, fun m member => later inside (rest m member)⟩⟩
        · cases read
      · cases read
    · cases read

end

def FoundIn (cs : List Char) (a : Scalar) : Prop :=
  a = .null ∨ (∃ b, a = .bool b) ∨ (∃ s, a = .text s) ∨
    ∃ rest n left, rest <:+ cs ∧ numeral? rest = some (n, left) ∧ a = n.value

theorem FoundIn.later {cs ds : List Char} {a : Scalar} (shorter : cs <:+ ds)
    (found : FoundIn cs a) : FoundIn ds a := by
  rcases found with null | bool | text | ⟨rest, n, left, within, read, value⟩
  · exact Or.inl null
  · exact Or.inr (Or.inl bool)
  · exact Or.inr (Or.inr (Or.inl text))
  · exact Or.inr (Or.inr (Or.inr ⟨rest, n, left, within.trans shorter, read, value⟩))

/-- What is read from a text: what is found in it, and in the lenient mode the numbers that JSON
    does not have. -/
def ReadFrom (allowNaN : Bool) (cs : List Char) (a : Scalar) : Prop :=
  FoundIn cs a ∨ allowNaN = true ∧ ∃ p ∈ constants, a = .float p.2

theorem ReadFrom.later {allowNaN : Bool} {cs ds : List Char} {a : Scalar} (shorter : cs <:+ ds)
    (read : ReadFrom allowNaN cs a) : ReadFrom allowNaN ds a :=
  read.imp_left (FoundIn.later shorter)

theorem ReadFrom.found {cs : List Char} {a : Scalar} (read : ReadFrom false cs a) : FoundIn cs a :=
  read.resolve_right fun lenient => Bool.false_ne_true lenient.1

theorem afterWord?_suffix {word : String} {cs left : List Char}
    (found : afterWord? word cs = some left) : left <:+ cs := by
  unfold afterWord? at found
  split at found
  · cases found
    exact List.drop_suffix _ _
  · cases found

section

variable {allowNaN : Bool}

theorem plainValue_sound : Sound (fun cs v => ∃ a, v = .scalar a ∧ ReadFrom allowNaN cs a)
    (plainValue allowNaN) := by
  intro cs v left read
  unfold plainValue at read
  split at read
  · rename_i a rest taken
    cases read
    obtain ⟨p, member, found⟩ := List.exists_of_findSome?_eq_some taken
    obtain ⟨_, after, same⟩ := Option.map_eq_some_iff.mp found
    cases same
    refine ⟨afterWord?_suffix after, _, rfl, Or.inl ?_⟩
    simp only [words, List.mem_cons, List.not_mem_nil, or_false] at member
    rcases member with rfl | rfl | rfl
    · exact Or.inl rfl
    · exact Or.inr (Or.inl ⟨true, rfl⟩)
    · exact Or.inr (Or.inl ⟨false, rfl⟩)
  · split at read
    · rename_i w x rest taken
      split at read
      · rename_i lenient
        cases read
        obtain ⟨p, member, found⟩ := List.exists_of_findSome?_eq_some taken
        obtain ⟨_, after, same⟩ := Option.map_eq_some_iff.mp found
        cases same
        exact ⟨afterWord?_suffix after, _, rfl, Or.inr ⟨lenient, p, member, rfl⟩⟩
      · cases read
    · split at read
      · rename_i n rest numeral
        cases read
        exact ⟨numeral?_suffix numeral, _, rfl, Or.inl (Or.inr (Or.inr (Or.inr
          ⟨cs, n, _, List.suffix_refl _, numeral, rfl⟩)))⟩
      · cases read

/-- What is read for a value has a property in the text and the room that there are, if texts
    and plain values have it, and containers of what has it with room for one less. -/
theorem readValue_induction {P : Nat → List Char → Value → Prop}
    (later : ∀ {room cs ds v}, cs <:+ ds → P room cs v → P room ds v)
    (text : ∀ {room cs} s, P room cs (.text s))
    (plain : ∀ {room cs v left}, plainValue allowNaN cs = .ok (v, left) → P room cs v)
    (list : ∀ {room cs vs}, vs.length ≤ cs.length → (∀ v ∈ vs, P room cs v) →
      P (room + 1) cs (.list vs))
    (dict : ∀ {room cs} {members : List (String × Value)}, (members.map (·.1)).Nodup →
      (∀ m ∈ members, P room cs m.2) → P (room + 1) cs (.dict (members.map Value.named)))
    (room : Nat) : Sound (P room) (readValue allowNaN room) := by
  induction room using Nat.strongRecOn with
  | ind room ih =>
    intro cs v left read
    unfold readValue at read
    split at read
    · rename_i quoted
      obtain ⟨⟨s, rest⟩, string, same⟩ := except_bind_ok_iff.mp read
      cases same
      exact ⟨(stringAfterMark_suffix string).trans (List.suffix_cons _ _), text s⟩
    · cases read
    · cases read
    · rename_i room inner
      have blank := (skipBlanks_suffix inner).trans (List.suffix_cons '[' inner)
      split at read
      · rename_i after closing
        cases read
        rw [closing] at blank
        exact ⟨(List.suffix_cons _ _).trans blank, list (Nat.zero_le _) (by simp)⟩
      · obtain ⟨⟨vs, rest⟩, items, same⟩ := except_bind_ok_iff.mp read
        cases same
        have few : vs.length ≤ ('[' :: inner).length :=
          (arrayItems_length items).trans (Nat.succ_le_succ (skipBlanks_suffix inner).length_le)
        obtain ⟨shorter, inside⟩ := arrayItems_sound (ih room (Nat.lt_succ_self room)) later _ items
        exact ⟨shorter.trans blank, list few fun v member => later blank (inside v member)⟩
    · rename_i room inner
      have blank := (skipBlanks_suffix inner).trans (List.suffix_cons '\x7b' inner)
      split at read
      · rename_i after closing
        cases read
        rw [closing] at blank
        have empty : P (room + 1) ('\x7b' :: inner)
            (.dict (([] : List (String × Value)).map Value.named)) := dict List.nodup_nil (by simp)
        exact ⟨(List.suffix_cons _ _).trans blank, empty⟩
      · obtain ⟨⟨es, rest⟩, members, same⟩ := except_bind_ok_iff.mp read
        cases same
        obtain ⟨shorter, pairs, rfl, inside⟩ :=
          objectMembers_sound (ih room (Nat.lt_succ_self room)) later _ members
        rw [Value.entriesOf_named]
        exact ⟨shorter.trans blank, dict (Value.nodup_lastByName pairs) fun m member =>
          later blank (inside m (Value.mem_of_mem_lastByName member))⟩
    · obtain ⟨shorter, _⟩ := plainValue_sound read
      exact ⟨shorter, plain read⟩

theorem isTree_later {cs ds : List Char} {v : Value} {room : Nat} (shorter : cs <:+ ds)
    (read : v.IsTree (ReadFrom allowNaN cs) ∧ v.depth ≤ room) :
    v.IsTree (ReadFrom allowNaN ds) ∧ v.depth ≤ room :=
  ⟨read.1.mono fun _ leaf => leaf.later shorter, read.2⟩

theorem readValue_sound (room : Nat) :
    Sound (fun cs v => v.IsTree (ReadFrom allowNaN cs) ∧ v.depth ≤ room)
      (readValue allowNaN room) := by
  refine readValue_induction (P := fun room cs v =>
    v.IsTree (ReadFrom allowNaN cs) ∧ v.depth ≤ room) isTree_later ?_ ?_ ?_ ?_ room
  · intro room cs s
    exact ⟨.scalar (Or.inl (Or.inr (Or.inr (Or.inl ⟨s, rfl⟩)))), Nat.zero_le _⟩
  · intro room cs v left read
    obtain ⟨_, a, rfl, leaf⟩ := plainValue_sound read
    exact ⟨.scalar leaf, Nat.zero_le _⟩
  · intro room cs vs _ inside
    exact ⟨.list fun v member => (inside v member).1, Nat.succ_le_succ
      (Value.depthOfItems_le_iff.mpr fun v member => (inside v member).2)⟩
  · intro room cs members distinct inside
    refine ⟨.dict distinct fun m member => (inside m member).1, Nat.succ_le_succ
      (Value.depthOfEntries_le_iff.mpr fun e member => ?_)⟩
    obtain ⟨m, listed, rfl⟩ := List.mem_map.mp member
    exact (inside m listed).2

theorem of_readText {P : List Char → Value → Prop}
    (sound : Sound P (readValue allowNaN readingLimit))
    (later : ∀ {cs ds v}, cs <:+ ds → P cs v → P ds v) {cs : List Char} {v : Value}
    (read : readText allowNaN cs = .ok v) : P cs v := by
  obtain ⟨⟨w, left⟩, first, rest⟩ := except_bind_ok_iff.mp read
  dsimp only at rest
  split at rest
  · cases rest
    exact later (skipBlanks_suffix cs) (sound first).2
  · cases rest

theorem readText_reads {cs : List Char} {v : Value} (read : readText allowNaN cs = .ok v) :
    v.IsTree (ReadFrom allowNaN cs) ∧ v.depth ≤ readingLimit :=
  of_readText (readValue_sound readingLimit) isTree_later read

end

section

variable {p : Halt → Prop} {f g : List Char → Except Halt (Value × List Char)}
  (items : ∀ cs, AlikeUnless p (f cs) (g cs))
include items

theorem arrayItems_alike (fuel : Nat) (cs : List Char) :
    AlikeUnless p (arrayItems f fuel cs) (arrayItems g fuel cs) := by
  induction fuel generalizing cs with
  | zero => exact alikeUnless_self _
  | succ fuel ih =>
    rw [arrayItems, arrayItems]
    apply (items cs).bind
    intro r
    obtain ⟨v, left⟩ := r
    dsimp only
    split
    · exact alikeUnless_self _
    · apply (ih _).bind
      intro rest
      exact alikeUnless_self _
    · exact alikeUnless_self _

theorem objectMembers_alike (fuel : Nat) (cs : List Char) :
    AlikeUnless p (objectMembers f fuel cs) (objectMembers g fuel cs) := by
  induction fuel generalizing cs with
  | zero => exact alikeUnless_self _
  | succ fuel ih =>
    unfold objectMembers
    split
    · apply (alikeUnless_self _).bind
      intro r
      obtain ⟨name, left⟩ := r
      dsimp only
      split
      · apply (items _).bind
        intro r
        obtain ⟨v, left⟩ := r
        dsimp only
        split
        · exact alikeUnless_self _
        · apply (ih _).bind
          intro rest
          exact alikeUnless_self _
        · exact alikeUnless_self _
      · exact alikeUnless_self _
    · exact alikeUnless_self _

end

section

variable {p : Halt → Prop} {strict lenient : Bool}
  (plain : ∀ cs, AlikeUnless p (plainValue strict cs) (plainValue lenient cs))
include plain

/-- Readers that differ on plain values only, or in their room, go the same way up to the first
    such value, or to where the smaller room ends. -/
theorem readValue_alike {room more : Nat} (rooms : room = more ∨ room ≤ more ∧ p .tooDeep)
    (cs : List Char) :
    AlikeUnless p (readValue strict room cs) (readValue lenient more cs) := by
  induction room using Nat.strongRecOn generalizing more cs with
  | ind room ih =>
    cases cs with
    | nil =>
      cases room <;> cases more <;> exact plain []
    | cons c cs =>
      -- only what opens a container takes room
      by_cases mark : c = '"'
      · subst mark
        cases room <;> cases more <;> exact alikeUnless_self _
      by_cases opening : c = '[' ∨ c = '\x7b'
      · cases room with
        | zero =>
          -- the smaller room ends here, and the larger one may not
          rcases rooms with rfl | ⟨_, deep⟩
          · rcases opening with rfl | rfl <;> exact alikeUnless_self _
          · rcases opening with rfl | rfl <;> exact Or.inr ⟨_, rfl, deep⟩
        | succ room =>
          obtain ⟨more, rfl⟩ : ∃ less, more = less + 1 :=
            Nat.exists_eq_succ_of_ne_zero (by omega)
          have inner : ∀ cs, AlikeUnless p (readValue strict room cs) (readValue lenient more cs) :=
            ih room (Nat.lt_succ_self room) (by simpa using rooms)
          rcases opening with rfl | rfl
          · rw [readValue, readValue]
            split
            · exact alikeUnless_self _
            · apply (arrayItems_alike inner _ _).bind
              intro r
              exact alikeUnless_self _
          · rw [readValue, readValue]
            split
            · exact alikeUnless_self _
            · apply (objectMembers_alike inner _ _).bind
              intro r
              exact alikeUnless_self _
      · rw [not_or] at opening
        rw [readValue_plain mark opening.1 opening.2, readValue_plain mark opening.1 opening.2]
        exact plain _

end

def Numeral.magnitude (n : Numeral) : Rat :=
  Binary64.digitsValue (n.whole ++ n.fraction.getD []) *
    10 ^ (n.exponent.getD 0 - ((n.fraction.getD []).length : Int))

end Json

namespace Binary64

theorem IsRounded.finite_or_infinite {q : Rat} {x : Binary64} (rounded : IsRounded q x) :
    x.isFinite = true ∧ |q| < overflowFrom ∨
      (∃ negative, x = .infinite negative) ∧ overflowFrom ≤ |q| := by
  cases x with
  | nan => exact rounded.elim
  | infinite negative => exact Or.inr ⟨⟨negative, rfl⟩, rounded.2⟩
  | finite negative m e canonical => exact Or.inl ⟨rfl, rounded.2.1⟩

theorem safe_lt_overflowFrom : (maxSafeInteger : Rat) < overflowFrom := by
  have one : (1 : Rat) ≤ 2 ^ (971 : Int) := one_le_zpow₀ (by norm_num) (by norm_num)
  have safe : (maxSafeInteger : Rat) = 2 ^ 53 - 1 := by norm_num [maxSafeInteger]
  calc (maxSafeInteger : Rat) = 2 ^ 53 - 1 := safe
    _ < 2 ^ 53 - 1 / 2 := by norm_num
    _ ≤ overflowFrom := le_mul_of_one_le_right (by norm_num) one

theorem ofDecimal_finite_or_infinite (negative : Bool) (c : Nat) (e : Int) :
    (ofDecimal negative c e).isFinite = true ∧ (c : Rat) * 10 ^ e < overflowFrom ∨
      (∃ sign, ofDecimal negative c e = .infinite sign) ∧ overflowFrom ≤ (c : Rat) * 10 ^ e := by
  rcases Nat.eq_zero_or_pos c with rfl | positive
  · refine Or.inl ⟨rfl, ?_⟩
    rw [Nat.cast_zero, zero_mul]
    exact lt_of_le_of_lt (Nat.cast_nonneg maxSafeInteger) safe_lt_overflowFrom
  · have above : (0 : Rat) ≤ c * 10 ^ e :=
      mul_nonneg (Nat.cast_nonneg c) (zpow_nonneg (by norm_num) e)
    have rounded := (ofDecimal_isRounded negative e positive).finite_or_infinite
    have size : |if negative then -((c : Rat) * 10 ^ e) else c * 10 ^ e| = c * 10 ^ e := by
      cases negative
      · exact abs_of_nonneg above
      · exact (abs_neg _).trans (abs_of_nonneg above)
    rwa [size] at rounded

end Binary64

namespace Json

open Binary64

theorem Numeral.value_json_or_infinite (n : Numeral) :
    n.value.IsJson ∧ n.magnitude < overflowFrom ∨
      (∃ negative, n.value = .float (.infinite negative)) ∧ overflowFrom ≤ n.magnitude := by
  by_cases marked : n.fraction ≠ none ∨ n.exponent ≠ none
  · rw [value_of_decimal marked]
    refine (ofDecimal_finite_or_infinite n.negative _ _).imp id ?_
    rintro ⟨⟨sign, same⟩, large⟩
    exact ⟨⟨sign, congrArg Scalar.float same⟩, large⟩
  · obtain ⟨negative, whole, fraction, exponent⟩ := n
    obtain ⟨rfl, rfl⟩ : fraction = none ∧ exponent = none := by simpa using marked
    have size : Numeral.magnitude ⟨negative, whole, none, none⟩ = digitsValue whole := by
      simp [Numeral.magnitude]
    rw [size]
    by_cases safe : digitsValue whole ≤ maxSafeInteger
    · have value : Numeral.value ⟨negative, whole, none, none⟩ =
          .int (if negative then -(digitsValue whole : Int) else digitsValue whole) :=
        (value_of_integer negative whole).trans (if_pos safe)
      refine Or.inl ⟨?_, lt_of_le_of_lt (Nat.cast_le.mpr safe) safe_lt_overflowFrom⟩
      rw [value, Scalar.IsJson]
      cases negative <;> simpa using safe
    · have value : Numeral.value ⟨negative, whole, none, none⟩ =
          .float (nearest negative (digitsValue whole)) :=
        (value_of_integer negative whole).trans (if_neg safe)
      have decimal : ofDecimal negative (digitsValue whole) 0 =
          nearest negative (digitsValue whole) := by
        rw [ofDecimal_eq_nearest negative 0 (by omega), zpow_zero, mul_one]
      have read := ofDecimal_finite_or_infinite negative (digitsValue whole) 0
      rw [decimal, zpow_zero, mul_one] at read
      rw [value]
      exact read.imp id fun ⟨⟨sign, same⟩, large⟩ => ⟨⟨sign, congrArg Scalar.float same⟩, large⟩

end Json
end Conform
