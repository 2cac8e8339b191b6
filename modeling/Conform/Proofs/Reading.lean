import Conform.Proofs.Normal
import Conform.Proofs.Strings

/-!
Reading a text put together from parts. Where each part is read as a value up to
the delimiter after it, the parts with commas between them are read as an array,
and with quoted names in front of them as an object.
-/
namespace Conform.Json

def Opens (c : Char) : Prop := c.isDigit ∨ c ∈ ['"', '[', '\x7b', '-', 'n', 't', 'f', 'N', 'I']

theorem Opens.ne {c d : Char} (opens : Opens c) (other : ¬ d.isDigit)
    (outside : d ∉ ['"', '[', '\x7b', '-', 'n', 't', 'f', 'N', 'I']) : c ≠ d := by
  rintro rfl
  exact opens.elim other outside

theorem Opens.skipBlanks {c : Char} (opens : Opens c) (cs : List Char) :
    skipBlanks (c :: cs) = c :: cs := by
  have visible : isBlank c = false := by
    have space := opens.ne (d := ' ') (by decide) (by decide)
    have tab := opens.ne (d := '\t') (by decide) (by decide)
    have line := opens.ne (d := '\n') (by decide) (by decide)
    have back := opens.ne (d := '\r') (by decide) (by decide)
    simp [isBlank, space, tab, line, back]
  simp [Json.skipBlanks, visible]

/-- A text starts like a value, and with any delimiter after it `read` takes it for `v`. -/
def ReadsAs (read : List Char → Except Halt (Value × List Char)) (text : List Char) (v : Value) :
    Prop :=
  (∃ c cs, text = c :: cs ∧ Opens c) ∧
    ∀ rest, Boundary rest → read (text ++ rest) = .ok (v, rest)

theorem boundary_cons {c : Char} {cs : List Char} (delimits : c = ',' ∨ c = ']' ∨ c = '\x7d') :
    Boundary (c :: cs) := by
  intro d head
  cases head
  exact delimits

theorem skipBlanks_delimiter {c : Char} {cs : List Char}
    (delimits : c = ',' ∨ c = ']' ∨ c = '\x7d') : skipBlanks (c :: cs) = c :: cs := by
  rcases delimits with rfl | rfl | rfl <;> rfl

theorem commaSeparated_cons (part : List Char) (parts : List (List Char)) :
    commaSeparated (part :: parts) =
      part ++ (if parts.isEmpty then [] else ',' :: commaSeparated parts) := by
  cases parts with
  | nil => simp [commaSeparated]
  | cons next parts => simp [commaSeparated, List.intercalate, List.intersperse]

section

variable {read : List Char → Except Halt (Value × List Char)}

/-- Items that are read one by one are read as an array, up to its bracket. -/
theorem arrayItems_read {parts : List (List Char)} {vs : List Value}
    (each : List.Forall₂ (ReadsAs read) parts vs) (some_item : parts ≠ []) (fuel : Nat)
    (enough : parts.length ≤ fuel) (rest : List Char) :
    arrayItems read fuel (commaSeparated parts ++ ']' :: rest) = .ok (vs, rest) := by
  induction each generalizing fuel with
  | nil => exact absurd rfl some_item
  | @cons part v parts vs first each ih =>
    obtain ⟨fuel, rfl⟩ : ∃ k, fuel = k + 1 := ⟨fuel - 1, by simp at enough; omega⟩
    have within : parts.length ≤ fuel := by simpa using enough
    rw [commaSeparated_cons, List.append_assoc, arrayItems]
    cases each with
    | nil =>
      have item := first.2 (']' :: rest) (boundary_cons (by simp))
      simp [item, bind, Except.bind, skipBlanks_delimiter]
    | @cons next w parts vs second each =>
      obtain ⟨⟨c, cs, form, opens⟩, _⟩ := second
      have item := first.2 (',' :: (commaSeparated (next :: parts) ++ ']' :: rest))
        (boundary_cons (by simp))
      have tail := ih (by simp) fuel within
      have start : ∃ more, commaSeparated (next :: parts) ++ ']' :: rest = c :: more := by
        rw [commaSeparated_cons, form]
        exact ⟨_, rfl⟩
      obtain ⟨more, start⟩ := start
      rw [start] at item tail
      simp [item, bind, Except.bind, skipBlanks_delimiter, start, opens.skipBlanks, tail]

def AsMember (R : List Char → Value → Prop) (text : List Char) (member : String × Value) : Prop :=
  ∃ key value, text = Text.jsonString key ++ ':' :: value ∧ String.ofList key = member.1 ∧
    R value member.2

theorem AsMember.starts {R : List Char → Value → Prop} {text : List Char}
    {member : String × Value} (part : AsMember R text member) : ∃ cs, text = '"' :: cs := by
  obtain ⟨key, value, rfl, _, _⟩ := part
  exact ⟨_, rfl⟩

theorem AsMember.reads {text : List Char} {member : String × Value}
    (part : AsMember (ReadsAs read) text member) {d : Char}
    (delimits : d = ',' ∨ d = ']' ∨ d = '\x7d') (more : List Char) :
    ∃ quoted after, text ++ d :: more = '"' :: quoted ∧
      stringAfterMark quoted = .ok (member.1, ':' :: after) ∧
      read (skipBlanks after) = .ok (member.2, d :: more) := by
  obtain ⟨key, value, rfl, name, ⟨c, cs, form, opens⟩, reads⟩ := part
  have string := stringAfterMark_jsonString key (':' :: (value ++ d :: more))
  refine ⟨_, value ++ d :: more, ?_, name ▸ string, ?_⟩
  · simp [Text.jsonString, Text.quotedWith]
  · rw [form, List.cons_append, opens.skipBlanks, ← List.cons_append, ← form]
    exact reads (d :: more) (boundary_cons delimits)

theorem skipBlanks_colon (cs : List Char) : skipBlanks (':' :: cs) = ':' :: cs := rfl

theorem objectMembers_last {text : List Char} {member : String × Value}
    (part : AsMember (ReadsAs read) text member) (fuel : Nat) (rest : List Char) :
    objectMembers read (fuel + 1) (text ++ '\x7d' :: rest) = .ok ([Value.named member], rest) := by
  obtain ⟨quoted, after, form, name, value⟩ := part.reads (d := '\x7d') (by simp) rest
  rw [form]
  simp [objectMembers, name, value, skipBlanks_colon, skipBlanks_delimiter, bind, Except.bind,
    Value.named]

theorem objectMembers_more {text : List Char} {member : String × Value}
    (part : AsMember (ReadsAs read) text member) (fuel : Nat) {more rest : List Char}
    {es : List (Key × Value)} (tail : objectMembers read fuel (skipBlanks more) = .ok (es, rest)) :
    objectMembers read (fuel + 1) (text ++ ',' :: more) =
      .ok (Value.named member :: es, rest) := by
  obtain ⟨quoted, after, form, name, value⟩ := part.reads (d := ',') (by simp) more
  rw [form]
  simp [objectMembers, name, value, skipBlanks_colon, skipBlanks_delimiter, tail, bind,
    Except.bind, Value.named]

theorem objectMembers_read {parts : List (List Char)} {members : List (String × Value)}
    (each : List.Forall₂ (AsMember (ReadsAs read)) parts members) (some_member : parts ≠ [])
    (fuel : Nat) (enough : parts.length ≤ fuel) (rest : List Char) :
    objectMembers read fuel (commaSeparated parts ++ '\x7d' :: rest) =
      .ok (members.map Value.named, rest) := by
  induction each generalizing fuel with
  | nil => exact absurd rfl some_member
  | @cons part member parts members first each ih =>
    obtain ⟨fuel, rfl⟩ : ∃ k, fuel = k + 1 := ⟨fuel - 1, by simp at enough; omega⟩
    have within : parts.length ≤ fuel := by simpa using enough
    rw [commaSeparated_cons, List.append_assoc]
    cases each with
    | nil =>
      rw [List.isEmpty_nil, if_pos rfl, List.nil_append, objectMembers_last first]
      rfl
    | @cons next w parts members second each =>
      have tail := ih (by simp) fuel within
      obtain ⟨more, start⟩ : ∃ more, commaSeparated (next :: parts) ++ '\x7d' :: rest =
          '"' :: more := by
        obtain ⟨cs, form⟩ := second.starts
        rw [commaSeparated_cons, form]
        exact ⟨_, rfl⟩
      have quote : skipBlanks ('"' :: more) = '"' :: more := rfl
      rw [List.isEmpty_cons, if_neg (by simp), List.cons_append, start]
      rw [start, ← quote] at tail
      exact objectMembers_more first fuel tail

end

theorem length_le_commaSeparated {α : Type} {R : List Char → α → Prop}
    {parts : List (List Char)} {xs : List α} (each : List.Forall₂ R parts xs)
    (filled : ∀ part x, R part x → ∃ c cs, part = c :: cs) :
    parts.length ≤ (commaSeparated parts).length := by
  induction each with
  | nil => exact Nat.zero_le _
  | @cons part x parts xs first each ih =>
    obtain ⟨c, cs, rfl⟩ := filled part x first
    rw [commaSeparated_cons]
    cases parts with
    | nil => simp
    | cons next parts =>
      simp only [List.isEmpty_cons, Bool.false_eq_true, if_false, List.length_cons,
        List.length_append] at ih ⊢
      omega

variable {allowNaN : Bool} {room : Nat}

theorem readValue_plain {c : Char} {cs : List Char} (mark : c ≠ '"') (bracket : c ≠ '[')
    (brace : c ≠ '\x7b') :
    readValue allowNaN room (c :: cs) = plainValue allowNaN (c :: cs) := by
  cases room <;> simp [readValue, mark, bracket, brace]

theorem readsAs_plain {text : List Char} {v : Value}
    (first : ∃ c cs, text = c :: cs ∧ (c.isDigit ∨ c ∈ ['-', 'n', 't', 'f', 'N', 'I']))
    (reads : ∀ rest, Boundary rest → plainValue allowNaN (text ++ rest) = .ok (v, rest)) :
    ReadsAs (readValue allowNaN room) text v := by
  obtain ⟨c, cs, rfl, start⟩ := first
  have other : ∀ d, ¬ d.isDigit → d ∉ ['-', 'n', 't', 'f', 'N', 'I'] → c ≠ d := by
    rintro d letter outside rfl
    exact start.elim letter outside
  refine ⟨⟨c, cs, rfl, start.imp_right fun member => ?_⟩, fun rest boundary => ?_⟩
  · exact List.mem_cons_of_mem _ (List.mem_cons_of_mem _ (List.mem_cons_of_mem _ member))
  · rw [List.cons_append, readValue_plain (other '"' (by decide) (by decide))
      (other '[' (by decide) (by decide)) (other '\x7b' (by decide) (by decide))]
    exact reads rest boundary

theorem readsAs_text (cs : List Char) :
    ReadsAs (readValue allowNaN room) (Text.jsonString cs) (.text (String.ofList cs)) := by
  refine ⟨⟨'"', _, rfl, Or.inr (by decide)⟩, fun rest _ => ?_⟩
  have read := stringAfterMark_jsonString cs rest
  have form : Text.jsonString cs ++ rest = '"' :: (cs.flatMap Text.escapeChar ++ '"' :: rest) := by
    simp [Text.jsonString, Text.quotedWith]
  rw [form, readValue, read]
  rfl

theorem readsAs_list {parts : List (List Char)} {vs : List Value}
    (each : List.Forall₂ (ReadsAs (readValue allowNaN room)) parts vs) :
    ReadsAs (readValue allowNaN (room + 1)) (enclosed ['['] [']'] (commaSeparated parts))
      (.list vs) := by
  refine ⟨⟨'[', _, rfl, Or.inr (by decide)⟩, fun rest _ => ?_⟩
  have form : enclosed ['['] [']'] (commaSeparated parts) ++ rest =
      '[' :: (commaSeparated parts ++ ']' :: rest) := by simp [enclosed]
  rw [form]
  have enough := length_le_commaSeparated each fun _ _ item =>
    let ⟨c, cs, form, _⟩ := item.1
    ⟨c, cs, form⟩
  cases parts with
  | nil =>
    cases each
    rfl
  | cons part parts =>
    have items := arrayItems_read each (by simp)
      ((commaSeparated (part :: parts) ++ ']' :: rest).length + 1)
      (by rw [List.length_append]; omega) rest
    obtain ⟨c, more, start, opens⟩ : ∃ c more, commaSeparated (part :: parts) ++ ']' :: rest =
        c :: more ∧ Opens c := by
      cases each with
      | cons first each =>
        obtain ⟨⟨c, cs, rfl, opens⟩, _⟩ := first
        rw [commaSeparated_cons]
        exact ⟨c, _, rfl, opens⟩
    have bracket := opens.ne (d := ']') (by decide) (by decide)
    rw [start, List.length_cons] at items
    rw [start]
    simp [readValue, opens.skipBlanks, bracket, items, bind, Except.bind]

theorem readsAs_dict {parts : List (List Char)} {members : List (String × Value)}
    (each : List.Forall₂ (AsMember (ReadsAs (readValue allowNaN room))) parts members) :
    ReadsAs (readValue allowNaN (room + 1)) (enclosed ['\x7b'] ['\x7d'] (commaSeparated parts))
      (.dict ((Value.lastByName members).map Value.named)) := by
  refine ⟨⟨'\x7b', _, rfl, Or.inr (by decide)⟩, fun rest _ => ?_⟩
  have form : enclosed ['\x7b'] ['\x7d'] (commaSeparated parts) ++ rest =
      '\x7b' :: (commaSeparated parts ++ '\x7d' :: rest) := by simp [enclosed]
  rw [form]
  have enough := length_le_commaSeparated each fun _ _ part =>
    let ⟨cs, form⟩ := part.starts
    ⟨'"', cs, form⟩
  cases parts with
  | nil =>
    cases each
    rfl
  | cons part parts =>
    have items := objectMembers_read each (by simp)
      ((commaSeparated (part :: parts) ++ '\x7d' :: rest).length + 1)
      (by rw [List.length_append]; omega) rest
    obtain ⟨more, start⟩ : ∃ more, commaSeparated (part :: parts) ++ '\x7d' :: rest =
        '"' :: more := by
      cases each with
      | cons first each =>
        obtain ⟨cs, rfl⟩ := first.starts
        rw [commaSeparated_cons]
        exact ⟨_, rfl⟩
    have quote : skipBlanks ('"' :: more) = '"' :: more := rfl
    rw [start, List.length_cons] at items
    rw [start]
    simp [readValue, quote, items, bind, Except.bind, Value.entriesOf_named]

end Conform.Json
