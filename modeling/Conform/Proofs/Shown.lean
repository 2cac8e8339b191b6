import Conform.Json.Writer
import Conform.Proofs.Nesting
import Conform.Proofs.Printable
import Conform.Proofs.Verdict

/-!
Which characters get into what is shown of a value. Whatever stands around names and
texts is printable, and JSON leaves a character in a text as it is unless it is below
the space. So a character that is not printable comes only from a name, which is
shown as it is, or from a text that JSON does not escape it in.
-/
namespace Conform

open Text

def Returns {ε α : Type} (p : α → Prop) (x : Except ε α) : Prop := ∀ a, x = .ok a → p a

section

variable {ε α β : Type} {p q : α → Prop} {x : Except ε α}

theorem returns_ok {a : α} (holds : p a) : Returns p (.ok a : Except ε α) := by
  intro b ending
  cases ending
  exact holds

theorem returns_error (e : ε) : Returns p (.error e : Except ε α) := by
  intro a ending
  cases ending

theorem Returns.mono (returns : Returns p x) (wider : ∀ a, p a → q a) : Returns q x :=
  fun a ending => wider a (returns a ending)

theorem Returns.bind {r : β → Prop} {next : α → Except ε β} (first : Returns p x)
    (rest : ∀ a, p a → Returns r (next a)) : Returns r (x >>= next) := by
  intro b ending
  obtain ⟨a, passed, after⟩ := except_bind_ok_iff.mp ending
  exact rest a (first a passed) b after

theorem Returns.map {r : β → Prop} {f : α → β} (first : Returns p x)
    (rest : ∀ a, p a → r (f a)) : Returns r (f <$> x) := by
  cases x with
  | error e => exact returns_error e
  | ok a => exact returns_ok (rest a (first a rfl))

end

theorem printable_integerText (n : Int) : Returns Printable (integerText n) := by
  have digits := printable_toDigits (by decide : 1 < 10) (by decide) n.natAbs
  unfold integerText
  split
  · apply returns_ok
    split
    · exact printable_cons.mpr ⟨by decide, digits⟩
    · exact digits
  · exact returns_error _

theorem Payload.printable_shown (a : Payload) : Returns Printable a.shown := by
  cases a with
  | int n => exact printable_integerText n
  | text s => exact returns_ok (printable_quoted _)
  | float x => exact returns_ok (Binary64.printable_text x)

/-- JSON escapes the character wherever it is in the text. -/
def Text.Escaped (c : Char) (cs : List Char) : Prop := c ∈ cs → c.toNat < 32

def Payload.Hides (c : Char) : Payload → Prop
  | .text s => Escaped c s.toList
  | _ => True

def Symbol.Hides (c : Char) (s : Symbol) : Prop :=
  c ∉ s.qualifiedName.toList ∧ s.payload.Hides c

def Scalar.Hides (c : Char) : Scalar → Prop
  | .text s => Escaped c s.toList
  | .symbol s => s.Hides c
  | .token name => c ∉ name.toList
  | _ => True

theorem Scalar.Hides.plain {c : Char} {a : Scalar} (hides : a.Hides c) : a.plain.Hides c := by
  unfold Scalar.plain
  split
  · trivial
  · exact hides.2
  · trivial
  · exact hides

namespace Key

mutual

def Hides (c : Char) : Key → Prop
  | .scalar a => a.Hides c
  | .tuple ks => AllHide c ks
termination_by structural k => k

def AllHide (c : Char) : List Key → Prop
  | [] => True
  | k :: ks => Hides c k ∧ AllHide c ks
termination_by structural ks => ks

end

end Key

namespace Value

def NodeHides (c : Char) : Value → Prop
  | .scalar a => a.Hides c
  | .map _ _ entries => ∀ e ∈ entries, e.1.Hides c
  | .set member => ∀ k ∈ member, k.Hides c
  | _ => True

def Hides (c : Char) (v : Value) : Prop := v.Every (NodeHides c)

theorem nodeHides_stable (c : Char) : Stable (NodeHides c) := by
  intro n closed v outer here
  cases v with
  | scalar a => exact here
  | set member => exact here
  | again m =>
    rw [fill]
    split
    · exact outer
    · trivial
  | seq name kind items =>
    rw [fill]
    split <;> trivial
  | map name kind es =>
    rw [fill]
    split
    · exact here
    · rw [fillEntries_eq_map, NodeHides, List.forall_mem_map]
      exact here

end Value

section

variable {c : Char} (hidden : isPrintable c = false)
include hidden

theorem Text.not_mem_of_printable {cs : List Char} (shown : Printable cs) : c ∉ cs := by
  intro member
  rw [shown c member] at hidden
  cases hidden

theorem Text.returns_of_printable {ε : Type} {x : Except ε (List Char)}
    (shown : Returns Printable x) : Returns (c ∉ ·) x :=
  shown.mono fun _ printable => not_mem_of_printable hidden printable

theorem Text.not_mem_jsonString {cs : List Char} (escaped : Escaped c cs) : c ∉ jsonString cs := by
  have mark : c ∉ ['"'] := not_mem_of_printable hidden (by decide)
  intro member
  rw [jsonString, quotedWith, List.mem_cons, List.mem_append] at member
  rcases member with first | inside | last
  · exact mark (List.mem_singleton.mpr first)
  · obtain ⟨d, listed, within⟩ := List.mem_flatMap.mp inside
    rcases escapeChar_cases d with shown | ⟨same, low⟩
    · exact not_mem_of_printable hidden shown within
    · rw [same, List.mem_singleton] at within
      subst within
      exact Nat.not_lt_of_le low (escaped listed)
  · exact mark last

theorem Text.not_mem_intercalate {separator : List Char} {parts : List (List Char)}
    (between : Printable separator) (each : ∀ part ∈ parts, c ∉ part) :
    c ∉ separator.intercalate parts := by
  induction parts with
  | nil => simp
  | cons part parts ih =>
    obtain ⟨first, others⟩ := List.forall_mem_cons.mp each
    cases parts with
    | nil => simpa using first
    | cons next parts =>
      rw [List.intercalate_cons_cons, List.mem_append, List.mem_append, not_or, not_or]
      exact ⟨⟨first, not_mem_of_printable hidden between⟩, ih others⟩

theorem not_mem_enclosed {opening closing inner : List Char} (start : Printable opening)
    (finish : Printable closing) (inside : c ∉ inner) : c ∉ enclosed opening closing inner := by
  rw [enclosed, List.mem_append, List.mem_append, not_or, not_or]
  exact ⟨⟨not_mem_of_printable hidden start, inside⟩, not_mem_of_printable hidden finish⟩

theorem Symbol.repr_hides {s : Symbol} (hides : s.Hides c) : Returns (c ∉ ·) s.repr := by
  refine (returns_of_printable hidden (Payload.printable_shown _)).bind fun payload shown => ?_
  refine returns_ok ?_
  have start : c ∉ ['<'] := not_mem_of_printable hidden (by decide)
  have colon : c ∉ [':', ' '] := not_mem_of_printable hidden (by decide)
  have finish : c ∉ ['>'] := not_mem_of_printable hidden (by decide)
  have name := hides.1
  simp_all

theorem Symbol.display_hides {s : Symbol} (hides : s.Hides c) : Returns (c ∉ ·) s.display := by
  unfold display
  split
  · exact returns_of_printable hidden (printable_integerText _)
  · exact returns_ok hides.1

namespace Scalar

theorem repr_hides {a : Scalar} (hides : a.Hides c) : Returns (c ∉ ·) a.repr := by
  have fixed : ∀ {cs : List Char}, Printable cs → Returns (c ∉ ·) (.ok cs : Except Fault _) :=
    fun shown => returns_ok (not_mem_of_printable hidden shown)
  cases a with
  | undefined => exact fixed (by decide)
  | null => exact fixed (by decide)
  | bool b =>
    refine fixed ?_
    split <;> decide
  | int n => exact returns_of_printable hidden (printable_integerText n)
  | float x => exact fixed (Binary64.printable_text x)
  | text s => exact fixed (printable_quoted _)
  | symbol s => exact Symbol.repr_hides hidden hides
  | date d => exact fixed d.printable_repr
  | clock t => exact fixed t.printable_repr
  | moment m => exact fixed m.printable_repr
  | bytes b => exact fixed (printable_quotedBytes b)
  | token name =>
    have start : c ∉ "Opaque(".toList := not_mem_of_printable hidden (by decide)
    have finish : c ∉ ")".toList := not_mem_of_printable hidden (by decide)
    refine returns_ok ?_
    rw [String.toList_append, String.toList_append, List.mem_append, List.mem_append, not_or,
      not_or]
    exact ⟨⟨start, hides⟩, finish⟩

theorem display_escaped {a : Scalar} (hides : a.Hides c) : Returns (Escaped c) a.display := by
  have lacking : ∀ {x : Except Fault (List Char)}, Returns (c ∉ ·) x → Returns (Escaped c) x :=
    fun lacks => lacks.mono fun _ absent member => absurd member absent
  have fixed : ∀ {cs : List Char}, Printable cs → Returns (Escaped c) (.ok cs : Except Fault _) :=
    fun shown => lacking (returns_ok (not_mem_of_printable hidden shown))
  cases a with
  | undefined => exact fixed (by decide)
  | int n => exact lacking (returns_of_printable hidden (printable_integerText n))
  | text s => exact returns_ok hides
  | symbol s => exact lacking (Symbol.display_hides hidden hides)
  | date d => exact fixed d.printable_iso
  | clock t => exact fixed t.printable_iso
  | moment m => exact fixed (m.printable_isoWith (by decide))
  | _ => exact lacking (repr_hides hidden hides)

end Scalar

theorem not_mem_tupleText {parts : List (List Char)} (each : ∀ part ∈ parts, c ∉ part) :
    c ∉ tupleText parts := by
  unfold tupleText
  split
  · exact not_mem_enclosed hidden (by decide) (by decide) (each _ (List.mem_singleton.mpr rfl))
  · exact not_mem_enclosed hidden (by decide) (by decide)
      (not_mem_intercalate hidden (by decide) each)

end

namespace Key

mutual

theorem repr_hides {c : Char} (hidden : isPrintable c = false) :
    ∀ k : Key, k.Hides c → Returns (c ∉ ·) k.repr
  | .scalar _, hides => Scalar.repr_hides hidden hides
  | .tuple ks, hides =>
    (reprs_hide hidden ks hides).map fun _ each => not_mem_tupleText hidden each
termination_by structural k => k

theorem reprs_hide {c : Char} (hidden : isPrintable c = false) :
    ∀ ks : List Key, AllHide c ks → Returns (fun parts => ∀ part ∈ parts, c ∉ part) (reprs ks)
  | [], _ => returns_ok (by simp)
  | k :: ks, hides =>
    (repr_hides hidden k hides.1).bind fun _ first =>
      (reprs_hide hidden ks hides.2).bind fun _ others =>
        returns_ok (List.forall_mem_cons.mpr ⟨first, others⟩)
termination_by structural ks => ks

end

end Key

namespace Value

theorem printable_brackets (v : Value) : Printable v.brackets.1 ∧ Printable v.brackets.2 := by
  unfold brackets
  split <;> decide

section

variable {c : Char} (hidden : isPrintable c = false)
include hidden

theorem not_mem_bracketed (v : Value) {parts : List (List Char)}
    (each : ∀ part ∈ parts, c ∉ part) : c ∉ v.bracketed parts := by
  unfold bracketed
  split
  · exact not_mem_tupleText hidden each
  · exact not_mem_enclosed hidden (printable_brackets _).1 (printable_brackets _).2
      (not_mem_intercalate hidden (by decide) each)

theorem not_mem_ellipsis (v : Value) : c ∉ v.ellipsis :=
  not_mem_enclosed hidden (printable_brackets v).1 (printable_brackets v).2
    (not_mem_of_printable hidden (by decide))

omit hidden in
theorem reprItems_hide {room : Nat} {around : Around} {vs : List Value}
    (each : ∀ v ∈ vs, Returns (c ∉ ·) (reprIn room around v)) :
    Returns (fun parts => ∀ part ∈ parts, c ∉ part) (reprItems room around vs) := by
  induction vs with
  | nil => exact returns_ok (by simp)
  | cons v vs ih =>
    rw [List.forall_mem_cons] at each
    exact each.1.bind fun _ first => (ih each.2).bind fun _ others =>
      returns_ok (List.forall_mem_cons.mpr ⟨first, others⟩)

theorem reprEntries_hide {room : Nat} {around : Around} {es : List (Key × Value)}
    (keys : ∀ e ∈ es, e.1.Hides c)
    (each : ∀ e ∈ es, Returns (c ∉ ·) (reprIn room around e.2)) :
    Returns (fun parts => ∀ part ∈ parts, c ∉ part) (reprEntries room around es) := by
  have colon : c ∉ [':', ' '] := not_mem_of_printable hidden (by decide)
  induction es with
  | nil => exact returns_ok (by simp)
  | cons e es ih =>
    rw [List.forall_mem_cons] at keys each
    refine (Key.repr_hides hidden e.1 keys.1).bind fun key shown => ?_
    refine each.1.bind fun value first => ?_
    refine (ih keys.2 each.2).bind fun parts others => returns_ok ?_
    refine List.forall_mem_cons.mpr ⟨?_, others⟩
    simp_all

def Around.Hides (around : Around) (c : Char) : Prop :=
  ∀ name text, around.find? name = some text → c ∉ text

omit hidden in
theorem Around.hides_nil : Around.Hides [] c := by
  intro name text found
  obtain ⟨n, _, looked⟩ := Option.bind_eq_some_iff.mp found
  cases looked

theorem Around.Hides.add {around : Around} (outer : around.Hides c) (name : Option Nat)
    (v : Value) : (around.add name v).Hides c := by
  cases name with
  | none => exact outer
  | some n =>
    intro other text found
    obtain ⟨m, same, looked⟩ := Option.bind_eq_some_iff.mp found
    rw [Around.add, List.lookup_cons] at looked
    split at looked
    · cases looked
      exact not_mem_ellipsis hidden v
    · exact outer (some m) text looked

theorem reprIn_hides {v : Value} {room : Nat} {around : Around} (hides : v.Hides c)
    (outer : around.Hides c) : Returns (c ∉ ·) (reprIn room around v) := by
  induction v using treeInduction generalizing room around with
  | scalar a => exact Scalar.repr_hides hidden hides.at_root
  | again n =>
    refine returns_ok ?_
    cases found : around.find? (some n) with
    | none => simp
    | some text => exact outer _ text found
  | set member =>
    cases member with
    | none => exact returns_ok (not_mem_of_printable hidden (by decide))
    | some k =>
      refine (Key.repr_hides hidden k (hides.at_root k rfl)).map fun _ shown => ?_
      exact not_mem_enclosed hidden (by decide) (by decide) shown
  | seq name kind items ih =>
    unfold reprIn
    split
    · rename_i found
      exact returns_ok (outer _ _ found)
    · exact returns_error _
    · refine (reprItems_hide fun w member => ?_).bind fun parts each =>
        returns_ok (not_mem_bracketed hidden _ each)
      exact ih w member (hides.at_child member) (outer.add hidden name _)
  | map name kind es ih =>
    unfold reprIn
    split
    · rename_i found
      exact returns_ok (outer _ _ found)
    · exact returns_error _
    · refine (reprEntries_hide hidden hides.at_root fun e member => ?_).bind fun parts each =>
        returns_ok (not_mem_bracketed hidden _ each)
      exact ih e member (hides.at_child (mem_children_of_entry member)) (outer.add hidden name _)

theorem repr_hides {v : Value} (hides : v.Hides c) : Returns (c ∉ ·) v.repr :=
  reprIn_hides hidden hides Around.hides_nil

end

end Value

namespace Json

theorem printable_integer (n : Int) : Returns Printable (integer n) := by
  unfold integer
  cases ending : integerText n with
  | error fault => exact returns_error _
  | ok text => exact returns_ok (printable_integerText n text ending)

theorem printable_boolText (b : Bool) : Printable (boolText b) := by
  cases b <;> decide

theorem printable_floatText (x : Binary64) : Printable (floatText x) := by
  unfold floatText
  split
  · decide
  · decide
  · decide
  · exact Binary64.printable_text x

theorem printable_shownFloat (x : Binary64) : Printable (shownFloat x) := by
  unfold shownFloat
  split
  · split
    · rename_i n _
      have digits := printable_toDigits (by decide : 1 < 10) (by decide) n.natAbs
      split
      · split
        · exact printable_cons.mpr ⟨by decide, digits⟩
        · exact digits
      · exact Binary64.printable_text _
    · exact Binary64.printable_text _
  · decide

section

variable {c : Char} (hidden : isPrintable c = false)
include hidden

theorem shownLeaf_hides {v : Value} (shown : Returns (Escaped c) v.display) :
    Returns (c ∉ ·) (shownLeaf v) := by
  unfold shownLeaf
  cases ending : v.display with
  | error fault => exact returns_error _
  | ok text => exact returns_ok (not_mem_jsonString hidden (shown text ending))

theorem writeScalar_hides {a : Scalar} (hides : a.Hides c) :
    Returns (c ∉ ·) (writeScalar descriptive a) := by
  have fixed : ∀ {cs : List Char}, Printable cs → Returns (c ∉ ·) (.ok cs : Except EncodeError _) :=
    fun shown => returns_ok (not_mem_of_printable hidden shown)
  have plain := hides.plain
  unfold writeScalar
  split
  · exact fixed (by decide)
  · exact fixed (by decide)
  · exact fixed (printable_boolText _)
  · exact returns_of_printable hidden (printable_integer _)
  · exact fixed (printable_shownFloat _)
  · rename_i s text
    rw [text] at plain
    exact returns_ok (not_mem_jsonString hidden plain)
  · exact shownLeaf_hides hidden (Scalar.display_escaped hidden hides)

theorem keyText_escaped {k : Key} (hides : k.Hides c) :
    Returns (Escaped c) (keyText descriptive k) := by
  have fixed : ∀ {cs : List Char}, Printable cs → Escaped c cs :=
    fun shown member => absurd member (not_mem_of_printable hidden shown)
  cases k with
  | tuple ks => exact returns_error _
  | scalar a =>
    have plain := Scalar.Hides.plain hides
    dsimp only [keyText]
    split
    · exact returns_ok (fixed (by decide))
    · exact returns_ok (fixed (printable_boolText _))
    · exact (printable_integer _).mono fun _ shown => fixed shown
    · exact returns_ok (fixed (printable_floatText _))
    · rename_i s text
      rw [text] at plain
      exact returns_ok plain
    · exact returns_error _

omit hidden in
theorem writeItems_hide {vs : List Value}
    (each : ∀ v ∈ vs, Returns (c ∉ ·) (write descriptive v)) :
    Returns (fun parts => ∀ part ∈ parts, c ∉ part) (writeItems descriptive vs) := by
  induction vs with
  | nil => exact returns_ok (by simp)
  | cons v vs ih =>
    rw [List.forall_mem_cons] at each
    exact each.1.bind fun _ first => (ih each.2).bind fun _ others =>
      returns_ok (List.forall_mem_cons.mpr ⟨first, others⟩)

theorem writeEntries_hide {es : List (Key × Value)} (keys : ∀ e ∈ es, e.1.Hides c)
    (each : ∀ e ∈ es, Returns (c ∉ ·) (write descriptive e.2)) :
    Returns (fun parts => ∀ part ∈ parts, c ∉ part) (writeEntries descriptive es) := by
  have colon : c ∉ [':'] := not_mem_of_printable hidden (by decide)
  induction es with
  | nil => exact returns_ok (by simp)
  | cons e es ih =>
    rw [List.forall_mem_cons] at keys each
    rw [writeEntries]
    split
    · exact ih keys.2 each.2
    · refine (keyText_escaped hidden keys.1).bind fun key escaped => ?_
      refine each.1.bind fun value first => ?_
      refine (ih keys.2 each.2).bind fun parts others => returns_ok ?_
      have quoted := not_mem_jsonString hidden escaped
      refine List.forall_mem_cons.mpr ⟨?_, others⟩
      simp_all

theorem write_hides {v : Value} (hides : v.Hides c) : Returns (c ∉ ·) (write descriptive v) := by
  induction v using Value.treeInduction with
  | scalar a => exact writeScalar_hides hidden hides.at_root
  | again n => exact returns_error _
  | set member =>
    refine shownLeaf_hides hidden ?_
    exact (Value.repr_hides hidden hides).mono fun _ absent member => absurd member absent
  | seq name kind items ih =>
    refine (writeItems_hide fun w member => ih w member (hides.at_child member)).bind
      fun parts each => returns_ok ?_
    exact not_mem_enclosed hidden (by decide) (by decide)
      (not_mem_intercalate hidden (by decide) each)
  | map name kind es ih =>
    refine (writeEntries_hide hidden hides.at_root fun e member => ?_).bind
      fun parts each => returns_ok ?_
    · exact ih e member (hides.at_child (Value.mem_children_of_entry member))
    · exact not_mem_enclosed hidden (by decide) (by decide)
        (not_mem_intercalate hidden (by decide) each)

theorem describe_hides {v : Value} (hides : v.Hides c) :
    Returns (fun text => c ∉ text.toList) (describe v) := by
  have joined : ∀ text : List Char, c ∉ text → c ∉ (String.ofList text).toList := by
    intro text absent
    rwa [String.toList_ofList]
  have fallback : Returns (fun text => c ∉ text.toList) (v.repr.map String.ofList) :=
    (Value.repr_hides hidden hides).map joined
  unfold describe
  split
  · exact returns_ok (not_mem_of_printable hidden (by decide))
  · split
    · exact returns_error _
    · exact fallback
    · split
      · rename_i written
        exact returns_ok (joined _ (write_hides hidden hides _ written))
      · exact fallback

end

end Json

end Conform
