import Conform.Proofs.Numbers
import Conform.Proofs.Parts
import Mathlib.Data.List.Induction

/-!
The form in which JSON gives a value back. Symbols become their payloads, dates
and times their texts, large integers the nearest numbers, every sequence a list
with nulls for what is undefined, and every map a plain map under names, without
what is undefined. Of entries with one name the last value stands in the place of
the first.
-/
namespace Conform

open Json

def Scalar.normal (a : Scalar) : Scalar :=
  match a.plain with
  | .undefined => .null
  | .int n => plainInteger n
  | .date d => .text d.iso
  | .clock t => .text t.iso
  | .moment m => .text m.iso
  | b => b

/-- The name that an entry is written under. Keys that cannot be written have none. -/
def Key.jsonName : Key → List Char
  | .tuple _ => []
  | .scalar a => match a.plain with
    | .null => "null".toList
    | .bool b => boolText b
    | .int n => Binary64.signed (n < 0) (Nat.toDigits 10 n.natAbs)
    | .float x => floatText x
    | .text s => s.toList
    | _ => []

namespace Value

/-- One value for each name, in the place of its first entry and from the last of them. -/
def lastByName (pairs : List (String × Value)) : List (String × Value) :=
  (pairs.map (·.1)).eraseDups.map fun name => (name, (pairs.reverse.lookup name).getD .null)

def named (pair : String × Value) : Key × Value := (.scalar (.text pair.1), pair.2)

mutual

def normal : Value → Value
  | .scalar a => .scalar a.normal
  | .seq _ _ items => .list (normalItems items)
  | .map _ _ entries => .dict ((lastByName (normalEntries entries)).map named)
  | v => v
termination_by structural v => v

def normalItems : List Value → List Value
  | [] => []
  | v :: vs => normal v :: normalItems vs
termination_by structural vs => vs

def normalEntries : List (Key × Value) → List (String × Value)
  | [] => []
  | (k, v) :: es =>
    if v.isUndefined then normalEntries es
    else (String.ofList k.jsonName, normal v) :: normalEntries es
termination_by structural es => es

end

theorem eraseDups_snoc (names : List String) (k : String) :
    (names ++ [k]).eraseDups = if k ∈ names then names.eraseDups else names.eraseDups ++ [k] := by
  rw [List.eraseDups_append]
  by_cases member : k ∈ names
  · simp [List.removeAll, member]
  · simp [List.removeAll, member, List.eraseDups_cons]

theorem nodup_eraseDups (names : List String) : names.eraseDups.Nodup := by
  induction names using List.reverseRecOn with
  | nil => exact List.nodup_nil
  | append_singleton names k ih =>
    rw [eraseDups_snoc]
    split
    · exact ih
    · rename_i fresh
      exact List.nodup_append.mpr ⟨ih, by simp, by
        rintro a old b new rfl
        exact fresh (List.mem_singleton.mp new ▸ List.mem_eraseDups.mp old)⟩

def place (pairs : List (String × Value)) (k : String) (v : Value) : List (String × Value) :=
  if k ∈ pairs.map (·.1) then pairs.map fun p => if p.1 = k then (k, v) else p
  else pairs ++ [(k, v)]

theorem putEntry_named {pairs : List (String × Value)} (distinct : (pairs.map (·.1)).Nodup)
    (k : String) (v : Value) :
    putEntry Key.same (pairs.map named) (.scalar (.text k)) v = (place pairs k v).map named := by
  induction pairs with
  | nil => rfl
  | cons p pairs ih =>
    obtain ⟨fresh, distinct⟩ := List.nodup_cons.mp distinct
    have test : Key.same (.scalar (.text p.1)) (.scalar (.text k)) = (p.1 == k) := rfl
    have rest := ih distinct
    unfold place at rest ⊢
    simp only [List.map_cons, named, putEntry, test, beq_iff_eq, List.mem_cons] at rest ⊢
    by_cases same : p.1 = k
    · subst same
      have others : ∀ q ∈ pairs, q.1 ≠ p.1 := fun q member same =>
        fresh (List.mem_map.mpr ⟨q, member, same⟩)
      have kept : (pairs.map fun q => if q.1 = p.1 then (p.1, v) else q) = pairs := by
        conv_rhs => rw [← List.map_id pairs]
        exact List.map_congr_left fun q member => by simp [others q member]
      simp only [if_true, true_or, List.map_cons, kept]
      rfl
    · have apart : k ≠ p.1 := fun back => same back.symm
      simp only [if_neg same, rest, apart, false_or]
      split <;> simp [named]

theorem lastByName_snoc (pairs : List (String × Value)) (k : String) (v : Value) :
    lastByName (pairs ++ [(k, v)]) = place (lastByName pairs) k v := by
  have lookup : ∀ n, ((pairs ++ [(k, v)]).reverse.lookup n).getD .null =
      if n = k then v else (pairs.reverse.lookup n).getD .null := by
    intro n
    rw [List.reverse_append, List.reverse_singleton, List.singleton_append, List.lookup_cons]
    by_cases same : n = k
    · simp [same]
    · simp [same, beq_false_of_ne same]
  have names : (lastByName pairs).map (·.1) = (pairs.map (·.1)).eraseDups := by
    simp [lastByName, Function.comp_def]
  unfold place
  simp only [names, List.mem_eraseDups]
  unfold lastByName
  simp only [List.map_append, List.map_singleton, eraseDups_snoc, lookup]
  by_cases member : k ∈ pairs.map (·.1)
  · rw [if_pos member, if_pos member, List.map_map]
    apply List.map_congr_left
    intro n old
    by_cases same : n = k <;> simp [same]
  · rw [if_neg member, if_neg member, List.map_append]
    have others : ∀ n ∈ (pairs.map (·.1)).eraseDups, n ≠ k := fun n old same =>
      member (same ▸ List.mem_eraseDups.mp old)
    congr 1
    · exact List.map_congr_left fun n old => by simp [others n old]
    · simp

theorem nodup_lastByName (pairs : List (String × Value)) :
    ((lastByName pairs).map (·.1)).Nodup := by
  simpa [lastByName, Function.comp_def] using nodup_eraseDups (pairs.map (·.1))

theorem entriesOf_named (pairs : List (String × Value)) :
    entriesOf (pairs.map named) = (lastByName pairs).map named := by
  induction pairs using List.reverseRecOn with
  | nil => rfl
  | append_singleton pairs p ih =>
    have step : entriesOf ((pairs ++ [p]).map named) =
        putEntry Key.same (entriesOf (pairs.map named)) (.scalar (.text p.1)) p.2 := by
      simp [entriesOf, entriesBy, named]
    rw [step, ih, putEntry_named (nodup_lastByName pairs), lastByName_snoc]

theorem lastByName_of_nodup {pairs : List (String × Value)}
    (distinct : (pairs.map (·.1)).Nodup) : lastByName pairs = pairs := by
  induction pairs using List.reverseRecOn with
  | nil => rfl
  | append_singleton pairs p ih =>
    rw [List.map_append, List.map_singleton] at distinct
    obtain ⟨before, _, apart⟩ := List.nodup_append.mp distinct
    have fresh : p.1 ∉ pairs.map (·.1) := fun member =>
      apart p.1 member p.1 (List.mem_singleton.mpr rfl) rfl
    rw [lastByName_snoc, ih before, place, if_neg fresh]

end Value

def Scalar.IsJson : Scalar → Prop
  | .null | .bool _ | .text _ => True
  | .int n => n.natAbs ≤ maxSafeInteger
  | .float x => x.isFinite
  | _ => False

theorem Scalar.normal_eq_self {a : Scalar} (json : a.IsJson) : a.normal = a := by
  cases a with
  | int n => exact if_pos json
  | null | bool | float | text => rfl
  | _ => cases json

/-- The values that JSON has: lists and plain maps with distinct text keys, down to the scalars. -/
inductive Value.IsJson : Value → Prop where
  | scalar {a : Scalar} (json : a.IsJson) : IsJson (.scalar a)
  | list {items : List Value} (inside : ∀ v ∈ items, IsJson v) : IsJson (.list items)
  | dict {members : List (String × Value)} (distinct : (members.map (·.1)).Nodup)
      (inside : ∀ m ∈ members, IsJson m.2) : IsJson (.dict (members.map Value.named))

namespace Value

inductive IsTree (p : Scalar → Prop) : Value → Prop where
  | scalar {a : Scalar} (leaf : p a) : IsTree p (.scalar a)
  | list {items : List Value} (inside : ∀ v ∈ items, IsTree p v) : IsTree p (.list items)
  | dict {members : List (String × Value)} (distinct : (members.map (·.1)).Nodup)
      (inside : ∀ m ∈ members, IsTree p m.2) : IsTree p (.dict (members.map named))

theorem IsTree.mono {p q : Scalar → Prop} {v : Value} (tree : v.IsTree p)
    (weaker : ∀ a, p a → q a) : v.IsTree q := by
  induction tree with
  | scalar leaf => exact .scalar (weaker _ leaf)
  | list inside ih => exact .list ih
  | dict distinct inside ih => exact .dict distinct ih

theorem IsJson.isTree {v : Value} (json : v.IsJson) : v.IsTree Scalar.IsJson := by
  induction json with
  | scalar json => exact .scalar json
  | list inside ih => exact .list ih
  | dict distinct inside ih => exact .dict distinct ih

theorem IsJson.isUndefined {v : Value} (json : v.IsJson) : v.isUndefined = false := by
  cases json with
  | @scalar a json => cases a <;> first | rfl | cases json
  | list inside => rfl
  | dict distinct inside => rfl

theorem normalItems_eq_self {items : List Value} (each : ∀ v ∈ items, v.normal = v) :
    normalItems items = items := by
  induction items with
  | nil => rfl
  | cons v vs ih =>
    rw [List.forall_mem_cons] at each
    rw [normalItems, each.1, ih each.2]

theorem normalEntries_eq_self {members : List (String × Value)}
    (present : ∀ m ∈ members, m.2.isUndefined = false)
    (each : ∀ m ∈ members, m.2.normal = m.2) : normalEntries (members.map named) = members := by
  induction members with
  | nil => rfl
  | cons m ms ih =>
    rw [List.forall_mem_cons] at present each
    rw [List.map_cons, named, normalEntries, present.1, if_neg (by simp), each.1,
      ih present.2 each.2]
    simp [Key.jsonName, Scalar.plain]

theorem normal_of_isJson {v : Value} (json : v.IsJson) : v.normal = v := by
  induction json with
  | scalar json => exact congrArg Value.scalar (Scalar.normal_eq_self json)
  | list inside ih => rw [normal, normalItems_eq_self ih]
  | dict distinct inside ih =>
    rw [normal, normalEntries_eq_self (fun m member => (inside m member).isUndefined) ih,
      lastByName_of_nodup distinct]

end Value
end Conform
