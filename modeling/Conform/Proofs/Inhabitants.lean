import Conform.Proofs.Equality
import Conform.Proofs.Identity
import Conform.Proofs.Typing

/-!
Types read as sets of values. Equal types that can be hashed have the same
inhabitants, so a union loses none of them where it drops a repeated member or
value, and stripping the undefined value from a type loses nothing else.
-/
namespace Conform

/-- The names of the classes that a value belongs to. The undefined value has a type of its own. -/
def Value.classNames : Value → List String
  | .scalar .undefined => []
  | .scalar (.moment m) => [(Scalar.moment m).typeName, "date"]
  | v => [v.typeName]

namespace TypeExpr

mutual

def Inhabits : TypeExpr → Value → Prop
  | .text, v => v.kind = .string
  | .int, v => ∃ n, v = .int n
  | .float, v => ∃ x, v = .scalar (.float x)
  | .bool, v => v.kind = .boolean
  | .none, v => v.kind = .null
  | .any, _ => True
  | .undefined, v => v.kind = .undefined
  | .symbol, v => v.kind = .symbol
  | .named cls, v => cls.name ∈ v.classNames
  | .list item, v => ∃ items, v.items? = some items ∧ ∀ x ∈ items, Inhabits item x
  | .record item, v => ∃ c, v.container? = some c ∧ ∀ x ∈ c.values, Inhabits item x
  | .tuple ts, v => ∃ items, v.items? = some items ∧ InhabitEach ts items
  | .literal _ values, v => ∃ c ∈ values, c.Matches v
  | .union ts, v => InhabitsSome ts v
  | .pipe ts, v => InhabitsSome ts v
  | .struct _ fields, v => ∃ c, v.container? = some c ∧ InhabitsFields fields c
termination_by structural t => t

def InhabitEach : List TypeExpr → List Value → Prop
  | [], [] => True
  | t :: ts, v :: vs => Inhabits t v ∧ InhabitEach ts vs
  | _, _ => False
termination_by structural ts => ts

def InhabitsSome : List TypeExpr → Value → Prop
  | [], _ => False
  | t :: ts, v => Inhabits t v ∨ InhabitsSome ts v
termination_by structural ts => ts

def InhabitsFields : Layout → Container → Prop
  | [], _ => True
  | (name, t, required) :: fields, c =>
    (∃ x, c.Holds name x ∧ (Inhabits t x ∨ required = false ∧ x = .undefined)) ∧
      InhabitsFields fields c
termination_by structural fields => fields

end

theorem inhabitEach_iff {ts : List TypeExpr} {vs : List Value} :
    InhabitEach ts vs ↔ List.Forall₂ Inhabits ts vs := by
  induction ts generalizing vs with
  | nil => cases vs <;> simp [InhabitEach]
  | cons t ts ih => cases vs <;> simp [InhabitEach, ih]

theorem inhabitsSome_iff {ts : List TypeExpr} {v : Value} :
    InhabitsSome ts v ↔ ∃ t ∈ ts, t.Inhabits v := by
  induction ts with
  | nil => simp [InhabitsSome]
  | cons t ts ih => simp [InhabitsSome, ih]

def FieldHolds (c : Container) (field : String × TypeExpr × Bool) : Prop :=
  ∃ x, c.Holds field.1 x ∧ (field.2.1.Inhabits x ∨ field.2.2 = false ∧ x = .undefined)

theorem inhabitsFields_iff {fields : Layout} {c : Container} :
    InhabitsFields fields c ↔ ∀ field ∈ fields, FieldHolds c field := by
  induction fields with
  | nil => simp [InhabitsFields]
  | cons field fields ih => rw [InhabitsFields, ih, List.forall_mem_cons]; rfl

theorem keepFirst_append_singleton {α : Type} (same : α → α → Bool) (xs : List α) (x : α) :
    keepFirst same (xs ++ [x]) =
      if (keepFirst same xs).any fun k => same k x then keepFirst same xs
      else keepFirst same xs ++ [x] := by
  simp [keepFirst]

theorem keepFirst_spec {α : Type} (same : α → α → Bool) (xs : List α) :
    (∀ x ∈ xs, ∃ k ∈ keepFirst same xs, k = x ∨ same k x = true) ∧
      ∀ k ∈ keepFirst same xs, k ∈ xs := by
  induction xs using List.reverseRecOn with
  | nil => simp [keepFirst]
  | append_singleton xs x ih =>
    obtain ⟨covered, taken⟩ := ih
    rw [keepFirst_append_singleton]
    split
    · rename_i found
      obtain ⟨k, kept, equal⟩ := List.any_eq_true.mp found
      refine ⟨fun y member => ?_, fun k kept => List.mem_append_left _ (taken k kept)⟩
      rcases List.mem_append.mp member with before | last
      · exact covered y before
      · cases List.mem_singleton.mp last
        exact ⟨k, kept, Or.inr equal⟩
    · refine ⟨fun y member => ?_, fun k kept => ?_⟩
      · rcases List.mem_append.mp member with before | last
        · obtain ⟨k, kept, equal⟩ := covered y before
          exact ⟨k, List.mem_append_left _ kept, equal⟩
        · exact ⟨y, List.mem_append_right _ last, Or.inl rfl⟩
      · rcases List.mem_append.mp kept with before | last
        · exact List.mem_append_left _ (taken k before)
        · exact List.mem_append_right _ last

theorem unhashableItem?_iff {ts : List TypeExpr} :
    unhashableItem? ts = Option.none ↔ ∀ t ∈ ts, unhashable? t = Option.none := by
  induction ts with
  | nil => simp [unhashableItem?]
  | cons t ts ih =>
    rw [unhashableItem?, List.forall_mem_cons]
    cases unhashable? t with
    | some type => simp
    | none => simpa using ih

theorem sameItems_iff {ss ts : List TypeExpr} :
    sameItems ss ts = true ↔ List.Forall₂ (fun s t => same s t = true) ss ts := by
  induction ss generalizing ts with
  | nil => cases ts <;> simp [sameItems]
  | cons s ss ih => cases ts <;> simp [sameItems, ih]

theorem someSame_iff {ss : List TypeExpr} {t : TypeExpr} :
    someSame ss t = true ↔ ∃ s ∈ ss, same s t = true := by
  induction ss with
  | nil => simp [someSame]
  | cons s ss ih => simp [someSame, ih]

theorem inhabits_of_sameLiteral {shared : Bool} {vs ws : List Value} {v : Value}
    (hashable : Value.unhashableItem? vs = Option.none)
    (hashable' : Value.unhashableItem? ws = Option.none)
    (equal : sameLiteral shared vs ws = true) (inhabits : ∃ c ∈ ws, c.Matches v) :
    ∃ c ∈ vs, c.Matches v := by
  obtain ⟨w, member, found⟩ := inhabits
  obtain ⟨_, each⟩ := Bool.and_eq_true_iff.mp equal
  obtain ⟨c, candidate, same⟩ := List.any_eq_true.mp (List.all_eq_true.mp each w member)
  refine ⟨c, candidate, ?_⟩
  rcases Bool.or_eq_true_iff.mp same with one | typed
  · cases Value.eq_of_identical (Bool.and_eq_true_iff.mp one).2
    exact found
  · exact found.of_sameTyped (Value.unhashableItem?_iff.mp hashable c candidate)
      (Value.unhashableItem?_iff.mp hashable' w member) typed

theorem inhabitEach_of_same {ss ts : List TypeExpr} {vs : List Value}
    (each : ∀ s ∈ ss, ∀ {t : TypeExpr} {v : Value}, unhashable? s = Option.none →
      unhashable? t = Option.none → same s t = true → t.Inhabits v → s.Inhabits v)
    (hashable : ∀ s ∈ ss, unhashable? s = Option.none)
    (hashable' : ∀ t ∈ ts, unhashable? t = Option.none)
    (equal : List.Forall₂ (fun s t => same s t = true) ss ts)
    (inhabits : List.Forall₂ Inhabits ts vs) : List.Forall₂ Inhabits ss vs := by
  induction equal generalizing vs with
  | nil => exact inhabits
  | @cons s t ss ts head tail ih =>
    cases inhabits with
    | cons first rest =>
      rw [List.forall_mem_cons] at each hashable hashable'
      exact .cons (each.1 hashable.1 hashable'.1 head first)
        (ih each.2 hashable.2 hashable'.2 rest)

theorem inhabitsSome_of_same {ss ts : List TypeExpr} {v : Value}
    (each : ∀ s ∈ ss, ∀ {t : TypeExpr} {v : Value}, unhashable? s = Option.none →
      unhashable? t = Option.none → same s t = true → t.Inhabits v → s.Inhabits v)
    (hashable : ∀ s ∈ ss, unhashable? s = Option.none)
    (hashable' : ∀ t ∈ ts, unhashable? t = Option.none)
    (covered : ts.all (someSame ss) = true) (inhabits : InhabitsSome ts v) :
    InhabitsSome ss v := by
  obtain ⟨t, member, inside⟩ := inhabitsSome_iff.mp inhabits
  obtain ⟨s, found, equal⟩ := someSame_iff.mp (List.all_eq_true.mp covered t member)
  exact inhabitsSome_iff.mpr
    ⟨s, found, each s found (hashable s found) (hashable' t member) equal inside⟩

theorem inhabits_of_same {s t : TypeExpr} {v : Value} (hashable : unhashable? s = Option.none)
    (hashable' : unhashable? t = Option.none) (equal : same s t = true) (inhabits : t.Inhabits v) :
    s.Inhabits v := by
  induction s using treeInduction generalizing t v with
  | text | int | float | bool | none | any | undefined | symbol =>
    cases t <;> first | exact inhabits | simp [same] at equal
  | named cls =>
    cases t with
    | named other =>
      rw [same, beq_iff_eq] at equal
      exact equal ▸ inhabits
    | _ => simp [same] at equal
  | list item ih =>
    cases t with
    | list other =>
      rw [same] at equal
      obtain ⟨items, opened, each⟩ := inhabits
      exact ⟨items, opened, fun x member =>
        ih (t := other) hashable hashable' equal (each x member)⟩
    | _ => simp [same] at equal
  | record item ih =>
    cases t with
    | record other =>
      rw [same] at equal
      obtain ⟨c, opened, each⟩ := inhabits
      exact ⟨c, opened, fun x member =>
        ih (t := other) hashable hashable' equal (each x member)⟩
    | _ => simp [same] at equal
  | tuple ss ih =>
    cases t with
    | tuple ts =>
      obtain ⟨items, opened, each⟩ := inhabits
      exact ⟨items, opened, inhabitEach_iff.mpr (inhabitEach_of_same ih
        (unhashableItem?_iff.mp hashable) (unhashableItem?_iff.mp hashable')
        (sameItems_iff.mp equal) (inhabitEach_iff.mp each))⟩
    | _ => simp [same] at equal
  | literal tag vs =>
    cases t with
    | literal n ws => exact inhabits_of_sameLiteral hashable hashable' equal inhabits
    | _ => simp [same] at equal
  | union ss ih | pipe ss ih =>
    cases t with
    | union ts | pipe ts =>
      exact inhabitsSome_of_same ih (unhashableItem?_iff.mp hashable)
        (unhashableItem?_iff.mp hashable') (Bool.and_eq_true_iff.mp equal).2 inhabits
    | _ => simp [same] at equal
  | struct tag fields =>
    cases t with
    | struct n gs =>
      rw [same, Bool.and_eq_true] at equal
      cases fields_eq (fun f _ => eq_of_identical) equal.2
      exact inhabits
    | _ => simp [same] at equal

theorem inhabits_literalOf {tag : Nat} {values : List Value} {v : Value}
    (inhabits : ∃ c ∈ values, c.Matches v) : (literalOf tag values).Inhabits v := by
  obtain ⟨c, member, found⟩ := inhabits
  unfold literalOf
  split
  · exact ⟨c, member, found⟩
  · rename_i hashable
    have each := Value.unhashableItem?_iff.mp hashable
    obtain ⟨covered, taken⟩ := keepFirst_spec Value.sameTyped values
    obtain ⟨k, kept, same⟩ := covered c member
    refine ⟨k, kept, ?_⟩
    rcases same with rfl | same
    · exact found
    · exact found.of_sameTyped (each k (taken k kept)) (each c member) same

theorem inhabits_members {t : TypeExpr} {v : Value} :
    t.Inhabits v ↔ ∃ m ∈ t.members, m.Inhabits v := by
  unfold members
  split
  · exact inhabitsSome_iff
  · exact inhabitsSome_iff
  · simp

theorem unionOf_ok {ts : List TypeExpr} {u : TypeExpr} (united : unionOf ts = .ok u) :
    (∀ m ∈ ts.flatMap members, unhashable? m = Option.none) ∧
      (distinctMembers ts = [u] ∨ u = .union (distinctMembers ts)) := by
  unfold unionOf at united
  split at united
  · cases united
  · rename_i hashable
    refine ⟨unhashableItem?_iff.mp hashable, ?_⟩
    split at united
    · rename_i t single
      cases united
      exact Or.inl single
    · cases united
      exact Or.inr rfl

theorem inhabits_unionOf {ts : List TypeExpr} {t u : TypeExpr} {v : Value}
    (united : unionOf ts = .ok u) (member : t ∈ ts) (inhabits : t.Inhabits v) : u.Inhabits v := by
  obtain ⟨hashable, form⟩ := unionOf_ok united
  obtain ⟨m, part, inside⟩ := inhabits_members.mp inhabits
  have listed : m ∈ ts.flatMap members := List.mem_flatMap.mpr ⟨t, member, part⟩
  obtain ⟨covered, taken⟩ := keepFirst_spec same (ts.flatMap members)
  obtain ⟨k, kept, equal⟩ := covered m listed
  have held : k.Inhabits v := by
    rcases equal with rfl | equal
    · exact inside
    · exact inhabits_of_same (hashable k (taken k kept)) (hashable m listed) equal inside
  rcases form with single | rfl
  · have only : k ∈ [u] := single ▸ kept
    rwa [← List.mem_singleton.mp only]
  · exact inhabitsSome_iff.mpr ⟨k, kept, held⟩

theorem inhabits_oneOf {ts : List TypeExpr} {t u : TypeExpr} {v : Value}
    (united : oneOf ts = .ok u) (member : t ∈ ts) (inhabits : t.Inhabits v) : u.Inhabits v := by
  match ts with
  | [] => cases member
  | [s] =>
    cases united
    rwa [← List.mem_singleton.mp member]
  | _ :: _ :: _ => exact inhabits_unionOf united member inhabits

end TypeExpr
end Conform
