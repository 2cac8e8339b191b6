import Conform.Proofs.Inhabitants
import Conform.TypeExpr.Undefined

/-!
The undefined value in types. A type has it as an inhabitant when it admits it or
holds the type of everything. Stripping a type and laying out a struct lose no
other value, and what is stored under a field that is laid out as required is
undefined only through the type of everything.
-/
namespace Conform.TypeExpr

inductive HoldsAny : TypeExpr → Prop where
  | any : HoldsAny .any
  | union {ts : List TypeExpr} {t : TypeExpr} (member : t ∈ ts) (inside : HoldsAny t) :
      HoldsAny (.union ts)
  | pipe {ts : List TypeExpr} {t : TypeExpr} (member : t ∈ ts) (inside : HoldsAny t) :
      HoldsAny (.pipe ts)

theorem HoldsAny.inhabits {t : TypeExpr} (holds : t.HoldsAny) (v : Value) : t.Inhabits v := by
  induction holds with
  | any => trivial
  | union member _ ih | pipe member _ ih => exact inhabitsSome_iff.mpr ⟨_, member, ih⟩

theorem someAdmitUndefined_iff {ts : List TypeExpr} :
    someAdmitUndefined ts = true ↔ ∃ t ∈ ts, t.admitsUndefined = true := by
  induction ts with
  | nil => simp [someAdmitUndefined]
  | cons t ts ih => simp [someAdmitUndefined, ih]

theorem eq_undefined_of_kind {v : Value} (kind : v.kind = .undefined) : v = .undefined := by
  cases v with
  | scalar a => cases a with
    | undefined => rfl
    | int n =>
      simp only [Value.kind, Scalar.kind] at kind
      split at kind <;> cases kind
    | _ => cases kind
  | _ => cases kind

theorem holds_undefined {t : TypeExpr} (inhabits : t.Inhabits .undefined) :
    t.admitsUndefined = true ∨ t.HoldsAny := by
  induction t using treeInduction with
  | any => exact Or.inr .any
  | undefined => exact Or.inl rfl
  | literal tag values =>
    obtain ⟨c, member, kind, _⟩ := inhabits
    refine Or.inl (List.any_eq_true.mpr ⟨c, member, ?_⟩)
    rw [eq_undefined_of_kind kind]
    rfl
  | union ts ih =>
    obtain ⟨t, member, inside⟩ := inhabitsSome_iff.mp inhabits
    rcases ih t member inside with admits | holds
    · exact Or.inl (someAdmitUndefined_iff.mpr ⟨t, member, admits⟩)
    · exact Or.inr (.union member holds)
  | pipe ts ih =>
    obtain ⟨t, member, inside⟩ := inhabitsSome_iff.mp inhabits
    rcases ih t member inside with admits | holds
    · exact Or.inl (someAdmitUndefined_iff.mpr ⟨t, member, admits⟩)
    · exact Or.inr (.pipe member holds)
  | text | bool | none | symbol | named => cases inhabits
  | int | float => obtain ⟨_, same⟩ := inhabits; cases same
  | list | record | tuple | struct => obtain ⟨_, opened, _⟩ := inhabits; cases opened

theorem eq_undefined_of_matches {c v : Value} (absent : c.isUndefined = true)
    (found : c.Matches v) : v = .undefined := by
  rw [Value.isUndefined_iff] at absent
  subst absent
  exact eq_undefined_of_kind found.1.symm

theorem inhabits_isOnlyUndefined {t : TypeExpr} {v : Value} (only : t.isOnlyUndefined = true)
    (inhabits : t.Inhabits v) : v = .undefined := by
  cases t with
  | undefined => exact eq_undefined_of_kind inhabits
  | literal tag values =>
    obtain ⟨c, member, found⟩ := inhabits
    exact eq_undefined_of_matches (List.all_eq_true.mp only c member) found
  | _ => cases only

theorem inhabits_stripMembers {ts kept : List TypeExpr} {v : Value}
    (each : ∀ t ∈ ts, ∀ {u}, t.stripUndefined = .ok u → t.Inhabits v → u.Inhabits v)
    (stripped : stripMembers ts = .ok kept) (present : v ≠ .undefined)
    (inhabits : ∃ t ∈ ts, t.Inhabits v) : ∃ k ∈ kept, k.Inhabits v := by
  induction ts generalizing kept with
  | nil => simp at inhabits
  | cons t ts ih =>
    have later : ∀ {kept}, stripMembers ts = .ok kept → (∃ s ∈ ts, s.Inhabits v) →
        ∃ k ∈ kept, k.Inhabits v := ih fun s member => each s (List.mem_cons_of_mem t member)
    obtain ⟨s, member, inside⟩ := inhabits
    rw [stripMembers] at stripped
    split at stripped
    · rename_i only
      rcases List.mem_cons.mp member with rfl | member
      · exact absurd (inhabits_isOnlyUndefined only inside) present
      · exact later stripped ⟨s, member, inside⟩
    · obtain ⟨u, first, rest⟩ := except_bind_ok_iff.mp stripped
      obtain ⟨us, tail, same⟩ := except_bind_ok_iff.mp rest
      cases same
      rcases List.mem_cons.mp member with rfl | member
      · exact ⟨u, by simp, each s (by simp) first inside⟩
      · obtain ⟨k, found, held⟩ := later tail ⟨s, member, inside⟩
        exact ⟨k, List.mem_cons_of_mem u found, held⟩

theorem inhabits_stripUndefined {t u : TypeExpr} {v : Value}
    (stripped : t.stripUndefined = .ok u) (present : v ≠ .undefined) (inhabits : t.Inhabits v) :
    u.Inhabits v := by
  induction t using treeInduction generalizing u with
  | union ts ih | pipe ts ih =>
    rw [stripUndefined] at stripped
    obtain ⟨kept, members, rest⟩ := except_bind_ok_iff.mp stripped
    split at rest
    · cases rest
      exact inhabits
    · obtain ⟨k, found, held⟩ := inhabits_stripMembers (fun t member => ih t member) members
        present (inhabitsSome_iff.mp inhabits)
      exact inhabits_oneOf rest found held
  | literal tag values =>
    obtain ⟨c, member, found⟩ := inhabits
    cases stripped
    have defined : c ∈ values.filter fun v => !v.isUndefined := by
      refine List.mem_filter.mpr ⟨member, ?_⟩
      rw [Bool.not_eq_true']
      exact Bool.eq_false_iff.mpr fun absent => present (eq_undefined_of_matches absent found)
    split
    · exact ⟨c, member, found⟩
    · exact inhabits_literalOf ⟨c, defined, found⟩
  | _ =>
    cases stripped
    exact inhabits

theorem layoutField_ok {name : String} {type : TypeExpr} {field : String × TypeExpr × Bool}
    (laid : layoutField name type = .ok field) :
    field.1 = name ∧ (field.2.2 = true → field.2.1.admitsUndefined = false) ∧
      ∀ v, type.Inhabits v → field.2.1.Inhabits v ∨ field.2.2 = false ∧ v = .undefined := by
  unfold layoutField at laid
  split at laid
  · obtain ⟨stripped, strips, same⟩ := except_bind_ok_iff.mp laid
    cases same
    refine ⟨rfl, by simp, fun v inhabits => ?_⟩
    by_cases absent : v = .undefined
    · exact Or.inr ⟨rfl, absent⟩
    · exact Or.inl (inhabits_stripUndefined strips absent inhabits)
  · rename_i refuses
    cases laid
    exact ⟨rfl, fun _ => by simpa using refuses, fun v inhabits => Or.inl inhabits⟩

theorem structOf_ok {tag : Nat} {types : List (String × TypeExpr)} {t : TypeExpr}
    (built : structOf tag types = .ok t) : ∃ layout, t = .struct tag layout ∧
      List.Forall₂ (fun type field => layoutField type.1 type.2 = .ok field) types layout := by
  obtain ⟨layout, laid, same⟩ := except_bind_ok_iff.mp built
  cases same
  refine ⟨layout, rfl, ?_⟩
  clear built
  induction types generalizing layout with
  | nil =>
    cases laid
    exact .nil
  | cons type types ih =>
    rw [List.mapM_cons] at laid
    obtain ⟨field, first, rest⟩ := except_bind_ok_iff.mp laid
    obtain ⟨fields, tail, same⟩ := except_bind_ok_iff.mp rest
    cases same
    exact .cons first (ih fields tail)

theorem mem_of_find? {layout : Layout} {name : String} {type : TypeExpr × Bool}
    (found : layout.find? name = some type) : (name, type) ∈ layout := by
  obtain ⟨entry, first, same⟩ := Option.map_eq_some_iff.mp found
  subst same
  have named : entry.1 = name := by simpa using List.find?_some first
  rw [← named]
  exact List.mem_of_find?_eq_some first

theorem mem_mergeLayouts {left right : Layout} {field : String × TypeExpr × Bool}
    (member : field ∈ mergeLayouts left right) : field ∈ left ∨ field ∈ right := by
  rcases List.mem_append.mp member with inRight | inLeft
  · obtain ⟨⟨name, own⟩, listed, same⟩ := List.mem_map.mp inRight
    subst same
    cases found : Layout.find? left name with
    | none => exact Or.inr (by simpa [found] using listed)
    | some type => exact Or.inl (by simpa [found] using mem_of_find? found)
  · exact Or.inl (List.mem_filter.mp inLeft).1

theorem inhabits_merge {tag : Nat} {left right : TypeExpr} {v : Value} (first : left.Inhabits v)
    (second : right.Inhabits v) : (merge tag left right).Inhabits v := by
  unfold merge
  split
  · obtain ⟨c, opened, lefts⟩ := first
    obtain ⟨d, opened', rights⟩ := second
    cases opened.symm.trans opened'
    refine ⟨c, opened, inhabitsFields_iff.mpr fun field member => ?_⟩
    rcases mem_mergeLayouts member with inLeft | inRight
    · exact inhabitsFields_iff.mp lefts field inLeft
    · exact inhabitsFields_iff.mp rights field inRight
  · exact first

mutual

/-- Required fields of struct types do not admit the undefined value, as it is with all
    struct types that are laid out from the types of their fields. -/
def LaidOut : TypeExpr → Prop
  | .union ts | .pipe ts => EachLaidOut ts
  | .struct _ fields => FieldsLaidOut fields
  | _ => True
termination_by structural t => t

def EachLaidOut : List TypeExpr → Prop
  | [] => True
  | t :: ts => LaidOut t ∧ EachLaidOut ts
termination_by structural ts => ts

def FieldsLaidOut : Layout → Prop
  | [] => True
  | (_, t, required) :: fields =>
    ((required = true → t.admitsUndefined = false) ∧ LaidOut t) ∧ FieldsLaidOut fields
termination_by structural fields => fields

end

theorem eachLaidOut_iff {ts : List TypeExpr} : EachLaidOut ts ↔ ∀ t ∈ ts, t.LaidOut := by
  induction ts with
  | nil => simp [EachLaidOut]
  | cons t ts ih => simp [EachLaidOut, ih]

theorem fieldsLaidOut_iff {fields : Layout} :
    FieldsLaidOut fields ↔ ∀ field ∈ fields,
      (field.2.2 = true → field.2.1.admitsUndefined = false) ∧ field.2.1.LaidOut := by
  induction fields with
  | nil => simp [FieldsLaidOut]
  | cons field fields ih => rw [FieldsLaidOut, ih, List.forall_mem_cons]

theorem laidOut_literalOf (tag : Nat) (values : List Value) : (literalOf tag values).LaidOut := by
  unfold literalOf
  split <;> trivial

theorem laidOut_members {t m : TypeExpr} (laid : t.LaidOut) (member : m ∈ t.members) :
    m.LaidOut := by
  unfold members at member
  split at member
  · exact eachLaidOut_iff.mp laid m member
  · exact eachLaidOut_iff.mp laid m member
  · exact List.mem_singleton.mp member ▸ laid

theorem laidOut_unionOf {ts : List TypeExpr} {u : TypeExpr} (united : unionOf ts = .ok u)
    (each : ∀ t ∈ ts, t.LaidOut) : u.LaidOut := by
  have kept : ∀ k ∈ distinctMembers ts, k.LaidOut := by
    intro k member
    obtain ⟨t, listed, part⟩ := List.mem_flatMap.mp ((keepFirst_spec same _).2 k member)
    exact laidOut_members (each t listed) part
  rcases (unionOf_ok united).2 with single | form
  · exact kept u (single ▸ List.mem_singleton.mpr rfl)
  · subst form
    exact eachLaidOut_iff.mpr kept

theorem laidOut_oneOf {ts : List TypeExpr} {u : TypeExpr} (united : oneOf ts = .ok u)
    (each : ∀ t ∈ ts, t.LaidOut) : u.LaidOut := by
  match ts, united, each with
  | [], united, each => exact laidOut_unionOf (show unionOf [] = .ok u from united) each
  | [s], united, each =>
    cases united
    exact each u (by simp)
  | _ :: _ :: _, united, each => exact laidOut_unionOf united each

theorem laidOut_stripMembers {ts kept : List TypeExpr}
    (each : ∀ t ∈ ts, ∀ {u}, t.stripUndefined = .ok u → u.LaidOut)
    (stripped : stripMembers ts = .ok kept) : ∀ k ∈ kept, k.LaidOut := by
  induction ts generalizing kept with
  | nil =>
    cases stripped
    simp
  | cons t ts ih =>
    have later : ∀ {kept}, stripMembers ts = .ok kept → ∀ k ∈ kept, k.LaidOut :=
      ih fun s member => each s (List.mem_cons_of_mem t member)
    rw [stripMembers] at stripped
    split at stripped
    · exact later stripped
    · obtain ⟨u, first, rest⟩ := except_bind_ok_iff.mp stripped
      obtain ⟨us, tail, same⟩ := except_bind_ok_iff.mp rest
      cases same
      exact List.forall_mem_cons.mpr ⟨each t (by simp) first, later tail⟩

theorem laidOut_stripUndefined {t u : TypeExpr} (laid : t.LaidOut)
    (stripped : t.stripUndefined = .ok u) : u.LaidOut := by
  induction t using treeInduction generalizing u with
  | union ts ih | pipe ts ih =>
    rw [stripUndefined] at stripped
    obtain ⟨kept, members, rest⟩ := except_bind_ok_iff.mp stripped
    split at rest
    · cases rest
      exact laid
    · have inside := eachLaidOut_iff.mp laid
      exact laidOut_oneOf rest
        (laidOut_stripMembers (fun t member => ih t member (inside t member)) members)
  | literal tag values =>
    cases stripped
    split
    · trivial
    · exact laidOut_literalOf tag _
  | _ =>
    cases stripped
    exact laid

theorem laidOut_structOf {tag : Nat} {types : List (String × TypeExpr)} {t : TypeExpr}
    (each : ∀ type ∈ types, type.2.LaidOut) (built : structOf tag types = .ok t) : t.LaidOut := by
  obtain ⟨layout, form, fields⟩ := structOf_ok built
  subst form
  apply fieldsLaidOut_iff.mpr
  intro field member
  obtain ⟨type, listed, laid⟩ := exists_related (List.Forall₂.flip fields) member
  refine ⟨(layoutField_ok laid).2.1, ?_⟩
  unfold layoutField at laid
  split at laid
  · obtain ⟨stripped, strips, same⟩ := except_bind_ok_iff.mp laid
    cases same
    exact laidOut_stripUndefined (each type listed) strips
  · cases laid
    exact each type listed

theorem laidOut_merge {tag : Nat} {left right : TypeExpr} (first : left.LaidOut)
    (second : right.LaidOut) : (merge tag left right).LaidOut := by
  unfold merge
  split
  · apply fieldsLaidOut_iff.mpr
    intro field member
    rcases mem_mergeLayouts member with inLeft | inRight
    · exact fieldsLaidOut_iff.mp first field inLeft
    · exact fieldsLaidOut_iff.mp second field inRight
  · exact first

end Conform.TypeExpr

namespace Conform

theorem Schema.structFields_ok {s : Schema} {layout : TypeExpr.Layout}
    (fields : s.structFields = .ok layout) : ∃ tag, s.type = .struct tag layout := by
  unfold Schema.structFields TypeExpr.structFields at fields
  cases form : s.type with
  | struct tag own =>
    rw [form] at fields
    cases fields
    exact ⟨tag, rfl⟩
  | _ =>
    rw [form] at fields
    cases fields

end Conform
