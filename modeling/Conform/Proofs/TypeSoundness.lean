import Conform.Proofs.Undefined

/-!
The inferred type of a shape holds every value that the shape accepts. The checks
never look at types, so the induction follows the shape and meets, at each
combinator, what the type gained or lost there.
-/
namespace Conform

namespace Shape

/-- A custom check is given a type that holds whatever it accepts. Every other shape gets
    its type from its parts. -/
def SoundlyTyped : Shape → Prop
  | .custom own type => ∀ v, (own v).result = .ok .accept → type.Inhabits v
  | _ => True

/-- The struct types that a custom check is given are laid out from the types of fields. -/
def TypedAsLaidOut : Shape → Prop
  | .custom _ type => type.LaidOut
  | _ => True

theorem kind_inhabits {k : AtomicKind} {v : Value} (kind : v.kind = k.kind) :
    k.type.Inhabits v := by
  cases k with
  | string | boolean | undefined | symbol => exact kind
  | number =>
    cases v with
    | scalar a => cases a with
      | int n => exact Or.inl ⟨n, rfl⟩
      | float x => exact Or.inr (Or.inl ⟨x, rfl⟩)
      | _ => cases kind
    | _ => cases kind
  | bigint =>
    cases v with
    | scalar a => cases a with
      | int n => exact ⟨n, rfl⟩
      | _ => cases kind
    | _ => cases kind

open TypeExpr

theorem laidOut_inherited : Inherited LaidOut where
  plain := by
    intro t plain
    cases t with
    | union | pipe | struct => exact plain.elim
    | _ => trivial
  union := fun each united => laidOut_unionOf united each
  merge := laidOut_merge
  struct := fun each built => laidOut_structOf each built

theorem typeExpr_laidOut {s : Shape} (given : s.Every TypedAsLaidOut) {t : TypeExpr}
    (typed : s.typeExpr = .ok t) : t.LaidOut := by
  apply typeExpr_inherits laidOut_inherited _ typed
  apply given.mono
  intro s laid
  cases s <;> exact laid

theorem inhabits_each {ss : List Shape} {ts : List TypeExpr} {vs : List Value}
    (each : ∀ s ∈ ss, ∀ {t v}, s.typeExpr = .ok t → s.Admits v → t.Inhabits v)
    (typed : List.Forall₂ (fun s t => s.typeExpr = .ok t) ss ts)
    (admitted : List.Forall₂ Admits ss vs) : List.Forall₂ Inhabits ts vs := by
  induction typed generalizing vs with
  | nil => simpa using admitted
  | @cons s t ss ts own _ ih =>
    cases admitted with
    | cons first rest =>
      exact .cons (each s (by simp) own first)
        (ih (fun u member => each u (List.mem_cons_of_mem s member)) rest)

theorem inhabits_struct {fields : List (String × Shape)} {types : List (String × TypeExpr)}
    {layout : Layout} {c : Container}
    (each : ∀ field ∈ fields, ∀ {t v}, field.2.typeExpr = .ok t → field.2.Admits v →
      t.Inhabits v)
    (typed : List.Forall₂ (fun field type => type.1 = field.1 ∧ field.2.typeExpr = .ok type.2)
      fields types)
    (laid : List.Forall₂ (fun type field => layoutField type.1 type.2 = .ok field) types layout)
    (admitted : AdmitsFields fields c) : InhabitsFields layout c := by
  rw [inhabitsFields_iff]
  intro entry member
  obtain ⟨type, listed, own⟩ := exists_related (List.Forall₂.flip laid) member
  obtain ⟨field, declared, name, inner⟩ := exists_related (List.Forall₂.flip typed) listed
  obtain ⟨x, held, admits⟩ := admitsFields_iff.mp admitted field declared
  obtain ⟨same, _, inhabits⟩ := layoutField_ok own
  exact ⟨x, by rwa [same, name], inhabits x (each field declared inner admits)⟩

theorem inhabits_of_admits {s : Shape} (sound : s.Every SoundlyTyped) {t : TypeExpr} {v : Value}
    (typed : s.typeExpr = .ok t) (admits : s.Admits v) : t.Inhabits v := by
  induction s using treeInduction generalizing t v with
  | atomic k =>
    cases typed
    exact kind_inhabits admits
  | literal tag candidates =>
    obtain ⟨_, _, same⟩ := except_bind_ok_iff.mp typed
    cases same
    split
    · trivial
    · exact inhabits_literalOf admits
  | optional base ih =>
    obtain ⟨u, inner, united⟩ := except_bind_ok_iff.mp typed
    rcases admits with rfl | admits
    · exact inhabits_unionOf (t := .undefined) united (by simp) rfl
    · exact inhabits_unionOf united (by simp) (ih (sound.at_child (by simp [children])) inner admits)
  | nullable base ih =>
    obtain ⟨u, inner, united⟩ := except_bind_ok_iff.mp typed
    rcases admits with rfl | admits
    · exact inhabits_unionOf (t := .none) united (by simp) rfl
    · exact inhabits_unionOf united (by simp) (ih (sound.at_child (by simp [children])) inner admits)
  | array item ih =>
    obtain ⟨u, inner, same⟩ := except_bind_ok_iff.mp typed
    cases same
    obtain ⟨items, opened, each⟩ := admits
    exact ⟨items, opened, fun x member =>
      ih (sound.at_child (by simp [children])) inner (each x member)⟩
  | record item ih =>
    obtain ⟨u, inner, same⟩ := except_bind_ok_iff.mp typed
    cases same
    obtain ⟨c, opened, each⟩ := admits
    exact ⟨c, opened, fun x member =>
      ih (sound.at_child (by simp [children])) inner (each x member)⟩
  | tuple ss ih =>
    obtain ⟨us, types, same⟩ := except_bind_ok_iff.mp typed
    cases same
    obtain ⟨items, opened, each⟩ := admits
    exact ⟨items, opened, inhabitEach_iff.mpr (inhabits_each
      (fun s member => ih s member (sound.at_child member)) (typeExprs_ok types)
      (admitsEach_iff.mp each))⟩
  | either left right ihLeft ihRight =>
    obtain ⟨u, first, rest⟩ := except_bind_ok_iff.mp typed
    obtain ⟨w, second, united⟩ := except_bind_ok_iff.mp rest
    rcases admits with admits | admits
    · exact inhabits_oneOf united (by simp)
        (ihLeft (sound.at_child (by simp [children])) first admits)
    · exact inhabits_oneOf united (by simp)
        (ihRight (sound.at_child (by simp [children])) second admits)
  | anyOf ss ih =>
    obtain ⟨us, types, united⟩ := typeExpr_anyOf typed
    obtain ⟨s, listed, inside⟩ := admitsSome_iff.mp admits
    obtain ⟨u, member, inner⟩ := exists_related (typeExprs_ok types) listed
    exact inhabits_oneOf united member (ih s listed (sound.at_child listed) inner inside)
  | both left right ihLeft ihRight =>
    obtain ⟨u, first, rest⟩ := except_bind_ok_iff.mp typed
    obtain ⟨_, _, same⟩ := except_bind_ok_iff.mp rest
    cases same
    exact ihLeft (sound.at_child (by simp [children])) first admits.1
  | merge tag left right ihLeft ihRight =>
    obtain ⟨u, first, rest⟩ := except_bind_ok_iff.mp typed
    obtain ⟨w, second, same⟩ := except_bind_ok_iff.mp rest
    cases same
    exact inhabits_merge (ihLeft (sound.at_child (by simp [children])) first admits.1)
      (ihRight (sound.at_child (by simp [children])) second admits.2)
  | refined base refine ih => exact ih (sound.at_child (by simp [children])) typed admits.1
  | custom own type =>
    cases typed
    exact sound.at_root v admits
  | struct tag closed fields ih =>
    obtain ⟨types, typedFields, built⟩ := except_bind_ok_iff.mp typed
    obtain ⟨layout, rfl, laid⟩ := structOf_ok built
    obtain ⟨c, opened, admitted, _⟩ := admits
    exact ⟨c, opened, inhabits_struct
      (fun field member => ih field member (sound.at_child (field_child member)))
      (fieldTypes_ok typedFields) laid admitted⟩

end Shape

def openField (name : String) (t : TypeExpr) (required : t.admitsUndefined = false) : Schema where
  shape := .struct 0 false [(name, .custom (fun _ => Check.accept) t)]
  type := .struct 0 [(name, t, true)]
  typed := by
    simp [Shape.typeExpr, Shape.fieldTypes, TypeExpr.structOf, TypeExpr.layoutField, required,
      bind, Except.bind, pure, Except.pure]

theorem every_openField {p : Shape → Prop} {name : String} {t : TypeExpr}
    (required : t.admitsUndefined = false) (whole : p (openField name t required).shape)
    (own : p (.custom (fun _ => Check.accept) t)) : (openField name t required).shape.Every p := by
  apply Shape.Every.node whole
  intro c child
  obtain rfl := List.mem_singleton.mp child
  exact .node own fun c child => by cases child

/-- Where every custom check has a type that holds what it accepts, an accepted value inhabits
    the type of its schema. With struct types as they are laid out, what it stores under a
    required field is undefined only if the type of the field holds the type of everything,
    and then some schema with that required field does accept a value without it. -/
theorem accepted_inhabits_type (s : Schema) (sound : s.shape.Every Shape.SoundlyTyped) :
    (∀ v w, (s.validate v).result = .ok (.ok w) → s.type.Inhabits v) ∧
    (s.shape.Every Shape.TypedAsLaidOut →
      ∀ layout, s.structFields = .ok layout → ∀ name t, (name, t, true) ∈ layout →
      (∀ v w c, (s.validate v).result = .ok (.ok w) → v.container? = some c →
        c.Holds name .undefined → t.HoldsAny) ∧
      (t.HoldsAny → ∃ bare : Schema, bare.shape.Every Shape.SoundlyTyped ∧
        bare.shape.Every Shape.TypedAsLaidOut ∧ bare.structFields = .ok [(name, t, true)] ∧
        (bare.validate (.dict [])).result = .ok (.ok (.dict [])) ∧
        (Container.map []).Holds name .undefined)) := by
  have inhabits : ∀ v w, (s.validate v).result = .ok (.ok w) → s.type.Inhabits v := by
    intro v w accepted
    apply Shape.inhabits_of_admits sound s.typed
    rcases Schema.validate_ok_iff.mp accepted with ⟨checked, _⟩ | ⟨_, _, _, _, impossible⟩
    · exact (Shape.check_decides s.shape v _ checked).mp rfl
    · cases impossible
  refine ⟨inhabits, ?_⟩
  intro given layout fields name t member
  obtain ⟨tag, form⟩ := Schema.structFields_ok fields
  have laid := Shape.typeExpr_laidOut given s.typed
  rw [form] at inhabits laid
  obtain ⟨required, inner⟩ := TypeExpr.fieldsLaidOut_iff.mp laid (name, t, true) member
  constructor
  · intro v w c accepted opened absent
    obtain ⟨d, opened', each⟩ := inhabits v w accepted
    cases opened.symm.trans opened'
    obtain ⟨x, held, inside⟩ := TypeExpr.inhabitsFields_iff.mp each (name, t, true) member
    cases Container.holds_unique held absent
    rcases inside with inside | ⟨optional, _⟩
    · rcases TypeExpr.holds_undefined inside with admits | holds
      · rw [required rfl] at admits
        cases admits
      · exact holds
    · cases optional
  · intro holds
    exact ⟨openField name t (required rfl),
      every_openField (required rfl) trivial fun v _ => holds.inhabits v,
      every_openField (required rfl) trivial inner, rfl, rfl, rfl⟩

def overlapping : Schema where
  shape := .merge 2 (.struct 0 false [("a", .optional (.atomic .string))])
    (.struct 1 false [("a", .nullable (.atomic .string)),
      ("b", .custom (fun _ => Check.accept) .any)])
  type := .struct 2 [("a", .text, false), ("b", .any, true)]
  typed := rfl

theorem every_overlapping {p : Shape → Prop} (other : ∀ s : Shape, s.children ≠ [] → p s)
    (text : p (.atomic .string)) (own : p (.custom (fun _ => Check.accept) .any)) :
    overlapping.shape.Every p := by
  have leaf : (Shape.atomic .string).Every p := .node text fun c child => by cases child
  have wrapped : ∀ s : Shape, s.children = [.atomic .string] → s.Every p := by
    intro s form
    apply Shape.Every.node (other s (by simp [form]))
    intro c child
    rw [form] at child
    obtain rfl := List.mem_singleton.mp child
    exact leaf
  apply Shape.Every.node (other _ (by simp [overlapping, Shape.children]))
  intro c child
  rcases List.mem_pair.mp child with rfl | rfl
  · apply Shape.Every.node (other _ (by simp [Shape.children]))
    intro c child
    obtain rfl := List.mem_singleton.mp child
    exact wrapped _ rfl
  · apply Shape.Every.node (other _ (by simp [Shape.children]))
    intro c child
    rcases List.mem_pair.mp child with rfl | rfl
    · exact wrapped _ rfl
    · exact .node own fun c child => by cases child

theorem overlapping_inhabited :
    overlapping.type.Inhabits (.dict [(.scalar (.text "a"), .text "x")]) ∧
      TypeExpr.any.HoldsAny ∧
      ∃ bare : Schema, bare.shape.Every Shape.SoundlyTyped ∧
        bare.shape.Every Shape.TypedAsLaidOut ∧ bare.structFields = .ok [("b", .any, true)] ∧
        (bare.validate (.dict [])).result = .ok (.ok (.dict [])) ∧
        (Container.map []).Holds "b" .undefined := by
  have sound : overlapping.shape.Every Shape.SoundlyTyped := by
    apply every_overlapping _ trivial fun _ _ => trivial
    intro s parts
    cases s with
    | custom own type => exact absurd rfl parts
    | _ => trivial
  have given : overlapping.shape.Every Shape.TypedAsLaidOut := by
    apply every_overlapping _ trivial trivial
    intro s parts
    cases s with
    | custom own type => exact absurd rfl parts
    | _ => trivial
  obtain ⟨inhabits, required⟩ := accepted_inhabits_type overlapping sound
  obtain ⟨only, then_open⟩ := required given _ rfl "b" .any (by simp)
  exact ⟨inhabits _ _ rfl, only (.dict [(.scalar (.text "a"), .text "x")]) _ _ rfl rfl rfl,
    then_open .any⟩

/-- A required field can be absent from an accepted value. -/
theorem required_field_absent :
    ¬ ∀ (s : Schema) (v w : Value), s.shape.Every Shape.SoundlyTyped →
      s.shape.Every Shape.TypedAsLaidOut → (s.validate v).result = .ok (.ok w) →
        ∀ layout, s.structFields = .ok layout → ∀ c, v.container? = some c →
          ∀ name t, (name, t, true) ∈ layout → ¬ c.Holds name .undefined := by
  intro never
  have sound : (openField "a" .any rfl).shape.Every Shape.SoundlyTyped :=
    every_openField rfl trivial fun _ _ => trivial
  have given : (openField "a" .any rfl).shape.Every Shape.TypedAsLaidOut :=
    every_openField rfl trivial trivial
  exact never (openField "a" .any rfl) (.dict []) (.dict []) sound given rfl _ rfl (.map []) rfl
    "a" .any (by simp) rfl

end Conform
