import Conform.Model
import Conform.Proofs.Absence

/-!
Record models beside the check that they export. A shape that takes the undefined value
has a type that admits it, through unions, literals and conjunctions. So what an accepted
map leaves out is optional in the layout, and a library that keeps to the layout has a
value for every declared field.
-/
namespace Conform

namespace TypeExpr

theorem isUndefined_of_sameCandidate (shared : Bool) {v w : Value}
    (absent : w.isUndefined = true) (same : sameCandidate shared v w = true) :
    v.isUndefined = true := by
  rw [Value.isUndefined_iff] at absent
  subst absent
  rcases Bool.or_eq_true_iff.mp same with one | typed
  · rw [Value.eq_of_identical (Bool.and_eq_true_iff.mp one).2]
    rfl
  · simp only [Value.sameTyped, Bool.and_eq_true, decide_eq_true_eq] at typed
    rw [eq_undefined_of_kind typed.1.2]
    rfl

theorem admitsUndefined_of_same {s t : TypeExpr} (equal : same s t = true)
    (admits : t.admitsUndefined = true) : s.admitsUndefined = true := by
  induction s using treeInduction generalizing t with
  | undefined => rfl
  | literal tag vs =>
    cases t with
    | literal n ws =>
      obtain ⟨w, member, absent⟩ := List.any_eq_true.mp admits
      obtain ⟨_, each⟩ := Bool.and_eq_true_iff.mp equal
      obtain ⟨v, candidate, same⟩ := List.any_eq_true.mp (List.all_eq_true.mp each w member)
      exact List.any_eq_true.mpr ⟨v, candidate, isUndefined_of_sameCandidate _ absent same⟩
    | _ => simp [same] at equal
  | union ss ih | pipe ss ih =>
    cases t with
    | union ts | pipe ts =>
      obtain ⟨t, member, inside⟩ := someAdmitUndefined_iff.mp admits
      obtain ⟨_, covered⟩ := Bool.and_eq_true_iff.mp equal
      obtain ⟨s, found, equal⟩ := someSame_iff.mp (List.all_eq_true.mp covered t member)
      exact someAdmitUndefined_iff.mpr ⟨s, found, ih s found equal inside⟩
    | _ => simp [same] at equal
  | _ => cases t <;> simp [same, admitsUndefined] at equal admits

theorem exists_member_admits {t : TypeExpr} (admits : t.admitsUndefined = true) :
    ∃ m ∈ t.members, m.admitsUndefined = true := by
  unfold members
  split
  · exact someAdmitUndefined_iff.mp admits
  · exact someAdmitUndefined_iff.mp admits
  · exact ⟨t, List.mem_singleton.mpr rfl, admits⟩

theorem unionOf_admitsUndefined {ts : List TypeExpr} {t u : TypeExpr} (united : unionOf ts = .ok u)
    (member : t ∈ ts) (admits : t.admitsUndefined = true) : u.admitsUndefined = true := by
  obtain ⟨m, part, inside⟩ := exists_member_admits admits
  have listed : m ∈ ts.flatMap members := List.mem_flatMap.mpr ⟨t, member, part⟩
  obtain ⟨k, kept, equal⟩ := (keepFirst_spec same (ts.flatMap members)).1 m listed
  have held : k.admitsUndefined = true := by
    rcases equal with rfl | equal
    · exact inside
    · exact admitsUndefined_of_same equal inside
  rcases (unionOf_ok united).2 with single | rfl
  · have only : k ∈ [u] := single ▸ kept
    rwa [← List.mem_singleton.mp only]
  · exact someAdmitUndefined_iff.mpr ⟨k, kept, held⟩

theorem oneOf_admitsUndefined {ts : List TypeExpr} {t u : TypeExpr} (united : oneOf ts = .ok u)
    (member : t ∈ ts) (admits : t.admitsUndefined = true) : u.admitsUndefined = true := by
  match ts with
  | [] => cases member
  | [s] =>
    cases united
    rwa [← List.mem_singleton.mp member]
  | _ :: _ :: _ => exact unionOf_admitsUndefined united member admits

theorem literalOf_admitsUndefined {tag : Nat} {values : List Value} {c : Value}
    (member : c ∈ values) (absent : c.isUndefined = true) :
    (literalOf tag values).admitsUndefined = true := by
  unfold literalOf
  split
  · exact List.any_eq_true.mpr ⟨c, member, absent⟩
  · obtain ⟨k, kept, equal⟩ := (keepFirst_spec Value.sameTyped values).1 c member
    refine List.any_eq_true.mpr ⟨k, kept, ?_⟩
    rcases equal with rfl | same
    · exact absent
    · exact isUndefined_of_sameCandidate false absent same

theorem admitsUndefined_of_required {name : String} {type : TypeExpr}
    {field : String × TypeExpr × Bool} (laid : layoutField name type = .ok field)
    (required : field.2.2 = true) : type.admitsUndefined = false := by
  unfold layoutField at laid
  split at laid
  · obtain ⟨_, _, same⟩ := except_bind_ok_iff.mp laid
    cases same
    cases required
  · rename_i refuses
    simpa using refuses

end TypeExpr

namespace Shape

open TypeExpr

/-- A custom check that takes the undefined value has a type that admits it. Every other shape
    gets its type from its parts. -/
def TypedAsAbsent : Shape → Prop
  | .custom own type => (own .undefined).result = .ok .accept → type.admitsUndefined = true
  | _ => True

theorem Builtin.typedAsAbsent {s : Shape} (builtin : s.Builtin) : s.TypedAsAbsent := by
  cases s with
  | custom own type => exact builtin.elim
  | _ => trivial

/-- The type of a shape that takes the undefined value admits it. The case of a conjunction of
    structs does not arise, since no struct takes the undefined value. -/
theorem admitsUndefined_of_admits {s : Shape} (honest : s.Every TypedAsAbsent) {t : TypeExpr}
    (typed : s.typeExpr = .ok t) (admits : s.Admits .undefined) : t.admitsUndefined = true := by
  induction s using treeInduction generalizing t with
  | atomic k =>
    cases typed
    cases k with
    | undefined => rfl
    | _ => cases admits
  | literal tag candidates =>
    obtain ⟨_, _, same⟩ := except_bind_ok_iff.mp typed
    cases same
    obtain ⟨c, member, found⟩ := admits
    have absent : c.isUndefined = true := by
      rw [eq_undefined_of_kind found.1]
      rfl
    rw [if_neg (by simp [List.ne_nil_of_mem member])]
    exact literalOf_admitsUndefined member absent
  | optional base ih =>
    obtain ⟨u, inner, united⟩ := except_bind_ok_iff.mp typed
    exact unionOf_admitsUndefined (t := .undefined) united (by simp) rfl
  | nullable base ih =>
    obtain ⟨u, inner, united⟩ := except_bind_ok_iff.mp typed
    rcases admits with impossible | admits
    · cases impossible
    · exact unionOf_admitsUndefined united (by simp)
        (ih (honest.at_child (by simp [children])) inner admits)
  | array item ih | tuple ss ih =>
    obtain ⟨_, opened, _⟩ := admits
    cases opened
  | record item ih =>
    obtain ⟨_, opened, _⟩ := admits
    cases opened
  | either left right ihLeft ihRight =>
    obtain ⟨u, first, rest⟩ := except_bind_ok_iff.mp typed
    obtain ⟨w, second, united⟩ := except_bind_ok_iff.mp rest
    rcases admits with admits | admits
    · exact oneOf_admitsUndefined united (by simp)
        (ihLeft (honest.at_child (by simp [children])) first admits)
    · exact oneOf_admitsUndefined united (by simp)
        (ihRight (honest.at_child (by simp [children])) second admits)
  | anyOf ss ih =>
    obtain ⟨us, types, united⟩ := typeExpr_anyOf typed
    obtain ⟨s, listed, inside⟩ := admitsSome_iff.mp admits
    obtain ⟨u, member, inner⟩ := exists_related (typeExprs_ok types) listed
    exact oneOf_admitsUndefined united member (ih s listed (honest.at_child listed) inner inside)
  | both left right ihLeft ihRight =>
    obtain ⟨u, first, rest⟩ := except_bind_ok_iff.mp typed
    obtain ⟨_, _, same⟩ := except_bind_ok_iff.mp rest
    cases same
    exact ihLeft (honest.at_child (by simp [children])) first admits.1
  | merge tag left right ihLeft ihRight =>
    obtain ⟨u, first, rest⟩ := except_bind_ok_iff.mp typed
    obtain ⟨w, second, same⟩ := except_bind_ok_iff.mp rest
    cases same
    have inside := ihLeft (honest.at_child (by simp [children])) first admits.1
    unfold TypeExpr.merge
    split
    · cases inside
    · exact inside
  | refined base refine ih => exact ih (honest.at_child (by simp [children])) typed admits.1
  | custom own type =>
    cases typed
    exact honest.at_root admits
  | struct tag closed fields ih =>
    obtain ⟨_, opened, _⟩ := admits
    cases opened

end Shape

/-- A library that makes records, as far as exported schemas rely on it: what the check turns
    down is turned down, and data that has all required fields is kept if it is plain. -/
structure RecordLibrary where
  make : RecordMaker
  keeps : TypeExpr → Value → Prop
  refused {title : String} {fields : TypeExpr.Layout}
    {before : Value → Except Fault (Except String Value)} {v : Value} {message : String}
    (checked : before v = .ok (.error message)) :
    make title fields before v = .ok (.error ⟨title, "Value error, " ++ message⟩)
  kept {title : String} {fields : TypeExpr.Layout}
    {before : Value → Except Fault (Except String Value)} {v w : Value}
    (checked : before v = .ok (.ok w))
    (present : ∀ field ∈ fields, field.2.2 = true → (Model.stored? w field.1).isSome)
    (plain : ∀ field ∈ fields, ∀ x ∈ Model.stored? w field.1, keeps field.2.1 x) :
    make title fields before v =
      .ok (.ok (fields.map fun field => (field.1, (Model.stored? w field.1).getD .null)))

theorem names_eq {α β : Type} {R : String × α → String × β → Prop} {xs : List (String × α)}
    {ys : List (String × β)} (related : List.Forall₂ R xs ys)
    (same : ∀ {x y}, R x y → x.1 = y.1) : xs.map (·.1) = ys.map (·.1) := by
  induction related with
  | nil => rfl
  | cons head _ ih => rw [List.map_cons, List.map_cons, same head, ih]

namespace Model

theorem stored?_map {v : Value} {es : List (Key × Value)} (opened : v.container? = some (.map es))
    (name : String) : stored? v name = valueUnder? es (.scalar (.text name)) := by
  unfold stored?
  rw [opened]

theorem fieldType_ok {entry field : String × TypeExpr × Bool}
    (typed : fieldType entry = .ok field) : field.1 = entry.1 ∧ field.2.2 = entry.2.2 := by
  obtain ⟨name, type, required⟩ := entry
  cases required with
  | true =>
    cases typed
    exact ⟨rfl, rfl⟩
  | false =>
    obtain ⟨_, _, same⟩ := except_bind_ok_iff.mp typed
    cases same
    exact ⟨rfl, rfl⟩

theorem of_ok {name : String} {s : Schema} {m : Model} (exported : of name s = .ok m) :
    m.name = name ∧ m.schema = s ∧ (∃ fields, s.shape.fields? = some fields) ∧
      ∃ layout, s.structFields = .ok layout ∧
        List.Forall₂ (fun entry field => fieldType entry = .ok field) layout m.fields := by
  unfold of at exported
  split at exported
  · rename_i struct
    obtain ⟨layout, laid, rest⟩ := except_bind_ok_iff.mp exported
    obtain ⟨fields, typed, same⟩ := except_bind_ok_iff.mp rest
    cases same
    exact ⟨rfl, rfl, Option.isSome_iff_exists.mp struct, layout, laid, forall₂_of_mapM typed⟩
  · cases exported

theorem of_struct {name : String} {s : Schema} {m : Model} (exported : of name s = .ok m) :
    ∃ tag closed declared, s.shape = .struct tag closed declared ∧
      m.fields.map (·.1) = declared.map (·.1) ∧
      ∀ field ∈ m.fields, field.2.2 = true → ∃ own ∈ declared, own.1 = field.1 ∧
        ∃ t, own.2.typeExpr = .ok t ∧ t.admitsUndefined = false := by
  obtain ⟨_, _, ⟨declared, fields⟩, layout, laid, typed⟩ := of_ok exported
  obtain ⟨tag, closed, shape⟩ : ∃ tag closed, s.shape = .struct tag closed declared := by
    cases form : s.shape with
    | struct tag closed own =>
      rw [form] at fields
      cases fields
      exact ⟨tag, closed, rfl⟩
    | _ =>
      rw [form] at fields
      cases fields
  obtain ⟨own, form⟩ := Schema.structFields_ok laid
  have built := s.typed
  rw [shape, form] at built
  obtain ⟨types, typedFields, structured⟩ := except_bind_ok_iff.mp built
  obtain ⟨_, same, placed⟩ := TypeExpr.structOf_ok structured
  cases same
  have each := Shape.fieldTypes_ok typedFields
  refine ⟨tag, closed, declared, shape, ?_, fun field member required => ?_⟩
  · calc
      m.fields.map (·.1) = layout.map (·.1) := names_eq typed.flip fun laid => (fieldType_ok laid).1
      _ = types.map (·.1) := names_eq placed.flip fun laid => (TypeExpr.layoutField_ok laid).1
      _ = declared.map (·.1) := names_eq each.flip fun own => own.1
  · obtain ⟨entry, listed, inModel⟩ := exists_related (List.Forall₂.flip typed) member
    obtain ⟨type, among, inLayout⟩ := exists_related (List.Forall₂.flip placed) listed
    obtain ⟨own, declared, named, inner⟩ := exists_related (List.Forall₂.flip each) among
    obtain ⟨name, kept⟩ := fieldType_ok inModel
    have sameName := (TypeExpr.layoutField_ok inLayout).1
    refine ⟨own, declared, by rw [name, sameName, named], type.2, inner, ?_⟩
    exact TypeExpr.admitsUndefined_of_required inLayout (kept ▸ required)

/-- A field is required in a model only if its shape does not take the undefined value. So an
    accepted map has it. -/
theorem stored_of_accepted {name : String} {s : Schema} {m : Model}
    (exported : of name s = .ok m) (honest : s.shape.Every Shape.TypedAsAbsent) {v : Value}
    {es : List (Key × Value)} (opened : v.container? = some (.map es))
    (accepts : s.shape.Accepts v) {field : String × TypeExpr × Bool} (member : field ∈ m.fields)
    (required : field.2.2 = true) : ∃ x, stored? v field.1 = some x := by
  obtain ⟨tag, closed, declared, shape, _, inside⟩ := of_struct exported
  obtain ⟨own, listed, named, t, typed, refuses⟩ := inside field member required
  rw [shape] at honest accepts
  obtain ⟨x, looked, accepted⟩ := ((Shape.struct_accepts_iff opened).mp accepts).1 own listed
  have admits := (Shape.check_decides own.2 x _ accepted).mp rfl
  cases looked
  rw [← named, stored?_map opened]
  cases found : valueUnder? es (.scalar (.text own.1)) with
  | some x => exact ⟨x, rfl⟩
  | none =>
    rw [found] at admits
    have absent := Shape.admitsUndefined_of_admits (honest.at_child (Shape.field_child listed))
      typed admits
    rw [refuses] at absent
    cases absent

end Model

/-- The layout of a model asks for nothing that the check lets pass. What the check turns down
    is turned down with its message. What it accepts has an entry for every required field, and
    the library makes of it, as long as it keeps the data as it is, the record of all declared
    fields, with null for those that are absent. -/
theorem exported_layout_agrees (library : RecordLibrary) {name : String} {s : Schema} {m : Model}
    (exported : Model.of name s = .ok m) (honest : s.shape.Every Shape.TypedAsAbsent) {v : Value}
    {es : List (Key × Value)} (opened : v.container? = some (.map es)) :
    (∀ error, (s.validate v).result = .ok (.error error) →
      (m.receive library.make v).result =
        .ok (.error ⟨name, "Value error, " ++ error.message⟩)) ∧
    ((s.validate v).result = .ok (.ok v) →
      (∀ field ∈ m.fields, field.2.2 = true →
        ∃ e ∈ es, e.1.same (.scalar (.text field.1)) = true) ∧
      (∃ declared, s.shape.fields? = some declared ∧ m.fields.map (·.1) = declared.map (·.1)) ∧
      ((∀ field ∈ m.fields, ∀ x ∈ Model.stored? v field.1, library.keeps field.2.1 x) →
        (m.receive library.make v).result = .ok (.ok (m.fields.map fun field =>
          (field.1, (Model.stored? v field.1).getD .null))))) := by
  obtain ⟨title, schema, _⟩ := Model.of_ok exported
  constructor
  · intro error refused
    have checked : m.checkShape v = .ok (.error error.message) := by
      rw [Model.checkShape, schema, refused]
    rw [← title]
    exact library.refused checked
  · intro accepted
    have checked : m.checkShape v = .ok (.ok v) := by
      rw [Model.checkShape, schema, accepted]
    have accepts := (Schema.validate_accept_iff.mp accepted).1
    have present : ∀ field ∈ m.fields, field.2.2 = true → ∃ x, Model.stored? v field.1 = some x :=
      fun field member required =>
        Model.stored_of_accepted exported honest opened accepts member required
    refine ⟨fun field member required => ?_, ?_, fun plain => ?_⟩
    · obtain ⟨x, stored⟩ := present field member required
      rw [Model.stored?_map opened] at stored
      obtain ⟨e, found, _⟩ := Option.map_eq_some_iff.mp stored
      have same := List.find?_some found
      exact ⟨e, List.mem_of_find?_eq_some found, same⟩
    · obtain ⟨tag, closed, declared, shape, names, _⟩ := Model.of_struct exported
      exact ⟨declared, by rw [shape]; rfl, names⟩
    · exact library.kept checked
        (fun field member required => Option.isSome_iff_exists.mpr (present field member required))
        plain

def stagedRecords : RecordLibrary where
  make := stagedRecord
  keeps type x := type.Inhabits x
  refused checked := by
    rw [stagedRecord, checked]
    rfl
  kept checked present _ := by
    rw [stagedRecord, checked]
    exact if_pos present

def contact : Schema where
  shape := .struct 0 true [("name", .atomic .string), ("email", .optional (.atomic .string))]
  type := .struct 0 [("name", .text, true), ("email", .text, false)]
  typed := rfl

def contactModel : Model :=
  ⟨"Contact", contact, [("name", .text, true), ("email", .union [.text, .none], false)]⟩

theorem contact_made :
    (contactModel.receive stagedRecord (.dict [(.scalar (.text "email"), .text "a@b")])).result =
      .ok (.error ⟨"Contact", "Value error, in name: Expected string, got undefined"⟩) ∧
    (contactModel.receive stagedRecord (.dict [(.scalar (.text "name"), .text "Ada")])).result =
      .ok (.ok [("name", .text "Ada"), ("email", .null)]) := by
  have leaf : (Shape.atomic .string).Every Shape.Builtin := .leaf trivial rfl
  have builtin : contact.shape.Every Shape.Builtin :=
    .node trivial (List.forall_mem_cons.mpr ⟨leaf, List.forall_mem_singleton.mpr
      (.node trivial (List.forall_mem_singleton.mpr leaf))⟩)
  have honest := builtin.mono fun _ own => own.typedAsAbsent
  have exported : Model.of "Contact" contact = .ok contactModel := rfl
  have nameless := exported_layout_agrees stagedRecords exported honest
    (show (Value.dict [(.scalar (.text "email"), .text "a@b")]).container? = _ from rfl)
  have named := exported_layout_agrees stagedRecords exported honest
    (show (Value.dict [(.scalar (.text "name"), .text "Ada")]).container? = _ from rfl)
  refine ⟨nameless.1 ⟨_, _, _⟩ rfl, (named.2 rfl).2.2 fun field member x stored => ?_⟩
  rcases List.mem_pair.mp member with rfl | rfl
  · cases stored
    rfl
  · cases stored

end Conform
