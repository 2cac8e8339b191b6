import Conform.Proofs.ClosedStructs

/-!
Merges of struct types. In a merged layout the places of the right operand come first and the
fields of the left one count, so precedence and order go in opposite directions. Yet both ways
to bracket three operands give one layout, and a merge of structs without a common name is the
struct of all their fields.
-/
namespace Conform

namespace TypeExpr

namespace Layout

def names (layout : Layout) : List String := layout.map (·.1)

variable {layout left right : Layout} {name : String}

theorem find?_cons (field : String × TypeExpr × Bool) (layout : Layout) (name : String) :
    find? (field :: layout) name = if field.1 = name then some field.2 else find? layout name := by
  unfold find?
  rw [List.find?_cons]
  by_cases same : field.1 = name
  · simp [same]
  · simp [same, beq_false_of_ne same]

theorem find?_append (left right : Layout) (name : String) :
    find? (left ++ right) name = (find? left name).or (find? right name) := by
  unfold find?
  rw [List.find?_append, Option.map_or]

theorem find?_isNone_iff : (find? layout name).isNone ↔ name ∉ layout.names := by
  induction layout with
  | nil => simp [find?, names]
  | cons field layout ih =>
    rw [find?_cons, names, List.map_cons, List.mem_cons, not_or, ← names, ← ih]
    by_cases same : field.1 = name
    · simp [same]
    · simp [same, Ne.symm same]

theorem find?_map (update : String → TypeExpr × Bool → TypeExpr × Bool) (layout : Layout)
    (name : String) :
    find? (layout.map fun (n, own) => (n, update n own)) name =
      (find? layout name).map (update name) := by
  induction layout with
  | nil => rfl
  | cons field layout ih =>
    rw [List.map_cons, find?_cons, find?_cons, ih]
    by_cases same : field.1 = name
    · simp [same]
    · simp [same]

theorem find?_filter (keep : String → Bool) (layout : Layout) (name : String) :
    find? (layout.filter fun (n, _) => keep n) name =
      if keep name then find? layout name else Option.none := by
  induction layout with
  | nil => simp [find?]
  | cons field layout ih =>
    rw [List.filter_cons, find?_cons]
    by_cases same : field.1 = name
    · subst same
      by_cases kept : keep field.1
      · simp [kept, find?_cons]
      · simp [kept, ih]
    · by_cases kept : keep field.1
      · simp [kept, find?_cons, same, ih]
      · simp [kept, same, ih]

end Layout

open Layout

theorem find?_mergeLayouts (left right : Layout) (name : String) :
    (mergeLayouts left right).find? name = (left.find? name).or (right.find? name) := by
  rw [mergeLayouts, find?_append, find?_map fun n own => (left.find? n).getD own,
    find?_filter fun n => (right.find? n).isNone]
  cases left.find? name <;> cases right.find? name <;> rfl

theorem names_mergeLayouts (left right : Layout) :
    (mergeLayouts left right).names =
      right.names ++ left.names.filter fun name => (right.find? name).isNone := by
  unfold mergeLayouts names
  rw [List.map_append, List.map_map, List.filter_map]
  rfl

theorem mem_names_mergeLayouts {left right : Layout} {name : String} :
    name ∈ (mergeLayouts left right).names ↔ name ∈ left.names ∨ name ∈ right.names := by
  rw [names_mergeLayouts, List.mem_append, List.mem_filter, find?_isNone_iff]
  tauto

theorem nodup_names_mergeLayouts {left right : Layout} (first : left.names.Nodup)
    (second : right.names.Nodup) : (mergeLayouts left right).names.Nodup := by
  rw [names_mergeLayouts]
  apply second.append (first.filter _)
  intro name inRight kept
  have absent := find?_isNone_iff.mp (List.mem_filter.mp kept).2
  exact absent inRight

theorem mergeLayouts_assoc (first second third : Layout) :
    mergeLayouts (mergeLayouts first second) third =
      mergeLayouts first (mergeLayouts second third) := by
  -- what is found in the inner merges does not depend on their order
  have owners : ∀ name own, ((mergeLayouts first second).find? name).getD own =
      (first.find? name).getD ((second.find? name).getD own) := by
    intro name own
    rw [find?_mergeLayouts]
    cases first.find? name <;> rfl
  have absent : ∀ name, ((mergeLayouts second third).find? name).isNone =
      ((second.find? name).isNone && (third.find? name).isNone) := by
    intro name
    rw [find?_mergeLayouts]
    cases second.find? name <;> rfl
  calc mergeLayouts (mergeLayouts first second) third
    _ = third.map (fun (name, own) => (name, (first.find? name).getD
            ((second.find? name).getD own))) ++
          (mergeLayouts first second).filter fun (name, _) => (third.find? name).isNone := by
      rw [mergeLayouts]
      simp only [owners]
    _ = List.map (fun (name, own) => (name, (first.find? name).getD own))
            (third.map (fun (name, own) => (name, (second.find? name).getD own)) ++
              second.filter fun (name, _) => (third.find? name).isNone) ++
          first.filter fun (name, _) =>
            (second.find? name).isNone && (third.find? name).isNone := by
      rw [mergeLayouts, List.filter_append, List.filter_map, List.filter_filter, List.map_append,
        List.map_map, List.append_assoc]
      simp only [Function.comp_def, Bool.and_comm]
    _ = mergeLayouts first (mergeLayouts second third) := by
      simp only [← absent]
      rfl

/-- The fields of some layouts, each name once and with the leftmost that has it. -/
structure Layout.LeftmostOf (layout : Layout) (operands : List Layout) : Prop where
  once : layout.names.Nodup
  names : ∀ name, name ∈ layout.names ↔ ∃ operand ∈ operands, name ∈ operand.names
  owner : ∀ name, layout.find? name = operands.findSome? fun operand => operand.find? name

theorem Layout.leftmostOf_single {layout : Layout} (once : layout.names.Nodup) :
    layout.LeftmostOf [layout] where
  once := once
  names := by
    intro name
    simp
  owner := by
    intro name
    cases found : layout.find? name <;> simp [List.findSome?, found]

theorem Layout.LeftmostOf.merge {layout left : Layout} {operands : List Layout}
    (rest : layout.LeftmostOf operands) (once : left.names.Nodup) :
    (mergeLayouts left layout).LeftmostOf (left :: operands) where
  once := nodup_names_mergeLayouts once rest.once
  names := by
    intro name
    rw [mem_names_mergeLayouts, rest.names, List.exists_mem_cons_iff]
  owner := by
    intro name
    rw [find?_mergeLayouts, rest.owner, List.findSome?_cons]
    cases left.find? name <;> rfl

theorem mergeLayouts_of_disjoint {left right : Layout}
    (disjoint : left.names.Disjoint right.names) : mergeLayouts left right = right ++ left := by
  have kept : ∀ field ∈ right, (field.1, (left.find? field.1).getD field.2) = field := by
    intro field listed
    have foreign : field.1 ∉ left.names := fun own =>
      disjoint own (List.mem_map_of_mem listed)
    rw [Option.isNone_iff_eq_none.mp (find?_isNone_iff.mpr foreign)]
    rfl
  have fresh : ∀ field ∈ left, (right.find? field.1).isNone = true := by
    intro field listed
    exact find?_isNone_iff.mpr (disjoint (List.mem_map_of_mem listed))
  have same : right.map (fun field => (field.1, (left.find? field.1).getD field.2)) = right :=
    (List.map_congr_left kept).trans (List.map_id right)
  exact congrArg₂ (· ++ ·) same (List.filter_eq_self.mpr fresh)

/-- The struct types of structs, whose fields have distinct names, and of their merges. -/
inductive StructBuilt : TypeExpr → Prop where
  | struct {tag : Nat} {types : List (String × TypeExpr)} {t : TypeExpr}
      (distinct : (types.map (·.1)).Nodup) (built : structOf tag types = .ok t) : StructBuilt t
  | merge {tag : Nat} {s t : TypeExpr} (left : StructBuilt s) (right : StructBuilt t) :
      StructBuilt (TypeExpr.merge tag s t)

theorem structOf_eq_map (tag : Nat) (types : List (String × TypeExpr)) :
    structOf tag types =
      (types.mapM fun (name, type) => layoutField name type).map (.struct tag) :=
  bind_pure_comp (TypeExpr.struct tag) _

theorem names_of_mapM {types : List (String × TypeExpr)} {layout : Layout}
    (laid : types.mapM (fun (name, type) => layoutField name type) = .ok layout) :
    layout.names = types.map (·.1) := by
  have related := forall₂_of_mapM laid
  clear laid
  induction related with
  | nil => rfl
  | cons head tail ih => exact congrArg₂ List.cons (layoutField_ok head).1 ih

theorem StructBuilt.exists_layout {t : TypeExpr} (built : t.StructBuilt) :
    ∃ tag, ∃ layout : Layout, t = .struct tag layout ∧ layout.names.Nodup := by
  induction built with
  | @struct tag types t distinct built =>
    obtain ⟨layout, laid, same⟩ := except_bind_ok_iff.mp built
    cases same
    exact ⟨tag, layout, rfl, (names_of_mapM laid).symm ▸ distinct⟩
  | @merge tag s t left right ihLeft ihRight =>
    obtain ⟨_, ls, rfl, first⟩ := ihLeft
    obtain ⟨_, rs, rfl, second⟩ := ihRight
    exact ⟨tag, mergeLayouts ls rs, rfl, nodup_names_mergeLayouts first second⟩

end TypeExpr

theorem Check.andThen_bind {α : Type} (r : Run α) (next : α → Run Verdict)
    (last : Unit → Run Verdict) :
    andThen (r >>= next) last = r >>= fun a => andThen (next a) last :=
  bind_assoc r next _

theorem Build.run_bind {α β : Type} {first : Build α} {tag next : Nat} {a : α}
    (built : first.run tag = .ok (a, next)) (rest : α → Build β) :
    (first >>= rest).run tag = (rest a).run next := by
  rw [StateT.run_bind, built]
  rfl

theorem Build.run_bind_error {α β : Type} {first : Build α} {tag : Nat} {fault : Fault}
    (stopped : first.run tag = .error fault) (rest : α → Build β) :
    (first >>= rest).run tag = .error fault := by
  rw [StateT.run_bind, stopped]
  rfl

theorem Check.andThen_assoc (first : Run Verdict) (second third : Unit → Run Verdict) :
    andThen (andThen first second) third = andThen first fun _ => andThen (second ()) third := by
  unfold andThen
  rw [bind_assoc]
  congr 1
  funext verdict
  cases verdict with
  | accept => rfl
  | reject f => rfl

namespace Schema

open TypeExpr

def merged (left : Schema) (tag : Nat) (right : Schema) : Schema where
  shape := .merge tag left.shape right.shape
  type := TypeExpr.merge tag left.type right.type
  typed := by
    rw [Shape.typeExpr, left.typed, right.typed]
    rfl

theorem of_error {shape : Shape} {fault : Fault} (stopped : shape.typeExpr = .error fault) :
    of shape = .error fault := by
  unfold of
  split
  · rename_i type typed
    cases typed.symm.trans stopped
  · rename_i other known
    cases known.symm.trans stopped
    rfl

theorem of_typed (s : Schema) : of s.shape = .ok s := by
  obtain ⟨shape, type, typed⟩ := s
  unfold of
  split
  · rename_i other known
    cases typed.symm.trans known
    rfl
  · rename_i fault unknown
    cases typed.symm.trans unknown

theorem merge_run (left right : Schema) (tag : Nat) :
    (left.merge right).run tag = .ok (left.merged tag right, tag + 1) := by
  change StateT.lift (of (left.merged tag right).shape) (tag + 1) = _
  rw [of_typed]
  rfl

theorem type_merged {left right : Schema} {m n : Nat} {ls rs : Layout} (tag : Nat)
    (first : left.type = .struct m ls) (second : right.type = .struct n rs) :
    (left.merged tag right).type = .struct tag (mergeLayouts ls rs) := by
  change TypeExpr.merge tag left.type right.type = _
  rw [first, second]
  rfl

theorem structFields_eq {s : Schema} {tag : Nat} {layout : Layout}
    (typed : s.type = .struct tag layout) : s.structFields = .ok layout := by
  rw [Schema.structFields, typed]
  rfl

end Schema

theorem entriesBy_append_of_disjoint {α : Type} {pairs others : List (String × α)}
    (disjoint : (pairs.map (·.1)).Disjoint (others.map (·.1))) :
    entriesBy (· == ·) (pairs ++ others) =
      entriesBy (· == ·) pairs ++ entriesBy (· == ·) others := by
  induction others using List.reverseRecOn with
  | nil => rw [List.append_nil, entriesBy, entriesBy, List.foldl_nil, List.append_nil]
  | append_singleton others pair ih =>
    rw [List.map_append, List.disjoint_append_right] at disjoint
    have fresh : pair.1 ∉ (entriesBy (· == ·) pairs).map (·.1) := by
      intro old
      exact disjoint.2 (mem_names_entriesBy.mp old) (List.mem_singleton.mpr rfl)
    rw [← List.append_assoc, entriesBy_append_singleton, entriesBy_append_singleton,
      ih disjoint.1, putEntry_append (fresh_of_not_mem fresh)]

theorem entriesBy_map {α β : Type} (f : α → β) (pairs : List (String × α)) :
    entriesBy (· == ·) (pairs.map fun (name, x) => (name, f x)) =
      (entriesBy (· == ·) pairs).map fun (name, x) => (name, f x) := by
  have written : ∀ (es : List (String × α)) (k : String) (x : α),
      putEntry (· == ·) (es.map fun (name, y) => (name, f y)) k (f x) =
        (putEntry (· == ·) es k x).map fun (name, y) => (name, f y) := by
    intro es k x
    induction es with
    | nil => rfl
    | cons e es ih =>
      rw [List.map_cons, putEntry, putEntry, ih]
      split <;> rfl
  induction pairs using List.reverseRecOn with
  | nil => rfl
  | append_singleton pairs pair ih =>
    rw [entriesBy_append_singleton, ← written, ← ih, List.map_append]
    exact entriesBy_append_singleton _ (pair.1, f pair.2)

namespace Shape

open Check

theorem checkFields_append (fields others : List (String × Shape)) (c : Container) :
    checkFields (fields ++ others) c =
      andThen (checkFields fields c) fun _ => checkFields others c := by
  induction fields with
  | nil => rfl
  | cons field fields ih =>
    obtain ⟨name, s⟩ := field
    rw [List.cons_append, checkFields, checkFields, ih, andThen_bind]
    simp only [andThen_assoc]

theorem check_merge_structs (tag m n k : Nat) (fields others : List (String × Shape)) (v : Value) :
    check (.merge tag (.struct m false fields) (.struct n false others)) v =
      check (.struct k false (fields ++ others)) v := by
  rw [check, check, check, check]
  cases v.container? with
  | none =>
    apply andThen_stopped
    intro accepted
    obtain ⟨_, _, impossible⟩ := expect_result_iff.mp accepted
    cases impossible
  | some c =>
    simp only [Bool.false_eq_true, if_false, andThen_accept]
    exact (checkFields_append fields others c).symm

theorem fieldTypes_map (fields : List (String × Schema)) :
    fieldTypes (fields.map fun (name, s) => (name, s.shape)) =
      .ok (fields.map fun (name, s) => (name, s.type)) := by
  induction fields with
  | nil => rfl
  | cons field fields ih =>
    rw [List.map_cons, fieldTypes, field.2.typed, ih]
    rfl

end Shape

namespace Schema

open TypeExpr

def layoutOf (fields : List (String × Schema)) : Except Fault Layout :=
  ((entriesBy (· == ·) fields).map fun (name, s) => (name, s.type)).mapM
    fun (name, type) => layoutField name type

theorem names_layoutOf {fields : List (String × Schema)} {layout : Layout}
    (laid : layoutOf fields = .ok layout) :
    layout.names = (entriesBy (· == ·) fields).map (·.1) := by
  rw [names_of_mapM laid, List.map_map]
  rfl

theorem layoutOf_append {fields others : List (String × Schema)}
    (disjoint : (fields.map (·.1)).Disjoint (others.map (·.1))) :
    layoutOf (fields ++ others) =
      layoutOf fields >>= fun left => layoutOf others >>= fun right => .ok (left ++ right) := by
  rw [layoutOf, entriesBy_append_of_disjoint disjoint, List.map_append, List.mapM_append]
  rfl

theorem typeExpr_struct (closed : Bool) (fields : List (String × Schema)) (tag : Nat) :
    (Shape.struct tag closed
      (entriesBy (· == ·) (fields.map fun (name, s) => (name, s.shape)))).typeExpr =
        (layoutOf fields).map (.struct tag) := by
  rw [entriesBy_map, Shape.typeExpr, Shape.fieldTypes_map]
  exact structOf_eq_map tag _

theorem struct_run_ok (closed : Bool) {fields : List (String × Schema)} {layout : Layout}
    (laid : layoutOf fields = .ok layout) (tag : Nat) :
    ∃ s : Schema, (struct closed fields).run tag = .ok (s, tag + 1) ∧
      s.shape = .struct tag closed
        ((entriesBy (· == ·) fields).map fun (name, own) => (name, own.shape)) ∧
      s.type = .struct tag layout := by
  have typed := typeExpr_struct closed fields tag
  rw [laid] at typed
  refine ⟨⟨_, _, typed⟩, ?built, ?shape, rfl⟩
  case built =>
    rw [struct_run]
    exact congrArg (Except.map _) (of_typed ⟨_, _, typed⟩)
  case shape => exact congrArg (Shape.struct tag closed) (entriesBy_map shape fields)

theorem struct_run_error (closed : Bool) {fields : List (String × Schema)} {fault : Fault}
    (stopped : layoutOf fields = .error fault) (tag : Nat) :
    (struct closed fields).run tag = .error fault := by
  have typed := typeExpr_struct closed fields tag
  rw [stopped] at typed
  rw [struct_run, of_error typed]
  rfl

theorem structBuilt_struct {closed : Bool} {fields : List (String × Schema)} {tag next : Nat}
    {s : Schema} (built : (struct closed fields).run tag = .ok (s, next)) :
    s.type.StructBuilt := by
  cases laid : layoutOf fields with
  | error fault =>
    rw [struct_run_error closed laid] at built
    cases built
  | ok layout =>
    obtain ⟨_, made, _, typed⟩ := struct_run_ok closed laid tag
    cases made.symm.trans built
    rw [typed]
    have distinct := nodup_names_entriesBy fields
    have structured := congrArg (Except.map (TypeExpr.struct tag)) laid
    rw [layoutOf, ← structOf_eq_map] at structured
    refine .struct ?_ structured
    rwa [List.map_map]

theorem structBuilt_merged {left right : Schema} (tag : Nat) (first : left.type.StructBuilt)
    (second : right.type.StructBuilt) : (left.merged tag right).type.StructBuilt :=
  .merge first second

end Schema

/-- Three schemas with struct types can be merged in both ways, and these check alike and have
    one layout. -/
theorem merge_associative {a b c : Schema} (first : a.type.StructBuilt)
    (second : b.type.StructBuilt) (third : c.type.StructBuilt) (tag other : Nat) :
    ∃ (left right : Schema) (la lb lc layout : TypeExpr.Layout),
      (do let ab ← a.merge b; ab.merge c : Build Schema).run tag = .ok (left, tag + 2) ∧
      (do let bc ← b.merge c; a.merge bc : Build Schema).run other = .ok (right, other + 2) ∧
      (∀ v, left.validate v = right.validate v) ∧
      (a.structFields = .ok la ∧ b.structFields = .ok lb ∧ c.structFields = .ok lc) ∧
      left.structFields = .ok layout ∧ right.structFields = .ok layout ∧
      layout.LeftmostOf [la, lb, lc] := by
  obtain ⟨_, la, typedA, onceA⟩ := first.exists_layout
  obtain ⟨_, lb, typedB, onceB⟩ := second.exists_layout
  obtain ⟨_, lc, typedC, onceC⟩ := third.exists_layout
  have leftType := Schema.type_merged (tag + 1) (Schema.type_merged tag typedA typedB) typedC
  have rightType := Schema.type_merged (other + 1) typedA (Schema.type_merged other typedB typedC)
  rw [TypeExpr.mergeLayouts_assoc] at leftType
  refine ⟨(a.merged tag b).merged (tag + 1) c, a.merged (other + 1) (b.merged other c), la, lb, lc,
    TypeExpr.mergeLayouts la (TypeExpr.mergeLayouts lb lc), ?leftBuilt, ?rightBuilt, ?alike,
    ⟨Schema.structFields_eq typedA, Schema.structFields_eq typedB, Schema.structFields_eq typedC⟩,
    Schema.structFields_eq leftType, Schema.structFields_eq rightType, ?leftmost⟩
  case leftBuilt =>
    rw [Build.run_bind (Schema.merge_run a b tag)]
    exact Schema.merge_run _ _ _
  case rightBuilt =>
    rw [Build.run_bind (Schema.merge_run b c other)]
    exact Schema.merge_run _ _ _
  case alike =>
    intro v
    apply Schema.validate_congr
    exact Check.andThen_assoc _ _ _
  case leftmost =>
    exact ((TypeExpr.Layout.leftmostOf_single onceC).merge onceB).merge onceA

def remark : Schema where
  shape := .optional (.atomic .string)
  type := .union [.text, .undefined]
  typed := rfl

def numberedRow : Schema where
  shape := .struct 0 false [("id", .atomic .number)]
  type := .struct 0 [("id", .union [.int, .float], true)]
  typed := rfl

def namedRow : Schema where
  shape := .struct 1 true [("id", .atomic .string), ("note", .optional (.atomic .string))]
  type := .struct 1 [("id", .text, true), ("note", .text, false)]
  typed := rfl

def notedRow : Schema where
  shape := .struct 2 false [("note", .atomic .boolean)]
  type := .struct 2 [("note", .bool, true)]
  typed := rfl

def markRow : Schema where
  shape := .struct 3 false [("mark", .atomic .boolean)]
  type := .struct 3 [("mark", .bool, true)]
  typed := rfl

def markedRow : Schema := notedRow.merged 4 markRow

/-- The last operand is a merge itself. It decides where a field stands, the first one what it
    is. -/
theorem rows_merged :
    ∃ left right : Schema,
      (do let ab ← numberedRow.merge namedRow; ab.merge markedRow : Build Schema).run 5 =
        .ok (left, 7) ∧
      (do let bc ← namedRow.merge markedRow; numberedRow.merge bc : Build Schema).run 7 =
        .ok (right, 9) ∧
      (∀ v, left.validate v = right.validate v) ∧
      left.structFields = .ok [("mark", .bool, true), ("note", .text, false),
        ("id", .union [.int, .float], true)] ∧
      right.structFields = left.structFields := by
  have numbered : (Schema.struct false
      [("id", ⟨.atomic .number, .union [.int, .float], rfl⟩)]).run 0 = .ok (numberedRow, 1) := rfl
  have named : (Schema.struct true
      [("id", ⟨.atomic .string, .text, rfl⟩), ("note", remark)]).run 1 = .ok (namedRow, 2) := rfl
  have noted : (Schema.struct false [("note", flag)]).run 2 = .ok (notedRow, 3) := rfl
  have marked : (Schema.struct false [("mark", flag)]).run 3 = .ok (markRow, 4) := rfl
  have merged : markedRow.type.StructBuilt := Schema.structBuilt_merged 4
    (Schema.structBuilt_struct noted) (Schema.structBuilt_struct marked)
  obtain ⟨left, right, _, _, _, _, leftBuilt, rightBuilt, alike, _, leftFields, rightFields, _⟩ :=
    merge_associative (Schema.structBuilt_struct numbered) (Schema.structBuilt_struct named) merged
      5 7
  refine ⟨left, right, leftBuilt, rightBuilt, alike, ?_, rightFields.trans leftFields.symm⟩
  cases leftBuilt
  rfl

namespace Schema

open TypeExpr

theorem optionalFields_eq {s : Schema} {layout : Layout} (fields : s.structFields = .ok layout) :
    s.optionalFields = .ok ((layout.filter fun (_, _, required) => !required).map (·.1)) := by
  rw [optionalFields, fields]
  rfl

end Schema

def structsMerged (fields others : List (String × Schema)) : Build Schema := do
  let left ← Schema.struct false fields
  let right ← Schema.struct false others
  left.merge right

section

variable {fields others : List (String × Schema)}

theorem structsMerged_run_ok {ls rs : TypeExpr.Layout} (first : Schema.layoutOf fields = .ok ls)
    (second : Schema.layoutOf others = .ok rs) (tag : Nat) :
    ∃ left right : Schema,
      (structsMerged fields others).run tag = .ok (left.merged (tag + 2) right, tag + 3) ∧
      left.shape = .struct tag false
        ((entriesBy (· == ·) fields).map fun (name, s) => (name, s.shape)) ∧
      right.shape = .struct (tag + 1) false
        ((entriesBy (· == ·) others).map fun (name, s) => (name, s.shape)) ∧
      left.type = .struct tag ls ∧ right.type = .struct (tag + 1) rs := by
  obtain ⟨left, leftBuilt, leftShape, leftType⟩ := Schema.struct_run_ok false first tag
  obtain ⟨right, rightBuilt, rightShape, rightType⟩ := Schema.struct_run_ok false second (tag + 1)
  refine ⟨left, right, ?_, leftShape, rightShape, leftType, rightType⟩
  rw [structsMerged, Build.run_bind leftBuilt, Build.run_bind rightBuilt]
  exact Schema.merge_run left right (tag + 2)

variable (disjoint : (fields.map (·.1)).Disjoint (others.map (·.1)))
include disjoint

/-- What keeps the struct of all fields from being built keeps one of the two from it. -/
theorem structsMerged_run_error {fault : Fault}
    (stopped : Schema.layoutOf (fields ++ others) = .error fault) (tag : Nat) :
    (structsMerged fields others).run tag = .error fault := by
  rw [Schema.layoutOf_append disjoint] at stopped
  unfold structsMerged
  rcases except_bind_error_iff.mp stopped with first | ⟨ls, first, stopped⟩
  · exact Build.run_bind_error (Schema.struct_run_error false first tag) _
  · obtain ⟨left, leftBuilt, _, _⟩ := Schema.struct_run_ok false first tag
    rw [Build.run_bind leftBuilt]
    rcases except_bind_error_iff.mp stopped with second | ⟨_, _, impossible⟩
    · exact Build.run_bind_error (Schema.struct_run_error false second _) _
    · cases impossible

theorem disjoint_layouts {ls rs : TypeExpr.Layout} (first : Schema.layoutOf fields = .ok ls)
    (second : Schema.layoutOf others = .ok rs) : ls.names.Disjoint rs.names := by
  rw [Schema.names_layoutOf first, Schema.names_layoutOf second]
  intro name inLeft inRight
  exact disjoint (mem_names_entriesBy.mp inLeft) (mem_names_entriesBy.mp inRight)

end

/-- Where no name is in both, the merge of two open structs and the struct of all their fields
    cannot be built for one and the same reason, or are built and check alike. They have the same
    fields then, in an order of their own. -/
theorem merge_of_disjoint_structs (fields others : List (String × Schema))
    (disjoint : (fields.map (·.1)).Disjoint (others.map (·.1))) (tag other : Nat) :
    (∃ fault, (structsMerged fields others).run tag = .error fault ∧
      (Schema.struct false (fields ++ others)).run other = .error fault) ∨
    ∃ merged flat : Schema, ∃ layout layout' : TypeExpr.Layout, ∃ names names' : List String,
      (structsMerged fields others).run tag = .ok (merged, tag + 3) ∧
      (Schema.struct false (fields ++ others)).run other = .ok (flat, other + 1) ∧
      (∀ v, merged.validate v = flat.validate v) ∧
      merged.structFields = .ok layout ∧ flat.structFields = .ok layout' ∧
      layout.Perm layout' ∧ (∀ name, layout.find? name = layout'.find? name) ∧
      merged.optionalFields = .ok names ∧ flat.optionalFields = .ok names' ∧
      names.Perm names' := by
  cases appended : Schema.layoutOf (fields ++ others) with
  | error fault =>
    exact Or.inl ⟨fault, structsMerged_run_error disjoint appended tag,
      Schema.struct_run_error false appended other⟩
  | ok layout =>
    obtain ⟨flat, flatBuilt, flatShape, flatType⟩ := Schema.struct_run_ok false appended other
    rw [Schema.layoutOf_append disjoint] at appended
    obtain ⟨ls, first, rest⟩ := except_bind_ok_iff.mp appended
    obtain ⟨rs, second, same⟩ := except_bind_ok_iff.mp rest
    cases same
    obtain ⟨l, r, mergedBuilt, leftShape, rightShape, leftType, rightType⟩ :=
      structsMerged_run_ok first second tag
    have apart := disjoint_layouts disjoint first second
    have mergedType := Schema.type_merged (tag + 2) leftType rightType
    rw [TypeExpr.mergeLayouts_of_disjoint apart] at mergedType
    have mergedFields := Schema.structFields_eq mergedType
    have flatFields := Schema.structFields_eq flatType
    -- the fields of the right operand come first in a merge, and last in the struct
    have moved : (rs ++ ls).Perm (ls ++ rs) := List.perm_append_comm
    refine Or.inr ⟨l.merged (tag + 2) r, flat, _, _, _, _, mergedBuilt, flatBuilt, ?alike,
      mergedFields, flatFields, moved, ?found, Schema.optionalFields_eq mergedFields,
      Schema.optionalFields_eq flatFields, (moved.filter _).map _⟩
    case alike =>
      intro v
      apply Schema.validate_congr
      rw [flatShape, entriesBy_append_of_disjoint disjoint, List.map_append]
      change Shape.check (.merge (tag + 2) l.shape r.shape) v = _
      rw [leftShape, rightShape]
      exact Shape.check_merge_structs _ _ _ _ _ _ v
    case found =>
      intro name
      rw [← TypeExpr.mergeLayouts_of_disjoint apart, TypeExpr.find?_mergeLayouts,
        TypeExpr.Layout.find?_append]

def falseRemark : Value :=
  .dict [(.scalar (.text "on"), .scalar (.bool true)),
    (.scalar (.text "remark"), .scalar (.bool false))]

theorem remark_merged :
    ∃ merged flat : Schema, ∃ names : List String,
      (structsMerged [("on", flag)] [("remark", remark)]).run 0 = .ok (merged, 3) ∧
      (Schema.struct false [("on", flag), ("remark", remark)]).run 0 = .ok (flat, 1) ∧
      (merged.validate falseRemark).result = .ok (.error ⟨"in remark: Expected string, got false",
        [.name "remark"], "Expected string, got false"⟩) ∧
      merged.optionalFields = .ok names ∧ names.Perm ["remark"] := by
  have apart : ["on"].Disjoint ["remark"] := by simp
  rcases merge_of_disjoint_structs [("on", flag)] [("remark", remark)] apart 0 0 with
    ⟨_, _, stopped⟩ | ⟨merged, flat, _, _, names, names', built, flatBuilt, alike, _, _, _, _,
      optional, flatOptional, moved⟩
  · cases stopped
  · cases flatBuilt
    cases flatOptional
    refine ⟨merged, _, names, built, rfl, ?_, optional, moved⟩
    rw [alike]
    rfl

end Conform
