import Conform.Proofs.Nesting
import Conform.Proofs.Returning
import Conform.Proofs.RoundTrip

/-!
Values with their containers thawed: lists for sequences, and for maps plain maps
without the undefined entries. Nothing else that is told apart in JSON changes, so
a value and its thawed form are written alike and come back alike. A shape without
checks of its own that admits a piece of data admits it thawed as well.
-/
namespace Conform

namespace Value

mutual

def thawed : Value → Value
  | .seq _ _ items => .list (thawedItems items)
  | .map _ _ entries => .dict (thawedEntries entries)
  | v => v
termination_by structural v => v

def thawedItems : List Value → List Value
  | [] => []
  | v :: vs => thawed v :: thawedItems vs
termination_by structural vs => vs

def thawedEntries : List (Key × Value) → List (Key × Value)
  | [] => []
  | (k, v) :: es => if v.isUndefined then thawedEntries es else (k, thawed v) :: thawedEntries es
termination_by structural es => es

end

theorem thawedItems_eq_map (vs : List Value) : thawedItems vs = vs.map thawed := by
  induction vs with
  | nil => rfl
  | cons v vs ih => rw [thawedItems, ih, List.map_cons]

theorem thawedEntries_eq_map (es : List (Key × Value)) :
    thawedEntries es = (es.filter fun e => !e.2.isUndefined).map fun e => (e.1, e.2.thawed) := by
  induction es with
  | nil => rfl
  | cons e es ih => cases absent : e.2.isUndefined <;> simp [thawedEntries, absent, ih]

theorem mem_thawedEntries {es : List (Key × Value)} {e : Key × Value}
    (member : e ∈ thawedEntries es) :
    ∃ f ∈ es, f.2.isUndefined = false ∧ e = (f.1, f.2.thawed) := by
  rw [thawedEntries_eq_map] at member
  obtain ⟨f, kept, rfl⟩ := List.mem_map.mp member
  obtain ⟨written, present⟩ := List.mem_filter.mp kept
  exact ⟨f, written, by simpa using present, rfl⟩

theorem mem_thawedEntries_of {es : List (Key × Value)} {e : Key × Value} (member : e ∈ es)
    (present : e.2.isUndefined = false) : (e.1, e.2.thawed) ∈ thawedEntries es := by
  rw [thawedEntries_eq_map]
  exact List.mem_map.mpr ⟨e, List.mem_filter.mpr ⟨member, by simp [present]⟩, rfl⟩

theorem isUndefined_thawed (v : Value) : v.thawed.isUndefined = v.isUndefined := by
  cases v <;> rfl

theorem depth_thawed_le (v : Value) : v.thawed.depth ≤ v.depth := by
  induction v using treeInduction with
  | scalar | set | again => exact Nat.le_refl _
  | seq name kind items ih =>
    refine Nat.succ_le_succ (depthOfItems_le_iff.mpr ?_)
    rw [thawedItems_eq_map, List.forall_mem_map]
    exact fun v member => (ih v member).trans (depthOfItems_le_iff.mp (Nat.le_refl _) v member)
  | map name kind es ih =>
    refine Nat.succ_le_succ (depthOfEntries_le_iff.mpr fun e member => ?_)
    obtain ⟨f, written, _, rfl⟩ := mem_thawedEntries member
    exact (ih f written).trans (depthOfEntries_le_iff.mp (Nat.le_refl _) f written)

theorem Writable.thawed {v : Value} (writable : v.Writable) : v.thawed.Writable := by
  induction v using treeInduction with
  | scalar | set | again => exact writable
  | seq name kind items ih =>
    rw [Value.thawed, thawedItems_eq_map]
    refine .node ?_ (List.forall_mem_map.mpr fun v member => ih v member (writable.at_child member))
    rw [NodeWritable, List.length_map]
    exact writable.at_root
  | map name kind es ih =>
    refine .node (fun e member => ?_) fun w child => ?_
    · obtain ⟨f, written, _, rfl⟩ := mem_thawedEntries member
      exact writable.at_root f written
    · obtain ⟨e, member, rfl⟩ := List.mem_map.mp child
      obtain ⟨f, written, _, rfl⟩ := mem_thawedEntries member
      exact ih f written (writable.at_child (mem_children_of_entry written))

theorem normal_thawed (v : Value) : v.thawed.normal = v.normal := by
  induction v using treeInduction with
  | scalar | set | again => rfl
  | seq name kind items ih =>
    suffices normalItems (thawedItems items) = normalItems items by
      rw [thawed, normal, normal, this]
    induction items with
    | nil => rfl
    | cons v vs rest =>
      rw [List.forall_mem_cons] at ih
      rw [thawedItems, normalItems, normalItems, ih.1, rest ih.2]
  | map name kind es ih =>
    suffices normalEntries (thawedEntries es) = normalEntries es by
      rw [thawed, normal, normal, this]
    induction es with
    | nil => rfl
    | cons e es rest =>
      rw [List.forall_mem_cons] at ih
      cases absent : e.2.isUndefined <;>
        simp [thawedEntries, normalEntries, absent, isUndefined_thawed, ih.1, rest ih.2]

end Value

namespace Json

theorem write_thawed (d : Dialect) (v : Value) : write d v.thawed = write d v := by
  induction v using Value.treeInduction with
  | scalar | set | again => rfl
  | seq name kind items ih =>
    suffices writeItems d (Value.thawedItems items) = writeItems d items by
      rw [Value.thawed, write, write, this]
    induction items with
    | nil => rfl
    | cons v vs rest =>
      rw [List.forall_mem_cons] at ih
      rw [Value.thawedItems, writeItems, writeItems, ih.1, rest ih.2]
  | map name kind es ih =>
    suffices writeEntries d (Value.thawedEntries es) = writeEntries d es by
      rw [Value.thawed, write, write, this]
    induction es with
    | nil => rfl
    | cons e es rest =>
      rw [List.forall_mem_cons] at ih
      cases absent : e.2.isUndefined <;>
        simp [Value.thawedEntries, writeEntries, absent, Value.isUndefined_thawed, ih.1,
          rest ih.2]

end Json

namespace Value

/-- Data: the scalars of JSON in sequences and in maps under distinct names, none of them
    inside itself. A map may also have undefined entries. -/
inductive IsData : Value → Prop where
  | scalar {a : Scalar} (json : a.IsJson) : IsData (.scalar a)
  | seq {name : Option Nat} {kind : Mutability} {items : List Value}
      (inside : ∀ v ∈ items, IsData v) : IsData (.seq name kind items)
  | map {name : Option Nat} {kind : Mutability} {members : List (String × Value)}
      (distinct : (members.map (·.1)).Nodup)
      (inside : ∀ m ∈ members, m.2 ≠ .undefined → IsData m.2) :
      IsData (.map name kind (members.map named))

theorem thawedEntries_named (members : List (String × Value)) :
    thawedEntries (members.map named) =
      ((members.filter fun m => !m.2.isUndefined).map fun m => (m.1, m.2.thawed)).map named := by
  rw [thawedEntries_eq_map, List.filter_map, List.map_map, List.map_map]
  rfl

theorem IsData.isUndefined {v : Value} (data : v.IsData) : v.isUndefined = false := by
  cases data with
  | scalar json => exact (IsJson.scalar json).isUndefined
  | seq inside => rfl
  | map distinct inside => rfl

theorem IsData.thawed_isJson {v : Value} (data : v.IsData) : v.thawed.IsJson := by
  induction data with
  | scalar json => exact .scalar json
  | seq inside ih =>
    rw [thawed, thawedItems_eq_map]
    exact .list (List.forall_mem_map.mpr ih)
  | @map name kind members distinct inside ih =>
    rw [thawed, thawedEntries_named]
    refine .dict ?_ ?_
    · have kept : ((members.filter fun m => !m.2.isUndefined).map (·.1)).Nodup :=
        distinct.sublist (List.filter_sublist.map _)
      simpa [Function.comp_def] using kept
    · refine List.forall_mem_map.mpr fun m kept => ?_
      obtain ⟨member, present⟩ := List.mem_filter.mp kept
      exact ih m member fun absent => by simp [absent, Value.isUndefined] at present

theorem IsData.normal {v : Value} (data : v.IsData) : v.normal = v.thawed := by
  rw [← normal_thawed, normal_of_isJson data.thawed_isJson]

theorem IsData.acyclic {v : Value} (data : v.IsData) : v.Acyclic := by
  induction data with
  | scalar json => exact .scalar trivial
  | seq inside ih => exact .node trivial ih
  | map distinct inside ih =>
    refine .node trivial fun w child => ?_
    obtain ⟨m, member, rfl⟩ := mem_children_named child
    by_cases absent : m.2 = .undefined
    · rw [absent]
      exact .scalar trivial
    · exact ih m member absent

theorem IsJson.isData {v : Value} (json : v.IsJson) : v.IsData := by
  induction json with
  | scalar json => exact .scalar json
  | list inside ih => exact .seq ih
  | dict distinct inside ih => exact .map distinct fun m member _ => ih m member

theorem IsData.shallow_thawed {v : Value} (data : v.IsData) (fits : v.depth ≤ nestingLimit) :
    v.thawed.Shallow :=
  data.thawed_isJson.isData.acyclic.shallow (v.depth_thawed_le.trans fits)

end Value

theorem valueUnder?_named_cons (m : String × Value) (es : List (Key × Value)) (name : String) :
    valueUnder? (Value.named m :: es) (.scalar (.text name)) =
      if m.1 = name then some m.2 else valueUnder? es (.scalar (.text name)) := by
  have test : Key.same (.scalar (.text m.1)) (.scalar (.text name)) = (m.1 == name) := rfl
  rw [valueUnder?_cons, Value.named, test]
  simp only [beq_iff_eq]

theorem valueUnder?_fresh {members : List (String × Value)} {name : String}
    (fresh : name ∉ members.map (·.1)) :
    valueUnder? (members.map Value.named) (.scalar (.text name)) = none := by
  induction members with
  | nil => rfl
  | cons m ms ih =>
    rw [List.map_cons, List.mem_cons, not_or] at fresh
    rw [List.map_cons, valueUnder?_named_cons, if_neg fun same => fresh.1 same.symm, ih fresh.2]

/-- An entry that is left out was undefined, as is what is absent. -/
theorem valueUnder?_thawed {members : List (String × Value)}
    (distinct : (members.map (·.1)).Nodup) (name : String) :
    (valueUnder? (Value.thawedEntries (members.map Value.named)) (.scalar (.text name))).getD
        .undefined =
      ((valueUnder? (members.map Value.named) (.scalar (.text name))).getD .undefined).thawed := by
  induction members with
  | nil => rfl
  | cons m ms ih =>
    obtain ⟨fresh, distinct⟩ := List.nodup_cons.mp distinct
    have rest := ih distinct
    rw [List.map_cons, valueUnder?_named_cons]
    cases absent : m.2.isUndefined with
    | false =>
      have kept : Value.thawedEntries (Value.named m :: ms.map Value.named) =
          Value.named (m.1, m.2.thawed) :: Value.thawedEntries (ms.map Value.named) :=
        if_neg (by simp [absent])
      rw [kept, valueUnder?_named_cons]
      split
      · rfl
      · exact rest
    | true =>
      have dropped : Value.thawedEntries (Value.named m :: ms.map Value.named) =
          Value.thawedEntries (ms.map Value.named) := if_pos absent
      rw [dropped, rest]
      split
      · rename_i same
        subst same
        rw [valueUnder?_fresh fresh, Value.isUndefined_iff.mp absent]
        rfl
      · rfl

namespace Container

def thawed : Container → Container
  | .seq items => .seq (items.map Value.thawed)
  | .map entries => .map (Value.thawedEntries entries)

/-- The container of a piece of data. -/
def IsData : Container → Prop
  | .seq items => ∀ v ∈ items, v.IsData
  | .map entries => ∃ members : List (String × Value), entries = members.map Value.named ∧
      (members.map (·.1)).Nodup ∧ ∀ m ∈ members, m.2 ≠ .undefined → m.2.IsData

variable {c : Container}

theorem IsData.values (data : c.IsData) {x : Value} (member : x ∈ c.values) :
    x = .undefined ∨ x.IsData := by
  cases c with
  | seq items => exact Or.inr (data x member)
  | map entries =>
    obtain ⟨members, rfl, _, inside⟩ := data
    obtain ⟨e, entry, rfl⟩ := List.mem_map.mp member
    obtain ⟨m, listed, rfl⟩ := List.mem_map.mp entry
    exact or_iff_not_imp_left.mpr (inside m listed)

theorem values_thawed {x : Value} (member : x ∈ c.thawed.values) :
    ∃ y ∈ c.values, y.thawed = x := by
  cases c with
  | seq items => exact List.mem_map.mp member
  | map entries =>
    obtain ⟨e, kept, rfl⟩ := List.mem_map.mp member
    obtain ⟨f, entry, _, rfl⟩ := Value.mem_thawedEntries kept
    exact ⟨f.2, List.mem_map_of_mem entry, rfl⟩

theorem labelled_thawed {part : Except Fault Segment × Value} (member : part ∈ c.thawed.labelled) :
    ∃ earlier ∈ c.labelled, earlier.1 = part.1 := by
  cases c with
  | seq items =>
    obtain ⟨i, within, rfl⟩ := List.mem_mapIdx.mp member
    rw [List.length_map] at within
    exact ⟨_, List.mem_mapIdx.mpr ⟨i, within, rfl⟩, rfl⟩
  | map entries =>
    obtain ⟨e, kept, rfl⟩ := List.mem_map.mp member
    obtain ⟨f, entry, _, rfl⟩ := Value.mem_thawedEntries kept
    exact ⟨_, List.mem_map_of_mem entry, rfl⟩

theorem IsData.holds_thawed (data : c.IsData) {name : String} {x : Value}
    (held : c.Holds name x) : c.thawed.Holds name x.thawed := by
  cases c with
  | map entries =>
    obtain ⟨members, rfl, distinct, _⟩ := data
    cases held
    exact valueUnder?_thawed distinct name
  | seq items =>
    rcases held with ⟨i, named, found⟩ | ⟨none, rfl⟩
    · exact Or.inl ⟨i, named, by rw [List.getElem?_map, found, Option.map_some]⟩
    · refine Or.inr ⟨fun i within => none i ?_, rfl⟩
      rwa [List.length_map] at within

theorem Holds.mem_values {name : String} {x : Value} (held : c.Holds name x) :
    x ∈ c.values ∨ x = .undefined := by
  cases c with
  | map entries => exact Container.lookup_mem_values (congrArg Except.ok held)
  | seq items =>
    rcases held with ⟨i, _, found⟩ | ⟨_, absent⟩
    · exact Or.inl (List.mem_of_getElem? found)
    · exact Or.inr absent

end Container

namespace Value

theorem container?_thawed {v : Value} (acyclic : v.Acyclic) :
    v.thawed.container? = v.container?.map Container.thawed := by
  cases v with
  | seq name kind items =>
    rw [thawed, container?, container?, items_of_acyclic acyclic, thawedItems_eq_map]
    rfl
  | map name kind es =>
    rw [thawed, container?, container?, entries_of_acyclic acyclic]
    rfl
  | _ => rfl

theorem items?_thawed {v : Value} (acyclic : v.Acyclic) {items : List Value}
    (opened : v.items? = some items) : v.thawed.items? = some (items.map thawed) := by
  rw [items?, container?_thawed acyclic, container?_of_items? opened]
  rfl

theorem IsData.opened {v : Value} (data : v.IsData) {c : Container}
    (opened : v.container? = some c) : c.IsData := by
  cases data with
  | scalar json => cases opened
  | seq inside =>
    rw [container?, items_of_acyclic (IsData.seq inside).acyclic] at opened
    cases opened
    exact inside
  | @map name kind members distinct inside =>
    rw [container?, entries_of_acyclic (IsData.map distinct inside).acyclic] at opened
    cases opened
    exact ⟨members, rfl, distinct, inside⟩

end Value

namespace Shape

theorem thawed_of_matches {a : Scalar} {v : Value} (found : (Value.scalar a).Matches v) :
    v.thawed = v := by
  cases v with
  | seq | map => cases found.2
  | _ => rfl

theorem AdmitsEach.thawed {ss : List Shape} {vs : List Value}
    (each : ∀ s ∈ ss, ∀ v ∈ vs, s.Admits v → s.Admits v.thawed) (admits : AdmitsEach ss vs) :
    AdmitsEach ss (vs.map Value.thawed) := by
  induction ss generalizing vs with
  | nil => cases vs <;> exact admits
  | cons s ss ih =>
    cases vs with
    | nil => exact admits
    | cons v vs =>
      refine ⟨each s (by simp) v (by simp) admits.1, ih (fun t member w within => ?_) admits.2⟩
      exact each t (List.mem_cons_of_mem s member) w (List.mem_cons_of_mem v within)

theorem Admits.thawed {s : Shape} (declarative : s.Every Declarative) {v : Value}
    (data : v = .undefined ∨ v.IsData) (admits : s.Admits v) : s.Admits v.thawed := by
  induction s using childInduction generalizing v with
  | step s ih =>
    have here : ∀ c ∈ s.children, c.Admits v → c.Admits v.thawed := fun c child =>
      ih c child (declarative.at_child child) data
    -- A container is data: no shape looks for its parts in the undefined value.
    have opens : ∀ {c}, v.container? = some c →
        c.IsData ∧ v.thawed.container? = some c.thawed := by
      intro c opened
      rcases data with rfl | data
      · cases opened
      · exact ⟨data.opened opened, by rw [Value.container?_thawed data.acyclic, opened]; rfl⟩
    have items : ∀ {xs}, v.items? = some xs →
        (∀ x ∈ xs, x.IsData) ∧ v.thawed.items? = some (xs.map Value.thawed) := by
      intro xs opened
      rcases data with rfl | data
      · cases opened
      · exact ⟨data.opened (Value.container?_of_items? opened),
          Value.items?_thawed data.acyclic opened⟩
    cases s with
    | atomic k =>
      suffices v.thawed.kind = v.kind from this.trans admits
      cases v <;> rfl
    | literal tag candidates =>
      obtain ⟨c, member, found⟩ := admits
      obtain ⟨a, rfl⟩ := declarative.at_root c member
      exact ⟨_, member, (thawed_of_matches found).symm ▸ found⟩
    | optional base =>
      rcases admits with rfl | admits
      · exact Or.inl rfl
      · exact Or.inr (here base (by simp [children]) admits)
    | nullable base =>
      rcases admits with rfl | admits
      · exact Or.inl rfl
      · exact Or.inr (here base (by simp [children]) admits)
    | array item =>
      obtain ⟨xs, opened, each⟩ := admits
      obtain ⟨inside, thawed⟩ := items opened
      refine ⟨_, thawed, List.forall_mem_map.mpr fun x member => ?_⟩
      have child : item ∈ (array item).children := by simp [children]
      exact ih item child (declarative.at_child child) (Or.inr (inside x member)) (each x member)
    | record item =>
      obtain ⟨c, opened, each⟩ := admits
      obtain ⟨inside, thawed⟩ := opens opened
      refine ⟨_, thawed, fun x member => ?_⟩
      obtain ⟨y, earlier, rfl⟩ := Container.values_thawed member
      have child : item ∈ (record item).children := by simp [children]
      exact ih item child (declarative.at_child child) (inside.values earlier) (each y earlier)
    | tuple ss =>
      obtain ⟨xs, opened, each⟩ := admits
      obtain ⟨inside, thawed⟩ := items opened
      refine ⟨_, thawed, each.thawed fun s child x member => ?_⟩
      exact ih s child (declarative.at_child child) (Or.inr (inside x member))
    | either left right =>
      exact admits.imp (here left (by simp [children])) (here right (by simp [children]))
    | anyOf ss =>
      obtain ⟨s, child, admits⟩ := admitsSome_iff.mp admits
      exact admitsSome_iff.mpr ⟨s, child, here s child admits⟩
    | both left right =>
      exact admits.imp (here left (by simp [children])) (here right (by simp [children]))
    | merge tag left right =>
      exact admits.imp (here left (by simp [children])) (here right (by simp [children]))
    | refined | custom => exact declarative.at_root.elim
    | struct tag closed fields =>
      obtain ⟨c, opened, stored, declared⟩ := admits
      obtain ⟨inside, thawed⟩ := opens opened
      refine ⟨_, thawed, admitsFields_iff.mpr fun field member => ?_, fun only part member => ?_⟩
      · obtain ⟨x, held, admits⟩ := admitsFields_iff.mp stored field member
        have child : field.2 ∈ (struct tag closed fields).children := field_child member
        have data : x = .undefined ∨ x.IsData :=
          held.mem_values.elim inside.values fun absent => Or.inl absent
        exact ⟨_, inside.holds_thawed held,
          ih field.2 child (declarative.at_child child) data admits⟩
      · obtain ⟨earlier, labelled, same⟩ := Container.labelled_thawed member
        exact same ▸ declared only earlier labelled

end Shape
end Conform
