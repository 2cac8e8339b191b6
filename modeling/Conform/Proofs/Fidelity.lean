import Conform.Proofs.Cloning
import Conform.Proofs.Equality
import Mathlib.Data.List.Nodup

/-!
What a copy by way of JSON keeps. A copy is equal to the thawed value exactly where
the value survives: its numbers are exact, nothing in it is turned into text or
null, and the keys of its maps are distinct texts. A shape need not notice the rest.
-/
namespace Conform

open Json

theorem Key.jsonName_of_text {k : Key} {s : String} (text : k.text? = some s) :
    String.ofList k.jsonName = s := by
  cases k with
  | tuple ks => cases text
  | scalar a =>
    change a.text? = some s at text
    unfold Scalar.text? at text
    split at text
    · rename_i t plain
      cases text
      simp [jsonName, plain]
    · cases text

def Scalar.Survives (a : Scalar) : Prop :=
  match a.plain with
  | .null | .bool _ | .text _ => True
  | .int n => n.natAbs ≤ maxSafeInteger ∨ (Binary64.ofInt n).sameInt n = true
  | .float x => x ≠ .nan
  | _ => False

theorem Binary64.same_self_iff {x : Binary64} : x.same x = true ↔ x ≠ .nan := by
  rw [same_iff]
  cases x with
  | nan => simp [magnitude?]
  | infinite negative => simp [magnitude?]
  | finite negative m e canonical =>
    obtain ⟨q, value⟩ := toRat?_finite negative canonical
    simp [magnitude?, value]

theorem Scalar.plainInteger_same_iff {n : Int} {a : Scalar} (plain : a.plain = .int n) :
    (plainInteger n).same a = true ↔
      n.natAbs ≤ maxSafeInteger ∨ (Binary64.ofInt n).sameInt n = true := by
  have number : a.number? = some (.int n) := by rw [number?, plain]
  unfold plainInteger
  split
  · rename_i safe
    rw [same_number (m := .int n) rfl, number]
    simp [Number.same, safe]
  · rename_i large
    rw [same_number (m := .float (Binary64.ofInt n)) rfl, number]
    simp [Number.same, large]

theorem Scalar.same_normal_iff {allowNaN : Bool} {a : Scalar} {text : List Char}
    (written : writeScalar (strict allowNaN) a = .ok text) :
    a.normal.same a = true ↔ a.Survives := by
  cases a with
  | undefined => simp [normal, plain, Survives, same, number?, text?]
  | null => simp [normal, plain, Survives, same, number?, text?]
  | bool b => simp [normal, plain, Survives, same, number?, Number.same]
  | int n => exact plainInteger_same_iff rfl
  | float x => exact Binary64.same_self_iff
  | text s => simp [normal, plain, Survives, same, number?, text?]
  | symbol s =>
    obtain ⟨family, name, payload, transparent⟩ := s
    cases transparent with
    | false => cases payload <;> cases written
    | true =>
      cases payload with
      | int n => exact plainInteger_same_iff rfl
      | float x => exact Binary64.same_self_iff
      | text s => simp [normal, plain, Survives, same, number?, text?]
  | date | clock | moment => simp [normal, plain, Survives, same, number?, text?]
  | bytes | token => cases written

namespace Value

/-- A value that JSON gives back as an equal one, thawed. -/
inductive Survives : Value → Prop where
  | scalar {a : Scalar} (exact : a.Survives) : Survives (.scalar a)
  | seq {name : Option Nat} {kind : Mutability} {items : List Value}
      (inside : ∀ v ∈ items, Survives v) : Survives (.seq name kind items)
  | map {name : Option Nat} {kind : Mutability} {entries : List (Key × Value)}
      (texts : ∀ e ∈ thawedEntries entries, ∃ s, e.1.text? = some s)
      (distinct : ((thawedEntries entries).map fun e => e.1.text?).Nodup)
      (inside : ∀ e ∈ entries, e.2.isUndefined = false → Survives e.2) :
      Survives (.map name kind entries)

theorem normalItems_eq_map (vs : List Value) : normalItems vs = vs.map normal := by
  induction vs with
  | nil => rfl
  | cons v vs ih => rw [normalItems, ih, List.map_cons]

theorem normalEntries_eq_map (es : List (Key × Value)) :
    normalEntries es = (es.filter fun e => !e.2.isUndefined).map fun e =>
      (String.ofList e.1.jsonName, e.2.normal) := by
  induction es with
  | nil => rfl
  | cons e es ih => cases absent : e.2.isUndefined <;> simp [normalEntries, absent, ih]

theorem sameUpTo_list {room : Nat} {vs ws : List Value} :
    sameUpTo (room + 1) (.list vs) (.list ws) = .ok true ↔
      List.Forall₂ (fun v w => sameUpTo room v w = .ok true) vs ws := by
  simp [sameUpTo_seq, items]

theorem sameUpTo_dict {room : Nat} {es fs : List (Key × Value)} :
    sameUpTo (room + 1) (.dict es) (.dict fs) = .ok true ↔
      es.length = fs.length ∧ AllFound room fs es := by
  simp [sameUpTo_map, entries]

/-- Distinct names, as many as there are entries and each of them found, leave no entry
    without a text for its key. -/
theorem texts_of_found {es : List (Key × Value)} {names : List String} (distinct : names.Nodup)
    (length : names.length = es.length)
    (found : ∀ name ∈ names, ∃ w, valueUnder? es (.scalar (.text name)) = some w) :
    ∀ e ∈ es, ∃ s, e.1.text? = some s := by
  have subset : names ⊆ es.filterMap fun e => e.1.text? := by
    intro name member
    obtain ⟨w, there⟩ := found name member
    obtain ⟨e, first, _⟩ := Option.map_eq_some_iff.mp there
    have same : e.1.same (.scalar (.text name)) = true := by simpa using List.find?_some first
    exact List.mem_filterMap.mpr ⟨e, List.mem_of_find?_eq_some first, Key.same_text_iff.mp same⟩
  have most := distinct.length_le_of_subset subset
  have all : (es.filterMap fun e => e.1.text?).length = es.length :=
    Nat.le_antisymm (List.length_filterMap_le _ _) (length ▸ most)
  intro e member
  exact Option.isSome_iff_exists.mp (List.filterMap_length_eq_length.mp all e member)

theorem nodup_of_length_eraseDups {names : List String}
    (length : names.eraseDups.length = names.length) : names.Nodup := by
  have least : ∀ ns : List String, ns.eraseDups.length ≤ ns.length := by
    intro ns
    induction ns using List.reverseRecOn with
    | nil => exact Nat.le_refl _
    | append_singleton ns k ih =>
      rw [eraseDups_snoc]
      split <;> simp <;> omega
  induction names using List.reverseRecOn with
  | nil => exact List.nodup_nil
  | append_singleton names k ih =>
    rw [eraseDups_snoc] at length
    have bound := least names
    split at length
    · rw [List.length_append, List.length_singleton] at length
      omega
    · rename_i fresh
      rw [List.length_append, List.length_append] at length
      exact List.nodup_append.mpr ⟨ih (Nat.add_right_cancel length), by simp, by
        rintro a old b new rfl
        exact fresh (List.mem_singleton.mp new ▸ old)⟩

theorem nodup_texts_iff {es : List (Key × Value)}
    (texts : ∀ e ∈ thawedEntries es, ∃ s, e.1.text? = some s) :
    ((thawedEntries es).map fun e => e.1.text?).Nodup ↔
      ((normalEntries es).map (·.1)).Nodup := by
  have same : ((thawedEntries es).map fun e => e.1.text?) =
      ((normalEntries es).map (·.1)).map some := by
    rw [thawedEntries_eq_map] at texts ⊢
    rw [normalEntries_eq_map, List.map_map, List.map_map, List.map_map]
    refine List.map_congr_left fun e kept => ?_
    obtain ⟨s, text⟩ := texts _ (List.mem_map_of_mem kept)
    change e.1.text? = some (String.ofList e.1.jsonName)
    rw [Key.jsonName_of_text text]
    exact text
  rw [same, List.nodup_map_iff (Option.some_injective String)]

theorem sameUpTo_normal_map {room : Nat} {es : List (Key × Value)} :
    sameUpTo (room + 1) (.dict ((lastByName (normalEntries es)).map named))
        (.dict (thawedEntries es)) = .ok true ↔
      (∀ e ∈ thawedEntries es, ∃ s, e.1.text? = some s) ∧
        ((thawedEntries es).map fun e => e.1.text?).Nodup ∧
        ∀ e ∈ es, e.2.isUndefined = false →
          sameUpTo room e.2.normal e.2.thawed = .ok true := by
  have length : (normalEntries es).length = (thawedEntries es).length := by
    rw [normalEntries_eq_map, thawedEntries_eq_map, List.length_map, List.length_map]
  constructor
  · intro same
    obtain ⟨size, each⟩ := sameUpTo_dict.mp same
    have distinct : ((normalEntries es).map (·.1)).Nodup := by
      apply nodup_of_length_eraseDups
      rw [List.length_map, length, ← size, lastByName, List.length_map, List.length_map]
    rw [lastByName_of_nodup distinct] at each
    have texts : ∀ e ∈ thawedEntries es, ∃ s, e.1.text? = some s := by
      refine texts_of_found distinct (by rw [List.length_map, length]) fun name member => ?_
      obtain ⟨p, listed, rfl⟩ := List.mem_map.mp member
      obtain ⟨w, found, _⟩ := each (named p) (List.mem_map_of_mem listed)
      exact ⟨w, found⟩
    have nodup := (nodup_texts_iff texts).mpr distinct
    refine ⟨texts, nodup, fun e member present => ?_⟩
    have kept := mem_thawedEntries_of member present
    obtain ⟨s, text⟩ := texts _ kept
    have listed : (s, e.2.normal) ∈ normalEntries es := by
      rw [normalEntries_eq_map, ← Key.jsonName_of_text text]
      exact List.mem_map.mpr ⟨e, List.mem_filter.mpr ⟨member, by simp [present]⟩, rfl⟩
    obtain ⟨w, found, equal⟩ := each (named (s, e.2.normal)) (List.mem_map_of_mem listed)
    cases (valueUnder?_of_text nodup kept text).symm.trans found
    exact equal
  · rintro ⟨texts, nodup, inside⟩
    rw [lastByName_of_nodup ((nodup_texts_iff texts).mp nodup)]
    refine sameUpTo_dict.mpr ⟨by rw [List.length_map, length], fun f member => ?_⟩
    obtain ⟨p, listed, rfl⟩ := List.mem_map.mp member
    rw [normalEntries_eq_map] at listed
    obtain ⟨e, kept, rfl⟩ := List.mem_map.mp listed
    obtain ⟨written, defined⟩ := List.mem_filter.mp kept
    have present : e.2.isUndefined = false := by simpa using defined
    obtain ⟨s, text⟩ := texts _ (mem_thawedEntries_of written present)
    have stored := valueUnder?_of_text nodup (mem_thawedEntries_of written present) text
    refine ⟨e.2.thawed, ?_, inside e written present⟩
    rw [named, Key.jsonName_of_text text]
    exact stored

end Value

/-- What is read back of a value that can be written is equal to the thawed value exactly where
    the value survives. -/
theorem Value.sameUpTo_normal_iff {allowNaN : Bool} {v : Value} {text : List Char}
    (written : write (strict allowNaN) v = .ok text) {room : Nat} (fits : v.depth ≤ room) :
    sameUpTo room v.normal v.thawed = .ok true ↔ v.Survives := by
  induction v using treeInduction generalizing room text with
  | scalar a =>
    have same : sameUpTo room (.scalar a.normal) (.scalar a) = .ok true ↔ a.Survives := by
      rw [sameUpTo_scalar, ← Scalar.same_normal_iff written]
      simp
    refine same.trans ⟨.scalar, fun survives => ?_⟩
    cases survives
    assumption
  | set member => cases written
  | again n => cases written
  | seq name kind items ih =>
    obtain ⟨room, rfl⟩ : ∃ r, room = r + 1 := ⟨room - 1, by rw [depth] at fits; omega⟩
    have inside := depthOfItems_le_iff.mp (Nat.le_of_succ_le_succ fits)
    simp only [write, except_bind_ok_iff] at written
    obtain ⟨texts, parts, _⟩ := written
    rw [normal, thawed, sameUpTo_list, normalItems_eq_map, thawedItems_eq_map,
      List.forall₂_map_left_iff, List.forall₂_map_right_iff, List.forall₂_same]
    have each : ∀ v ∈ items, sameUpTo room v.normal v.thawed = .ok true ↔ v.Survives := by
      intro v member
      obtain ⟨part, first⟩ := exists_writeItems_iff.mp ⟨_, parts⟩ v member
      exact ih v member first (inside v member)
    constructor
    · exact fun same => .seq fun v member => (each v member).mp (same v member)
    · rintro (_ | survive)
      exact fun v member => (each v member).mpr (survive v member)
  | map name kind es ih =>
    obtain ⟨room, rfl⟩ : ∃ r, room = r + 1 := ⟨room - 1, by rw [depth] at fits; omega⟩
    have inside := depthOfEntries_le_iff.mp (Nat.le_of_succ_le_succ fits)
    simp only [write, except_bind_ok_iff] at written
    obtain ⟨texts, parts, _⟩ := written
    rw [normal, thawed, sameUpTo_normal_map]
    have each : ∀ e ∈ es, e.2.isUndefined = false →
        (sameUpTo room e.2.normal e.2.thawed = .ok true ↔ e.2.Survives) := by
      intro e member present
      obtain ⟨_, part, first⟩ := exists_writeEntries_iff.mp ⟨_, parts⟩ e member present
      exact ih e member first (inside e member)
    constructor
    · rintro ⟨texts, distinct, same⟩
      exact .map texts distinct fun e member present =>
        (each e member present).mp (same e member present)
    · rintro (_ | _ | ⟨texts, distinct, survive⟩)
      exact ⟨texts, distinct, fun e member present =>
        (each e member present).mpr (survive e member present)⟩

/-- A copy is the normal form of the value, and admitted as such. It is equal to the thawed value
    exactly where the value survives. -/
theorem clone_equal_iff_survives (s : Schema) (allowNaN : Bool) {v w : Value}
    (cloned : (s.clone allowNaN v).result = .ok (.ok w)) :
    w = v.normal ∧ s.shape.Admits w ∧ (w.same v.thawed = .ok true ↔ v.Survives) := by
  obtain ⟨⟨text, encoded⟩, accepted, rfl⟩ := Schema.clone_ok_iff.mp cloned
  obtain ⟨free, cs, written, _⟩ := encode_written encoded
  refine ⟨rfl, (s.shape.check_decides _ _ accepted).mp rfl, ?_⟩
  exact Value.sameUpTo_normal_iff written (depth_le_of_obstacle? free)

def anyStruct : Schema where
  shape := .struct 0 false []
  type := .struct 0 []
  typed := rfl

def sided : Value :=
  .map none .frozen [
    (.scalar (.symbol ⟨"Side", "LEFT", .text "left", true⟩), .tuple [.text "a", .null]),
    (.scalar (.text "gone"), .undefined)]

theorem sided_copied :
    (anyStruct.clone false sided).result =
        .ok (.ok (.dict ([("left", .list [.text "a", .null])].map Value.named))) ∧
      (Value.dict ([("left", .list [.text "a", .null])].map Value.named)).same sided.thawed =
        .ok true := by
  have encoded : encode false sided = .ok (.ok "\x7b\"left\":[\"a\",null]\x7d") := rfl
  have cloned : (anyStruct.clone false sided).result =
      .ok (.ok (.dict ([("left", .list [.text "a", .null])].map Value.named))) :=
    Schema.clone_ok_iff.mpr ⟨⟨_, encoded⟩, rfl, rfl⟩
  refine ⟨cloned, (clone_equal_iff_survives anyStruct false cloned).2.2.mpr ?_⟩
  refine .map (fun e member => ?_) (List.nodup_singleton _) fun e member present => ?_
  · obtain rfl := List.mem_singleton.mp member
    exact ⟨_, rfl⟩
  · rcases List.mem_pair.mp member with rfl | rfl
    · refine .seq (List.forall_mem_cons.mpr ⟨.scalar trivial, ?_⟩)
      exact List.forall_mem_singleton.mpr (.scalar trivial)
    · cases present

def dated : Value := .dict ([("d", .scalar (.date ⟨2024, 1, 2⟩))].map Value.named)

/-- The date comes back as a text, which an open struct does not notice. -/
theorem date_copied_as_text :
    anyStruct.shape.Every Shape.Declarative ∧
      (anyStruct.validate dated).result = .ok (.ok dated) ∧
      (anyStruct.clone false dated).result =
        .ok (.ok (.dict ([("d", .text "2024-01-02")].map Value.named))) ∧
      (Value.dict ([("d", .text "2024-01-02")].map Value.named)).same dated.thawed =
        .ok false := by
  have encoded : encode false dated = .ok (.ok "\x7b\"d\":\"2024-01-02\"\x7d") := rfl
  refine ⟨.leaf trivial rfl, rfl, ?_, rfl⟩
  exact Schema.clone_ok_iff.mpr ⟨⟨_, encoded⟩, rfl, rfl⟩

end Conform
