import Conform.Proofs.Keys
import Conform.Proofs.Lookup

/-!
What a container lists, beside what is looked up in it. A list or tuple lists its
items under the decimal texts of their indices, a map its entries under their keys.
What is listed under a name is what is looked up there, and other names are looked
up as undefined. Keys of maps are texts and integers here, since any other key is
listed under a text that is made from it, where something else may be found.
-/
namespace Conform

namespace Segment

def key : Segment → Key
  | .name s => .scalar (.text s)
  | .index n => .scalar (.int n)
  | .symbol s => .scalar (.symbol s)

theorem isName_iff {segment : Segment} {name : String} :
    segment.isName name = true ↔ segment.key.same (.scalar (.text name)) = true := by
  rw [Key.same_text_iff]
  cases segment with
  | name s => simp [isName, key, Key.text?, Scalar.text?, Scalar.plain]
  | index n => simp [isName, key, Key.text?, Scalar.text?, Scalar.plain]
  | symbol s => simp [isName, key, Key.text?]

end Segment

namespace Key

/-- Texts and integers, and the symbols that are one of the two besides. -/
def IsPlainSegment : Key → Prop
  | .scalar (.text _) | .scalar (.int _) => True
  | .scalar (.symbol ⟨_, _, .int _, true⟩) | .scalar (.symbol ⟨_, _, .text _, true⟩) => True
  | _ => False

variable {k : Key}

theorem IsPlainSegment.segment (plain : k.IsPlainSegment) :
    ∃ segment, k.segment = .ok segment ∧ segment.key = k := by
  unfold IsPlainSegment at plain
  split at plain
  · exact ⟨_, rfl, rfl⟩
  · exact ⟨_, rfl, rfl⟩
  · exact ⟨_, rfl, rfl⟩
  · exact ⟨_, rfl, rfl⟩
  · exact plain.elim

/-- Such a key equals itself, which not every key does. -/
theorem IsPlainSegment.same_self (plain : k.IsPlainSegment) : k.same k = true := by
  unfold IsPlainSegment at plain
  split at plain
  · exact same_text_iff.mpr rfl
  · exact beq_self_eq_true _
  · exact beq_self_eq_true _
  · simp [same, Scalar.same, Scalar.number?, Scalar.text?, Scalar.plain]
  · exact plain.elim

end Key

namespace Container

theorem segments_of_labelled {c : Container} {listed : List (Segment × Value)}
    (labels : c.labelled = listed.map fun part => (.ok part.1, part.2)) :
    c.segments = .ok listed := by
  rw [segments, labels]
  clear labels
  induction listed with
  | nil => rfl
  | cons part listed ih =>
    rw [List.map_cons, List.mapM_cons, ih]
    rfl

theorem segments_seq (items : List Value) : (seq items).segments =
    .ok (items.mapIdx fun i x => (.name (indexName i), x)) := by
  apply segments_of_labelled
  apply List.ext_getElem?
  intro i
  simp [labelled, Function.comp_def]

theorem segments_map {es : List (Key × Value)} (plain : ∀ e ∈ es, e.1.IsPlainSegment) :
    ∃ listed, (map es).segments = .ok listed ∧
      (listed.map fun part => (part.1.key, part.2)) = es := by
  suffices ∃ listed : List (Segment × Value),
      (map es).labelled = listed.map (fun part => (.ok part.1, part.2)) ∧
        (listed.map fun part => (part.1.key, part.2)) = es by
    obtain ⟨listed, labels, same⟩ := this
    exact ⟨listed, segments_of_labelled labels, same⟩
  induction es with
  | nil => exact ⟨[], rfl, rfl⟩
  | cons e es ih =>
    rw [List.forall_mem_cons] at plain
    obtain ⟨segment, made, key⟩ := plain.1.segment
    obtain ⟨listed, labels, same⟩ := ih plain.2
    refine ⟨(segment, e.2) :: listed, ?_, ?_⟩
    · rw [List.map_cons, ← labels, ← made]
      rfl
    · rw [List.map_cons, same, key]

theorem mem_listed_seq {items : List Value} (short : items.length ≤ Nat.pow 10 digitLimit)
    {segment : Segment} {x : Value} :
    (segment, x) ∈ items.mapIdx (fun i x => (Segment.name (indexName i), x)) ↔
      ∃ i < items.length, segment = .name (indexName i) ∧
        (seq items).lookup (indexName i) = .ok x := by
  rw [List.mem_mapIdx]
  refine exists_congr fun i => ⟨fun ⟨inside, same⟩ => ?_, fun ⟨inside, named, looked⟩ => ?_⟩
  · cases same
    exact ⟨inside, rfl, lookup_item (List.getElem?_eq_getElem inside) (not_long_of_lt inside short)⟩
  · have item := lookup_item (List.getElem?_eq_getElem inside) (not_long_of_lt inside short)
    rw [named, ← Except.ok.inj (item.symm.trans looked)]
    exact ⟨inside, rfl⟩

theorem lookup_map_of_mem {es : List (Key × Value)} (distinct : KeysDistinct es)
    {e : Key × Value} (member : e ∈ es) {name : String}
    (named : e.1.same (.scalar (.text name)) = true) : (map es).lookup name = .ok e.2 := by
  have found := (valueUnder?_iff distinct).mpr ⟨e, member, named, rfl⟩
  rw [lookup, found]
  rfl

theorem lookup_map_of_none {es : List (Key × Value)} {name : String}
    (absent : ∀ e ∈ es, e.1.same (.scalar (.text name)) = false) :
    (map es).lookup name = .ok .undefined := by
  have found : valueUnder? es (.scalar (.text name)) = none := by
    rw [valueUnder?, List.find?_eq_none.mpr fun e member => by simp [absent e member]]
    rfl
  rw [lookup, found]
  rfl

end Container

/-- A list or tuple lists its items in order, each under the decimal text of its index. That text
    is looked up as the item, and every other name as undefined, but for the decimal texts of
    numbers with too many digits, which cannot be looked up. A map with texts and integers for
    its keys, each of them once, lists its entries in order under their keys. What is found under
    such a key is what is listed for it, and every other name is looked up as undefined. -/
theorem lookup_reads_listed (items : List Value) (entries : List (Key × Value)) :
    (∃ listed, (Container.seq items).segments = .ok listed ∧
      listed.map (·.2) = items ∧
      (items.length ≤ Nat.pow 10 digitLimit → ∀ segment x, (segment, x) ∈ listed ↔
        ∃ i < items.length, segment = .name (indexName i) ∧
          (Container.seq items).lookup (indexName i) = .ok x) ∧
      ∀ name,
        (¬ IsLongIndex name →
          (∀ i x, indexName i = name → items[i]? = some x →
            (Container.seq items).lookup name = .ok x) ∧
          ((∀ i < items.length, indexName i ≠ name) →
            (Container.seq items).lookup name = .ok .undefined)) ∧
        (IsLongIndex name →
          (Container.seq items).lookup name = .error (.unreadableInteger name.length))) ∧
    ((∀ e ∈ entries, e.1.IsPlainSegment) → KeysDistinct entries →
      ∃ listed, (Container.map entries).segments = .ok listed ∧
        (listed.map fun part => (part.1.key, part.2)) = entries ∧
        (∀ part ∈ listed, valueUnder? entries part.1.key = some part.2) ∧
        ∀ name,
          (∀ part ∈ listed, part.1.isName name = true →
            (Container.map entries).lookup name = .ok part.2) ∧
          ((∀ part ∈ listed, part.1.isName name = false) →
            (Container.map entries).lookup name = .ok .undefined)) := by
  constructor
  · refine ⟨_, Container.segments_seq items, ?_, fun short _ _ => Container.mem_listed_seq short,
      fun name => ⟨fun readable => ⟨?_, fun other => ?_⟩, Container.lookup_long⟩⟩
    · apply List.ext_getElem?
      intro i
      simp
    · rintro i x rfl found
      exact Container.lookup_item found readable
    · exact Container.lookup_undefined other readable
  · intro plain distinct
    obtain ⟨listed, made, same⟩ := Container.segments_map plain
    have entry : ∀ part ∈ listed, (part.1.key, part.2) ∈ entries := fun part member =>
      same ▸ List.mem_map_of_mem member
    refine ⟨listed, made, same, fun part member => ?_, fun name => ⟨fun part member named => ?_,
      fun others => ?_⟩⟩
    · have itself := (plain _ (entry part member)).same_self
      exact (valueUnder?_iff distinct).mpr ⟨_, entry part member, itself, rfl⟩
    · exact Container.lookup_map_of_mem distinct (entry part member) (Segment.isName_iff.mp named)
    · refine Container.lookup_map_of_none ?_
      rw [← same, List.forall_mem_map]
      intro part member
      have other := others part member
      exact Bool.eq_false_iff.mpr fun named =>
        Bool.false_ne_true (other.symm.trans (Segment.isName_iff.mpr named))

def mixedKeys : List (Key × Value) :=
  [(.scalar (.text "a"), .null), (.scalar (.int 7), .text "seven"),
    (.scalar (.symbol ⟨"Mode", "FAST", .text "fast", true⟩), .list [])]

theorem mixedKeys_listed :
    (∃ listed, (Container.map mixedKeys).segments = .ok listed ∧
      (listed.map fun part => (part.1.key, part.2)) = mixedKeys ∧
      (Container.map mixedKeys).lookup "fast" = .ok (.list []) ∧
      (Container.map mixedKeys).lookup "7" = .ok .undefined) ∧
    (Container.seq [.null, .text "x"]).lookup "1" = .ok (.text "x") ∧
      (Container.seq [.null, .text "x"]).lookup "01" = .ok .undefined := by
  have plain : ∀ e ∈ mixedKeys, e.1.IsPlainSegment := by
    simp [mixedKeys, Key.IsPlainSegment]
  have distinct : KeysDistinct mixedKeys := by
    unfold KeysDistinct
    decide
  obtain ⟨⟨_, _, _, _, read⟩, listing⟩ := lookup_reads_listed [.null, .text "x"] mixedKeys
  obtain ⟨listed, made, same, _, looked⟩ := listing plain distinct
  have readable : ∀ name : String, name.length ≤ 2 → ¬ IsLongIndex name := fun name short long =>
    absurd (Nat.lt_of_lt_of_le long.1 short) (by decide)
  refine ⟨⟨listed, made, same, ?_, ?_⟩, ?_, ?_⟩
  · have entry : (.scalar (.symbol ⟨"Mode", "FAST", .text "fast", true⟩), .list []) ∈
        listed.map fun part => (part.1.key, part.2) := by simp [same, mixedKeys]
    obtain ⟨part, member, form⟩ := List.mem_map.mp entry
    obtain ⟨key, value⟩ := Prod.mk.inj form
    have named : part.1.isName "fast" = true := Segment.isName_iff.mpr (by rw [key]; rfl)
    rw [← value]
    exact (looked "fast").1 part member named
  · refine (looked "7").2 fun part member => Bool.eq_false_iff.mpr fun named => ?_
    have entry : (part.1.key, part.2) ∈ mixedKeys := same ▸ List.mem_map_of_mem member
    have none : ∀ e ∈ mixedKeys, e.1.same (.scalar (.text "7")) = false := by decide
    exact Bool.false_ne_true ((none _ entry).symm.trans (Segment.isName_iff.mp named))
  · exact ((read "1").1 (readable "1" (by decide))).1 1 _ (by decide) rfl
  · exact ((read "01").1 (readable "01" (by decide))).2 (by decide)

/-- A name of one digit more than is read is looked up nowhere, not even in an empty list. -/
theorem long_index_not_looked_up :
    (Container.seq []).lookup (String.ofList (List.replicate (digitLimit + 1) '9')) =
      .error (.unreadableInteger (digitLimit + 1)) := by
  have index := indexDigits?_nines (Nat.succ_pos digitLimit)
  have length : (String.ofList (List.replicate (digitLimit + 1) '9')).length = digitLimit + 1 := by
    rw [String.length_ofList, List.length_replicate]
  have long : IsLongIndex (String.ofList (List.replicate (digitLimit + 1) '9')) := by
    refine ⟨?_, _, (indexName_of_indexDigits? index).symm⟩
    rw [length]
    exact Nat.lt_succ_self digitLimit
  rw [Container.lookup_long long, length]

end Conform
