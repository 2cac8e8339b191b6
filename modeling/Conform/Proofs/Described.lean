import Conform.Proofs.DecodedKinds
import Conform.Proofs.Fidelity
import Conform.Proofs.Keys

/-!
Descriptions read back. A description leaves the point out of a whole number below the
threshold, and what is read of it is an integer as far as integers are safe. A number that
is not zero is rounded to itself, so past the safe integers the same number comes back,
and both zeros come back as one. At any depth a value of JSON is read back as an equal one.
-/
namespace Conform

namespace Binary64

theorem toInt?_iff {x : Binary64} {n : Int} : x.toInt? = some n ↔ x.toRat? = some (n : Rat) := by
  unfold toInt?
  cases x.toRat? with
  | none => simp
  | some q =>
    simp only [Option.some.injEq]
    constructor
    · intro whole
      split at whole
      · rename_i integral
        cases whole
        exact (Rat.den_eq_one_iff q).mp integral |>.symm
      · cases whole
    · intro same
      subst same
      simp

theorem nearest_of_value {x : Binary64} {q : Rat} (value : x.toRat? = some q) (nonzero : q ≠ 0) :
    nearest (q < 0) |q| = x := by
  cases x with
  | nan | infinite => cases value
  | finite negative m e canonical =>
    have place := zpow_two_pos e
    have positive : 0 < m := by
      apply Nat.pos_of_ne_zero
      intro none
      subst none
      cases negative <;> simp [toRat?] at value <;> exact nonzero value.symm
    have above : (0 : Rat) < m * 2 ^ e := mul_pos (by exact_mod_cast positive) place
    cases negative with
    | false =>
      cases value
      rw [abs_of_pos above, decide_eq_false above.le.not_gt]
      exact nearest_exact false canonical positive
    | true =>
      cases value
      rw [abs_neg, abs_of_pos above, decide_eq_true (neg_neg_of_pos above)]
      exact nearest_exact true canonical positive

theorem eq_of_value {x y : Binary64} {q : Rat} (left : x.toRat? = some q)
    (right : y.toRat? = some q) (nonzero : q ≠ 0) : x = y :=
  (nearest_of_value left nonzero).symm.trans (nearest_of_value right nonzero)

theorem ofInt_of_whole {x : Binary64} {n : Int} (whole : x.toInt? = some n) (nonzero : n ≠ 0) :
    ofInt n = x := by
  have magnitude : (n.natAbs : Rat) = |(n : Rat)| := by rw [Nat.cast_natAbs, Int.cast_abs]
  have sign : decide (n < 0) = decide ((n : Rat) < 0) := by simp
  unfold ofInt
  rw [magnitude, sign]
  exact nearest_of_value (toInt?_iff.mp whole) (by exact_mod_cast nonzero)

end Binary64

open Json

/-- What the description of a scalar is read as: a safe whole number is read as an integer. -/
def Scalar.reread : Scalar → Scalar
  | .float x => match x.toInt? with
    | some n => if n.natAbs ≤ maxSafeInteger then .int n else .float x
    | none => .float x
  | a => a

namespace Scalar

variable {a b : Scalar}

theorem reread_float (x : Binary64) :
    (∃ n, x.toInt? = some n ∧ n.natAbs ≤ maxSafeInteger ∧ (float x).reread = .int n) ∨
      (∀ n, x.toInt? = some n → maxSafeInteger < n.natAbs) ∧ (float x).reread = .float x := by
  cases whole : x.toInt? with
  | none =>
    right
    constructor
    · intro n impossible
      cases impossible
    · simp only [reread, whole]
  | some n =>
    by_cases safe : n.natAbs ≤ maxSafeInteger
    · left
      exact ⟨n, rfl, safe, by simp only [reread, whole, if_pos safe]⟩
    · right
      constructor
      · intro m same
        cases same
        omega
      · simp only [reread, whole, if_neg safe]

theorem isJson_reread (json : a.IsJson) : a.reread.IsJson := by
  cases a with
  | float x =>
    rcases reread_float x with ⟨n, _, safe, same⟩ | ⟨_, same⟩
    · rw [same]
      exact safe
    · rw [same]
      exact json
  | _ => exact json

theorem reread_reread (a : Scalar) : a.reread.reread = a.reread := by
  cases a with
  | float x =>
    rcases reread_float x with ⟨n, _, _, same⟩ | ⟨_, same⟩
    · rw [same]
      rfl
    · rw [same, same]
  | _ => rfl

theorem reread_same (json : a.IsJson) : a.reread.same a = true := by
  cases a with
  | float x =>
    rcases reread_float x with ⟨n, whole, _, same⟩ | ⟨_, same⟩
    · rw [same]
      change x.sameInt n = true
      simp [Binary64.sameInt, Binary64.toInt?_iff.mp whole]
    · rw [same]
      apply Binary64.same_self_iff.mpr
      intro absent
      subst absent
      cases json
  | null | bool | int | text => simp [reread, same, number?, text?, plain, Number.same]
  | _ => cases json

theorem same_of_reread (json : a.IsJson) (json' : b.IsJson) (alike : a.reread = b.reread) :
    a.same b = true := by
  have first := same_symm (reread_same json)
  rw [alike] at first
  exact same_trans first (reread_same json')

end Scalar

namespace Json

variable {allowNaN : Bool} {room : Nat} {text : List Char}

theorem shownFloat_of_whole {x : Binary64} {n : Int} (whole : x.toInt? = some n)
    (small : n.natAbs < exponentThreshold) :
    shownFloat x = Binary64.signed (n < 0) (Nat.toDigits 10 n.natAbs) := by
  unfold shownFloat
  cases x with
  | nan | infinite => cases whole
  | finite negative m e canonical =>
    dsimp only
    rw [whole]
    by_cases below : n < 0 <;> simp [small, below, Binary64.signed]

theorem shownFloat_of_point {x : Binary64} (finite : x.isFinite = true)
    (large : ∀ n, x.toInt? = some n → exponentThreshold ≤ n.natAbs) : shownFloat x = x.text := by
  unfold shownFloat
  cases x with
  | nan | infinite => cases finite
  | finite negative m e canonical =>
    dsimp only
    split
    · rename_i n whole
      exact if_neg (Nat.not_lt.mpr (large n whole))
    · rfl

theorem readsAs_shownFloat {x : Binary64} (finite : x.isFinite = true) :
    ReadsAs (readValue allowNaN room) (shownFloat x) (.scalar (Scalar.float x).reread) := by
  by_cases digits : ∃ n, x.toInt? = some n ∧ n.natAbs < exponentThreshold
  · obtain ⟨n, whole, small⟩ := digits
    have value : plainInteger n = (Scalar.float x).reread := by
      rw [plainInteger, Scalar.reread, whole]
      dsimp only
      split
      · rfl
      · rename_i large
        rw [Binary64.ofInt_of_whole whole]
        intro zero
        subst zero
        exact large (Nat.zero_le _)
    rw [shownFloat_of_whole whole small, ← value]
    exact readsAs_numeral fun rest boundary => numeral?_integer n boundary
  · have large : ∀ n, x.toInt? = some n → exponentThreshold ≤ n.natAbs := by
      intro n whole
      exact Nat.not_lt.mp fun small => digits ⟨n, whole, small⟩
    have value : (Scalar.float x).reread = .float x := by
      rcases Scalar.reread_float x with ⟨n, whole, safe, _⟩ | ⟨_, same⟩
      · have unsafe_ : exponentThreshold ≤ n.natAbs := large n whole
        exact absurd (unsafe_.trans safe) (by decide)
      · exact same
    rw [shownFloat_of_point finite large, value]
    cases x with
    | nan | infinite => cases finite
    | finite negative m e canonical =>
      exact readsAs_numeral fun rest boundary => numeral?_finite negative canonical boundary

theorem readsAs_shownScalar {a : Scalar} (json : a.IsJson)
    (written : writeScalar descriptive a = .ok text) :
    ReadsAs (readValue allowNaN room) text (.scalar a.reread) := by
  cases a with
  | null =>
    cases written
    exact readsAs_null
  | bool b =>
    cases written
    exact readsAs_bool b
  | text s =>
    cases written
    exact readsAs_string s
  | int n =>
    have safe : plainInteger n = .int n := if_pos json
    have read : ReadsAs (readValue allowNaN room) text (.scalar (plainInteger n)) :=
      readsAs_integer written
    rw [safe] at read
    exact read
  | float x =>
    cases written
    exact readsAs_shownFloat json
  | _ => cases json

end Json

namespace Value

mutual

def reread : Value → Value
  | .scalar a => .scalar a.reread
  | .seq name kind items => .seq name kind (rereadItems items)
  | .map name kind entries => .map name kind (rereadEntries entries)
  | v => v
termination_by structural v => v

def rereadItems : List Value → List Value
  | [] => []
  | v :: vs => reread v :: rereadItems vs
termination_by structural vs => vs

def rereadEntries : List (Key × Value) → List (Key × Value)
  | [] => []
  | (k, v) :: es => (k, reread v) :: rereadEntries es
termination_by structural es => es

end

theorem rereadItems_eq_map (vs : List Value) : rereadItems vs = vs.map reread := by
  induction vs with
  | nil => rfl
  | cons v vs ih => rw [rereadItems, ih, List.map_cons]

def rereadMember (m : String × Value) : String × Value := (m.1, m.2.reread)

theorem rereadEntries_named (members : List (String × Value)) :
    rereadEntries (members.map named) = (members.map rereadMember).map named := by
  induction members with
  | nil => rfl
  | cons m ms ih => simp only [List.map_cons, named, rereadEntries, ih, rereadMember]

theorem names_rereadMember (members : List (String × Value)) :
    (members.map rereadMember).map (·.1) = members.map (·.1) := by
  rw [List.map_map]
  rfl

theorem reread_list (items : List Value) : (list items).reread = .list (items.map reread) := by
  rw [reread, rereadItems_eq_map]

theorem reread_dict (members : List (String × Value)) :
    (dict (members.map named)).reread = .dict ((members.map rereadMember).map named) := by
  rw [reread, rereadEntries_named]

theorem isJson_reread {v : Value} (json : v.IsJson) : v.reread.IsJson := by
  induction json with
  | scalar json => exact .scalar (Scalar.isJson_reread json)
  | list inside ih =>
    rw [reread_list]
    exact .list (List.forall_mem_map.mpr ih)
  | dict distinct inside ih =>
    rw [reread_dict]
    apply IsJson.dict
    · rw [names_rereadMember]
      exact distinct
    · exact List.forall_mem_map.mpr ih

theorem reread_reread {v : Value} (json : v.IsJson) : v.reread.reread = v.reread := by
  induction json with
  | scalar json => exact congrArg Value.scalar (Scalar.reread_reread _)
  | list inside ih =>
    rw [reread_list, reread_list, List.map_map]
    congr 1
    exact List.map_congr_left ih
  | dict distinct inside ih =>
    rw [reread_dict, reread_dict, List.map_map (f := rereadMember) (g := rereadMember)]
    congr 2
    apply List.map_congr_left
    intro m member
    exact congrArg (Prod.mk m.1) (ih m member)

theorem forall₂_of_map_eq {f : Value → Value} {R : Value → Value → Prop} {vs ws : List Value}
    (alike : vs.map f = ws.map f) (each : ∀ v ∈ vs, ∀ w ∈ ws, f v = f w → R v w) :
    List.Forall₂ R vs ws := by
  induction vs generalizing ws with
  | nil =>
    cases ws with
    | nil => exact .nil
    | cons w ws => cases alike
  | cons v vs ih =>
    cases ws with
    | nil => cases alike
    | cons w ws =>
      rw [List.map_cons, List.map_cons] at alike
      injection alike with head tail
      apply List.Forall₂.cons
      · exact each v (by simp) w (by simp) head
      · apply ih tail
        intro x member y member'
        exact each x (List.mem_cons_of_mem v member) y (List.mem_cons_of_mem w member')

theorem valueUnder?_member {members : List (String × Value)} {m : String × Value}
    (distinct : (members.map (·.1)).Nodup) (member : m ∈ members) :
    valueUnder? (members.map named) (named m).1 = some m.2 := by
  have texts : ((members.map named).map fun e => e.1.text?) = (members.map (·.1)).map some := by
    rw [List.map_map, List.map_map]
    rfl
  apply valueUnder?_of_text (e := named m)
  · rw [texts]
    exact distinct.map (Option.some_injective String)
  · exact List.mem_map_of_mem member
  · rfl

theorem same_of_reread {v w : Value} (json : v.IsJson) (json' : w.IsJson)
    (alike : v.reread = w.reread) {room : Nat} (fits : w.depth ≤ room) :
    sameUpTo room v w = .ok true := by
  induction json' generalizing v room with
  | @scalar b leaf =>
    cases json with
    | @scalar a leaf' =>
      have equal := Scalar.same_of_reread leaf' leaf (Value.scalar.inj alike)
      exact sameUpTo_scalar.mpr ⟨b, rfl, equal⟩
    | list inside => cases alike
    | dict distinct inside => cases alike
  | @list items inside ih =>
    cases json with
    | scalar leaf => cases alike
    | dict distinct inside => cases alike
    | @list others inside' =>
      obtain ⟨room, rfl⟩ : ∃ r, room = r + 1 := ⟨room - 1, by rw [depth] at fits; omega⟩
      have within := depthOfItems_le_iff.mp (Nat.le_of_succ_le_succ fits)
      rw [reread_list, reread_list] at alike
      injection alike with _ _ alike
      apply sameUpTo_list.mpr
      apply forall₂_of_map_eq alike
      intro v member w member' alike
      exact ih w member' (inside' v member) alike (within w member')
  | @dict members distinct inside ih =>
    cases json with
    | scalar leaf => cases alike
    | list inside => cases alike
    | @dict others distinct' inside' =>
      obtain ⟨room, rfl⟩ : ∃ r, room = r + 1 := ⟨room - 1, by rw [depth] at fits; omega⟩
      have within := depthOfEntries_le_iff.mp (Nat.le_of_succ_le_succ fits)
      rw [reread_dict, reread_dict] at alike
      injection alike with _ _ alike
      have lengths := congrArg List.length alike
      simp only [List.length_map] at lengths
      apply sameUpTo_dict.mpr
      constructor
      · simp only [List.length_map, lengths]
      · intro e member
        obtain ⟨o, listed, rfl⟩ := List.mem_map.mp member
        have written : named (rereadMember o) ∈ (others.map rereadMember).map named :=
          List.mem_map_of_mem (List.mem_map_of_mem listed)
        rw [alike] at written
        obtain ⟨p, found, same⟩ := List.mem_map.mp written
        obtain ⟨m, listed', rfl⟩ := List.mem_map.mp found
        have name : m.1 = o.1 := by injection congrArg Prod.fst same with same; injection same
        have value : m.2.reread = o.2.reread := congrArg Prod.snd same
        refine ⟨m.2, ?_, ?_⟩
        · have stored := valueUnder?_member distinct listed'
          rw [named, name] at stored
          exact stored
        · have fit := within (named m) (List.mem_map_of_mem listed')
          exact ih m listed' (inside' o listed) value.symm fit

end Value

namespace Json

variable {allowNaN : Bool}

/-- The description of a value is read to its end. -/
theorem readsAs_shown {v : Value} (json : v.IsJson) {room : Nat} (fits : v.depth ≤ room)
    {text : List Char} (written : write descriptive v = .ok text) :
    ReadsAs (readValue allowNaN room) text v.reread := by
  induction json generalizing room text with
  | scalar json => exact readsAs_shownScalar json written
  | @list items inside ih =>
    obtain ⟨room, rfl⟩ : ∃ r, room = r + 1 := ⟨room - 1, by rw [Value.depth] at fits; omega⟩
    have within := Value.depthOfItems_le_iff.mp (Nat.le_of_succ_le_succ fits)
    simp only [write, except_bind_ok_iff] at written
    obtain ⟨texts, parts, same⟩ := written
    cases same
    rw [Value.reread_list]
    apply readsAs_list
    rw [List.forall₂_map_right_iff]
    apply (writeItems_each parts).imp
    intro text v part
    exact ih v part.1 (within v part.1) part.2
  | @dict members distinct inside ih =>
    obtain ⟨room, rfl⟩ : ∃ r, room = r + 1 := ⟨room - 1, by rw [Value.depth] at fits; omega⟩
    have within := Value.depthOfEntries_le_iff.mp (Nat.le_of_succ_le_succ fits)
    simp only [write, except_bind_ok_iff] at written
    obtain ⟨texts, parts, same⟩ := written
    cases same
    have distinct' : ((members.map Value.rereadMember).map (·.1)).Nodup := by
      rw [Value.names_rereadMember]
      exact distinct
    rw [Value.reread_dict, ← Value.lastByName_of_nodup distinct']
    apply readsAs_dict
    rw [List.forall₂_map_right_iff]
    apply (writeMembers_each (fun m member => (inside m member).isUndefined) parts).imp
    intro text m part
    obtain ⟨member, value, form, shown⟩ := part
    have fit := within (Value.named m) (List.mem_map_of_mem member)
    refine ⟨m.1.toList, value, form, String.ofList_toList, ?_⟩
    exact ih m member fit shown

theorem describe_of_isJson {v : Value} (json : v.IsJson) (fits : v.depth ≤ nestingLimit) :
    ∃ shown, describe v = .ok shown ∧
      ∀ allowNaN, decode allowNaN (.text shown) = .ok (.ok v.reread) := by
  have tree : v.IsTree Scalar.IsDecoded := json.isTree.mono fun _ => Or.inl
  obtain ⟨text, written, shown⟩ := tree.described fits
  exact ⟨_, shown, fun allowNaN => decode_of_readsAs
    (readsAs_shown json (fits.trans nestingLimit_le_readingLimit) written)⟩

end Json

open Json

/-- A value that JSON has is described with a text that is JSON, and what is read of it is equal to
    the value, and to what is read of its encoding. No other description is the same but those of
    values equal to it. -/
theorem description_read_back {v : Value} (json : v.IsJson) (fits : v.depth ≤ nestingLimit) :
    ∃ shown, describe v = .ok shown ∧
      (∀ allowNaN, ∃ w, decode allowNaN (.text shown) = .ok (.ok w) ∧ w.same v = .ok true ∧
        ∃ text x, encode allowNaN v = .ok (.ok text) ∧
          decode allowNaN (.text text) = .ok (.ok x) ∧ w.same x = .ok true) ∧
      ∀ u : Value, u.IsJson → u.depth ≤ nestingLimit → describe u = .ok shown →
        u.same v = .ok true := by
  obtain ⟨shown, described, read⟩ := describe_of_isJson json fits
  have same : v.reread.same v = .ok true :=
    Value.same_of_reread (Value.isJson_reread json) json (Value.reread_reread json) fits
  refine ⟨shown, described, ?_, ?_⟩
  · intro allowNaN
    obtain ⟨text, encoded⟩ := encode_of_isData allowNaN json.isData fits
    have decoded := decode_encoded encoded
    rw [Value.normal_of_isJson json] at decoded
    exact ⟨v.reread, read allowNaN, same, text, v, encoded, decoded, same⟩
  · intro u other within alike
    obtain ⟨shown', described', read'⟩ := describe_of_isJson other within
    cases described'.symm.trans alike
    have texts := (read' false).symm.trans (read false)
    injection texts with texts
    injection texts with texts
    exact Value.same_of_reread other json texts fits

def pastSafe : Binary64 := .finite false (2 ^ 52) 1 (by decide)

def exponential : Binary64 := .finite false 7629394531250000 17 (by decide)

def readings (zero : Scalar) : Value :=
  .list [.scalar zero, .scalar (.float pastSafe),
    .dict ([("\n", Value.int (-9007199254740991)),
      ("", .scalar (.float exponential))].map Value.named)]

def readingsText : String :=
  "[0,9007199254740992,\x7b\"\\n\":-9007199254740991,\"\":1e+21\x7d]"

theorem readings_isJson {zero : Scalar} (json : zero.IsJson) : (readings zero).IsJson := by
  have safe : (-9007199254740991 : Int).natAbs ≤ maxSafeInteger := by decide
  apply Value.IsJson.list
  intro v member
  simp only [List.mem_cons, List.not_mem_nil, or_false] at member
  rcases member with rfl | rfl | rfl
  · exact .scalar json
  · exact .scalar rfl
  · apply Value.IsJson.dict
    · decide
    · intro m member
      rcases List.mem_pair.mp member with rfl | rfl
      · exact .scalar safe
      · exact .scalar rfl

theorem readings_read_back :
    describe (readings (.float (.zero true))) = .ok readingsText ∧
      (∃ w, decode false (.text readingsText) = .ok (.ok w) ∧
        w.same (readings (.float (.zero true))) = .ok true) ∧
      (readings (.int 0)).same (readings (.float (.zero true))) = .ok true := by
  have negative : (readings (.float (.zero true))).IsJson := readings_isJson rfl
  have integer : (readings (.int 0)).IsJson := readings_isJson (Nat.zero_le maxSafeInteger)
  have text : describe (readings (.float (.zero true))) = .ok readingsText := by decide +kernel
  have text' : describe (readings (.int 0)) = .ok readingsText := by decide +kernel
  obtain ⟨shown, described, read, only⟩ := description_read_back negative (by decide)
  cases text.symm.trans described
  obtain ⟨w, decoded, same, _⟩ := read false
  exact ⟨text, ⟨w, decoded, same⟩, only _ integer (by decide) text'⟩

end Conform
