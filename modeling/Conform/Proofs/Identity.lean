import Conform.Proofs.Parts

/-!
Identical keys, values and types are equal as data.
-/
namespace Conform

namespace Key

mutual

theorem eq_of_identical : ∀ k l : Key, k.identical l = true → k = l
  | .scalar a, .scalar b, same => by
    rw [identical, decide_eq_true_iff] at same
    rw [same]
  | .tuple ks, .tuple ls, same => by
    rw [identical] at same
    rw [eq_of_identicalAll ks ls same]
  | .scalar _, .tuple _, same => by simp [identical] at same
  | .tuple _, .scalar _, same => by simp [identical] at same
termination_by structural k => k

theorem eq_of_identicalAll : ∀ ks ls : List Key, identicalAll ks ls = true → ks = ls
  | [], [], _ => rfl
  | k :: ks, l :: ls, same => by
    rw [identicalAll, Bool.and_eq_true] at same
    rw [eq_of_identical k l same.1, eq_of_identicalAll ks ls same.2]
  | [], _ :: _, same => by simp [identicalAll] at same
  | _ :: _, [], same => by simp [identicalAll] at same
termination_by structural ks => ks

end

end Key

namespace Value

theorem eq_of_identicalMember {k l : Option Key} (same : identicalMember k l = true) : k = l := by
  cases k with
  | none => cases l with
    | none => rfl
    | some l => simp [identicalMember] at same
  | some k => cases l with
    | none => simp [identicalMember] at same
    | some l => exact congrArg some (Key.eq_of_identical k l same)

theorem items_eq {vs ws : List Value}
    (each : ∀ v ∈ vs, ∀ {w : Value}, v.identical w = true → v = w)
    (same : identicalItems vs ws = true) : vs = ws := by
  induction vs generalizing ws with
  | nil => cases ws with
    | nil => rfl
    | cons w ws => simp [identicalItems] at same
  | cons v vs ih => cases ws with
    | nil => simp [identicalItems] at same
    | cons w ws =>
      rw [identicalItems, Bool.and_eq_true] at same
      obtain ⟨first, rest⟩ := List.forall_mem_cons.mp each
      rw [first same.1, ih rest same.2]

theorem entries_eq {es fs : List (Key × Value)}
    (each : ∀ e ∈ es, ∀ {w : Value}, e.2.identical w = true → e.2 = w)
    (same : identicalEntries es fs = true) : es = fs := by
  induction es generalizing fs with
  | nil => cases fs with
    | nil => rfl
    | cons f fs => simp [identicalEntries] at same
  | cons e es ih => cases fs with
    | nil => simp [identicalEntries] at same
    | cons f fs =>
      obtain ⟨k, v⟩ := e
      obtain ⟨l, w⟩ := f
      simp only [identicalEntries, Bool.and_eq_true] at same
      obtain ⟨⟨key, value⟩, others⟩ := same
      obtain ⟨first, rest⟩ := List.forall_mem_cons.mp each
      have held : v = w := first value
      rw [Key.eq_of_identical k l key, held, ih rest others]

theorem eq_of_identical {v w : Value} (same : v.identical w = true) : v = w := by
  induction v using treeInduction generalizing w with
  | scalar a =>
    cases w with
    | scalar b => simpa [identical] using same
    | _ => simp [identical] at same
  | seq m j vs ih =>
    cases w with
    | seq n k ws =>
      simp only [identical, Bool.and_eq_true, decide_eq_true_iff] at same
      obtain ⟨⟨name, kind⟩, items⟩ := same
      rw [name, kind, items_eq ih items]
    | _ => simp [identical] at same
  | map m j es ih =>
    cases w with
    | map n k fs =>
      simp only [identical, Bool.and_eq_true, decide_eq_true_iff] at same
      obtain ⟨⟨name, kind⟩, entries⟩ := same
      rw [name, kind, entries_eq ih entries]
    | _ => simp [identical] at same
  | set k =>
    cases w with
    | set l => exact congrArg Value.set (eq_of_identicalMember same)
    | _ => simp [identical] at same
  | again m =>
    cases w with
    | again n => simpa [identical] using same
    | _ => simp [identical] at same

end Value

namespace TypeExpr

theorem items_eq {ss ts : List TypeExpr}
    (each : ∀ s ∈ ss, ∀ {t : TypeExpr}, s.identical t = true → s = t)
    (same : identicalItems ss ts = true) : ss = ts := by
  induction ss generalizing ts with
  | nil => cases ts with
    | nil => rfl
    | cons t ts => simp [identicalItems] at same
  | cons s ss ih => cases ts with
    | nil => simp [identicalItems] at same
    | cons t ts =>
      rw [identicalItems, Bool.and_eq_true] at same
      obtain ⟨first, rest⟩ := List.forall_mem_cons.mp each
      rw [first same.1, ih rest same.2]

theorem fields_eq {fs gs : Layout}
    (each : ∀ f ∈ fs, ∀ {t : TypeExpr}, f.2.1.identical t = true → f.2.1 = t)
    (same : identicalFields fs gs = true) : fs = gs := by
  induction fs generalizing gs with
  | nil => cases gs with
    | nil => rfl
    | cons g gs => simp [identicalFields] at same
  | cons f fs ih => cases gs with
    | nil => simp [identicalFields] at same
    | cons g gs =>
      obtain ⟨m, s, p⟩ := f
      obtain ⟨n, t, q⟩ := g
      simp only [identicalFields, Bool.and_eq_true, beq_iff_eq] at same
      obtain ⟨⟨⟨name, type⟩, required⟩, others⟩ := same
      obtain ⟨first, rest⟩ := List.forall_mem_cons.mp each
      have held : s = t := first type
      rw [name, held, required, ih rest others]

theorem eq_of_identical {s t : TypeExpr} (same : s.identical t = true) : s = t := by
  induction s using treeInduction generalizing t with
  | text | int | float | bool | none | any | undefined | symbol =>
    cases t <;> first | rfl | simp [identical] at same
  | named cls =>
    cases t <;> simp only [identical, Bool.false_eq_true, beq_iff_eq] at same
    rw [same]
  | list item ih | record item ih =>
    cases t <;> simp only [identical, Bool.false_eq_true] at same
    rw [ih same]
  | tuple ss ih | union ss ih | pipe ss ih =>
    cases t <;> simp only [identical, Bool.false_eq_true] at same
    rw [items_eq ih same]
  | literal tag vs =>
    cases t <;> simp only [identical, Bool.false_eq_true, Bool.and_eq_true, beq_iff_eq] at same
    rw [same.1, Value.items_eq (fun v _ => Value.eq_of_identical) same.2]
  | struct tag fields ih =>
    cases t <;> simp only [identical, Bool.false_eq_true, Bool.and_eq_true, beq_iff_eq] at same
    rw [same.1, fields_eq ih same.2]

end TypeExpr
end Conform
