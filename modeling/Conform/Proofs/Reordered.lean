import Conform.Proofs.Faults
import Conform.Proofs.Keys
import Conform.Proofs.Typing
import Mathlib.Data.List.Perm.Basic

/-!
Values that differ only in the order of the entries of maps, at any depth. They have
the same parts under the same keys, again up to order. So nothing that is looked up by
key tells them apart, and neither does equality with a third value.
-/
namespace Conform

theorem forall₂_members {α β : Type} {R : α → β → Prop} {xs : List α} {ys : List β}
    (related : List.Forall₂ R xs ys) : List.Forall₂ (fun x y => x ∈ xs ∧ R x y) xs ys := by
  obtain ⟨length, each⟩ := List.forall₂_iff_zip.mp related
  exact List.forall₂_iff_zip.mpr
    ⟨length, fun member => ⟨(List.of_mem_zip member).1, each member⟩⟩

theorem forall₂_comp {α β γ : Type} {R : α → β → Prop} {S : β → γ → Prop} {T : α → γ → Prop}
    (join : ∀ x y z, R x y → S y z → T x z) {xs : List α} {ys : List β} {zs : List γ}
    (first : List.Forall₂ R xs ys) (second : List.Forall₂ S ys zs) : List.Forall₂ T xs zs := by
  induction first generalizing zs with
  | nil =>
    cases second
    exact .nil
  | cons head tail ih =>
    cases second with
    | cons head' tail' => exact .cons (join _ _ _ head head') (ih tail')

def Matched {α β : Type} (R : α → β → Prop) (xs : List α) (ys : List β) : Prop :=
  ∃ zs, xs.Perm zs ∧ List.Forall₂ R zs ys

namespace Matched

variable {α β : Type} {R : α → β → Prop} {xs : List α} {ys : List β}

theorem of_forall₂ (related : List.Forall₂ R xs ys) : Matched R xs ys :=
  ⟨xs, .refl xs, related⟩

theorem exists_right (matched : Matched R xs ys) {x : α} (member : x ∈ xs) : ∃ y ∈ ys, R x y := by
  obtain ⟨zs, moved, related⟩ := matched
  exact exists_related related (moved.mem_iff.mp member)

theorem exists_left (matched : Matched R xs ys) {y : β} (member : y ∈ ys) : ∃ x ∈ xs, R x y := by
  obtain ⟨zs, moved, related⟩ := matched
  obtain ⟨x, found, same⟩ := exists_related (List.Forall₂.flip related) member
  exact ⟨x, moved.mem_iff.mpr found, same⟩

theorem length_eq (matched : Matched R xs ys) : xs.length = ys.length := by
  obtain ⟨zs, moved, related⟩ := matched
  exact moved.length_eq.trans related.length_eq

theorem mono {S : α → β → Prop} (matched : Matched R xs ys)
    (wider : ∀ x ∈ xs, ∀ y, R x y → S x y) : Matched S xs ys := by
  obtain ⟨zs, moved, related⟩ := matched
  refine ⟨zs, moved, (forall₂_members related).imp fun x y both => ?_⟩
  exact wider x (moved.mem_iff.mpr both.1) y both.2

theorem map {γ δ : Type} {S : γ → δ → Prop} {f : α → γ} {g : β → δ} (matched : Matched R xs ys)
    (same : ∀ x y, R x y → S (f x) (g y)) : Matched S (xs.map f) (ys.map g) := by
  obtain ⟨zs, moved, related⟩ := matched
  refine ⟨zs.map f, moved.map f, ?_⟩
  rw [List.forall₂_map_left_iff, List.forall₂_map_right_iff]
  exact related.imp same

theorem symm {S : β → α → Prop} (matched : Matched R xs ys) (back : ∀ x y, R x y → S y x) :
    Matched S ys xs := by
  obtain ⟨zs, moved, related⟩ := matched
  obtain ⟨us, related', moved'⟩ := List.perm_comp_forall₂ moved related
  exact ⟨us, moved'.symm, List.Forall₂.flip (related'.imp back)⟩

end Matched

namespace Value

/-- Wherever there are maps in the values, they have the same entries in any order. -/
inductive Reordered : Value → Value → Prop where
  | scalar (a : Scalar) : Reordered (.scalar a) (.scalar a)
  | set (member : Option Key) : Reordered (.set member) (.set member)
  | again (n : Nat) : Reordered (.again n) (.again n)
  | seq {name : Option Nat} {kind : Mutability} {xs ys : List Value}
      (length : xs.length = ys.length) (each : ∀ p ∈ xs.zip ys, Reordered p.1 p.2) :
      Reordered (.seq name kind xs) (.seq name kind ys)
  | map {name : Option Nat} {kind : Mutability} {es fs gs : List (Key × Value)}
      (moved : es.Perm fs) (length : fs.length = gs.length)
      (keys : ∀ p ∈ fs.zip gs, p.1.1 = p.2.1) (each : ∀ p ∈ fs.zip gs, Reordered p.1.2 p.2.2) :
      Reordered (.map name kind es) (.map name kind gs)

def EntryRelated (R : Value → Value → Prop) (e f : Key × Value) : Prop :=
  e.1 = f.1 ∧ R e.2 f.2

theorem items_related {xs ys : List Value} (length : xs.length = ys.length)
    (each : ∀ p ∈ xs.zip ys, Reordered p.1 p.2) : List.Forall₂ Reordered xs ys :=
  List.forall₂_iff_zip.mpr ⟨length, fun member => each _ member⟩

theorem entries_matched {es fs gs : List (Key × Value)} (moved : es.Perm fs)
    (length : fs.length = gs.length) (keys : ∀ p ∈ fs.zip gs, p.1.1 = p.2.1)
    (each : ∀ p ∈ fs.zip gs, Reordered p.1.2 p.2.2) : Matched (EntryRelated Reordered) es gs :=
  ⟨fs, moved, List.forall₂_iff_zip.mpr
    ⟨length, fun member => ⟨keys _ member, each _ member⟩⟩⟩

namespace Reordered

theorem of_items {name : Option Nat} {kind : Mutability} {xs ys : List Value}
    (related : List.Forall₂ Reordered xs ys) :
    Reordered (.seq name kind xs) (.seq name kind ys) := by
  obtain ⟨length, each⟩ := List.forall₂_iff_zip.mp related
  exact .seq length fun p member => each member

theorem of_entries {name : Option Nat} {kind : Mutability} {es gs : List (Key × Value)}
    (matched : Matched (EntryRelated Reordered) es gs) :
    Reordered (.map name kind es) (.map name kind gs) := by
  obtain ⟨fs, moved, related⟩ := matched
  obtain ⟨length, each⟩ := List.forall₂_iff_zip.mp related
  exact .map moved length (fun p member => (each member).1) fun p member => (each member).2

variable {v w : Value}

theorem symm (reordered : v.Reordered w) : w.Reordered v := by
  induction reordered with
  | scalar a => exact .scalar a
  | set member => exact .set member
  | again n => exact .again n
  | seq length _ back =>
    have related : List.Forall₂ (fun x y => Reordered y x) _ _ :=
      List.forall₂_iff_zip.mpr ⟨length, fun member => back _ member⟩
    exact of_items (List.Forall₂.flip related)
  | @map _ _ es fs gs moved length keys _ back =>
    have matched : Matched (fun e f => EntryRelated Reordered f e) es gs :=
      ⟨fs, moved, List.forall₂_iff_zip.mpr
        ⟨length, fun member => ⟨(keys _ member).symm, back _ member⟩⟩⟩
    exact of_entries (matched.symm fun _ _ related => related)

theorem children (reordered : v.Reordered w) : Matched Reordered v.children w.children := by
  cases reordered with
  | scalar | set | again => exact .of_forall₂ .nil
  | seq length each => exact .of_forall₂ (items_related length each)
  | map moved length keys each =>
    exact (entries_matched moved length keys each).map fun _ _ related => related.2

theorem every {p : Value → Prop} (kept : ∀ v w, v.Reordered w → p v → p w)
    (reordered : v.Reordered w) (all : v.Every p) : w.Every p := by
  induction v using childInduction generalizing w with
  | step v ih =>
    refine .node (kept v w reordered all.at_root) fun y child => ?_
    obtain ⟨x, inside, related⟩ := reordered.children.exists_left child
    exact ih x inside related (all.at_child inside)

theorem acyclic (reordered : v.Reordered w) (acyclic : v.Acyclic) : w.Acyclic := by
  refine reordered.every (fun v w related here => ?_) acyclic
  cases related with
  | again => exact here
  | _ => trivial

theorem writable (reordered : v.Reordered w) (writable : v.Writable) : w.Writable := by
  refine reordered.every (fun v w related here => ?_) writable
  cases related with
  | scalar | set | again => exact here
  | seq length each => exact le_of_eq_of_le length.symm here
  | map moved length keys each =>
    intro f member
    obtain ⟨e, entry, key, _⟩ := (entries_matched moved length keys each).exists_left member
    exact key ▸ here e entry

theorem kind_eq (reordered : v.Reordered w) : v.kind = w.kind := by
  cases reordered <;> rfl

theorem depth_le (reordered : v.Reordered w) : w.depth ≤ v.depth := by
  induction v using childInduction generalizing w with
  | step v ih =>
    have inner : ∀ y ∈ w.children, y.depth < v.depth := by
      intro y child
      obtain ⟨x, inside, related⟩ := reordered.children.exists_left child
      exact Nat.lt_of_le_of_lt (ih x inside related) (depth_child_lt inside)
    cases reordered with
    | scalar | set | again => exact Nat.le_refl _
    | seq length each =>
      refine Nat.succ_le_succ (depthOfItems_le_iff.mpr fun y member => ?_)
      exact Nat.le_of_lt_succ (inner y member)
    | map moved length keys each =>
      refine Nat.succ_le_succ (depthOfEntries_le_iff.mpr fun f member => ?_)
      exact Nat.le_of_lt_succ (inner f.2 (mem_children_of_entry member))

end Reordered

def NodeDistinct : Value → Prop
  | .map _ _ es => KeysDistinct es
  | _ => True

theorem keysDistinct_of_matched {R : Value → Value → Prop} {es gs : List (Key × Value)}
    (matched : Matched (EntryRelated R) es gs) (distinct : KeysDistinct es) : KeysDistinct gs := by
  obtain ⟨fs, moved, related⟩ := matched
  have apart : KeysDistinct fs := (moved.pairwise_iff Key.differ_symm).mp distinct
  clear moved distinct
  induction related with
  | nil => exact .nil
  | cons head tail ih =>
    obtain ⟨first, rest⟩ := List.pairwise_cons.mp apart
    refine List.pairwise_cons.mpr ⟨fun g member => ?_, ih rest⟩
    obtain ⟨f, found, same⟩ := (Matched.of_forall₂ tail).exists_left member
    rw [← head.1, ← same.1]
    exact first f found

theorem valueUnder?_of_matched {R : Value → Value → Prop} {es gs : List (Key × Value)}
    (matched : Matched (EntryRelated R) es gs) (distinct : KeysDistinct es) {k : Key} {x : Value}
    (found : valueUnder? es k = some x) : ∃ y, valueUnder? gs k = some y ∧ R x y := by
  obtain ⟨e, member, under, rfl⟩ := (valueUnder?_iff distinct).mp found
  obtain ⟨g, other, key, related⟩ := matched.exists_right member
  have distinct' := keysDistinct_of_matched matched distinct
  exact ⟨g.2, (valueUnder?_iff distinct').mpr ⟨g, other, key ▸ under, rfl⟩, related⟩

theorem Reordered.distinct {v w : Value} (reordered : v.Reordered w)
    (distinct : v.Every NodeDistinct) : w.Every NodeDistinct := by
  refine reordered.every (fun v w related here => ?_) distinct
  cases related with
  | map moved length keys each =>
    exact keysDistinct_of_matched (entries_matched moved length keys each) here
  | _ => trivial

theorem seq_of_equal {room : Nat} {c : Value} {n : Option Nat} {k : Mutability} {ys : List Value}
    (equal : sameUpTo room c (.seq n k ys) = .ok true ∨ sameUpTo room (.seq n k ys) c = .ok true) :
    ∃ m j zs, c = .seq m j zs := by
  cases c with
  | seq m j zs => exact ⟨m, j, zs, rfl⟩
  | _ => simp [sameUpTo] at equal

theorem map_of_equal {room : Nat} {c : Value} {n : Option Nat} {k : Mutability}
    {es : List (Key × Value)}
    (equal : sameUpTo room c (.map n k es) = .ok true ∨ sameUpTo room (.map n k es) c = .ok true) :
    ∃ m j fs, c = .map m j fs := by
  cases c with
  | map m j fs => exact ⟨m, j, fs, rfl⟩
  | _ => simp [sameUpTo] at equal

/-- Whatever the first value equals or is equal to, the second equals or is equal to as well. -/
def EqualAlike (v w : Value) : Prop :=
  ∀ room c, (sameUpTo room c v = .ok true → sameUpTo room c w = .ok true) ∧
    (sameUpTo room v c = .ok true → sameUpTo room w c = .ok true)

theorem equalAlike_seq {n : Option Nat} {k : Mutability} {xs ys : List Value}
    (each : List.Forall₂ EqualAlike (items n k xs) (items n k ys)) :
    EqualAlike (.seq n k xs) (.seq n k ys) := by
  intro room c
  constructor <;> intro equal
  · obtain ⟨m, j, zs, rfl⟩ := seq_of_equal (Or.inl equal)
    obtain ⟨left, rfl, kinds, same⟩ := sameUpTo_seq.mp equal
    refine sameUpTo_seq.mpr ⟨left, rfl, kinds, ?_⟩
    exact forall₂_comp (fun _ _ _ first alike => (alike left _).1 first) same each
  · obtain ⟨m, j, zs, rfl⟩ := seq_of_equal (Or.inr equal)
    obtain ⟨left, rfl, kinds, same⟩ := sameUpTo_seq.mp equal
    refine sameUpTo_seq.mpr ⟨left, rfl, kinds, ?_⟩
    have backward := List.Forall₂.flip (R := fun y x => EqualAlike x y) each
    exact forall₂_comp (fun _ _ _ alike first => (alike left _).2 first) backward same

theorem equalAlike_map {n : Option Nat} {k : Mutability} {es gs : List (Key × Value)}
    (distinct : KeysDistinct (entries n k es))
    (matched : Matched (EntryRelated EqualAlike) (entries n k es) (entries n k gs)) :
    EqualAlike (.map n k es) (.map n k gs) := by
  intro room c
  have length : es.length = gs.length := by
    have opened := matched.length_eq
    rwa [length_entries, length_entries] at opened
  have searched : ∀ {left others}, AllFound left (entries n k es) others →
      AllFound left (entries n k gs) others := by
    intro left others all f member
    obtain ⟨x, found, same⟩ := all f member
    obtain ⟨y, also, alike⟩ := valueUnder?_of_matched matched distinct found
    exact ⟨y, also, (alike left f.2).1 same⟩
  have sought : ∀ {left others}, AllFound left others (entries n k es) →
      AllFound left others (entries n k gs) := by
    intro left others all g member
    obtain ⟨e, entry, key, alike⟩ := matched.exists_left member
    obtain ⟨x, found, same⟩ := all e entry
    exact ⟨x, key ▸ found, (alike left x).2 same⟩
  constructor <;> intro equal
  · obtain ⟨m, j, fs, rfl⟩ := map_of_equal (Or.inl equal)
    obtain ⟨left, rfl, lengths, same⟩ := sameUpTo_map.mp equal
    refine sameUpTo_map.mpr ⟨left, rfl, lengths.trans length, ?_⟩
    cases k with
    | mutable => exact searched same
    | frozen => exact sought same
  · obtain ⟨m, j, fs, rfl⟩ := map_of_equal (Or.inr equal)
    obtain ⟨left, rfl, lengths, same⟩ := sameUpTo_map.mp equal
    refine sameUpTo_map.mpr ⟨left, rfl, length.symm.trans lengths, ?_⟩
    cases j with
    | mutable => exact sought same
    | frozen => exact searched same

/-- A value cannot be told from a reordering of it by comparing them with a third. -/
theorem Reordered.equalAlike {v w : Value} (acyclic : v.Acyclic) (distinct : v.Every NodeDistinct)
    (reordered : v.Reordered w) : EqualAlike v w := by
  induction v using childInduction generalizing w with
  | step v ih =>
    have acyclic' := reordered.acyclic acyclic
    cases reordered with
    | scalar | set | again => exact fun room c => ⟨id, id⟩
    | @seq n k xs ys length each =>
      refine equalAlike_seq ?_
      rw [items_of_acyclic acyclic, items_of_acyclic acyclic']
      refine (forall₂_members (items_related length each)).imp fun x y both => ?_
      have inside : x ∈ (Value.seq n k xs).children := both.1
      exact ih x inside (acyclic.at_child inside) (distinct.at_child inside) both.2
    | @map n k es fs gs moved length keys each =>
      have distinct' : KeysDistinct es := distinct.at_root
      refine equalAlike_map ?_ ?_
      · rwa [entries_of_acyclic acyclic]
      · rw [entries_of_acyclic acyclic, entries_of_acyclic acyclic']
        refine (entries_matched moved length keys each).mono fun e member g related => ?_
        have inside : e.2 ∈ (Value.map n k es).children := mem_children_of_entry member
        exact ⟨related.1, ih e.2 inside (acyclic.at_child inside) (distinct.at_child inside)
          related.2⟩

end Value

end Conform
