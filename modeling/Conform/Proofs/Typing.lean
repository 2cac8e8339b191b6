import Conform.Proofs.Parts
import Conform.Proofs.Verdict
import Conform.Shape.Typing
import Mathlib.Data.List.Forall2

/-!
The types of shapes and of their parts. A shape that can be built has parts
that can be built, each with a type of its own.
-/
namespace Conform

theorem exists_related {α β : Type} {R : α → β → Prop} {xs : List α} {ys : List β}
    (related : List.Forall₂ R xs ys) {x : α} (member : x ∈ xs) : ∃ y ∈ ys, R x y := by
  induction related with
  | nil => cases member
  | cons head tail ih =>
    rcases List.mem_cons.mp member with same | member
    · subst same
      exact ⟨_, by simp, head⟩
    · obtain ⟨y, found, holds⟩ := ih member
      exact ⟨y, List.mem_cons_of_mem _ found, holds⟩

theorem forall₂_of_mapM {α β : Type} {f : α → Except Fault β} {xs : List α} {ys : List β}
    (mapped : xs.mapM f = .ok ys) : List.Forall₂ (fun x y => f x = .ok y) xs ys := by
  induction xs generalizing ys with
  | nil =>
    cases mapped
    exact .nil
  | cons x xs ih =>
    rw [List.mapM_cons] at mapped
    obtain ⟨y, first, rest⟩ := except_bind_ok_iff.mp mapped
    obtain ⟨zs, tail, same⟩ := except_bind_ok_iff.mp rest
    cases same
    exact .cons first (ih tail)

namespace Shape

theorem typeExprs_ok {ss : List Shape} {ts : List TypeExpr} (typed : typeExprs ss = .ok ts) :
    List.Forall₂ (fun s t => s.typeExpr = .ok t) ss ts := by
  induction ss generalizing ts with
  | nil =>
    cases typed
    exact .nil
  | cons s ss ih =>
    obtain ⟨t, head, rest⟩ := except_bind_ok_iff.mp typed
    obtain ⟨us, tail, same⟩ := except_bind_ok_iff.mp rest
    cases same
    exact .cons head (ih tail)

theorem fieldTypes_ok {fields : List (String × Shape)} {types : List (String × TypeExpr)}
    (typed : fieldTypes fields = .ok types) :
    List.Forall₂ (fun field type => type.1 = field.1 ∧ field.2.typeExpr = .ok type.2)
      fields types := by
  induction fields generalizing types with
  | nil =>
    cases typed
    exact .nil
  | cons field fields ih =>
    obtain ⟨t, head, rest⟩ := except_bind_ok_iff.mp typed
    obtain ⟨us, tail, same⟩ := except_bind_ok_iff.mp rest
    cases same
    exact .cons ⟨rfl, head⟩ (ih tail)

theorem typeExpr_anyOf {ss : List Shape} {t : TypeExpr} (typed : (anyOf ss).typeExpr = .ok t) :
    ∃ ts, typeExprs ss = .ok ts ∧ TypeExpr.oneOf ts = .ok t := by
  rw [typeExpr] at typed
  split at typed
  · cases typed
  · exact except_bind_ok_iff.mp typed

theorem typeExpr_child {s c : Shape} {t : TypeExpr} (typed : s.typeExpr = .ok t)
    (child : c ∈ s.children) : ∃ u, c.typeExpr = .ok u := by
  cases s with
  | atomic | literal | custom => cases child
  | refined base refine =>
    cases List.mem_singleton.mp child
    exact ⟨t, typed⟩
  | optional base | nullable base | array base | record base =>
    cases List.mem_singleton.mp child
    obtain ⟨u, inner, _⟩ := except_bind_ok_iff.mp typed
    exact ⟨u, inner⟩
  | either left right | both left right | merge tag left right =>
    obtain ⟨u, first, rest⟩ := except_bind_ok_iff.mp typed
    obtain ⟨w, second, _⟩ := except_bind_ok_iff.mp rest
    rcases List.mem_pair.mp child with same | same
    · exact ⟨u, same ▸ first⟩
    · exact ⟨w, same ▸ second⟩
  | tuple ss =>
    obtain ⟨ts, items, _⟩ := except_bind_ok_iff.mp typed
    obtain ⟨u, _, inner⟩ := exists_related (typeExprs_ok items) child
    exact ⟨u, inner⟩
  | anyOf ss =>
    obtain ⟨ts, items, _⟩ := typeExpr_anyOf typed
    obtain ⟨u, _, inner⟩ := exists_related (typeExprs_ok items) child
    exact ⟨u, inner⟩
  | struct tag closed fields =>
    obtain ⟨ts, types, _⟩ := except_bind_ok_iff.mp typed
    obtain ⟨field, member, same⟩ := List.mem_map.mp child
    obtain ⟨u, _, _, inner⟩ := exists_related (fieldTypes_ok types) member
    exact ⟨u.2, same ▸ inner⟩

def GivenTypes (P : TypeExpr → Prop) : Shape → Prop
  | .custom _ type => P type
  | _ => True

end Shape

def TypeExpr.IsPlain : TypeExpr → Prop
  | .union _ | .pipe _ | .struct .. => False
  | _ => True

theorem TypeExpr.isPlain_literalOf (tag : Nat) (values : List Value) :
    (literalOf tag values).IsPlain := by
  unfold literalOf
  split <;> trivial

structure TypeExpr.Inherited (P : TypeExpr → Prop) : Prop where
  plain : ∀ t : TypeExpr, t.IsPlain → P t
  union : ∀ {ts : List TypeExpr} {u : TypeExpr}, (∀ t ∈ ts, P t) → unionOf ts = .ok u → P u
  merge : ∀ {tag : Nat} {s t : TypeExpr}, P s → P t → P (merge tag s t)
  struct : ∀ {tag : Nat} {types : List (String × TypeExpr)} {t : TypeExpr},
    (∀ type ∈ types, P type.2) → structOf tag types = .ok t → P t

namespace Shape

variable {P : TypeExpr → Prop}

theorem inherited_oneOf (inherited : TypeExpr.Inherited P) {ts : List TypeExpr} {u : TypeExpr}
    (each : ∀ t ∈ ts, P t) (united : TypeExpr.oneOf ts = .ok u) : P u := by
  match ts with
  | [] => exact inherited.union each united
  | [t] =>
    cases united
    exact each _ (List.mem_singleton.mpr rfl)
  | _ :: _ :: _ => exact inherited.union each united

theorem typeExpr_inherits (inherited : TypeExpr.Inherited P) {s : Shape}
    (given : s.Every (GivenTypes P)) {t : TypeExpr} (typed : s.typeExpr = .ok t) : P t := by
  induction s using childInduction generalizing t with
  | step s ih =>
    have part : ∀ c ∈ s.children, ∀ {u}, c.typeExpr = .ok u → P u := fun c child =>
      ih c child (given.at_child child)
    cases s with
    | atomic k =>
      cases typed
      cases k with
      | number =>
        have united : TypeExpr.unionOf [.int, .float] = .ok (.union [.int, .float]) := rfl
        apply inherited.union _ united
        intro t member
        rcases List.mem_pair.mp member with rfl | rfl <;> exact inherited.plain _ trivial
      | _ => exact inherited.plain _ trivial
    | literal tag candidates =>
      obtain ⟨_, _, same⟩ := except_bind_ok_iff.mp typed
      cases same
      split
      · exact inherited.plain _ trivial
      · exact inherited.plain _ (TypeExpr.isPlain_literalOf tag candidates)
    | optional base | nullable base =>
      obtain ⟨u, inner, united⟩ := except_bind_ok_iff.mp typed
      apply inherited.union _ united
      intro w member
      rcases List.mem_pair.mp member with rfl | rfl
      · exact part base (by simp [children]) inner
      · exact inherited.plain _ trivial
    | array item | record item =>
      obtain ⟨u, _, same⟩ := except_bind_ok_iff.mp typed
      cases same
      exact inherited.plain _ trivial
    | tuple ss =>
      obtain ⟨us, _, same⟩ := except_bind_ok_iff.mp typed
      cases same
      exact inherited.plain _ trivial
    | either left right =>
      obtain ⟨u, first, rest⟩ := except_bind_ok_iff.mp typed
      obtain ⟨w, second, united⟩ := except_bind_ok_iff.mp rest
      apply inherited_oneOf inherited _ united
      intro x member
      rcases List.mem_pair.mp member with rfl | rfl
      · exact part left (by simp [children]) first
      · exact part right (by simp [children]) second
    | anyOf ss =>
      obtain ⟨us, types, united⟩ := typeExpr_anyOf typed
      apply inherited_oneOf inherited _ united
      intro u member
      obtain ⟨s, listed, inner⟩ := exists_related (List.Forall₂.flip (typeExprs_ok types)) member
      exact part s listed inner
    | both left right =>
      obtain ⟨u, first, rest⟩ := except_bind_ok_iff.mp typed
      obtain ⟨_, _, same⟩ := except_bind_ok_iff.mp rest
      cases same
      exact part left (by simp [children]) first
    | merge tag left right =>
      obtain ⟨u, first, rest⟩ := except_bind_ok_iff.mp typed
      obtain ⟨w, second, same⟩ := except_bind_ok_iff.mp rest
      cases same
      exact inherited.merge (part left (by simp [children]) first)
        (part right (by simp [children]) second)
    | refined base refine => exact part base (by simp [children]) typed
    | custom own type =>
      cases typed
      exact given.at_root
    | struct tag closed fields =>
      obtain ⟨types, typedFields, built⟩ := except_bind_ok_iff.mp typed
      apply inherited.struct _ built
      intro type member
      obtain ⟨field, declared, _, inner⟩ :=
        exists_related (List.Forall₂.flip (fieldTypes_ok typedFields)) member
      exact part field.2 (field_child declared) inner

end Shape
end Conform
