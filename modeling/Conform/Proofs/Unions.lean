import Conform.Proofs.Containers
import Conform.Proofs.TypeSoundness

/-!
Unions that are built step by step. Repetitions are taken out at every step, and what is
taken out early would have been taken out late: the union of a union and one more type is the
union of all of them, and it cannot be built for the same reason.
-/
namespace Conform

namespace TypeExpr

theorem keepFirst_pairwise {α : Type} (same : α → α → Bool) (xs : List α) :
    (keepFirst same xs).Pairwise fun k x => same k x = false := by
  induction xs using List.reverseRecOn with
  | nil => exact .nil
  | append_singleton xs x ih =>
    rw [keepFirst_append_singleton]
    split
    · exact ih
    · rename_i fresh
      rw [List.pairwise_append]
      refine ⟨ih, List.pairwise_singleton _ _, ?_⟩
      intro k kept y last
      cases List.mem_singleton.mp last
      simp only [List.any_eq_true, not_exists, not_and, Bool.not_eq_true] at fresh
      exact fresh k kept

theorem keepFirst_of_pairwise {α : Type} {same : α → α → Bool} {xs : List α}
    (distinct : xs.Pairwise fun k x => same k x = false) : keepFirst same xs = xs := by
  induction xs using List.reverseRecOn with
  | nil => rfl
  | append_singleton xs x ih =>
    rw [List.pairwise_append] at distinct
    obtain ⟨before, _, fresh⟩ := distinct
    rw [keepFirst_append_singleton, ih before, if_neg]
    simp only [List.any_eq_true, not_exists, not_and, Bool.not_eq_true]
    intro k kept
    exact fresh k kept x (List.mem_singleton.mpr rfl)

/-- What was taken out of the front before is not missed. -/
theorem keepFirst_keepFirst_append {α : Type} (same : α → α → Bool) (xs ys : List α) :
    keepFirst same (keepFirst same xs ++ ys) = keepFirst same (xs ++ ys) := by
  induction ys using List.reverseRecOn with
  | nil =>
    rw [List.append_nil, List.append_nil]
    exact keepFirst_of_pairwise (keepFirst_pairwise same xs)
  | append_singleton ys y ih =>
    rw [← List.append_assoc, ← List.append_assoc, keepFirst_append_singleton,
      keepFirst_append_singleton, ih]

theorem unhashableItem?_append (ss ts : List TypeExpr) :
    unhashableItem? (ss ++ ts) = (unhashableItem? ss).or (unhashableItem? ts) := by
  induction ss with
  | nil => rfl
  | cons s ss ih =>
    rw [List.cons_append, unhashableItem?, unhashableItem?, ih]
    cases unhashable? s <;> rfl

def Flat (t : TypeExpr) : Prop := ∀ m ∈ t.members, m.members = [m]

theorem flat_of_members {t : TypeExpr} (alone : t.members = [t]) : t.Flat := by
  intro m member
  rw [alone] at member
  cases List.mem_singleton.mp member
  exact alone

theorem distinctMembers_taken {ts : List TypeExpr} {m : TypeExpr}
    (member : m ∈ distinctMembers ts) : ∃ t ∈ ts, m ∈ t.members :=
  List.mem_flatMap.mp ((keepFirst_spec same _).2 m member)

theorem members_unionOf {ts : List TypeExpr} {u : TypeExpr} (flat : ∀ t ∈ ts, t.Flat)
    (united : unionOf ts = .ok u) : u.members = distinctMembers ts := by
  obtain ⟨_, single | same⟩ := unionOf_ok united
  · have kept : u ∈ distinctMembers ts := single ▸ List.mem_singleton.mpr rfl
    obtain ⟨t, listed, member⟩ := distinctMembers_taken kept
    rw [single]
    exact flat t listed u member
  · rw [same]
    rfl

theorem flat_unionOf {ts : List TypeExpr} {u : TypeExpr} (flat : ∀ t ∈ ts, t.Flat)
    (united : unionOf ts = .ok u) : u.Flat := by
  intro m member
  rw [members_unionOf flat united] at member
  obtain ⟨t, listed, part⟩ := distinctMembers_taken member
  exact flat t listed m part

theorem unionOf_append_singleton {ts : List TypeExpr} {u : TypeExpr} (flat : ∀ t ∈ ts, t.Flat)
    (united : unionOf ts = .ok u) (t : TypeExpr) : unionOf [u, t] = unionOf (ts ++ [t]) := by
  have members := members_unionOf flat united
  obtain ⟨hashable, _⟩ := unionOf_ok united
  have before := unhashableItem?_iff.mpr hashable
  -- the members that are hashed again are among those hashed before
  have kept : unhashableItem? (distinctMembers ts) = Option.none := by
    refine unhashableItem?_iff.mpr fun m member => hashable m ?_
    exact (keepFirst_spec same _).2 m member
  have faults : unhashableItem? ([u, t].flatMap TypeExpr.members) =
      unhashableItem? ((ts ++ [t]).flatMap TypeExpr.members) := by
    rw [List.flatMap_cons, List.flatMap_append, unhashableItem?_append, unhashableItem?_append,
      members, kept, before]
  have distinct : distinctMembers [u, t] = distinctMembers (ts ++ [t]) := by
    rw [distinctMembers, distinctMembers, List.flatMap_cons, List.flatMap_append, members]
    exact keepFirst_keepFirst_append same _ _
  rw [unionOf, unionOf, faults, distinct]

theorem unionOf_append_error {ts : List TypeExpr} {fault : Fault}
    (stopped : unionOf ts = .error fault) (others : List TypeExpr) :
    unionOf (ts ++ others) = .error fault := by
  unfold unionOf at stopped ⊢
  rw [List.flatMap_append, unhashableItem?_append]
  cases found : unhashableItem? (ts.flatMap members) with
  | some type =>
    rw [found] at stopped
    exact stopped
  | none =>
    rw [found] at stopped
    dsimp only at stopped
    split at stopped <;> cases stopped

theorem flat_inherited : Inherited Flat where
  plain := by
    intro t plain
    apply flat_of_members
    cases t with
    | union | pipe | struct => exact plain.elim
    | _ => rfl
  union := flat_unionOf
  merge := by
    intro tag s t first _
    unfold merge
    split
    · exact flat_of_members rfl
    · exact first
  struct := by
    intro tag types t _ built
    obtain ⟨layout, same, _⟩ := structOf_ok built
    rw [same]
    exact flat_of_members rfl

end TypeExpr

namespace Schema

theorem type_flat {s : Schema} (given : s.shape.Every (Shape.GivenTypes TypeExpr.Flat)) :
    s.type.Flat :=
  Shape.typeExpr_inherits TypeExpr.flat_inherited given s.typed

theorem map_type_of (shape : Shape) : (of shape).map type = shape.typeExpr := by
  unfold of
  split
  · rename_i typed
    exact typed.symm
  · rename_i stopped
    exact stopped.symm

theorem typeExprs_shapes (alternatives : List Schema) :
    Shape.typeExprs (alternatives.map shape) = .ok (alternatives.map type) := by
  induction alternatives with
  | nil => rfl
  | cons s ss ih =>
    rw [List.map_cons, Shape.typeExprs, s.typed, ih]
    rfl

theorem map_type_either (left right : Schema) :
    (left.either right).map type = TypeExpr.unionOf [left.type, right.type] := by
  rw [either, map_type_of, Shape.typeExpr, left.typed, right.typed]
  rfl

theorem map_type_anyOf (first second : Schema) (rest : List Schema) :
    (anyOf (first :: second :: rest)).map type =
      TypeExpr.unionOf ((first :: second :: rest).map type) := by
  rw [anyOf, map_type_of, Shape.typeExpr, typeExprs_shapes]
  rfl

def chain (first : Schema) (rest : List Schema) : Except Fault Schema := rest.foldlM either first

theorem chain_append_singleton (first : Schema) (rest : List Schema) (last : Schema) :
    chain first (rest ++ [last]) = chain first rest >>= fun s => s.either last := by
  unfold chain
  rw [List.foldlM_append]
  simp only [List.foldlM_cons, List.foldlM_nil, bind_pure]

theorem map_type_chain {first : Schema} {rest : List Schema} (more : rest ≠ [])
    (flat : ∀ s ∈ first :: rest, s.type.Flat) :
    (chain first rest).map type = TypeExpr.unionOf ((first :: rest).map type) := by
  induction rest using List.reverseRecOn with
  | nil => exact absurd rfl more
  | append_singleton rest last ih =>
    rw [chain_append_singleton]
    by_cases alone : rest = []
    · subst alone
      exact map_type_either first last
    · have earlier : ∀ s ∈ first :: rest, s.type.Flat := by
        intro s member
        apply flat
        rw [← List.cons_append]
        exact List.mem_append_left _ member
      have before := (ih alone earlier).symm
      rw [← List.cons_append, List.map_append]
      cases built : chain first rest with
      | error fault =>
        rw [built] at before
        exact (TypeExpr.unionOf_append_error before _).symm
      | ok s =>
        rw [built] at before
        refine (map_type_either s last).trans ?_
        exact TypeExpr.unionOf_append_singleton (List.forall_mem_map.mpr earlier) before last.type

theorem shape_chain {first s : Schema} {rest : List Schema} (built : chain first rest = .ok s) :
    s.shape = (rest.map shape).foldl Shape.either first.shape := by
  induction rest using List.reverseRecOn generalizing s with
  | nil =>
    cases built
    rfl
  | append_singleton rest last ih =>
    rw [chain_append_singleton] at built
    obtain ⟨before, begun, ended⟩ := except_bind_ok_iff.mp built
    rw [List.map_append, List.foldl_append, ← ih begun]
    exact shape_of ended

end Schema
end Conform
