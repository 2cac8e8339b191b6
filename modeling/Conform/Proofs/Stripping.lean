import Conform.Proofs.Exported
import Conform.Proofs.Unions
import Conform.TypeExpr.Pipe

/-!
What stripping takes out of a type. The alternatives of a type are the types that its unions
come down to and the single values of its literal types. Stripping leaves all of them but the
undefined ones, or the whole type where there are no others. A union is put together again,
for which its members are hashed; that a bar has joined them does not mean that they can be.
-/
namespace Conform

theorem Value.sameTyped_iff {v w : Value} :
    v.sameTyped w = true ↔ v.typeName = w.typeName ∧ v.kind = w.kind ∧ v.same w = .ok true := by
  unfold sameTyped
  cases compared : v.same w with
  | error fault => simp
  | ok equal => cases equal <;> simp

theorem Value.sameTyped_trans {u v w : Value} (hashable : u.unhashable? = none)
    (hashable' : v.unhashable? = none) (first : u.sameTyped v = true)
    (second : v.sameTyped w = true) : u.sameTyped w = true := by
  obtain ⟨name, kind, equal⟩ := sameTyped_iff.mp first
  obtain ⟨name', kind', equal'⟩ := sameTyped_iff.mp second
  apply sameTyped_iff.mpr
  exact ⟨name.trans name', kind.trans kind', sameUpTo_trans hashable hashable' equal equal'⟩

inductive Alternative where
  | type (t : TypeExpr)
  | value (tag : Nat) (v : Value)

namespace Alternative

def isUndefined : Alternative → Bool
  | .type .undefined => true
  | .type _ => false
  | .value _ v => v.isUndefined

def same : Alternative → Alternative → Bool
  | .type s, .type t => s.same t
  | .value m v, .value n w => TypeExpr.sameCandidate (m == n) v w
  | _, _ => false

end Alternative

namespace TypeExpr

mutual

/-- The alternatives of a type: unions are flattened, and literal types split into values. -/
def alternatives : TypeExpr → List Alternative
  | .union ts | .pipe ts => alternativesOf ts
  | .literal tag vs => vs.map (.value tag)
  | t => [.type t]
termination_by structural t => t

def alternativesOf : List TypeExpr → List Alternative
  | [] => []
  | t :: ts => alternatives t ++ alternativesOf ts
termination_by structural ts => ts

end

theorem alternativesOf_eq_flatMap (ts : List TypeExpr) :
    alternativesOf ts = ts.flatMap alternatives := by
  induction ts with
  | nil => rfl
  | cons t ts ih => rw [alternativesOf, ih, List.flatMap_cons]

theorem mem_alternatives_iff {t : TypeExpr} {a : Alternative} :
    a ∈ t.alternatives ↔ ∃ m ∈ t.members, a ∈ m.alternatives := by
  cases t with
  | union ts | pipe ts => rw [alternatives, alternativesOf_eq_flatMap, List.mem_flatMap, members]
  | _ => simp [members]

theorem admitsUndefined_iff {t : TypeExpr} :
    t.admitsUndefined = true ↔ ∃ a ∈ t.alternatives, a.isUndefined = true := by
  induction t using treeInduction with
  | union ts ih | pipe ts ih =>
    rw [admitsUndefined, someAdmitUndefined_iff]
    constructor
    · rintro ⟨t, member, admits⟩
      obtain ⟨a, listed, absent⟩ := (ih t member).mp admits
      exact ⟨a, mem_alternatives_iff.mpr ⟨t, member, listed⟩, absent⟩
    · rintro ⟨a, listed, absent⟩
      obtain ⟨t, member, inside⟩ := mem_alternatives_iff.mp listed
      exact ⟨t, member, (ih t member).mpr ⟨a, inside, absent⟩⟩
  | _ => simp [admitsUndefined, alternatives, Alternative.isUndefined]

/-- The types there are: those that are no unions, and unions and bars of types there are. -/
inductive Formed : TypeExpr → Prop where
  | alone {t : TypeExpr} (plain : t.members = [t]) : Formed t
  | union {ts : List TypeExpr} {u : TypeExpr} (parts : ∀ t ∈ ts, Formed t)
      (united : unionOf ts = .ok u) : Formed u
  | bars {ts : List TypeExpr} {u : TypeExpr} (parts : ∀ t ∈ ts, Formed t)
      (joined : pipeOf ts = .ok u) : Formed u

theorem mem_of_notAmong {kept ts added : List TypeExpr} (left : notAmong kept ts = .ok added) :
    ∀ t ∈ added, t ∈ ts := by
  induction ts generalizing added with
  | nil =>
    cases left
    simp
  | cons t ts ih =>
    rw [notAmong, except_bind_ok_iff] at left
    obtain ⟨found, _, left⟩ := left
    rw [except_bind_ok_iff] at left
    obtain ⟨rest, tail, same⟩ := left
    cases same
    intro s member
    split at member
    · exact List.mem_cons_of_mem t (ih tail s member)
    · rcases List.mem_cons.mp member with same | member
      · rw [same]
        exact List.mem_cons_self
      · exact List.mem_cons_of_mem t (ih tail s member)

theorem flat_join {s t u : TypeExpr} (left : s.Flat) (right : t.Flat)
    (joined : join s t = .ok u) : u.Flat := by
  unfold join at joined
  split at joined
  · apply flat_unionOf ?_ joined
    intro m member
    rcases List.mem_pair.mp member with rfl | rfl
    · exact left
    · exact right
  · obtain ⟨added, apart, joined⟩ := except_bind_ok_iff.mp joined
    split at joined
    · cases joined
      exact left
    · cases joined
      intro m member
      rcases List.mem_append.mp member with first | second
      · exact left m first
      · exact right m (mem_of_notAmong apart m second)

theorem flat_pipeOf {ts : List TypeExpr} {u : TypeExpr} (flat : ∀ t ∈ ts, t.Flat)
    (joined : pipeOf ts = .ok u) : u.Flat := by
  cases ts with
  | nil =>
    cases joined
    intro m member
    cases member
  | cons t ts =>
    rw [List.forall_mem_cons] at flat
    obtain ⟨first, others⟩ := flat
    rw [pipeOf] at joined
    induction ts generalizing t with
    | nil =>
      cases joined
      exact first
    | cons s ts ih =>
      rw [List.foldlM_cons, except_bind_ok_iff] at joined
      obtain ⟨v, begun, joined⟩ := joined
      rw [List.forall_mem_cons] at others
      exact ih v joined (flat_join first others.1 begun) others.2

theorem Formed.flat {t : TypeExpr} (formed : t.Formed) : t.Flat := by
  induction formed with
  | alone plain => exact flat_of_members plain
  | union parts united ih => exact flat_unionOf ih united
  | bars parts joined ih => exact flat_pipeOf ih joined

def bare : TypeExpr → TypeExpr
  | .literal tag vs =>
    if (vs.filter fun v => !v.isUndefined).isEmpty then .literal tag vs
    else literalOf tag (vs.filter fun v => !v.isUndefined)
  | t => t

def kept (t : TypeExpr) : List TypeExpr := t.members.filter fun m => !m.isOnlyUndefined

theorem members_ne (ts : List TypeExpr) :
    (union ts).members ≠ [.union ts] ∧ (pipe ts).members ≠ [.pipe ts] := by
  constructor
  · intro same
    have smaller := congrArg sizeOf same
    simp only [members, List.cons.sizeOf_spec, List.nil.sizeOf_spec, union.sizeOf_spec] at smaller
    omega
  · intro same
    have smaller := congrArg sizeOf same
    simp only [members, List.cons.sizeOf_spec, List.nil.sizeOf_spec, pipe.sizeOf_spec] at smaller
    omega

section

variable {t : TypeExpr}

theorem alone_cases (plain : t.members = [t]) :
    (∃ tag vs, t = .literal tag vs) ∨ t.alternatives = [.type t] ∧ t.bare = t ∧
      t.stripUndefined = .ok t ∧ t.isOnlyUndefined = (Alternative.type t).isUndefined := by
  cases t with
  | union ts => exact absurd plain (members_ne ts).1
  | pipe ts => exact absurd plain (members_ne ts).2
  | literal tag vs => exact Or.inl ⟨tag, vs, rfl⟩
  | _ => exact Or.inr ⟨rfl, rfl, rfl, rfl⟩

theorem stripUndefined_alone (plain : t.members = [t]) : t.stripUndefined = .ok t.bare := by
  rcases alone_cases plain with ⟨tag, vs, rfl⟩ | ⟨_, bared, stripped, _⟩
  · rfl
  · rw [stripped, bared]

theorem bare_of_isOnlyUndefined (only : t.isOnlyUndefined = true) : t.bare = t := by
  cases t with
  | literal tag vs =>
    apply if_pos
    simpa [isOnlyUndefined] using only
  | _ => rfl

theorem isOnlyUndefined_iff (plain : t.members = [t]) :
    t.isOnlyUndefined = true ↔ ∀ a ∈ t.alternatives, a.isUndefined = true := by
  rcases alone_cases plain with ⟨tag, vs, rfl⟩ | ⟨single, _, _, only⟩
  · simp [isOnlyUndefined, alternatives, Alternative.isUndefined]
  · rw [single, only, List.forall_mem_singleton]

end

theorem stripMembers_eq {ts : List TypeExpr} (plain : ∀ t ∈ ts, t.members = [t]) :
    stripMembers ts = .ok ((ts.filter fun t => !t.isOnlyUndefined).map bare) := by
  induction ts with
  | nil => rfl
  | cons t ts ih =>
    rw [List.forall_mem_cons] at plain
    rw [stripMembers, ih plain.2, stripUndefined_alone plain.1]
    cases only : t.isOnlyUndefined <;> simp [only, bind, Except.bind]

/-- Stripping is done on the members, and nothing is done where none would be left. -/
theorem stripUndefined_eq {t : TypeExpr} (flat : t.Flat) :
    t.stripUndefined = if t.kept = [] then .ok t else oneOf (t.kept.map bare) := by
  have alone : t.members = [t] →
      t.stripUndefined = if t.kept = [] then .ok t else oneOf (t.kept.map bare) := by
    intro plain
    rw [stripUndefined_alone plain, kept, plain]
    cases only : t.isOnlyUndefined with
    | true => simp [only, bare_of_isOnlyUndefined]
    | false => simp [only, oneOf]
  cases t with
  | union ts | pipe ts =>
    have plain : ∀ m ∈ ts, m.members = [m] := flat
    rw [stripUndefined, stripMembers_eq plain, kept, members]
    simp [bind, Except.bind]
  | _ => exact alone rfl

theorem flatMap_members {ts : List TypeExpr} (plain : ∀ t ∈ ts, t.members = [t]) :
    ts.flatMap members = ts := by
  induction ts with
  | nil => rfl
  | cons t ts ih =>
    rw [List.forall_mem_cons] at plain
    rw [List.flatMap_cons, plain.1, ih plain.2]
    rfl

theorem members_oneOf {ts : List TypeExpr} {u : TypeExpr} (plain : ∀ t ∈ ts, t.members = [t])
    (united : oneOf ts = .ok u) : u.members = keepFirst same ts := by
  unfold oneOf at united
  split at united
  · cases united
    exact plain u (List.mem_singleton.mpr rfl)
  · rw [members_unionOf (fun t member => flat_of_members (plain t member)) united, distinctMembers,
      flatMap_members plain]

theorem oneOf_eq_unionOf {ts : List TypeExpr} (plain : ∀ t ∈ ts, t.members = [t])
    (hashable : unhashableItem? ts = Option.none) : oneOf ts = unionOf ts := by
  unfold oneOf
  split
  · rw [unionOf, distinctMembers, flatMap_members plain, hashable]
    rfl
  · rfl

theorem oneOf_members {ts : List TypeExpr} {u : TypeExpr} (plain : ∀ t ∈ ts, t.members = [t])
    (united : oneOf ts = .ok u) : oneOf u.members = .ok u := by
  obtain ⟨_, taken⟩ := keepFirst_spec same ts
  rw [members_oneOf plain united]
  unfold oneOf at united
  split at united
  · cases united
    rfl
  · -- the members were hashed before, and no two of them are equal
    have hashable : unhashableItem? ts = Option.none := by
      rw [← flatMap_members plain]
      exact unhashableItem?_iff.mpr (unionOf_ok united).1
    have plain' : ∀ k ∈ keepFirst same ts, k.members = [k] := fun k kept => plain k (taken k kept)
    have hashable' : unhashableItem? (keepFirst same ts) = Option.none := by
      apply unhashableItem?_iff.mpr
      intro k kept
      exact unhashableItem?_iff.mp hashable k (taken k kept)
    rw [oneOf_eq_unionOf plain' hashable', ← united, unionOf, unionOf, distinctMembers,
      distinctMembers, flatMap_members plain, flatMap_members plain', hashable, hashable',
      keepFirst_of_pairwise (keepFirst_pairwise same ts)]

structure Bared (t u : TypeExpr) : Prop where
  plain : u.members = [u]
  stable : u.bare = u
  some : u.isOnlyUndefined = false
  hashed : u.unhashable? = t.unhashable?
  taken : ∀ b ∈ u.alternatives, b ∈ t.alternatives ∧ b.isUndefined = false
  covered : ∀ a ∈ t.alternatives, a.isUndefined = false → ∃ b ∈ u.alternatives, b = a ∨
    ∃ tag v w, b = .value tag v ∧ a = .value tag w ∧ v.sameTyped w = true

theorem unhashableItem?_present (vs : List Value) :
    Value.unhashableItem? (vs.filter fun v => !v.isUndefined) = Value.unhashableItem? vs := by
  induction vs with
  | nil => rfl
  | cons v vs ih =>
    cases absent : v.isUndefined with
    | true =>
      rw [List.filter_cons_of_neg (by simp [absent]), ih, Value.isUndefined_iff.mp absent]
      rfl
    | false =>
      rw [List.filter_cons_of_pos (by simp [absent]), Value.unhashableItem?, ih]
      rfl

theorem literalOf_spec (tag : Nat) (vs : List Value) :
    ∃ ws, literalOf tag vs = .literal tag ws ∧ literalOf tag ws = .literal tag ws ∧
      Value.unhashableItem? ws = Value.unhashableItem? vs ∧ (∀ w ∈ ws, w ∈ vs) ∧
      ∀ v ∈ vs, ∃ w ∈ ws, w = v ∨ w.sameTyped v = true := by
  cases hashed : Value.unhashableItem? vs with
  | some type =>
    have whole : literalOf tag vs = .literal tag vs := by simp only [literalOf, hashed]
    exact ⟨vs, whole, whole, hashed, fun w member => member, fun v member => ⟨v, member, .inl rfl⟩⟩
  | none =>
    obtain ⟨covered, taken⟩ := keepFirst_spec Value.sameTyped vs
    have hashed' : Value.unhashableItem? (keepFirst Value.sameTyped vs) = Option.none := by
      apply Value.unhashableItem?_iff.mpr
      intro w member
      exact Value.unhashableItem?_iff.mp hashed w (taken w member)
    refine ⟨keepFirst Value.sameTyped vs, ?_, ?_, hashed', taken, covered⟩
    · simp only [literalOf, hashed]
    · simp only [literalOf, hashed', keepFirst_of_pairwise (keepFirst_pairwise _ vs)]

theorem bared_literal {tag : Nat} {vs : List Value}
    (some : (literal tag vs).isOnlyUndefined = false) :
    Bared (literal tag vs) (literal tag vs).bare := by
  obtain ⟨v, member, present⟩ := List.all_eq_false.mp some
  have listed : v ∈ vs.filter fun v => !v.isUndefined :=
    List.mem_filter.mpr ⟨member, by simpa using present⟩
  obtain ⟨ws, form, once, hashed, taken, covered⟩ :=
    literalOf_spec tag (vs.filter fun v => !v.isUndefined)
  have bared : (literal tag vs).bare = .literal tag ws := by
    rw [bare, if_neg, form]
    rw [List.isEmpty_iff]
    exact List.ne_nil_of_mem listed
  have defined : ∀ w ∈ ws, w ∈ vs ∧ w.isUndefined = false := by
    intro w member
    simpa using List.mem_filter.mp (taken w member)
  have whole : (ws.filter fun w => !w.isUndefined) = ws := by
    apply List.filter_eq_self.mpr
    intro w member
    simp [(defined w member).2]
  obtain ⟨w, found, _⟩ := covered v listed
  rw [bared]
  constructor
  case plain => rfl
  case stable =>
    rw [bare, whole, if_neg, once]
    rw [List.isEmpty_iff]
    exact List.ne_nil_of_mem found
  case some =>
    apply List.all_eq_false.mpr
    exact ⟨w, found, by simp [(defined w found).2]⟩
  case hashed => exact hashed.trans (unhashableItem?_present vs)
  case taken =>
    intro b member
    obtain ⟨w, found, rfl⟩ := List.mem_map.mp member
    exact ⟨List.mem_map_of_mem (defined w found).1, (defined w found).2⟩
  case covered =>
    intro a member present
    obtain ⟨v, listed, rfl⟩ := List.mem_map.mp member
    have kept : v ∈ vs.filter fun v => !v.isUndefined :=
      List.mem_filter.mpr ⟨listed, by simpa [Alternative.isUndefined] using present⟩
    obtain ⟨w, found, same | typed⟩ := covered v kept
    · exact ⟨.value tag w, List.mem_map_of_mem found, Or.inl (by rw [same])⟩
    · exact ⟨.value tag w, List.mem_map_of_mem found, Or.inr ⟨tag, w, v, rfl, rfl, typed⟩⟩

theorem bared_bare {t : TypeExpr} (plain : t.members = [t]) (some : t.isOnlyUndefined = false) :
    Bared t t.bare := by
  rcases alone_cases plain with ⟨tag, vs, rfl⟩ | ⟨single, bared, _, only⟩
  · exact bared_literal some
  · rw [bared]
    constructor
    case plain => exact plain
    case stable => exact bared
    case some => exact some
    case hashed => rfl
    case taken =>
      intro b member
      refine ⟨member, ?_⟩
      rw [single] at member
      rw [List.mem_singleton.mp member, ← only, some]
    case covered =>
      intro a member _
      exact ⟨a, member, Or.inl rfl⟩

theorem exists_same_alternative {s t : TypeExpr} {a : Alternative} (plain : t.members = [t])
    (equal : same s t = true) (member : a ∈ t.alternatives) :
    ∃ b ∈ s.alternatives, b.same a = true := by
  cases t with
  | union ts => exact absurd plain (members_ne ts).1
  | pipe ts => exact absurd plain (members_ne ts).2
  | literal n ws =>
    cases s with
    | literal m vs =>
      obtain ⟨w, listed, rfl⟩ := List.mem_map.mp member
      obtain ⟨_, each⟩ := Bool.and_eq_true_iff.mp equal
      obtain ⟨v, found, typed⟩ := List.any_eq_true.mp (List.all_eq_true.mp each w listed)
      exact ⟨.value m v, List.mem_map_of_mem found, typed⟩
    | _ => simp [same] at equal
  | _ =>
    cases List.mem_singleton.mp member
    cases s <;> first | exact ⟨_, List.mem_singleton.mpr rfl, equal⟩ | simp [same] at equal

section

variable {t u : TypeExpr}

theorem kept_eq_nil_iff (flat : t.Flat) :
    t.kept = [] ↔ ∀ a ∈ t.alternatives, a.isUndefined = true := by
  rw [kept, List.filter_eq_nil_iff]
  constructor
  · intro only a listed
    obtain ⟨m, member, inside⟩ := mem_alternatives_iff.mp listed
    exact (isOnlyUndefined_iff (flat m member)).mp (by simpa using only m member) a inside
  · intro absent m member
    have only : m.isOnlyUndefined = true := by
      apply (isOnlyUndefined_iff (flat m member)).mpr
      intro a inside
      exact absent a (mem_alternatives_iff.mpr ⟨m, member, inside⟩)
    simp [only]

theorem bared_kept (flat : t.Flat) {m : TypeExpr} (member : m ∈ t.kept) : Bared m m.bare := by
  obtain ⟨listed, some⟩ := List.mem_filter.mp member
  exact bared_bare (flat m listed) (by simpa using some)

theorem plain_kept (flat : t.Flat) : ∀ k ∈ t.kept.map bare, k.members = [k] := by
  intro k member
  obtain ⟨m, listed, rfl⟩ := List.mem_map.mp member
  exact (bared_kept flat listed).plain

theorem members_stripUndefined (flat : t.Flat) (some : t.kept ≠ [])
    (stripped : t.stripUndefined = .ok u) : u.members = keepFirst same (t.kept.map bare) := by
  rw [stripUndefined_eq flat, if_neg some] at stripped
  exact members_oneOf (plain_kept flat) stripped

theorem exists_kept (flat : t.Flat) (some : t.kept ≠ []) (stripped : t.stripUndefined = .ok u)
    {k : TypeExpr} (member : k ∈ u.members) : ∃ m ∈ t.kept, k = m.bare := by
  rw [members_stripUndefined flat some stripped] at member
  obtain ⟨m, listed, same⟩ := List.mem_map.mp ((keepFirst_spec same _).2 k member)
  exact ⟨m, listed, same.symm⟩

theorem stripUndefined_taken (flat : t.Flat) (some : t.kept ≠ [])
    (stripped : t.stripUndefined = .ok u) :
    ∀ b ∈ u.alternatives, b ∈ t.alternatives ∧ b.isUndefined = false := by
  intro b listed
  obtain ⟨k, member, inside⟩ := mem_alternatives_iff.mp listed
  obtain ⟨m, held, same⟩ := exists_kept flat some stripped member
  subst same
  obtain ⟨inside, present⟩ := (bared_kept flat held).taken b inside
  exact ⟨mem_alternatives_iff.mpr ⟨m, (List.mem_filter.mp held).1, inside⟩, present⟩

/-- Of two or more types in a union each can be hashed, and only an equal one is left out. -/
theorem oneOf_covers {ts : List TypeExpr} (plain : ∀ t ∈ ts, t.members = [t])
    (united : oneOf ts = .ok u) (member : t ∈ ts) :
    t ∈ u.members ∨ ∃ k ∈ u.members, same k t = true ∧
      unhashable? k = Option.none ∧ unhashable? t = Option.none := by
  have distinct := members_oneOf plain united
  obtain ⟨covered, taken⟩ := keepFirst_spec same ts
  obtain ⟨k, kept, equal⟩ := covered t member
  rcases equal with rfl | equal
  · left
    rw [distinct]
    exact kept
  · unfold oneOf at united
    split at united
    · cases united
      left
      rw [distinct]
      cases List.mem_singleton.mp member
      exact List.mem_singleton.mpr rfl
    · have hashable : ∀ m ∈ ts, unhashable? m = Option.none := by
        intro m listed
        apply (unionOf_ok united).1 m
        refine List.mem_flatMap.mpr ⟨m, listed, ?_⟩
        rw [plain m listed]
        exact List.mem_singleton.mpr rfl
      right
      rw [distinct]
      exact ⟨k, kept, equal, hashable k (taken k kept), hashable t member⟩

theorem hashable_value (plain : t.members = [t]) (hashed : unhashable? t = Option.none) {tag : Nat}
    {v : Value} (listed : .value tag v ∈ t.alternatives) : v.unhashable? = Option.none := by
  rcases alone_cases plain with ⟨n, vs, rfl⟩ | ⟨single, _⟩
  · obtain ⟨w, member, same⟩ := List.mem_map.mp listed
    cases same
    exact Value.unhashableItem?_iff.mp hashed v member
  · rw [single] at listed
    cases List.mem_singleton.mp listed

theorem stripUndefined_covers (flat : t.Flat) (stripped : t.stripUndefined = .ok u)
    {a : Alternative} (listed : a ∈ t.alternatives) (present : a.isUndefined = false) :
    ∃ b ∈ u.alternatives, b = a ∨ b.same a = true := by
  obtain ⟨m, member, inside⟩ := mem_alternatives_iff.mp listed
  have more : m.isOnlyUndefined = false := by
    rw [← Bool.not_eq_true, isOnlyUndefined_iff (flat m member)]
    intro only
    rw [only a inside] at present
    cases present
  have held : m ∈ t.kept := List.mem_filter.mpr ⟨member, by simp [more]⟩
  have some : t.kept ≠ [] := List.ne_nil_of_mem held
  have united := stripped
  rw [stripUndefined_eq flat, if_neg some] at united
  -- a value may give way twice, in its own literal type and with that type in the union
  obtain ⟨b, found, near⟩ := (bared_kept flat held).covered a inside present
  rcases oneOf_covers (plain_kept flat) united (List.mem_map_of_mem held) with
    left | ⟨k, left, equal, hashed, hashed'⟩
  · refine ⟨b, mem_alternatives_iff.mpr ⟨m.bare, left, found⟩, ?_⟩
    rcases near with same | ⟨tag, v, w, rfl, rfl, typed⟩
    · exact Or.inl same
    · right
      exact Bool.or_eq_true_iff.mpr (Or.inr typed)
  · obtain ⟨c, found', same⟩ := exists_same_alternative (bared_kept flat held).plain equal found
    refine ⟨c, mem_alternatives_iff.mpr ⟨k, left, found'⟩, Or.inr ?_⟩
    rcases near with rfl | ⟨tag, v, w, rfl, rfl, typed⟩
    · exact same
    · cases c with
      | type => cases same
      | value n x =>
        obtain ⟨p, kept, rfl⟩ := exists_kept flat some stripped left
        apply Bool.or_eq_true_iff.mpr
        right
        rcases Bool.or_eq_true_iff.mp same with one | typed'
        · rw [Value.eq_of_identical (Bool.and_eq_true_iff.mp one).2]
          exact typed
        · exact Value.sameTyped_trans (hashable_value (bared_kept flat kept).plain hashed found')
            (hashable_value (bared_kept flat held).plain hashed' found) typed' typed

theorem stripUndefined_stable (flat : t.Flat) (stripped : t.stripUndefined = .ok u) :
    u.stripUndefined = .ok u := by
  by_cases none : t.kept = []
  · have same := stripped
    rw [stripUndefined_eq flat, if_pos none] at same
    cases same
    exact stripped
  · -- every member is stable, so the same union is made of the same members
    have bared : ∀ k ∈ u.members, ∃ m, Bared m k := by
      intro k member
      obtain ⟨m, held, same⟩ := exists_kept flat none stripped member
      rw [same]
      exact ⟨m, bared_kept flat held⟩
    have flat' : u.Flat := by
      intro k member
      obtain ⟨m, bared⟩ := bared k member
      exact bared.plain
    have whole : u.kept = u.members := by
      apply List.filter_eq_self.mpr
      intro k member
      obtain ⟨m, bared⟩ := bared k member
      simp [bared.some]
    have unchanged : u.members.map bare = u.members := by
      apply (List.map_congr_left ?_).trans (List.map_id _)
      intro k member
      obtain ⟨m, bared⟩ := bared k member
      exact bared.stable
    rw [stripUndefined_eq flat', whole, unchanged]
    rw [stripUndefined_eq flat, if_neg none] at stripped
    split
    · rfl
    · exact oneOf_members (plain_kept flat) stripped

theorem unionOf_error_iff {ts : List TypeExpr} {fault : Fault} :
    unionOf ts = .error fault ↔
      ∃ type, unhashableItem? (ts.flatMap members) = some type ∧ fault = .unhashable type := by
  unfold unionOf
  cases found : unhashableItem? (ts.flatMap members) with
  | some type => simp [eq_comm]
  | none =>
    dsimp only
    split <;> simp

theorem unhashableItem?_bared {ms : List TypeExpr} (bared : ∀ m ∈ ms, Bared m m.bare) :
    unhashableItem? (ms.map bare) = unhashableItem? ms := by
  induction ms with
  | nil => rfl
  | cons m ms ih =>
    rw [List.forall_mem_cons] at bared
    rw [List.map_cons, unhashableItem?, unhashableItem?, bared.1.hashed, ih bared.2]

/-- Only putting a union together again can fail, when a member of it cannot be hashed. -/
theorem stripUndefined_error_iff (flat : t.Flat) {fault : Fault} :
    t.stripUndefined = .error fault ↔ 1 < t.kept.length ∧
      ∃ type, unhashableItem? t.kept = some type ∧ fault = .unhashable type := by
  have hashed := unhashableItem?_bared fun m held => bared_kept flat held
  have plain := plain_kept flat
  rw [stripUndefined_eq flat]
  generalize t.kept = ms at hashed plain
  match ms with
  | [] => simp
  | [m] => simp [oneOf]
  | m :: n :: ms =>
    have several : 1 < (m :: n :: ms).length := by simp
    change unionOf ((m :: n :: ms).map bare) = .error fault ↔ _
    rw [unionOf_error_iff, flatMap_members plain, hashed]
    exact (and_iff_right several).symm

end

/-- Stripping takes out what is undefined and nothing else. A type is as it was where nothing
    else is left, and what is stripped stays as it is. Of two or more members that are left
    each has to be one that can be hashed, or the type is not stripped. -/
theorem strip_removes_undefined {t : TypeExpr} (formed : t.Formed) :
    (t.admitsUndefined = true ↔ ∃ a ∈ t.alternatives, a.isUndefined = true) ∧
    ((∀ a ∈ t.alternatives, a.isUndefined = true) → t.stripUndefined = .ok t) ∧
    (∀ u, t.stripUndefined = .ok u → u.stripUndefined = .ok u ∧
      ((∃ a ∈ t.alternatives, a.isUndefined = false) → u.admitsUndefined = false ∧
        (∀ b ∈ u.alternatives, b ∈ t.alternatives ∧ b.isUndefined = false) ∧
        ∀ a ∈ t.alternatives, a.isUndefined = false →
          ∃ b ∈ u.alternatives, b = a ∨ b.same a = true)) ∧
    ∀ fault, t.stripUndefined = .error fault ↔ 1 < t.kept.length ∧
      ∃ type, unhashableItem? t.kept = some type ∧ fault = .unhashable type := by
  have flat := formed.flat
  refine ⟨admitsUndefined_iff, ?_, ?_, fun fault => stripUndefined_error_iff flat⟩
  · intro absent
    rw [stripUndefined_eq flat, if_pos ((kept_eq_nil_iff flat).mpr absent)]
  · intro u stripped
    refine ⟨stripUndefined_stable flat stripped, ?_⟩
    rintro ⟨a, listed, present⟩
    have some : t.kept ≠ [] := by
      intro none
      rw [(kept_eq_nil_iff flat).mp none a listed] at present
      cases present
    have taken := stripUndefined_taken flat some stripped
    refine ⟨?_, taken, fun a listed present => stripUndefined_covers flat stripped listed present⟩
    rw [← Bool.not_eq_true, admitsUndefined_iff]
    rintro ⟨b, listed, absent⟩
    rw [(taken b listed).2] at absent
    cases absent

def word : TypeExpr := .union [.literal 0 [.text "on", .undefined], .undefined, .none]

theorem word_formed : word.Formed := by
  have parts : ∀ t ∈ [literal 0 [.text "on", .undefined], .undefined, .none], t.Formed := by
    intro t member
    simp only [List.mem_cons, List.not_mem_nil, or_false] at member
    rcases member with rfl | rfl | rfl <;> exact .alone rfl
  exact .union parts rfl

theorem word_stripped : word.stripUndefined = .ok (.union [.literal 0 [.text "on"], .none]) ∧
    admitsUndefined (.union [.literal 0 [.text "on"], .none]) = false ∧
    stripUndefined (.union [.literal 0 [.text "on"], .none]) =
      .ok (.union [.literal 0 [.text "on"], .none]) := by
  have stripped : word.stripUndefined = .ok (.union [.literal 0 [.text "on"], .none]) := rfl
  have listed : .type .none ∈ word.alternatives := by simp [word, alternatives, alternativesOf]
  obtain ⟨stable, rest⟩ := (strip_removes_undefined word_formed).2.2.1 _ stripped
  exact ⟨stripped, (rest ⟨.type .none, listed, rfl⟩).1, stable⟩

def listing : TypeExpr := .pipe [.list (.literal 0 [.list [.int 1]]), .text, .undefined]

theorem listing_formed : listing.Formed := by
  have parts : ∀ t ∈ [list (.literal 0 [.list [.int 1]]), .text, .undefined], t.Formed := by
    intro t member
    simp only [List.mem_cons, List.not_mem_nil, or_false] at member
    rcases member with rfl | rfl | rfl <;> exact .alone rfl
  exact .bars parts rfl

/-- What bars have joined cannot always be stripped. -/
theorem listing_not_stripped : listing.Formed ∧
    (∃ a ∈ listing.alternatives, a.isUndefined = false) ∧
    listing.stripUndefined = .error (.unhashable "list") := by
  have listed : .type .text ∈ listing.alternatives := by
    simp [listing, alternatives, alternativesOf]
  exact ⟨listing_formed, ⟨.type .text, listed, rfl⟩, rfl⟩

end TypeExpr
end Conform
