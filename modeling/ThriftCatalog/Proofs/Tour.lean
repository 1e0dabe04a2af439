import Mathlib.Algebra.GroupWithZero.Nat
import ThriftCatalog.Proofs.Acyclicity
import ThriftCatalog.Proofs.FieldReference
import ThriftCatalog.Proofs.Merging

/-! The walks from all roots, state by state. Path and pending references keep in step, every walk stays in the group of
its root and goes through all of it, and no name is pushed twice. -/
namespace ThriftCatalog

open Relation

namespace Walk

def setOut (d : Definitions) (w : Walk) (root : String) : Walk :=
  ⟨[root], [d.groupReferences root], w.unseen.erase root, w.cuts⟩

def states (d : Definitions) (w : Walk) : List Walk :=
  match _h : w.step? d with
  | none => [w]
  | some v => w :: states d v
termination_by w.remaining + stepsThrough d w.unseen
decreasing_by exact step?_decreases _h

def pushed? (w v : Walk) : Option String :=
  match v.path with
  | [] => none
  | next :: path => if path = w.path then some next else none

def pushes : List Walk → List String
  | w :: v :: ws => (pushed? w v).toList ++ pushes (v :: ws)
  | _ => []

end Walk

structure Tour where
  root : String
  /-- Where the walks from earlier roots have ended. -/
  before : Walk
  /-- From where the root alone is on the path to the end. -/
  states : List Walk

/-- The names pushed in one walk, the root first. -/
def Tour.pushes (t : Tour) : List String := Walk.pushes (t.before :: t.states)

/-- The walks from roots in their order. From a root that was met before, or that lies on no cycle, none is made. -/
def Walk.tours (d : Definitions) : Walk → List String → List Tour
  | _, [] => []
  | w, root :: roots =>
    (if w.unseen.contains root && d.reaches root root then [⟨root, w, (w.setOut d root).states d⟩] else []) ++
      tours d (walkFrom d w root) roots

def Definitions.tours (d : Definitions) : List Tour := Walk.tours d (Walk.start d) d.composites.reverse

structure Tour.Orderly (d : Definitions) (t : Tour) : Prop where
  /-- Each state follows from the one before by a step. -/
  steps : t.states.IsChain fun w v => w.step? d = some v
  aligned : ∀ w ∈ t.states, w.path.length = w.pending.length
  /-- While something is pending, it is pending for some member of the path. -/
  owned : ∀ w ∈ t.states, w.pending ≠ [] → w.path ≠ []
  /-- Each member of the path but the root is referred to by the one before, within one group. -/
  joined : ∀ w ∈ t.states, w.path.IsChain fun child parent => d.FieldRefers parent child ∧ d.SameGroup parent child
  visited : ∀ w ∈ t.states, ∀ a ∈ w.path, a ∈ d.composites ∧ a ∉ w.unseen
  group : ∀ a, a ∈ t.pushes ↔ d.SameGroup t.root a
  /-- At the end both stacks are empty, and the group of the root is what was not visited before and is now. -/
  ends : ∃ last, t.states.getLast? = some last ∧ last.path = [] ∧ last.pending = [] ∧
    ∀ a, a ∈ t.before.unseen ∧ a ∉ last.unseen ↔ d.SameGroup t.root a
  /-- One step for each reference within the group, and one back from each member. -/
  duration : t.states.length = (t.pushes.map fun a => (d.groupReferences a).length + 1).sum + 1

namespace Walk

open Definitions

variable {d : Definitions} {w v : Walk} {ws : List Walk} {a root : String} {roots : List String} {t : Tour}

theorem walkFrom_eq : walkFrom d w root =
    if w.unseen.contains root && d.reaches root root then run d (w.setOut d root) else w := rfl

theorem states_of_stop (h : w.step? d = none) : states d w = [w] := by
  rw [states]
  split
  · rfl
  · next step => simp [h] at step

theorem states_of_step (h : w.step? d = some v) : states d w = w :: states d v := by
  rw [states]
  split
  · next stop => simp [h] at stop
  · next u step =>
    obtain rfl : u = v := Option.some.inj (step.symm.trans h)
    rfl

theorem exists_states_eq (d : Definitions) (w : Walk) : ∃ ws, states d w = w :: ws := by
  cases step : w.step? d with
  | none => exact ⟨[], states_of_stop step⟩
  | some v => exact ⟨_, states_of_step step⟩

theorem states_isChain (d : Definitions) (w : Walk) : (states d w).IsChain fun w v => w.step? d = some v := by
  induction w using states.induct d with
  | case1 w stop =>
    rw [states_of_stop stop]
    exact .singleton w
  | case2 w v step ih =>
    rw [states_of_step step]
    obtain ⟨ws, rest⟩ := exists_states_eq d v
    rw [rest] at ih ⊢
    exact List.isChain_cons_cons.mpr ⟨step, ih⟩

theorem getLast?_states (d : Definitions) (w : Walk) : (states d w).getLast? = some (run d w) := by
  induction w using states.induct d with
  | case1 w stop => rw [states_of_stop stop, run_of_stop stop, List.getLast?_singleton]
  | case2 w v step ih => rw [states_of_step step, run_of_step step, List.getLast?_cons, ih, Option.getD_some]

theorem states_moves (aligned : w.Aligned) : ∀ v ∈ states d w, ReflTransGen (Move d) w v := by
  induction w using states.induct d with
  | case1 w stop =>
    rw [states_of_stop stop]
    exact fun v mem => List.mem_singleton.mp mem ▸ .refl
  | case2 w v step ih =>
    have move := Move.of_step aligned step
    rw [states_of_step step, List.forall_mem_cons]
    exact ⟨.refl, fun u mem => .head move (ih (move.aligned aligned) u mem)⟩

theorem pushes_states (h : w.step? d = some v) :
    pushes (states d w) = (pushed? w v).toList ++ pushes (states d v) := by
  rw [states_of_step h]
  obtain ⟨ws, rest⟩ := exists_states_eq d v
  rw [rest, pushes]

theorem pushed?_eq_some : pushed? w v = some a ↔ v.path = a :: w.path := by
  unfold pushed?
  split
  · next ended => simp [ended]
  · next next path same =>
    rw [same, List.cons.injEq]
    split
    · next stayed => simp [stayed]
    · next left => simp [left]

theorem pushed?_eq_none (shorter : v.path.length ≤ w.path.length) : pushed? w v = none := by
  rw [Option.eq_none_iff_forall_ne_some]
  intro a pushed
  rw [pushed?_eq_some.mp pushed, List.length_cons] at shorter
  omega

/-- What is pushed stands on the path then. -/
theorem mem_of_mem_pushes (mem : a ∈ pushes (w :: ws)) : ∃ v ∈ ws, a ∈ v.path := by
  induction ws generalizing w with
  | nil => contradiction
  | cons v ws ih =>
    rw [pushes, List.mem_append, Option.mem_toList, pushed?_eq_some] at mem
    rcases mem with here | later
    · exact ⟨v, List.mem_cons_self, here ▸ List.mem_cons_self⟩
    · obtain ⟨u, mem, found⟩ := ih later
      exact ⟨u, List.mem_cons_of_mem _ mem, found⟩

/-- What a move pushes, it visits, and nothing else. What is left of the walk is one less then, and more by the
references of what is pushed and the step back from there. -/
theorem Move.pushes (move : Move d w v) : w.unseen.Perm ((pushed? w v).toList ++ v.unseen) ∧
    v.remaining + 1 = w.remaining + ((pushed? w v).toList.map fun a => (d.groupReferences a).length + 1).sum := by
  cases move with
  | back | cut | skip =>
    rw [pushed?_eq_none (by simp)]
    refine ⟨.refl _, ?_⟩
    simp only [Walk.remaining, List.foldr_cons, List.length_cons, List.length_nil, Option.toList_none, List.map_nil,
      List.sum_nil]
    omega
  | enter off new =>
    rw [pushed?_eq_some.mpr rfl]
    refine ⟨List.perm_cons_erase new, ?_⟩
    simp only [Walk.remaining, List.foldr_cons, List.length_cons, Option.toList_some, List.map_cons, List.map_nil,
      List.sum_cons, List.sum_nil]
    omega

/-- A walk visits what it pushes, and makes as many steps as are left and what it pushes brings with it. -/
theorem states_pushes (aligned : w.Aligned) : w.unseen.Perm (pushes (states d w) ++ (run d w).unseen) ∧
    (states d w).length = w.remaining +
      ((pushes (states d w)).map fun a => (d.groupReferences a).length + 1).sum + 1 := by
  induction w using states.induct d with
  | case1 w stop =>
    have ended : w.pending = [] := run_of_stop stop ▸ (run_moves (d := d) aligned).2
    rw [states_of_stop stop, run_of_stop stop]
    exact ⟨.refl _, by simp [pushes, Walk.remaining, ended]⟩
  | case2 w v step ih =>
    have move := Move.of_step aligned step
    obtain ⟨visits, takes⟩ := move.pushes
    obtain ⟨rest, duration⟩ := ih (move.aligned aligned)
    rw [pushes_states step, run_of_step step]
    constructor
    · rw [List.append_assoc]
      exact visits.trans (rest.append_left _)
    · rw [states_of_step step, List.length_cons, duration, List.map_append, List.sum_append]
      omega

/-- With its root, a walk pushes what it visits, and makes one step for each reference and one for each step back. -/
theorem setOut_pushes (idle : w.path = []) (new : root ∈ w.unseen) :
    w.unseen.Perm (pushes (w :: states d (w.setOut d root)) ++ (run d (w.setOut d root)).unseen) ∧
      (states d (w.setOut d root)).length =
        ((pushes (w :: states d (w.setOut d root))).map fun a => (d.groupReferences a).length + 1).sum + 1 := by
  obtain ⟨visits, duration⟩ := states_pushes (d := d) (w := w.setOut d root) rfl
  have first : pushes (w :: states d (w.setOut d root)) = root :: pushes (states d (w.setOut d root)) := by
    obtain ⟨ws, begun⟩ := exists_states_eq d (w.setOut d root)
    rw [begun, pushes, pushed?_eq_some.mpr (by rw [idle, setOut] : _ = root :: w.path)]
    rfl
  rw [first]
  constructor
  · exact (List.perm_cons_erase new).trans (visits.cons root)
  · rw [duration, List.map_cons, List.sum_cons]
    simp only [setOut, Walk.remaining, List.foldr_cons, List.foldr_nil]

/-- All that is on the path or pending lies in the group of the root. -/
structure Within (d : Definitions) (root : String) (w : Walk) : Prop where
  members : ∀ a ∈ w.path, d.SameGroup root a
  targets : ∀ refs ∈ w.pending, ∀ a ∈ refs, d.SameGroup root a

theorem mem_group (grouped : d.SameGroup root a) : ∀ b ∈ d.groupReferences a, d.SameGroup root b := by
  intro b refers
  obtain ⟨-, there, back⟩ := groupRefers_iff.mp (mem_groupReferences.mp refers)
  exact ⟨grouped.1.trans there, back.trans grouped.2⟩

theorem Within.setOut : Within d root (w.setOut d root) := by
  have here : d.SameGroup root root := ⟨.refl, .refl⟩
  exact ⟨by simpa [Walk.setOut] using here, by simpa [Walk.setOut] using mem_group here⟩

theorem Within.move (within : Within d root w) (move : Move d w v) : Within d root v := by
  obtain ⟨members, targets⟩ := within
  cases move with
  | back => exact ⟨(List.forall_mem_cons.mp members).2, (List.forall_mem_cons.mp targets).2⟩
  | cut | skip =>
    rw [List.forall_mem_cons, List.forall_mem_cons] at targets
    exact ⟨members, List.forall_mem_cons.mpr ⟨targets.1.2, targets.2⟩⟩
  | enter =>
    rw [List.forall_mem_cons, List.forall_mem_cons] at targets
    obtain ⟨⟨next, refs⟩, below⟩ := targets
    exact ⟨List.forall_mem_cons.mpr ⟨next, members⟩,
      List.forall_mem_cons.mpr ⟨mem_group next, List.forall_mem_cons.mpr ⟨refs, below⟩⟩⟩

theorem Within.moves (within : Within d root w) (moves : ReflTransGen (Move d) w v) : Within d root v := by
  induction moves with
  | refl => exact within
  | tail _ move ih => exact ih.move move

/-- A walk is made from each root that is new then and lies on a cycle. -/
theorem mem_tours : t ∈ tours d w roots ↔ ∃ earlier later, roots = earlier ++ t.root :: later ∧
    t.before = earlier.foldl (walkFrom d) w ∧ t.root ∈ t.before.unseen ∧ d.reaches t.root t.root = true ∧
    t.states = states d (t.before.setOut d t.root) := by
  induction roots generalizing w with
  | nil => simp [tours]
  | cons root roots ih =>
    rw [tours, List.mem_append, ih]
    constructor
    · rintro (here | ⟨earlier, later, order, before, rest⟩)
      · split at here
        · next made =>
          rw [Bool.and_eq_true, List.contains_iff_mem] at made
          obtain rfl := List.mem_singleton.mp here
          exact ⟨[], roots, rfl, rfl, made.1, made.2, rfl⟩
        · contradiction
      · exact ⟨root :: earlier, later, by rw [order, List.cons_append], before, rest⟩
    · rintro ⟨earlier, later, order, before, new, cycle, states⟩
      cases earlier with
      | nil =>
        obtain ⟨rfl, rfl⟩ := List.cons.inj order
        obtain ⟨root, u, ws⟩ := t
        dsimp only at before new cycle states
        subst before states
        left
        rw [if_pos (by simpa using ⟨new, cycle⟩)]
        exact List.mem_singleton.mpr rfl
      | cons first earlier =>
        obtain ⟨rfl, rest⟩ := List.cons.inj order
        exact .inr ⟨earlier, later, rest, before, new, cycle, states⟩

/-- When a walk is over, both stacks are empty. -/
theorem run_idle (aligned : w.Aligned) : (run d w).path = [] ∧ (run d w).pending = [] := by
  obtain ⟨moves, ended⟩ := run_moves (d := d) aligned
  have still : (run d w).Aligned := by
    generalize run d w = v at moves
    clear ended
    induction moves with
    | refl => exact aligned
    | tail _ move ih => exact move.aligned ih
  rw [Aligned, ended] at still
  exact ⟨List.eq_nil_of_length_eq_zero still, ended⟩

theorem Aligned.owned (aligned : w.Aligned) (busy : w.pending ≠ []) : w.path ≠ [] := by
  intro ended
  rw [Aligned, ended] at aligned
  exact busy (List.eq_nil_of_length_eq_zero aligned.symm)

theorem Invariant.joined {done : List String} (inv : Invariant d w done) :
    w.path.IsChain fun child parent => d.FieldRefers parent child ∧ d.SameGroup parent child :=
  inv.chain.imp fun _ _ kept => groupRefers_iff.mp kept.1

/-- Before the walk from a root, whole groups have been left, and if the root is new, it is the last of its group. -/
theorem resting_before (unique : d.composites.Nodup) {earlier later : List String}
    (order : d.composites.reverse = earlier ++ root :: later) :
    ∃ done, Resting d (earlier.foldl (walkFrom d) (start d)) done ∧
      (root ∈ (earlier.foldl (walkFrom d) (start d)).unseen → d.Last root) := by
  have order : d.composites = later.reverse ++ root :: earlier.reverse := by
    rw [← List.reverse_reverse d.composites, order]
    simp
  have before : d.composites = (later.reverse ++ [root]) ++ earlier.reverse := by
    rw [order, List.append_assoc, List.singleton_append]
  obtain ⟨done, rest, met⟩ := foldr_resting unique _ before
  rw [List.foldr_reverse] at rest
  exact ⟨done, rest, rest.last unique order met⟩

/-- What the walk from a root pushes lies in the group of the root. -/
theorem pushes_within (mem : a ∈ pushes (w :: states d (w.setOut d root))) : d.SameGroup root a := by
  obtain ⟨v, passed, here⟩ := mem_of_mem_pushes mem
  have moves := states_moves (d := d) (w := w.setOut d root) rfl v passed
  exact (Within.setOut.moves moves).members a here

/-- What the walk from a new root pushes is what was new before it and is not any more. -/
theorem mem_pushes_iff (idle : w.path = []) (distinct : w.unseen.Nodup) (new : root ∈ w.unseen) :
    a ∈ pushes (w :: states d (w.setOut d root)) ↔ a ∈ w.unseen ∧ a ∉ (run d (w.setOut d root)).unseen := by
  obtain ⟨visits, -⟩ := setOut_pushes (d := d) idle new
  have apart := (List.nodup_append.mp (visits.nodup_iff.mp distinct)).2.2
  rw [visits.mem_iff, List.mem_append]
  exact ⟨fun mem => ⟨.inl mem, fun later => apart a mem a later rfl⟩, fun ⟨mem, other⟩ => mem.resolve_right other⟩

section

variable {done : List String} (unique : d.composites.Nodup) (rest : Resting d w done) (new : root ∈ w.unseen)
  (last : d.Last root) (cycle : TransGen d.FieldRefers root root)
include unique rest new last cycle

/-- Before and after a walk a group is new or left as a whole, and the walk takes that of its root from one to the
other. -/
theorem Resting.visits (paired : d.Mutual root a) : a ∈ w.unseen ∧ a ∉ (run d (w.setOut d root)).unseen := by
  have composite : root ∈ d.composites := Mutual.composite ⟨cycle, cycle⟩
  obtain ⟨left, after, -, gone⟩ := rest.walkFrom unique fun _ => last
  rw [walkFrom_eq, if_pos (by simpa using ⟨new, (reaches_iff_transGen composite).mpr cycle⟩)] at after gone
  constructor
  · apply (rest.toInvariant.mem_done rest.ended paired.composite).resolve_left
    intro met
    have old : root ∈ done := rest.toInvariant.closed rest.ended met paired.symm
    exact rest.toInvariant.not_unseen unique (List.mem_append_right _ old) new
  · have met : root ∈ left := (after.toInvariant.mem_done after.ended composite).resolve_right (gone cycle)
    have met : a ∈ left := after.toInvariant.closed after.ended met paired
    exact after.toInvariant.not_unseen unique (List.mem_append_right _ met)

/-- The walk from a new root pushes just the members of its group, and these are what it visits. -/
theorem Resting.group (a : String) : (a ∈ pushes (w :: states d (w.setOut d root)) ↔ d.SameGroup root a) ∧
    (a ∈ w.unseen ∧ a ∉ (run d (w.setOut d root)).unseen ↔ d.SameGroup root a) := by
  have distinct : w.unseen.Nodup := (List.nodup_append.mp (rest.members.nodup_iff.mpr unique)).2.1
  have pushed := mem_pushes_iff (d := d) (a := a) (rest.toInvariant.idle rest.ended) distinct new
  have group : a ∈ pushes (w :: states d (w.setOut d root)) ↔ d.SameGroup root a := by
    refine ⟨pushes_within, fun grouped => pushed.mpr (rest.visits unique new last cycle ?_)⟩
    exact ⟨.trans_left cycle grouped.1, .trans_right grouped.2 cycle⟩
  exact ⟨group, pushed.symm.trans group⟩

end

/-- The last state of all walks, or the first if none is made, is the one that the roots lead to. -/
theorem tours_end (w : Walk) (roots : List String) :
    ((tours d w roots).flatMap Tour.states).getLast?.getD w = roots.foldl (walkFrom d) w := by
  induction roots generalizing w with
  | nil => rfl
  | cons root roots ih =>
    rw [List.foldl_cons, ← ih, tours, List.flatMap_append, walkFrom_eq]
    split
    · rw [List.flatMap_singleton, List.getLast?_append, getLast?_states]
      cases ((tours d (run d (w.setOut d root)) roots).flatMap Tour.states).getLast? <;> rfl
    · rfl

/-- What all walks push and what they leave is what was new before, each name once. -/
theorem tours_pushes (idle : w.path = []) (roots : List String) :
    w.unseen.Perm ((tours d w roots).flatMap Tour.pushes ++ (roots.foldl (walkFrom d) w).unseen) := by
  induction roots generalizing w with
  | nil => exact .refl _
  | cons root roots ih =>
    rw [tours, walkFrom_eq, List.foldl_cons, walkFrom_eq]
    split
    · next made =>
      rw [Bool.and_eq_true, List.contains_iff_mem] at made
      obtain ⟨visits, -⟩ := setOut_pushes (d := d) idle made.1
      obtain ⟨ended, -⟩ := run_idle (d := d) (w := w.setOut d root) rfl
      rw [List.singleton_append, List.flatMap_cons, List.append_assoc]
      exact visits.trans ((ih ended).append_left _)
    · exact ih idle

end Walk

open Walk Definitions in
/-- Each walk is as expected. -/
theorem Tour.orderly {d : Definitions} (unique : d.composites.Nodup) {t : Tour} (mem : t ∈ d.tours) : t.Orderly d := by
  obtain ⟨earlier, later, order, before, new, cycle, states⟩ := mem_tours.mp mem
  obtain ⟨done, rest, last⟩ := resting_before unique order
  rw [← before] at rest last
  obtain ⟨root, w, ws⟩ := t
  dsimp only at *
  subst states
  have composite : root ∈ d.composites := by
    rw [← List.mem_reverse, order]
    simp
  have group := rest.group unique new (last new) ((reaches_iff_transGen composite).mp cycle)
  -- Every state of the walk is one that the invariant holds of.
  have first := rest.toInvariant.enter rest.ended new (last new)
  have states : ∀ v ∈ Walk.states d (w.setOut d root), ∃ left, Invariant d v left := by
    intro v mem
    exact first.moves unique (states_moves (w := w.setOut d root) rfl v mem)
  constructor
  case steps => exact states_isChain d _
  case aligned =>
    intro v mem
    obtain ⟨left, inv⟩ := states v mem
    exact inv.stacked.aligned
  case owned =>
    intro v mem
    obtain ⟨left, inv⟩ := states v mem
    exact Aligned.owned inv.stacked.aligned
  case joined =>
    intro v mem
    obtain ⟨left, inv⟩ := states v mem
    exact inv.joined
  case visited =>
    intro v mem a here
    obtain ⟨left, inv⟩ := states v mem
    have met : a ∈ v.path ++ left := List.mem_append_left _ here
    exact ⟨inv.members.mem_iff.mp (List.mem_append_left _ met), inv.not_unseen unique met⟩
  case group => exact fun a => (group a).1
  case ends =>
    obtain ⟨path, pending⟩ := run_idle (d := d) (w := w.setOut d root) rfl
    exact ⟨_, getLast?_states d _, path, pending, fun a => (group a).2⟩
  case duration => exact (setOut_pushes (rest.toInvariant.idle rest.ended) new).2

namespace Registry

open Definitions Fallible

variable {files given kept : List RegistryFile} {r last : Registry}

/-- In every registry, whatever files were merged into it after it was built, the walks are as expected, no struct,
union or exception is pushed twice over all of them, and the references that are cut are those that the last of them
leaves. -/
theorem tours_orderly (built : build files = .ok r) (merges : Merges r given kept last) :
    (∀ t ∈ last.definitions.tours, t.Orderly last.definitions) ∧
      (last.definitions.tours.flatMap Tour.pushes).Nodup ∧
      last.cuts = ((last.definitions.tours.flatMap Tour.states).getLast?.getD (.start last.definitions)).cuts := by
  have unique := (build_wellFormed (merges.built built)).composites
  refine ⟨?_, ?_, ?_⟩
  · exact fun t mem => Tour.orderly unique mem
  · have pushes := Walk.tours_pushes (d := last.definitions) (w := .start last.definitions) rfl
      last.definitions.composites.reverse
    exact (List.nodup_append.mp (pushes.nodup_iff.mp unique)).1
  · rw [Definitions.tours, Walk.tours_end, last.cuts_eq, cycleCuts]

/-- The member of each pair that is declared last is the root, and the pair that is merged in is walked first. -/
theorem pairs_toured : ∃ r last, build [pairFile] = .ok r ∧ Merges r [secondPairFile] [secondPairFile] last ∧
    last.definitions.tours.map (fun t => (t.root, t.pushes, t.states.length)) =
      [("D", ["D", "C"], 5), ("B", ["B", "A"], 5)] ∧
    last.cuts = [("A", "B"), ("C", "D")] ∧
    (∀ t ∈ last.definitions.tours, t.Orderly last.definitions) ∧
    (last.definitions.tours.flatMap Tour.pushes).Nodup ∧
    last.cuts = ((last.definitions.tours.flatMap Tour.states).getLast?.getD (.start last.definitions)).cuts := by
  have facts : (fun last => (last.definitions.tours.map fun t => (t.root, t.pushes, t.states.length), last.cuts)) <$>
      (build [pairFile] >>= fun r => r.merge secondPairFile) =
        .ok ([("D", ["D", "C"], 5), ("B", ["B", "A"], 5)], [("A", "B"), ("C", "D")]) := by decide +kernel
  obtain ⟨last, made, facts⟩ := map_eq_ok.mp facts
  obtain ⟨walked, cuts⟩ := Prod.mk.inj facts
  obtain ⟨r, built, merged⟩ := bind_eq_ok.mp made
  have merges : Merges r [secondPairFile] [secondPairFile] last := .taken (afterMerge_eq_ok.mpr merged) .done
  exact ⟨r, last, built, merges, walked, cuts, tours_orderly built merges⟩

end Registry

end ThriftCatalog
