import ThriftCatalog.Proofs.Reachability
import ThriftCatalog.Registry.CycleCut

/-! The walk as a transition relation. Each step of a walk is one of four moves, and a run is the chain of moves that
ends where nothing is pending. -/
namespace ThriftCatalog.Walk

open Relation

variable {d : Definitions} {w v : Walk}

/-- One list of references is pending for each member of the path. -/
def Aligned (w : Walk) : Prop := w.path.length = w.pending.length

inductive Move (d : Definitions) : Walk → Walk → Prop where
  /-- Nothing is left to follow from the last member of the path. -/
  | back {owner : String} {path : List String} {pending : List (List String)} {unseen : List String}
      {cuts : List (String × String)} :
      Move d ⟨owner :: path, [] :: pending, unseen, cuts⟩ ⟨path, pending, unseen, cuts⟩
  /-- A reference back to the path. -/
  | cut {owner next : String} {path refs : List String} {pending : List (List String)} {unseen : List String}
      {cuts : List (String × String)} :
      next ∈ owner :: path →
      Move d ⟨owner :: path, (next :: refs) :: pending, unseen, cuts⟩
        ⟨owner :: path, refs :: pending, unseen, (owner, next) :: cuts⟩
  /-- A reference to a member that was not met before. -/
  | enter {owner next : String} {path refs : List String} {pending : List (List String)} {unseen : List String}
      {cuts : List (String × String)} :
      next ∉ owner :: path → next ∈ unseen →
      Move d ⟨owner :: path, (next :: refs) :: pending, unseen, cuts⟩
        ⟨next :: owner :: path, d.groupReferences next :: refs :: pending, unseen.erase next, cuts⟩
  /-- A reference to a member that the walk has left for good. -/
  | skip {owner next : String} {path refs : List String} {pending : List (List String)} {unseen : List String}
      {cuts : List (String × String)} :
      next ∉ owner :: path → next ∉ unseen →
      Move d ⟨owner :: path, (next :: refs) :: pending, unseen, cuts⟩ ⟨owner :: path, refs :: pending, unseen, cuts⟩

theorem Move.step (move : Move d w v) : w.step? d = some v := by
  cases move with
  | back => rfl
  | cut here => simp only [step?, if_pos here]
  | enter off new => simp only [step?, if_neg off, if_pos new]
  | skip off old => simp only [step?, if_neg off, if_neg old]

theorem Move.aligned (move : Move d w v) (aligned : w.Aligned) : v.Aligned := by
  cases move <;> simpa [Aligned] using aligned

/-- While something is pending there is a move. -/
theorem Move.progress (aligned : w.Aligned) (busy : w.pending ≠ []) : ∃ v, Move d w v := by
  obtain ⟨path, pending, unseen, cuts⟩ := w
  obtain ⟨top, pending, rfl⟩ := List.exists_cons_of_ne_nil busy
  cases path with
  | nil => simp [Aligned] at aligned
  | cons owner path =>
    cases top with
    | nil => exact ⟨_, .back⟩
    | cons next refs =>
      by_cases off : next ∈ owner :: path
      · exact ⟨_, .cut off⟩
      · by_cases new : next ∈ unseen
        · exact ⟨_, .enter off new⟩
        · exact ⟨_, .skip off new⟩

theorem Move.of_step (aligned : w.Aligned) (h : w.step? d = some v) : Move d w v := by
  have busy : w.pending ≠ [] := by
    intro ended
    simp only [step?, ended] at h
    contradiction
  obtain ⟨u, move⟩ := progress (d := d) aligned busy
  obtain rfl : u = v := Option.some.inj (move.step.symm.trans h)
  exact move

theorem run_of_step (h : w.step? d = some v) : run d w = run d v := by
  rw [run]
  split
  · next stop => simp [h] at stop
  · next u step =>
    obtain rfl : u = v := Option.some.inj (step.symm.trans h)
    rfl

theorem run_of_stop (h : w.step? d = none) : run d w = w := by
  rw [run]
  split
  · rfl
  · next step => simp [h] at step

/-- A run makes moves until nothing is pending. -/
theorem run_moves (aligned : w.Aligned) : ReflTransGen (Move d) w (run d w) ∧ (run d w).pending = [] := by
  induction w using run.induct d with
  | case1 w stop =>
    rw [run_of_stop stop]
    refine ⟨.refl, Decidable.byContradiction fun busy => ?_⟩
    obtain ⟨v, move⟩ := Move.progress (d := d) aligned busy
    simp [move.step] at stop
  | case2 w v step ih =>
    have move := Move.of_step aligned step
    obtain ⟨moves, ended⟩ := ih (move.aligned aligned)
    rw [run_of_step step]
    exact ⟨.head move moves, ended⟩

/-- Moves that end with nothing pending are those of the run. -/
theorem run_eq (moves : ReflTransGen (Move d) w v) (ended : v.pending = []) : run d w = v := by
  induction moves using ReflTransGen.head_induction_on with
  | refl => exact run_of_stop (by simp only [step?, ended])
  | head move _ ih => rw [run_of_step move.step, ih]

end ThriftCatalog.Walk
