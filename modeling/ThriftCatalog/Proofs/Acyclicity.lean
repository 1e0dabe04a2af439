import Mathlib.Data.Finset.Card
import ThriftCatalog.Proofs.WalkInvariant

/-! What the walks from all roots leave uncut. Expanding in place comes to an end, a reference is cut only where
expansion leads back to its owner, and the member of a group declared last expands every other member. -/
namespace ThriftCatalog

open Relation

namespace Walk

open Definitions

variable {d : Definitions} {w v : Walk} {done : List String} {cuts : List (String × String)} {a b root : String}

theorem Invariant.moves (unique : d.composites.Nodup) (inv : Invariant d w done)
    (moves : ReflTransGen (Move d) w v) : ∃ left, Invariant d v left := by
  induction moves with
  | refl => exact ⟨done, inv⟩
  | tail _ move ih =>
    obtain ⟨left, inv⟩ := ih
    exact inv.move unique move

theorem Move.unseen_subset (move : Move d w v) : v.unseen ⊆ w.unseen := by
  cases move with
  | back | cut | skip => exact List.Subset.refl _
  | enter => exact List.erase_subset

theorem moves_unseen_subset (moves : ReflTransGen (Move d) w v) : v.unseen ⊆ w.unseen := by
  induction moves with
  | refl => exact List.Subset.refl _
  | tail _ move ih => exact List.Subset.trans move.unseen_subset ih

theorem Invariant.idle (inv : Invariant d w done) (ended : w.pending = []) : w.path = [] := by
  have aligned := inv.stacked.aligned
  rw [ended] at aligned
  exact List.eq_nil_of_length_eq_zero aligned

/-- Between two walks a member has been left or was never met. -/
theorem Invariant.mem_done (inv : Invariant d w done) (ended : w.pending = []) (mem : a ∈ d.composites) :
    a ∈ done ∨ a ∈ w.unseen := by
  have mem := inv.members.mem_iff.mpr mem
  rwa [inv.idle ended, List.nil_append, List.mem_append] at mem

theorem Invariant.not_unseen (unique : d.composites.Nodup) (inv : Invariant d w done) (met : a ∈ w.path ++ done) :
    a ∉ w.unseen := by
  have distinct := inv.members.nodup_iff.mpr unique
  exact fun new => (List.nodup_append.mp distinct).2.2 a met a new rfl

theorem Settled.cover (settled : Settled d cuts done) (mem : a ∈ done) (refers : d.GroupRefers a b) :
    (a, b) ∈ cuts ∨ b ∈ done := by
  induction done with
  | nil => contradiction
  | cons owner earlier ih =>
    rcases List.mem_cons.mp mem with rfl | mem
    · exact (settled.1 b refers).imp id (List.mem_cons_of_mem _)
    · exact (ih settled.2 mem).imp id (List.mem_cons_of_mem _)

/-- A walk leaves whole groups behind. -/
theorem Invariant.closed (inv : Invariant d w done) (ended : w.pending = []) (mem : a ∈ done) (paired : d.Mutual a b) :
    b ∈ done := by
  have step {x y : String} (mem : x ∈ done) (refers : d.GroupRefers x y) : y ∈ done := by
    rcases inv.settled.cover mem refers with cut | mem
    · obtain ⟨-, -, back⟩ := inv.cuts x y cut
      rcases back.cases_head with rfl | ⟨z, kept, -⟩
      · exact mem
      · exact (inv.mem_done ended refers.1.composite).resolve_right kept.2.1.1
    · exact mem
  have chain := transGen_group (fun _ _ => id) paired.1 paired.2.to_reflTransGen
  clear paired
  induction chain with
  | single refers => exact step mem refers.1
  | tail _ refers ih => exact step ih refers.1

/-- The walk of a group begins at a member that no walk has met. -/
theorem Invariant.enter (inv : Invariant d w done) (ended : w.pending = []) (new : root ∈ w.unseen)
    (last : d.Last root) : Invariant d ⟨[root], [d.groupReferences root], w.unseen.erase root, w.cuts⟩ done := by
  have decided {a b : String} (decided : w.Decided a b) :
      Decided ⟨[root], [d.groupReferences root], w.unseen.erase root, w.cuts⟩ a b := by
    refine ⟨fun mem => decided.1 (List.mem_of_mem_erase mem), fun refs mem => ?_⟩
    obtain ⟨rfl, -⟩ : a = root ∧ refs = d.groupReferences root := by simpa using mem
    exact absurd new decided.1
  have kept {a b : String} (chain : ReflTransGen (Kept d w) a b) :
      ReflTransGen (Kept d ⟨[root], [d.groupReferences root], w.unseen.erase root, w.cuts⟩) a b :=
    chain.lift id fun _ _ held => ⟨held.1, decided held.2.1, held.2.2⟩
  have idle := inv.idle ended
  obtain ⟨members, -, settled, -, cuts, rooted⟩ := inv
  rw [idle, List.nil_append] at members rooted
  refine ⟨?_, ⟨⟨groupReferences_nodup, fun t => mem_groupReferences.mp, ?_⟩, trivial⟩, settled, .singleton _, ?_, ?_⟩
  · exact .trans (.trans List.perm_middle.symm (.append_left _ (List.perm_cons_erase new).symm)) members
  · exact fun t refers => .inl (mem_groupReferences.mpr refers)
  · intro a b mem
    obtain ⟨group, held, back⟩ := cuts a b mem
    exact ⟨group, decided held, kept back⟩
  · intro a mem
    rcases List.mem_cons.mp mem with rfl | mem
    · exact ⟨a, last, .refl⟩
    · obtain ⟨r, last, down⟩ := rooted a mem
      exact ⟨r, last, kept down⟩

/-- Between two walks. -/
structure Resting (d : Definitions) (w : Walk) (done : List String) : Prop extends Invariant d w done where
  ended : w.pending = []

/-- After the walk from a root, no member of a cycle before it in the order of roots is left out. -/
theorem Resting.walkFrom (unique : d.composites.Nodup) (rest : Resting d w done)
    (last : root ∈ w.unseen → d.Last root) :
    ∃ left, Resting d (walkFrom d w root) left ∧ (walkFrom d w root).unseen ⊆ w.unseen ∧
      (TransGen d.FieldRefers root root → root ∉ (walkFrom d w root).unseen) := by
  unfold Walk.walkFrom
  split
  · next start =>
    rw [Bool.and_eq_true, List.contains_iff_mem] at start
    have inv := rest.toInvariant.enter rest.ended start.1 (last start.1)
    obtain ⟨moves, ended⟩ := run_moves (d := d) inv.stacked.aligned
    obtain ⟨left, inv⟩ := inv.moves unique moves
    have fewer := moves_unseen_subset moves
    refine ⟨left, ⟨inv, ended⟩, List.Subset.trans fewer List.erase_subset, fun _ mem => ?_⟩
    have distinct : w.unseen.Nodup := (List.nodup_append.mp (rest.members.nodup_iff.mpr unique)).2.1
    exact distinct.not_mem_erase (fewer mem)
  · next idle =>
    refine ⟨done, rest, List.Subset.refl _, fun cycle mem => ?_⟩
    obtain ⟨_, -, back⟩ := TransGen.tail'_iff.mp cycle
    simp [mem, (reaches_iff_transGen back.composite).mpr cycle] at idle

theorem start_resting : Resting d (start d) [] where
  members := .refl _
  stacked := trivial
  settled := trivial
  chain := .nil
  cuts := by simp [start]
  rooted := by simp [start]
  ended := rfl

/-- A root that no walk has met comes last in its group: a later member would have been left by an earlier walk, and the
root with it. -/
theorem Resting.last (unique : d.composites.Nodup) (rest : Resting d w done) {before after : List String}
    (order : d.composites = before ++ root :: after) (met : ∀ a ∈ after, TransGen d.FieldRefers a a → a ∈ done)
    (new : root ∈ w.unseen) : d.Last root := by
  intro b paired
  have early : b ∉ after := by
    intro mem
    have old : root ∈ done := rest.toInvariant.closed rest.ended (met b mem (paired.2.trans paired.1)) paired.symm
    exact rest.toInvariant.not_unseen unique (List.mem_append_right _ old) new
  have here : root ∉ before := by
    rw [order] at unique
    intro mem
    exact (List.nodup_append.mp unique).2.2 root mem root List.mem_cons_self rfl
  have mem := paired.composite
  rw [order] at mem ⊢
  rw [List.idxOf_append_of_notMem here]
  by_cases sooner : b ∈ before
  · rw [List.idxOf_append_of_mem sooner]
    have := List.idxOf_lt_length_of_mem sooner
    omega
  · obtain rfl : b = root := by simpa [sooner, early] using mem
    rw [List.idxOf_append_of_notMem here]

/-- After the walks from the last roots, every member of a cycle among them has been left. -/
theorem foldr_resting (unique : d.composites.Nodup) (before : List String) {after : List String}
    (order : d.composites = before ++ after) :
    ∃ done, Resting d (after.foldr (fun root w => walkFrom d w root) (start d)) done ∧
      ∀ a ∈ after, TransGen d.FieldRefers a a → a ∈ done := by
  induction after generalizing before with
  | nil => exact ⟨[], start_resting, by simp⟩
  | cons root after ih =>
    obtain ⟨done, rest, met⟩ := ih (before ++ [root]) (by simp [order])
    rw [List.foldr_cons]
    generalize after.foldr (fun root w => walkFrom d w root) (start d) = w at rest
    have last : root ∈ w.unseen → d.Last root := rest.last unique order met
    obtain ⟨left, rest', fewer, gone⟩ := rest.walkFrom unique last
    refine ⟨left, rest', fun a mem cycle => ?_⟩
    have composite : a ∈ d.composites := order ▸ List.mem_append_right _ mem
    apply (rest'.toInvariant.mem_done rest'.ended composite).resolve_right
    rcases List.mem_cons.mp mem with rfl | mem
    · exact gone cycle
    · intro unseen
      exact rest.toInvariant.not_unseen unique (List.mem_append_right _ (met a mem cycle)) (fewer unseen)

/-- The state after all walks: the cuts are those of the definitions, and every member of a cycle has been left. -/
theorem exists_resting (unique : d.composites.Nodup) :
    ∃ w done, Resting d w done ∧ w.cuts = d.cycleCuts ∧ ∀ a, TransGen d.FieldRefers a a → a ∈ done := by
  obtain ⟨done, rest, met⟩ := foldr_resting unique [] (List.nil_append _).symm
  refine ⟨_, done, rest, ?_, fun a cycle => met a ?_ cycle⟩
  · rw [cycleCuts, List.foldl_reverse]
  · obtain ⟨b, refers, -⟩ := TransGen.head'_iff.mp cycle
    exact refers.source

/-- Among the members left, references in place lead only to members left earlier. -/
theorem Settled.acyclic (settled : Settled d cuts done) (distinct : done.Nodup) (mem : a ∈ done) :
    ¬ TransGen (fun x y => d.GroupRefers x y ∧ (x, y) ∉ cuts) a a := by
  induction done generalizing a with
  | nil => contradiction
  | cons owner earlier ih =>
    rw [List.nodup_cons] at distinct
    have down {x y : String} (mem : x ∈ owner :: earlier) (step : d.GroupRefers x y ∧ (x, y) ∉ cuts) :
        y ∈ earlier := by
      rcases List.mem_cons.mp mem with rfl | mem
      · exact (settled.1 y step.1).resolve_left step.2
      · exact (settled.2.cover mem step.1).resolve_left step.2
    intro cycle
    have below : a ∈ earlier := by
      have all {x : String} (chain : TransGen (fun x y => d.GroupRefers x y ∧ (x, y) ∉ cuts) a x) : x ∈ earlier := by
        induction chain with
        | single step => exact down mem step
        | tail _ step ih => exact down (List.mem_cons_of_mem _ ih) step
      exact all cycle
    exact ih settled.2 distinct.2 below cycle

end Walk

namespace Definitions

variable {d : Definitions} {a b : String}

/-- Expanding in place never comes back to where it began. -/
theorem inlines_acyclic (unique : d.composites.Nodup) : ¬ TransGen d.Inlines a a := by
  intro cycle
  obtain ⟨w, done, rest, cuts, met⟩ := Walk.exists_resting unique
  have distinct := rest.members.nodup_iff.mpr unique
  rw [rest.idle rest.ended, List.nil_append] at distinct
  have mem := met a (cycle.lift id fun _ _ step => step.1)
  have within := transGen_group (fun _ _ step => step.1) cycle .refl
  refine rest.settled.acyclic (List.nodup_append.mp distinct).1 mem (within.lift id fun x y step => ⟨step.1, ?_⟩)
  rw [cuts]
  exact step.2.2

/-- What the walks keep is expanded in place. -/
theorem inlines_of_kept {w : Walk} (cuts : w.cuts = d.cycleCuts) (chain : ReflTransGen (Walk.Kept d w) a b) :
    ReflTransGen d.Inlines a b :=
  chain.lift id fun _ _ kept => ⟨kept.1.1, cuts ▸ kept.2.2⟩

/-- Only references on a cycle are cut, and what was cut is expanded on the way to where it was cut. -/
theorem inlines_of_cut (unique : d.composites.Nodup) (cut : (a, b) ∈ d.cycleCuts) :
    d.GroupRefers a b ∧ ReflTransGen d.Inlines b a := by
  obtain ⟨w, done, rest, cuts, -⟩ := Walk.exists_resting unique
  obtain ⟨group, -, back⟩ := rest.cuts a b (cuts ▸ cut)
  exact ⟨group, inlines_of_kept cuts back⟩

/-- The member of a group declared last expands every other member. -/
theorem Last.inlines (unique : d.composites.Nodup) (last : d.Last a) (paired : d.Mutual a b) :
    ReflTransGen d.Inlines a b := by
  obtain ⟨w, done, rest, cuts, met⟩ := Walk.exists_resting unique
  obtain ⟨root, first, down⟩ := rest.rooted b (List.mem_append_right _ (met b (paired.2.trans paired.1)))
  have group : d.Mutual root b := by
    have all {x : String} (chain : ReflTransGen (Walk.Kept d w) root x) : root = x ∨ d.Mutual root x := by
      induction chain with
      | refl => exact .inl rfl
      | tail _ kept ih =>
        rcases ih with rfl | ih
        · exact .inr kept.1.mutual
        · exact .inr (ih.trans kept.1.mutual)
    rcases all down with rfl | group
    · exact paired.symm.trans paired
    · exact group
  have same : d.composites.idxOf root = d.composites.idxOf a :=
    Nat.le_antisymm (last root (paired.trans group.symm)) (first a (group.trans paired.symm))
  obtain rfl := (List.idxOf_inj group.symm.composite).mp same
  exact inlines_of_kept cuts down

open Classical in
/-- How many structs, unions and exceptions are expanded below one. -/
noncomputable def rank (d : Definitions) (a : String) : Nat :=
  (d.composites.toFinset.filter fun b => TransGen d.Inlines a b).card

open Classical in
theorem rank_lt_rank (unique : d.composites.Nodup) (inlines : d.Inlines a b) : d.rank b < d.rank a := by
  refine Finset.card_lt_card ((Finset.ssubset_iff_of_subset fun c mem => ?_).mpr ⟨b, ?_, ?_⟩)
  · rw [Finset.mem_filter] at mem ⊢
    exact ⟨mem.1, .head inlines mem.2⟩
  · rw [Finset.mem_filter, List.mem_toFinset]
    exact ⟨inlines.1.composite, .single inlines⟩
  · rw [Finset.mem_filter, not_and]
    exact fun _ => inlines_acyclic unique

open Classical in
theorem rank_lt_length (unique : d.composites.Nodup) (composite : a ∈ d.composites) :
    d.rank a < d.composites.length := by
  rw [← List.toFinset_card_of_nodup unique]
  refine Finset.card_lt_card ((Finset.ssubset_iff_of_subset (Finset.filter_subset _ _)).mpr ⟨a, ?_, ?_⟩)
  · rwa [List.mem_toFinset]
  · rw [Finset.mem_filter, not_and]
    exact fun _ => inlines_acyclic unique

end Definitions

end ThriftCatalog
