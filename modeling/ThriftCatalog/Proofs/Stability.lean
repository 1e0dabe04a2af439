import ThriftCatalog.Proofs.Extension
import ThriftCatalog.Proofs.Walk

/-! Extending checked definitions. Old types refer to old types only, so walks through old groups go as they went
before, walks through new groups stay among new members, and the same references of old members are cut. -/
namespace ThriftCatalog

open Relation

namespace Definitions

variable {d d' : Definitions} {a b name : String}

theorem composites_subset_names : d.composites ⊆ d.names :=
  List.append_subset.mpr ⟨keys_subset_names.2.1, keys_subset_names.2.2.1⟩

theorem Checked.mentions (checked : d.Checked) (mem : b ∈ d.mentions a) : b ∈ d.names := by
  obtain ⟨f, field, mem⟩ := List.mem_flatMap.mp mem
  exact mem_names.mpr (.inr (checked.fields a f field b mem))

theorem Extends.isComposite (ext : d.Extends d') (mem : name ∈ d.names) :
    d'.isComposite name = d.isComposite name := by
  rw [Definitions.isComposite, Definitions.isComposite, ext.structs.contains mem, ext.exceptions.contains mem]

theorem Extends.references (ext : d.Extends d') (checked : d.Checked) (mem : a ∈ d.names) :
    d'.references a = d.references a := by
  have mentions : d'.mentions a = d.mentions a := by
    rw [Definitions.mentions, ext.compositeFields mem]
    rfl
  rw [Definitions.references, mentions]
  refine List.foldl_ext _ _ _ fun refs b mentioned => ?_
  rw [ext.isComposite (checked.mentions mentioned)]

theorem Extends.refers (ext : d.Extends d') (checked : d.Checked) (mem : a ∈ d.composites) :
    d'.FieldRefers a b ↔ d.FieldRefers a b := by
  rw [← mem_references, ← mem_references, ext.references checked (composites_subset_names mem)]

/-- From an old type the same types can be reached as before. -/
theorem Extends.transGen (ext : d.Extends d') (checked : d.Checked) (mem : a ∈ d.composites) :
    TransGen d'.FieldRefers a b ↔ TransGen d.FieldRefers a b := by
  constructor
  · intro chain
    induction chain with
    | single refers => exact .single ((ext.refers checked mem).mp refers)
    | tail _ refers ih =>
      obtain ⟨_, -, last⟩ := TransGen.tail'_iff.mp ih
      exact ih.tail ((ext.refers checked last.composite).mp refers)
  · exact fun chain => chain.lift id fun x y refers => (ext.refers checked refers.source).mpr refers

theorem Extends.reaches (ext : d.Extends d') (checked : d.Checked) (mem : a ∈ d.composites) (mem' : b ∈ d.composites) :
    d'.reaches a b = d.reaches a b := by
  have still : b ∈ d'.composites := by
    rw [← isComposite_iff, ext.isComposite (composites_subset_names mem')]
    exact isComposite_iff.mpr mem'
  rw [Bool.eq_iff_iff, reaches_iff_transGen mem', reaches_iff_transGen still, ext.transGen checked mem]

theorem Extends.groupReferences (ext : d.Extends d') (checked : d.Checked) (mem : a ∈ d.composites) :
    d'.groupReferences a = d.groupReferences a := by
  rw [Definitions.groupReferences, ext.references checked (composites_subset_names mem)]
  exact List.filter_congr fun b refers => ext.reaches checked (mem_references.mp refers).composite mem

/-- No group holds old and new types. -/
theorem Extends.groupRefers_new (ext : d.Extends d') (checked : d.Checked) (new : a ∉ d.composites)
    (refers : d'.GroupRefers a b) : b ∉ d.composites := by
  intro old
  obtain ⟨_, -, last⟩ := TransGen.tail'_iff.mp ((ext.transGen checked old).mp refers.2)
  exact new last.composite

theorem Extends.composites (ext : d.Extends d') : d'.composites.filter d.isComposite = d.composites := by
  obtain ⟨structs, grownStructs, freshStructs⟩ := ext.structs.keys
  obtain ⟨exceptions, grownExceptions, freshExceptions⟩ := ext.exceptions.keys
  have old {names : List String} (known : names ⊆ d.composites) : names.filter d.isComposite = names :=
    List.filter_eq_self.mpr fun name mem => isComposite_iff.mpr (known mem)
  have new {names : List String} (fresh : ∀ name ∈ names, name ∉ d.names) : names.filter d.isComposite = [] :=
    List.filter_eq_nil_iff.mpr fun name mem composite =>
      fresh name mem (composites_subset_names (isComposite_iff.mp composite))
  rw [Definitions.composites, grownStructs, grownExceptions]
  simp only [List.filter_append, new freshStructs, new freshExceptions, List.append_nil]
  rw [old (List.subset_append_left _ _), old (List.subset_append_right _ _), Definitions.composites]

end Definitions

namespace Walk

open Definitions

variable {d d' : Definitions} {w w' v u : Walk}

/-- As far as old members go, two walks have met the same and cut the same. -/
structure Matches (d : Definitions) (w w' : Walk) : Prop where
  unseen : w'.unseen.filter d.isComposite = w.unseen.filter d.isComposite
  cuts : ∀ a b, a ∈ d.composites → ((a, b) ∈ w'.cuts ↔ (a, b) ∈ w.cuts)

/-- Two walks at the same place in an old group. -/
structure Agrees (d : Definitions) (w w' : Walk) : Prop extends Matches d w w' where
  path : w'.path = w.path
  pending : w'.pending = w.pending
  members : ∀ a ∈ w.path, a ∈ d.composites
  targets : ∀ refs ∈ w.pending, ∀ a ∈ refs, a ∈ d.composites

/-- A walk in a new group. -/
structure Apart (d : Definitions) (w : Walk) : Prop where
  members : ∀ a ∈ w.path, a ∉ d.composites
  targets : ∀ refs ∈ w.pending, ∀ a ∈ refs, a ∉ d.composites

theorem Matches.refl : Matches d w w := ⟨rfl, fun _ _ _ => .rfl⟩

theorem Matches.trans (first : Matches d w v) (second : Matches d v u) : Matches d w u :=
  ⟨second.unseen.trans first.unseen, fun a b old => (second.cuts a b old).trans (first.cuts a b old)⟩

theorem Matches.mem_unseen (same : Matches d w w') {a : String} (old : a ∈ d.composites) :
    a ∈ w'.unseen ↔ a ∈ w.unseen := by
  have composite := isComposite_iff.mpr old
  have filtered : a ∈ w'.unseen.filter d.isComposite ↔ a ∈ w.unseen.filter d.isComposite := by rw [same.unseen]
  simpa [List.mem_filter, composite] using filtered

theorem Matches.erase {unseen unseen' : List String}
    (same : unseen'.filter d.isComposite = unseen.filter d.isComposite) (a : String) :
    (unseen'.erase a).filter d.isComposite = (unseen.erase a).filter d.isComposite := by
  rw [← List.erase_filter, ← List.erase_filter, same]

/-- Each move in an old group is made in the same way among the new definitions. -/
theorem Agrees.move (ext : d.Extends d') (checked : d.Checked) (agrees : Agrees d w w') (move : Move d w v) :
    ∃ v', Move d' w' v' ∧ Agrees d v v' := by
  obtain ⟨path', pending', unseen', cuts'⟩ := w'
  obtain ⟨same, rfl, rfl, members, targets⟩ := agrees
  cases move with
  | @back owner path pending unseen cuts =>
    exact ⟨_, .back, ⟨same.unseen, same.cuts⟩, rfl, rfl, fun a mem => members a (List.mem_cons_of_mem _ mem),
      fun refs mem => targets refs (List.mem_cons_of_mem _ mem)⟩
  | @cut owner next path refs pending unseen cuts here =>
    rw [List.forall_mem_cons, List.forall_mem_cons] at targets
    refine ⟨_, .cut here, ⟨same.unseen, fun a b old => ?_⟩, rfl, rfl, members,
      List.forall_mem_cons.mpr ⟨targets.1.2, targets.2⟩⟩
    simp only [List.mem_cons]
    exact or_congr_right (same.cuts a b old)
  | @enter owner next path refs pending unseen cuts off new =>
    rw [List.forall_mem_cons, List.forall_mem_cons] at targets
    have old : next ∈ d.composites := targets.1.1
    -- An old member has no new references, so the same list becomes pending for it.
    refine ⟨_, .enter off ((same.mem_unseen old).mpr new), ⟨Matches.erase same.unseen next, same.cuts⟩, rfl, ?_, ?_, ?_⟩
    · simp only [ext.groupReferences checked old]
    · exact List.forall_mem_cons.mpr ⟨old, members⟩
    · refine List.forall_mem_cons.mpr ⟨fun a refers => ?_, List.forall_mem_cons.mpr ⟨targets.1.2, targets.2⟩⟩
      exact (mem_groupReferences.mp refers).1.composite
  | @skip owner next path refs pending unseen cuts off old =>
    rw [List.forall_mem_cons, List.forall_mem_cons] at targets
    exact ⟨_, .skip off (mt (same.mem_unseen targets.1.1).mp old), ⟨same.unseen, same.cuts⟩, rfl, rfl, members,
      List.forall_mem_cons.mpr ⟨targets.1.2, targets.2⟩⟩

theorem Agrees.run (ext : d.Extends d') (checked : d.Checked) (agrees : Agrees d w w') (aligned : w.Aligned) :
    Matches d (run d w) (run d' w') := by
  obtain ⟨moves, ended⟩ := run_moves (d := d) aligned
  have followed : ∃ v', ReflTransGen (Move d') w' v' ∧ Agrees d (Walk.run d w) v' := by
    generalize Walk.run d w = v at moves
    clear ended
    induction moves with
    | refl => exact ⟨w', .refl, agrees⟩
    | tail _ move ih =>
      obtain ⟨u', moves, agrees⟩ := ih
      obtain ⟨v', move, agrees⟩ := agrees.move ext checked move
      exact ⟨v', moves.tail move, agrees⟩
  obtain ⟨v', moves, agrees⟩ := followed
  rw [run_eq moves (agrees.pending.trans ended)]
  exact agrees.toMatches

/-- A move in a new group stays among new members and leaves everything old as it is. -/
theorem Apart.move (ext : d.Extends d') (checked : d.Checked) (apart : Apart d w) (move : Move d' w v) :
    Apart d v ∧ Matches d w v := by
  obtain ⟨members, targets⟩ := apart
  cases move with
  | @back owner path pending unseen cuts =>
    exact ⟨⟨fun a mem => members a (List.mem_cons_of_mem _ mem),
      fun refs mem => targets refs (List.mem_cons_of_mem _ mem)⟩, rfl, fun _ _ _ => .rfl⟩
  | @cut owner next path refs pending unseen cuts here =>
    rw [List.forall_mem_cons, List.forall_mem_cons] at targets
    refine ⟨⟨members, List.forall_mem_cons.mpr ⟨targets.1.2, targets.2⟩⟩, rfl, fun a b old => ?_⟩
    have different : a ≠ owner := fun same => members owner List.mem_cons_self (same ▸ old)
    simp [different]
  | @enter owner next path refs pending unseen cuts off unmet =>
    rw [List.forall_mem_cons, List.forall_mem_cons] at targets
    have new : next ∉ d.composites := targets.1.1
    refine ⟨⟨List.forall_mem_cons.mpr ⟨new, members⟩, List.forall_mem_cons.mpr ⟨fun a refers => ?_,
      List.forall_mem_cons.mpr ⟨targets.1.2, targets.2⟩⟩⟩, ?_, fun _ _ _ => .rfl⟩
    -- Old types never refer to new ones, so no cycle through a new member has an old one.
    · exact ext.groupRefers_new checked new (mem_groupReferences.mp refers)
    · rw [← List.erase_filter]
      refine List.erase_of_not_mem fun mem => new ?_
      exact isComposite_iff.mp (List.mem_filter.mp mem).2
  | @skip owner next path refs pending unseen cuts off left =>
    rw [List.forall_mem_cons, List.forall_mem_cons] at targets
    exact ⟨⟨members, List.forall_mem_cons.mpr ⟨targets.1.2, targets.2⟩⟩, rfl, fun _ _ _ => .rfl⟩

theorem Apart.run (ext : d.Extends d') (checked : d.Checked) (apart : Apart d w) (aligned : w.Aligned) :
    Matches d w (run d' w) := by
  obtain ⟨moves, -⟩ := run_moves (d := d') aligned
  have kept : Apart d (Walk.run d' w) ∧ Matches d w (Walk.run d' w) := by
    generalize Walk.run d' w = v at moves
    induction moves with
    | refl => exact ⟨apart, .refl⟩
    | tail _ move ih =>
      obtain ⟨still, same⟩ := ih.1.move ext checked move
      exact ⟨still, ih.2.trans same⟩
  exact kept.2

theorem Matches.walkFrom_old (ext : d.Extends d') (checked : d.Checked) (same : Matches d w w') {root : String}
    (old : root ∈ d.composites) : Matches d (walkFrom d w root) (walkFrom d' w' root) := by
  have unmet : w'.unseen.contains root = w.unseen.contains root := by
    rw [Bool.eq_iff_iff, List.contains_iff_mem, List.contains_iff_mem, same.mem_unseen old]
  unfold walkFrom
  rw [unmet, ext.reaches checked old old]
  split
  · refine Agrees.run ext checked ⟨⟨Matches.erase same.unseen root, same.cuts⟩, rfl, ?_, ?_, ?_⟩ rfl
    · simp only [ext.groupReferences checked old]
    · exact fun a mem => List.mem_singleton.mp mem ▸ old
    · intro refs mem a refers
      obtain rfl := List.mem_singleton.mp mem
      exact (mem_groupReferences.mp refers).1.composite
  · exact same

theorem Matches.walkFrom_new (ext : d.Extends d') (checked : d.Checked) {root : String}
    (new : root ∉ d.composites) : Matches d w (walkFrom d' w root) := by
  unfold walkFrom
  split
  · have first : Matches d w ⟨[root], [d'.groupReferences root], w.unseen.erase root, w.cuts⟩ := by
      refine ⟨?_, fun _ _ _ => .rfl⟩
      rw [← List.erase_filter]
      exact List.erase_of_not_mem fun mem => new (isComposite_iff.mp (List.mem_filter.mp mem).2)
    refine first.trans (Apart.run ext checked ⟨?_, ?_⟩ rfl)
    · exact fun a mem => List.mem_singleton.mp mem ▸ new
    · intro refs mem a refers
      obtain rfl := List.mem_singleton.mp mem
      exact ext.groupRefers_new checked new (mem_groupReferences.mp refers)
  · exact .refl

/-- From an old root both walks are the same, and the walk from a new root changes nothing old. -/
theorem Matches.foldl (ext : d.Extends d') (checked : d.Checked) (same : Matches d w w') (roots : List String) :
    Matches d ((roots.filter d.isComposite).foldl (walkFrom d) w) (roots.foldl (walkFrom d') w') := by
  induction roots generalizing w w' with
  | nil => exact same
  | cons root roots ih =>
    by_cases old : root ∈ d.composites
    · rw [List.filter_cons_of_pos (isComposite_iff.mpr old)]
      exact ih (same.walkFrom_old ext checked old)
    · rw [List.filter_cons_of_neg (mt isComposite_iff.mp old)]
      exact ih (same.trans (.walkFrom_new ext checked old))

end Walk

namespace Definitions

variable {d d' : Definitions} {a b : String}

/-- The same references of old types are cut. -/
theorem Extends.cycleCuts (ext : d.Extends d') (checked : d.Checked) (mem : a ∈ d.composites) :
    (a, b) ∈ d'.cycleCuts ↔ (a, b) ∈ d.cycleCuts := by
  have start : Walk.Matches d (Walk.start d) (Walk.start d') := by
    refine ⟨?_, fun _ _ _ => .rfl⟩
    simp only [Walk.start, ext.composites]
    exact (List.filter_eq_self.mpr fun name mem => isComposite_iff.mpr mem).symm
  have same := start.foldl ext checked d'.composites.reverse
  rw [List.filter_reverse, ext.composites] at same
  exact same.cuts a b mem

end Definitions

end ThriftCatalog
