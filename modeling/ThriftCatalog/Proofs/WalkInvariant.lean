import Mathlib.Data.List.Chain
import ThriftCatalog.Proofs.Walk

/-! What holds all along the walk. Each reference within a group that a member of the path or of those left behind has
is pending, cut, or leads to a member that was passed, and references that stay in place lead from the root of a walk
to every member met. -/
namespace ThriftCatalog

open Relation

namespace Definitions

variable {d : Definitions} {a b c : String}

def Mutual (d : Definitions) (a b : String) : Prop := TransGen d.FieldRefers a b ∧ TransGen d.FieldRefers b a

/-- No member of the group of a name is declared after it. -/
def Last (d : Definitions) (a : String) : Prop :=
  ∀ b, d.Mutual a b → d.composites.idxOf b ≤ d.composites.idxOf a

def Inlines (d : Definitions) (a b : String) : Prop := d.FieldRefers a b ∧ (a, b) ∉ d.cycleCuts

/-- Every step of a chain that can be closed to a cycle lies within the group. -/
theorem transGen_group {R : String → String → Prop} (refers : ∀ x y, R x y → d.FieldRefers x y)
    (chain : TransGen R a b) (back : ReflTransGen d.FieldRefers b a) :
    TransGen (fun x y => d.GroupRefers x y ∧ R x y) a b := by
  induction chain with
  | single step =>
    have around := TransGen.tail' back (refers _ _ step)
    refine .single ⟨⟨refers _ _ step, ?_⟩, step⟩
    rcases reflTransGen_iff_eq_or_transGen.mp back with rfl | back
    · exact around
    · exact back
  | tail chain step ih =>
    have there := chain.lift id refers
    exact .tail (ih (back.head (refers _ _ step))) ⟨⟨refers _ _ step, .trans_right back there⟩, step⟩

theorem Mutual.symm (paired : d.Mutual a b) : d.Mutual b a := ⟨paired.2, paired.1⟩

theorem Mutual.trans (first : d.Mutual a b) (second : d.Mutual b c) : d.Mutual a c :=
  ⟨first.1.trans second.1, second.2.trans first.2⟩

theorem Mutual.composite (paired : d.Mutual a b) : b ∈ d.composites := by
  obtain ⟨c, -, refers⟩ := TransGen.tail'_iff.mp paired.1
  exact refers.composite

theorem GroupRefers.mutual (refers : d.GroupRefers a b) : d.Mutual a b := ⟨.single refers.1, refers.2⟩

end Definitions

namespace Walk

open Definitions

variable {d : Definitions} {w v : Walk} {done passed path : List String} {pending : List (List String)}
  {cuts more : List (String × String)} {a b : String}

/-- The reference is pending at no member of the path, and its owner has been met. -/
def Decided (w : Walk) (a b : String) : Prop :=
  a ∉ w.unseen ∧ ∀ refs, (a, refs) ∈ w.path.zip w.pending → b ∉ refs

/-- The reference stays in place for good. -/
def Kept (d : Definitions) (w : Walk) (a b : String) : Prop :=
  d.GroupRefers a b ∧ w.Decided a b ∧ (a, b) ∉ w.cuts

/-- Every reference of a member of the path within its group is pending, cut, or leads to a member that was passed:
one further along the path or one that the walk has left. -/
def Stacked (d : Definitions) (cuts : List (String × String)) :
    List String → List String → List (List String) → Prop
  | _, [], [] => True
  | passed, owner :: path, refs :: pending =>
    (refs.Nodup ∧ (∀ t ∈ refs, d.GroupRefers owner t) ∧
      ∀ t, d.GroupRefers owner t → t ∈ refs ∨ (owner, t) ∈ cuts ∨ t ∈ passed) ∧
    Stacked d cuts (owner :: passed) path pending
  | _, _, _ => False

/-- Every reference of a member that the walk has left is cut or leads to a member that it left earlier. -/
def Settled (d : Definitions) (cuts : List (String × String)) : List String → Prop
  | [] => True
  | owner :: earlier =>
    (∀ t, d.GroupRefers owner t → (owner, t) ∈ cuts ∨ t ∈ earlier) ∧ Settled d cuts earlier

/-- What holds all along the walk; `done` are the members that it has left, the last one first. -/
structure Invariant (d : Definitions) (w : Walk) (done : List String) : Prop where
  members : (w.path ++ done ++ w.unseen).Perm d.composites
  stacked : Stacked d w.cuts done w.path w.pending
  settled : Settled d w.cuts done
  chain : w.path.IsChain fun child parent => Kept d w parent child
  cuts : ∀ a b, (a, b) ∈ w.cuts → d.GroupRefers a b ∧ w.Decided a b ∧ ReflTransGen (Kept d w) b a
  rooted : ∀ a ∈ w.path ++ done, ∃ root, d.Last root ∧ ReflTransGen (Kept d w) root a

theorem Stacked.mono {earlier : List String} (h : Stacked d cuts passed path pending) (cut : cuts ⊆ more)
    (met : passed ⊆ earlier) : Stacked d more earlier path pending := by
  induction path generalizing passed earlier pending with
  | nil =>
    cases pending with
    | nil => trivial
    | cons => exact h.elim
  | cons owner path ih =>
    cases pending with
    | nil => exact h.elim
    | cons refs pending =>
      obtain ⟨⟨distinct, group, cover⟩, rest⟩ := h
      refine ⟨⟨distinct, group, fun t refers => ?_⟩, ih rest (List.cons_subset_cons owner met)⟩
      rcases cover t refers with mem | mem | mem
      · exact .inl mem
      · exact .inr (.inl (cut mem))
      · exact .inr (.inr (met mem))

/-- The next reference of the last member lies within its group and is pending there once only. -/
theorem Stacked.next {owner next : String} {refs : List String}
    (h : Stacked d cuts passed (owner :: path) ((next :: refs) :: pending)) :
    d.GroupRefers owner next ∧ next ∉ refs := by
  obtain ⟨⟨distinct, group, -⟩, -⟩ := h
  exact ⟨group next List.mem_cons_self, (List.nodup_cons.mp distinct).1⟩

/-- A reference may be dropped once it is cut or leads to a member that was passed. -/
theorem Stacked.drop {owner next : String} {refs earlier : List String}
    (h : Stacked d cuts passed (owner :: path) ((next :: refs) :: pending)) (cut : cuts ⊆ more)
    (met : passed ⊆ earlier) (gone : (owner, next) ∈ more ∨ next ∈ earlier) :
    Stacked d more earlier (owner :: path) (refs :: pending) := by
  obtain ⟨⟨distinct, group, cover⟩, rest⟩ := h
  refine ⟨⟨(List.nodup_cons.mp distinct).2, (List.forall_mem_cons.mp group).2, fun t refers => ?_⟩, ?_⟩
  · rcases cover t refers with mem | mem | mem
    · rcases List.mem_cons.mp mem with rfl | mem
      · exact .inr gone
      · exact .inl mem
    · exact .inr (.inl (cut mem))
    · exact .inr (.inr (met mem))
  · exact rest.mono cut (List.cons_subset_cons owner met)

theorem Settled.mono (h : Settled d cuts done) (cut : cuts ⊆ more) : Settled d more done := by
  induction done with
  | nil => trivial
  | cons owner earlier ih =>
    obtain ⟨cover, rest⟩ := h
    exact ⟨fun t refers => (cover t refers).imp (fun mem => cut mem) id, ih rest⟩

theorem Stacked.aligned (h : Stacked d cuts passed path pending) : path.length = pending.length := by
  induction path generalizing passed pending with
  | nil =>
    cases pending with
    | nil => rfl
    | cons => exact h.elim
  | cons owner path ih =>
    cases pending with
    | nil => exact h.elim
    | cons refs pending => simpa using ih h.2

/-- A decision stands. -/
theorem Decided.move (move : Move d w v) (decided : w.Decided a b) : v.Decided a b := by
  obtain ⟨seen, free⟩ := decided
  cases move with
  | back => exact ⟨seen, fun refs mem => free refs (by simp [mem])⟩
  | cut here | skip off old =>
    refine ⟨seen, fun refs mem => ?_⟩
    rw [List.zip_cons_cons, List.mem_cons] at mem
    rcases mem with same | mem
    · cases same
      have := free _ List.mem_cons_self
      exact fun found => this (by simp [found])
    · exact free refs (by simp [mem])
  | enter off new =>
    refine ⟨fun mem => seen (List.mem_of_mem_erase mem), fun refs mem => ?_⟩
    simp only [List.zip_cons_cons, List.mem_cons] at mem
    rcases mem with same | same | mem
    · cases same
      exact absurd new seen
    · cases same
      have := free _ List.mem_cons_self
      exact fun found => this (by simp [found])
    · exact free refs (by simp [mem])

theorem Kept.move (move : Move d w v) (kept : Kept d w a b) : Kept d v a b := by
  obtain ⟨group, decided, uncut⟩ := kept
  refine ⟨group, decided.move move, ?_⟩
  cases move with
  | back | enter | skip => exact uncut
  | cut here =>
    -- A reference that is cut now was pending until now.
    intro mem
    rcases List.mem_cons.mp mem with same | mem
    · cases same
      exact decided.2 _ List.mem_cons_self List.mem_cons_self
    · exact uncut mem

theorem move_kept (move : Move d w v) (chain : ReflTransGen (Kept d w) a b) : ReflTransGen (Kept d v) a b :=
  chain.lift id fun _ _ => Kept.move move

/-- References that stay in place lead down the path to its last member. -/
theorem chain_kept {owner : String} (chain : (owner :: path).IsChain fun child parent => Kept d w parent child)
    (mem : a ∈ owner :: path) : ReflTransGen (Kept d w) a owner := by
  induction path generalizing owner with
  | nil =>
    obtain rfl := List.mem_singleton.mp mem
    exact .refl
  | cons parent path ih =>
    rcases List.mem_cons.mp mem with rfl | mem
    · exact .refl
    · rw [List.isChain_cons_cons] at chain
      exact (ih chain.2 mem).tail chain.1

/-- The member where the walk stands is neither further down the path nor unseen, and its references are pending only
here. -/
theorem decided_top {owner : String} {refs unseen : List String} {cuts : List (String × String)}
    (distinct : (owner :: path ++ done ++ unseen).Nodup) (followed : b ∉ refs) :
    Decided ⟨owner :: path, refs :: pending, unseen, cuts⟩ owner b := by
  have alone : owner ∉ path ++ done ++ unseen := (List.nodup_cons.mp distinct).1
  refine ⟨fun mem => alone (List.mem_append_right _ mem), fun other mem => ?_⟩
  rw [List.zip_cons_cons, List.mem_cons] at mem
  rcases mem with same | mem
  · cases same
    exact followed
  · exact absurd (List.mem_append_left _ (List.mem_append_left _ (List.of_mem_zip mem).1)) alone

/-- A reference that leads to a member not met before stays in place. -/
theorem Kept.enter {owner next : String} {refs unseen : List String} (refers : d.GroupRefers owner next)
    (decided : Decided ⟨owner :: path, refs :: pending, unseen, cuts⟩ owner next) (uncut : (owner, next) ∉ cuts)
    (off : next ∉ owner :: path) :
    Kept d ⟨next :: owner :: path, d.groupReferences next :: refs :: pending, unseen.erase next, cuts⟩ owner next := by
  refine ⟨refers, ⟨fun mem => decided.1 (List.mem_of_mem_erase mem), fun other mem => ?_⟩, uncut⟩
  rw [List.zip_cons_cons, List.mem_cons] at mem
  rcases mem with same | mem
  · cases same
    exact absurd List.mem_cons_self off
  · exact decided.2 other mem

/-- Every move keeps the invariant. Only a step back adds to the members that the walk has left. -/
theorem Invariant.move (unique : d.composites.Nodup) (inv : Invariant d w done) (move : Move d w v) :
    ∃ left, Invariant d v left := by
  obtain ⟨members, stacked, settled, chain, cutsBefore, rooted⟩ := inv
  have distinct := members.nodup_iff.mpr unique
  -- What was decided before the move stays decided, so only what the move adds is left to show.
  have chain := chain.imp fun child parent held => Kept.move (v := v) move held
  have cuts : ∀ a b, (a, b) ∈ w.cuts → d.GroupRefers a b ∧ v.Decided a b ∧ ReflTransGen (Kept d v) b a := by
    intro a b mem
    obtain ⟨group, decided, back⟩ := cutsBefore a b mem
    exact ⟨group, decided.move move, move_kept move back⟩
  have rooted : ∀ a ∈ w.path ++ done, ∃ root, d.Last root ∧ ReflTransGen (Kept d v) root a := by
    intro a mem
    obtain ⟨root, last, down⟩ := rooted a mem
    exact ⟨root, last, move_kept move down⟩
  cases move with
  | @back owner path pending unseen cut =>
    obtain ⟨⟨-, -, cover⟩, rest⟩ := stacked
    refine ⟨owner :: done, ?_, rest, ⟨fun t refers => by simpa using cover t refers, settled⟩, chain.tail, cuts,
      fun a mem => rooted a (List.perm_middle.mem_iff.mp mem)⟩
    exact (List.perm_middle.append_right unseen).trans members
  | @cut owner next path refs pending unseen cut here =>
    obtain ⟨refers, once⟩ := stacked.next
    have stacked := stacked.drop (List.subset_cons_self _ _) (List.Subset.refl _) (.inl List.mem_cons_self)
    have settled := settled.mono (List.subset_cons_self (owner, next) cut)
    refine ⟨done, members, stacked, settled, chain, fun a b mem => ?_, rooted⟩
    rcases List.mem_cons.mp mem with same | mem
    · cases same
      exact ⟨refers, decided_top distinct once, chain_kept chain here⟩
    · exact cuts a b mem
  | @enter owner next path refs pending unseen cut off new =>
    obtain ⟨refers, once⟩ := stacked.next
    have stacked := stacked.drop (List.Subset.refl _) (List.subset_cons_self next _) (.inr List.mem_cons_self)
    have members : (next :: owner :: path ++ done ++ unseen.erase next).Perm d.composites :=
      (List.perm_middle.symm.trans (.append_left _ (List.perm_cons_erase new).symm)).trans members
    -- A reference that is pending has not been cut.
    have uncut : (owner, next) ∉ cut := fun mem =>
      (cutsBefore owner next mem).2.1.2 _ List.mem_cons_self List.mem_cons_self
    have decided : Decided ⟨owner :: path, refs :: pending, unseen, cut⟩ owner next := decided_top distinct once
    have kept := Kept.enter refers decided uncut off
    refine ⟨done, members, ⟨⟨groupReferences_nodup, fun t => mem_groupReferences.mp, ?_⟩, stacked⟩, settled,
      List.isChain_cons_cons.mpr ⟨kept, chain⟩, cuts, fun a mem => ?_⟩
    · exact fun t refers => .inl (mem_groupReferences.mpr refers)
    · rcases List.mem_cons.mp mem with rfl | mem
      · obtain ⟨root, last, down⟩ := rooted owner List.mem_cons_self
        exact ⟨root, last, down.tail kept⟩
      · exact rooted a mem
  | @skip owner next path refs pending unseen cut off old =>
    obtain ⟨refers, -⟩ := stacked.next
    have left : next ∈ done := by
      have mem : next ∈ owner :: path ++ done ++ unseen := members.mem_iff.mpr refers.1.composite
      rw [List.mem_append, List.mem_append] at mem
      exact (mem.resolve_right old).resolve_left off
    have stacked := stacked.drop (List.Subset.refl _) (List.Subset.refl _) (.inr left)
    exact ⟨done, members, stacked, settled, chain, cuts, rooted⟩

end Walk

end ThriftCatalog
