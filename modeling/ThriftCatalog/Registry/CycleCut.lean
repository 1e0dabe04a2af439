import ThriftCatalog.Registry.Reference

/-! Which references are shown by name so that no struct expands into itself.

Each group of structs that refer to one another is walked depth first from the member declared last. A reference back
to a member on the way there is cut. -/
namespace ThriftCatalog

/-- A walk through one group. -/
structure Walk where
  /-- From the member where the walk stands back to the one where it began. -/
  path : List String
  /-- The references still to be followed, one list for each member of the path. -/
  pending : List (List String)
  unseen : List String
  /-- Owner and target of each reference cut so far, the last one first. -/
  cuts : List (String × String)
deriving DecidableEq, Repr

namespace Walk

def start (d : Definitions) : Walk := ⟨[], [], d.composites, []⟩

/-- Follows one reference, or steps back where none is left; nothing when the walk is over. -/
def step? (d : Definitions) (w : Walk) : Option Walk :=
  match w.pending with
  | [] => none
  | [] :: pending => some { w with path := w.path.tail, pending }
  | (next :: refs) :: pending =>
    match w.path with
    | [] => none
    | owner :: _ =>
      if next ∈ w.path then
        some { w with pending := refs :: pending, cuts := (owner, next) :: w.cuts }
      else if next ∈ w.unseen then
        some { w with
          path := next :: w.path
          pending := d.groupReferences next :: refs :: pending
          unseen := w.unseen.erase next }
      else some { w with pending := refs :: pending }

/-- The references still to be followed and the steps back still to be made. -/
def remaining (w : Walk) : Nat := w.pending.foldr (fun refs n => refs.length + 1 + n) 0

/-- The steps that a walk through all of these names takes: one for each reference and one back from each name. -/
def stepsThrough (d : Definitions) : List String → Nat
  | [] => 0
  | name :: names => (d.groupReferences name).length + 1 + stepsThrough d names

theorem stepsThrough_erase {d : Definitions} {name : String} {names : List String} (mem : name ∈ names) :
    stepsThrough d (names.erase name) + (d.groupReferences name).length + 1 = stepsThrough d names := by
  induction names with
  | nil => contradiction
  | cons first names ih =>
    by_cases here : first = name
    · rw [here, List.erase_cons_head, stepsThrough]
      omega
    · have later : name ∈ names := (List.mem_cons.mp mem).resolve_left fun same => here same.symm
      have rest := ih later
      rw [List.erase_cons_tail (by simpa using here), stepsThrough, stepsThrough]
      omega

/-- Each step is one of those that were left. -/
theorem step?_decreases {d : Definitions} {w v : Walk} (h : w.step? d = some v) :
    v.remaining + stepsThrough d v.unseen < w.remaining + stepsThrough d w.unseen := by
  obtain ⟨path, pending, unseen, cuts⟩ := w
  unfold step? at h
  split at h <;> dsimp only at * <;> subst pending
  · contradiction
  · cases h
    simp [remaining]
  · split at h
    · contradiction
    · split at h
      · cases h
        simp [remaining]
      · split at h
        · next new =>
          cases h
          have fewer := stepsThrough_erase (d := d) new
          simp only [remaining, List.foldr_cons, List.length_cons]
          omega
        · cases h
          simp [remaining]

def run (d : Definitions) (w : Walk) : Walk :=
  match _h : w.step? d with
  | none => w
  | some v => run d v
termination_by w.remaining + stepsThrough d w.unseen
decreasing_by exact step?_decreases _h

def walkFrom (d : Definitions) (w : Walk) (root : String) : Walk :=
  if w.unseen.contains root && d.reaches root root then
    run d { w with
      path := [root]
      pending := [d.groupReferences root]
      unseen := w.unseen.erase root }
  else w

end Walk

/-- The owner and target of every reference that is shown by name, roots taken from the last declared. -/
def Definitions.cycleCuts (d : Definitions) : List (String × String) :=
  (d.composites.reverse.foldl (Walk.walkFrom d) (Walk.start d)).cuts

end ThriftCatalog
