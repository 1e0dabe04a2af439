import ThriftCatalog.Registry.Definitions

/-! References between structs, unions and exceptions through the types of their fields. Aliases are not looked
through: they are shown by name and expand nothing. -/
namespace ThriftCatalog.Definitions

def mentions (d : Definitions) (name : String) : List String :=
  (d.compositeFields name).flatMap fun f => f.type.names

/-- The structs, unions and exceptions among the mentioned names, each once, in the order of first mention. -/
def references (d : Definitions) (name : String) : List String :=
  (d.mentions name).foldl
    (fun refs other => if d.isComposite other && !refs.contains other then refs ++ [other] else refs) []

/-- A search through references: the names still to be looked into, the one met last first, and the structs, unions and
exceptions not met so far. -/
structure Search where
  stack : List String
  unseen : List String
deriving DecidableEq, Repr

namespace Search

/-- A name that was not met before is to be looked into. -/
def meet (s : Search) (name : String) : Search :=
  if name ∈ s.unseen then ⟨name :: s.stack, s.unseen.erase name⟩ else s

/-- The names that may still be looked into. -/
def remaining (s : Search) : Nat := s.stack.length + s.unseen.length

theorem remaining_meet (s : Search) (name : String) : (s.meet name).remaining = s.remaining := by
  unfold meet
  split
  · next new =>
    have shorter := length_erase_lt new
    have length := List.length_erase_of_mem new
    simp only [remaining, List.length_cons]
    omega
  · rfl

theorem remaining_meetAll (s : Search) (names : List String) : (names.foldl meet s).remaining = s.remaining := by
  induction names generalizing s with
  | nil => rfl
  | cons name names ih => rw [List.foldl_cons, ih, remaining_meet]

/-- Whether the target is mentioned by a name on the stack or by one that references lead to from there. What is
mentioned is compared with the target first, and only then asked whether it has fields of its own. -/
def finds (d : Definitions) (target : String) : Search → Bool
  | ⟨[], _⟩ => false
  | ⟨name :: stack, unseen⟩ =>
    if target ∈ d.mentions name then true
    else finds d target ((d.mentions name).foldl meet ⟨stack, unseen⟩)
termination_by s => s.remaining
decreasing_by
  rw [remaining_meetAll]
  exact Nat.add_lt_add_right (Nat.lt_succ_self _) _

end Search

/-- Whether one or more references lead from one struct, union or exception to another. Where the search begins counts
as not met. -/
def reaches (d : Definitions) (source target : String) : Bool :=
  Search.finds d target ⟨[source], d.composites⟩

/-- The references that lead back to where they come from. -/
def groupReferences (d : Definitions) (name : String) : List String :=
  (d.references name).filter fun other => d.reaches other name

end ThriftCatalog.Definitions
