/-! Whether a field has to be present, as its declaration says. -/
namespace ThriftCatalog

inductive Requirement where
  | required
  | optional
  /-- The declaration says neither. -/
  | default
deriving DecidableEq, Repr

namespace Requirement

def word : Requirement → String
  | required => "required"
  | optional => "optional"
  | default => "default"

def all : List Requirement := [required, optional, default]

def ofWord? (w : String) : Option Requirement := all.find? (·.word = w)

@[simp] theorem ofWord?_word (r : Requirement) : ofWord? r.word = some r := by
  cases r <;> decide

end Requirement

end ThriftCatalog
