import ThriftCatalog.Table.Lemmas
import ThriftCatalog.Model.Service

/-! Sets of classes with one definition for each name. A name that arrives with a second, different definition is a
conflict; what was recorded before it stays recorded. -/
namespace ThriftCatalog

/-- Classes by qualified name, in the order in which they were recorded. -/
structure ClassSet where
  table : Table ClassInfo

namespace ClassSet

instance : EmptyCollection ClassSet := ⟨⟨∅⟩⟩

def size (s : ClassSet) : Nat := s.table.size

def isEmpty (s : ClassSet) : Bool := s.table.isEmpty

/-- Records a class under a name, or gives nothing if the name has another definition. -/
def insert? (s : ClassSet) (name : String) (c : ClassInfo) : Option ClassSet :=
  match s.table.get? name with
  | none => some ⟨s.table.insert name c⟩
  | some held => if held = c then some s else none

/-- Records classes under their names until one conflicts; its name is the second component. -/
def insertAll (s : ClassSet) : List (String × ClassInfo) → ClassSet × Option String
  | [] => (s, none)
  | (name, c) :: rest =>
    match s.insert? name c with
    | some s => s.insertAll rest
    | none => (s, some name)

/-- Records classes, each under its own name. -/
def collectAll (s : ClassSet) (cs : List ClassInfo) : ClassSet × Option String :=
  s.insertAll (cs.map fun c => (c.name, c))

def collect (s : ClassSet) (t : TypeInfo) : ClassSet × Option String :=
  s.collectAll t.classes

def collectException (s : ClassSet) (e : RecordInfo) : ClassSet × Option String :=
  s.collect (.exception e)

def collectFunction (s : ClassSet) (f : FunctionInfo) : ClassSet × Option String :=
  s.collectAll f.classes

/-- Records the entries of a table under the names they have there. -/
def merge (s : ClassSet) (classes : Table ClassInfo) : ClassSet × Option String :=
  s.insertAll classes.entries

def sorted (s : ClassSet) : Table ClassInfo := s.table.sorted

end ClassSet

end ThriftCatalog
