import ThriftCatalog.Proofs.Fallible
import ThriftCatalog.Proofs.Table
import ThriftCatalog.Registry.Validation

/-! What the checks establish: every name that a type mentions stands for a type, every chain of aliases ends in a type
that is none, and what a method throws denotes an exception. -/
namespace ThriftCatalog.Definitions

open Fallible

variable {d : Definitions} {name context : String} {type target : TypeExpr}

def Defined (d : Definitions) (type : TypeExpr) : Prop := ∀ name ∈ type.names, (d.kind? name).isSome = true

structure MethodChecked (d : Definitions) (m : MethodDecl) : Prop where
  returns : d.Defined m.returns
  fields : ∀ f ∈ m.params ++ m.throws, d.Defined f.type
  throws : ∀ f ∈ m.throws, ∃ name, d.exceptionName f.type = .ok (some name)
  oneway : m.oneway = true → m.returns = .base .void ∧ m.throws = []

structure Checked (d : Definitions) : Prop where
  chains : ∀ name ∈ d.aliases.keys, ∃ target, d.aliasTarget name = .ok target
  aliases : ∀ name target, d.aliases.get? name = some target → d.Defined target
  structs : ∀ name fields, d.structs.get? name = some fields → ∀ f ∈ fields, d.Defined f.type
  exceptions : ∀ name fields, d.exceptions.get? name = some fields → ∀ f ∈ fields.getD [], d.Defined f.type
  methods : ∀ service ms, d.services.get? service = some ms → ∀ m ∈ ms, d.MethodChecked m

theorem checkType_eq_ok : d.checkType context type = .ok () ↔ d.Defined type := by
  rw [checkType, forM_eq_ok]
  apply forall_congr'
  intro name
  split <;> simp_all

theorem checkFields_eq_ok {fields : List FieldDecl} :
    d.checkFields context fields = .ok () ↔ ∀ f ∈ fields, d.Defined f.type := by
  rw [checkFields, forM_eq_ok]
  simp only [checkType_eq_ok]

theorem checkAnswers_eq_ok {m : MethodDecl} : d.checkAnswers context m = .ok () ↔
    (∀ f ∈ m.throws, ∃ name, d.exceptionName f.type = .ok (some name)) ∧
      (m.oneway = true → m.returns = .base .void ∧ m.throws = []) := by
  have thrown (f : FieldDecl) : (do
        if (← d.exceptionName f.type).isNone then
          throw (RegistryError.notAnException context f.type)) = .ok () ↔
      ∃ name, d.exceptionName f.type = .ok (some name) := by
    cases d.exceptionName f.type with
    | error e => simp [bind, Except.bind]
    | ok found => cases found <;> simp [bind, Except.bind, pure, Except.pure, throw, throwThe, MonadExceptOf.throw]
  unfold checkAnswers
  dsimp only
  split
  · next answers =>
    refine ⟨fun h => absurd (seq_eq_ok.mp h).1 throw_ne_ok, fun ⟨_, oneway⟩ => ?_⟩
    rw [Bool.and_eq_true] at answers
    obtain ⟨void, none⟩ := oneway answers.1
    simp [void, none] at answers
  · next silent =>
    have oneway : m.oneway = true → m.returns = .base .void ∧ m.throws = [] := fun oneway => by
      simpa [oneway] using silent
    rw [and_iff_left oneway]
    exact forM_eq_ok.trans (forall₂_congr fun f _ => thrown f)

theorem checkMethod_eq_ok {m : MethodDecl} : d.checkMethod context m = .ok () ↔ d.MethodChecked m := by
  simp only [checkMethod, seq_eq_ok, checkType_eq_ok, checkFields_eq_ok, checkAnswers_eq_ok]
  exact ⟨fun ⟨returns, fields, throws, oneway⟩ => ⟨returns, fields, throws, oneway⟩,
    fun ⟨returns, fields, throws, oneway⟩ => ⟨returns, fields, throws, oneway⟩⟩

/-- The checks pass exactly if everything they look for holds. -/
theorem check_eq_ok : d.check = .ok () ↔ d.Checked := by
  have chain (name : String) : discard (d.aliasTarget name) = .ok () ↔ ∃ target, d.aliasTarget name = .ok target := by
    cases d.aliasTarget name <;> simp [discard, Functor.mapConst, Except.map]
  simp only [check, seq_eq_ok, forM_eq_ok, checkType_eq_ok, checkFields_eq_ok, checkMethod_eq_ok, chain]
  simp only [Prod.forall, Table.mem_entries]
  exact ⟨fun ⟨chains, aliases, structs, exceptions, methods⟩ => ⟨chains, aliases, structs, exceptions, methods⟩,
    fun ⟨chains, aliases, structs, exceptions, methods⟩ => ⟨chains, aliases, structs, exceptions, methods⟩⟩

theorem Checked.fields (checked : d.Checked) : ∀ name, ∀ f ∈ d.compositeFields name, d.Defined f.type := by
  intro name f mem
  unfold compositeFields at mem
  split at mem
  · next fields found => exact checked.structs name fields found f mem
  · cases found : d.exceptions.get? name with
    | none => simp [found] at mem
    | some fields =>
      rw [found, Option.getD_some] at mem
      exact checked.exceptions name fields found f mem

/-- The type at the end of the chain that a type begins, if it begins one. -/
def chainEnd (d : Definitions) : TypeExpr → Except RegistryError TypeExpr
  | .named name => if d.aliases.contains name then d.aliasTarget name else .ok (.named name)
  | type => .ok type

def asException (d : Definitions) : TypeExpr → Option String
  | .named name => if d.exceptions.contains name then some name else none
  | _ => none

theorem exceptionName_eq : d.exceptionName type = d.asException <$> d.chainEnd type := by
  have last (first : Except RegistryError TypeExpr) : (first >>= fun target => match target with
      | .named name => return if d.exceptions.contains name then some name else none
      | _ => return none) = d.asException <$> first := by
    cases first with
    | error e => rfl
    | ok target => cases target <;> rfl
  unfold exceptionName
  cases type with
  | named name =>
    dsimp only [chainEnd]
    split <;> exact last _
  | base | list | set | map => rfl

theorem exceptionName_congr {d' : Definitions} (ended : d'.chainEnd type = d.chainEnd type)
    (denoted : ∀ name, d.chainEnd type = .ok (.named name) → d'.exceptions.contains name = d.exceptions.contains name) :
    d'.exceptionName type = d.exceptionName type := by
  rw [exceptionName_eq, exceptionName_eq, ended]
  cases found : d.chainEnd type with
  | error e => rfl
  | ok target =>
    cases target with
    | named name => simp only [Functor.map, Except.map, asException, denoted name found]
    | base | list | set | map => rfl

theorem exceptionName_eq_ok (h : d.exceptionName type = .ok (some name)) : name ∈ d.exceptions.keys := by
  rw [exceptionName_eq, map_eq_ok] at h
  obtain ⟨target, -, found⟩ := h
  cases target with
  | named other =>
    rw [asException] at found
    split at found
    · next known =>
      cases found
      exact Table.contains_iff.mp known
    · contradiction
  | base | list | set | map => contradiction

end ThriftCatalog.Definitions
