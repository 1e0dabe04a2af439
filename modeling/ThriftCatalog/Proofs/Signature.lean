import ThriftCatalog.Proofs.Expansion
import ThriftCatalog.Proofs.Service

/-! The types that the documentation of a method shows: what it returns, what it takes and what it throws. The function
built from a method shows exactly the trees that these types resolve to, and it is built as soon as they all resolve. -/
namespace ThriftCatalog

open Relation Fallible TypeInfo

/-- The type that a method is documented to return. One that returns nothing is documented to return what it throws
under the name of the returned value. -/
def MethodDecl.returned? (m : MethodDecl) : Option TypeExpr :=
  if m.oneway then none
  else if m.returns = .base .void then
    (m.throws.find? fun f => f.name = MethodDescriptor.successName).map (·.type)
  else some m.returns

namespace Definitions

variable {d : Definitions} {type : TypeExpr} {name : String}

def thrown (d : Definitions) (m : MethodDecl) : List String :=
  (m.throws.filterMap fun f => match d.exceptionName f.type with
    | .ok name => name
    | .error _ => none).filter (· ≠ MethodDescriptor.baseException)

def shown (d : Definitions) (m : MethodDecl) : List TypeExpr :=
  m.returned?.toList ++ m.params.map (·.type) ++ (d.thrown m).map .named

theorem mem_thrown {m : MethodDecl} (mem : name ∈ d.thrown m) : name ∈ d.exceptions.keys := by
  obtain ⟨f, -, found⟩ := List.mem_filterMap.mp (List.mem_filter.mp mem).1
  split at found
  · next answer =>
    cases found
    exact exceptionName_eq_ok answer
  · contradiction

end Definitions

def FunctionInfo.Shows (f : FunctionInfo) (t : TypeInfo) : Prop :=
  t = f.returnType ∨ (∃ p ∈ f.parameters, t = p.type) ∨ ∃ e ∈ f.exceptions, t = .exception e

theorem FunctionInfo.mentions_iff {f : FunctionInfo} {u : TypeInfo} :
    f.Mentions u ↔ ∃ t, f.Shows t ∧ Occurs u t := by
  constructor
  · rintro (here | ⟨p, mem, here⟩ | ⟨e, mem, here⟩)
    · exact ⟨_, .inl rfl, here⟩
    · exact ⟨_, .inr (.inl ⟨p, mem, rfl⟩), here⟩
    · exact ⟨_, .inr (.inr ⟨e, mem, rfl⟩), here⟩
  · rintro ⟨_, rfl | ⟨p, mem, rfl⟩ | ⟨e, mem, rfl⟩, here⟩
    · exact .inl here
    · exact .inr (.inl ⟨p, mem, here⟩)
    · exact .inr (.inr ⟨e, mem, here⟩)

namespace Registry

open Definitions

variable {r : Registry} {service name : String} {m : MethodDecl} {md : MethodDescriptor}

/-- The exceptions that methods throw are no structs as well. -/
theorem expansion_exception (wf : r.definitions.WellFormed) (mem : name ∈ r.definitions.exceptions.keys) :
    r.definitions.isComposite name = true ∧ r.expansion name = .exception name := by
  have apart := wf.composites
  rw [composites, List.nodup_append] at apart
  refine ⟨isComposite_iff.mpr (List.mem_append_right _ mem), if_neg fun struct => ?_⟩
  exact apart.2.2 name (Table.contains_iff.mp struct) name mem rfl

def thrownField (r : Registry) (f : FieldDecl) : Except LookupError FieldDescriptor := do
  return { name := f.name, requirement := .default, value := ← r.lower none f.type }

theorem resultFields_eq_ok {fields : List FieldDescriptor} :
    r.resultFields m = .ok fields ↔ ∃ thrown, m.throws.mapM r.thrownField = .ok thrown ∧
      ((m.returns = .base .void ∧ fields = thrown) ∨
        m.returns ≠ .base .void ∧ ∃ value, r.lower none m.returns = .ok value ∧
          fields = { name := MethodDescriptor.successName, requirement := .default, value } :: thrown) := by
  unfold resultFields thrownField
  split
  · next nothing =>
    simp only [bind_eq_ok, pure_eq_ok]
    constructor
    · rintro ⟨_, rfl, thrown, throws, rfl⟩
      exact ⟨thrown, throws, .inl ⟨nothing, rfl⟩⟩
    · rintro ⟨thrown, throws, ⟨-, rfl⟩ | ⟨something, -⟩⟩
      · exact ⟨[], rfl, fields, throws, rfl⟩
      · exact absurd nothing something
  · next something =>
    simp only [bind_eq_ok, pure_eq_ok]
    constructor
    · rintro ⟨value, returned, _, rfl, thrown, throws, rfl⟩
      exact ⟨thrown, throws, .inr ⟨something, value, returned, rfl⟩⟩
    · rintro ⟨thrown, throws, ⟨nothing, -⟩ | ⟨-, value, returned, rfl⟩⟩
      · exact absurd nothing something
      · exact ⟨value, returned, _, rfl, thrown, throws, rfl⟩

theorem resultFields_isOk (checked : r.definitions.MethodChecked m) : ∃ fields, r.resultFields m = .ok fields := by
  obtain ⟨value, returned⟩ := lower_isOk none checked.returns
  have throws : ∃ thrown, m.throws.mapM r.thrownField = .ok thrown := by
    refine mapM_isOk fun f mem => ?_
    obtain ⟨v, lowered⟩ := lower_isOk none (checked.fields f (List.mem_append_right _ mem))
    exact ⟨_, bind_eq_ok.mpr ⟨v, lowered, rfl⟩⟩
  obtain ⟨thrown, throws⟩ := throws
  by_cases nothing : m.returns = .base .void
  · exact ⟨_, resultFields_eq_ok.mpr ⟨thrown, throws, .inl ⟨nothing, rfl⟩⟩⟩
  · exact ⟨_, resultFields_eq_ok.mpr ⟨thrown, throws, .inr ⟨nothing, value, returned, rfl⟩⟩⟩

theorem thrownName_eq_ok {f : FieldDecl} : r.thrownName f = .ok name ↔
    r.definitions.exceptionName f.type = .ok (some name) := by
  unfold thrownName
  split
  · next found => simp [found]
  · next other =>
    simp only [reduceCtorEq, false_iff]
    exact other name

theorem lowerMethod_isOk (checked : r.definitions.MethodChecked m) : ∃ md, r.lowerMethod service m = .ok md := by
  obtain ⟨fields, results⟩ := resultFields_isOk checked
  obtain ⟨exceptions, names⟩ : ∃ names, m.throws.mapM r.thrownName = .ok names := by
    refine mapM_isOk fun f mem => ?_
    obtain ⟨name, found⟩ := checked.throws f mem
    exact ⟨name, thrownName_eq_ok.mpr found⟩
  obtain ⟨parameters, params⟩ := lowerFields_isOk none fun f mem =>
    checked.fields f (List.mem_append_left m.throws mem)
  unfold lowerMethod
  cases oneway : m.oneway with
  | true => exact ⟨_, by simp only [if_true, bind_eq_ok, pure_eq_ok]; exact ⟨_, rfl, _, names, _, params, rfl⟩⟩
  | false =>
    simp only [Bool.false_eq_true, if_false, bind_eq_ok, pure_eq_ok, map_eq_ok]
    exact ⟨_, _, ⟨_, results, rfl⟩, _, names, _, params, rfl⟩

theorem thrown_of_mapM {names : List String} (h : m.throws.mapM r.thrownName = .ok names) :
    names.filter (· ≠ MethodDescriptor.baseException) = r.definitions.thrown m := by
  have all := mapM_eq_ok.mp h
  rw [thrown]
  congr 1
  generalize m.throws = throws at all
  clear h
  induction all with
  | nil => rfl
  | cons first _ ih => rw [List.filterMap_cons, thrownName_eq_ok.mp first, ← ih]

/-- Of related lists with the same names, the first entries of one name are related. -/
theorem find?_of_mapM {fields : List FieldDecl} {thrown : List FieldDescriptor}
    (h : fields.mapM r.thrownField = .ok thrown) (name : String) :
    (fields.find? (·.name = name) = none ∧ thrown.find? (·.name = name) = none) ∨
      ∃ field f, fields.find? (·.name = name) = some field ∧ thrown.find? (·.name = name) = some f ∧
        r.lower none field.type = .ok f.value := by
  have all := mapM_eq_ok.mp h
  clear h
  induction all with
  | nil => exact .inl ⟨rfl, rfl⟩
  | @cons field f fields thrown first _ ih =>
    obtain ⟨v, lowered, same⟩ := bind_eq_ok.mp first
    cases pure_eq_ok.mp same
    by_cases here : field.name = name
    · simp only [List.find?_cons, here, decide_true]
      exact .inr ⟨field, _, rfl, rfl, lowered⟩
    · simp only [List.find?_cons, here, decide_false]
      exact ih

/-- A lowered method, part by part. A oneway method has no result fields, and every method throws the exception that
goes without saying. -/
theorem lowerMethod_parts (h : r.lowerMethod service m = .ok md) :
    md.name = m.name ∧ r.lowerFields none m.params = .ok md.parameters ∧
    (∃ names, m.throws.mapM r.thrownName = .ok names ∧ md.exceptions = names ++ [MethodDescriptor.baseException]) ∧
    (m.oneway = true ∧ md.resultFields = none ∨
      m.oneway = false ∧ ∃ fields, r.resultFields m = .ok fields ∧ md.resultFields = some fields) := by
  unfold lowerMethod at h
  cases oneway : m.oneway with
  | true =>
    simp only [oneway, if_true, bind_eq_ok, pure_eq_ok] at h
    obtain ⟨_, rfl, names, thrown, parameters, params, rfl⟩ := h
    exact ⟨rfl, params, ⟨names, thrown, rfl⟩, .inl ⟨rfl, rfl⟩⟩
  | false =>
    simp only [oneway, Bool.false_eq_true, if_false, bind_eq_ok, pure_eq_ok, map_eq_ok] at h
    obtain ⟨_, ⟨fields, found, rfl⟩, names, thrown, parameters, params, rfl⟩ := h
    exact ⟨rfl, params, ⟨names, thrown, rfl⟩, .inr ⟨rfl, fields, found, rfl⟩⟩

/-- What the documentation takes from a lowered method. -/
theorem lowerMethod_eq_ok (h : r.lowerMethod service m = .ok md) :
    md.name = m.name ∧ r.lowerFields none m.params = .ok md.parameters ∧
    md.exceptions.filter (· ≠ MethodDescriptor.baseException) = r.definitions.thrown m ∧
    ((m.returned? = none ∧ md.success? = none) ∨
      ∃ type f, m.returned? = some type ∧ md.success? = some f ∧ r.lower none type = .ok f.value) := by
  obtain ⟨name, params, ⟨names, thrown, exceptions⟩, returned⟩ := lowerMethod_parts h
  refine ⟨name, params, ?_, ?_⟩
  · rw [exceptions, List.filter_append, thrown_of_mapM thrown]
    simp
  · unfold MethodDecl.returned? MethodDescriptor.success?
    rcases returned with ⟨oneway, results⟩ | ⟨answers, fields, found, results⟩
    · simp [oneway, results]
    · rw [results]
      obtain ⟨thrown, throws, ⟨nothing, rfl⟩ | ⟨something, value, lowered, rfl⟩⟩ := resultFields_eq_ok.mp found
      · rcases find?_of_mapM throws MethodDescriptor.successName with ⟨none, none'⟩ | ⟨field, f, found, found', lowered⟩
        · exact .inl (by simp [answers, nothing, none, none'])
        · exact .inr ⟨field.type, f, by simp [answers, nothing, found], by simp [found'], lowered⟩
      · refine .inr ⟨m.returns, { name := MethodDescriptor.successName, value }, ?_, by simp, lowered⟩
        simp [answers, something]

theorem mem_shown {type : TypeExpr} : type ∈ r.definitions.shown m ↔
    m.returned? = some type ∨ (∃ f ∈ m.params, f.type = type) ∨
      ∃ name ∈ r.definitions.thrown m, .named name = type := by
  simp only [shown, List.mem_append, Option.mem_toList, List.mem_map, or_assoc]

theorem lower_thrown (wf : r.definitions.WellFormed) (mem : name ∈ r.definitions.thrown m) :
    r.lower none (.named name) = .ok (.exception name) := by
  obtain ⟨composite, shape⟩ := expansion_exception wf (mem_thrown mem)
  rw [← shape]
  exact lower_inline composite (by simp [Cut])

section

variable {resolver : Resolver}

/-- A function is built as soon as every type in its documentation resolves. -/
theorem function_isOk (wf : r.definitions.WellFormed) (lowered : r.lowerMethod service m = .ok md)
    {requests : Table Json}
    (each : ∀ type ∈ r.definitions.shown m, ∀ v, r.lower none type = .ok v → ∃ t, resolver.resolve v = .ok t) :
    ∃ f, resolver.function service ⟨requests, none⟩ md = .ok f := by
  obtain ⟨-, params, exceptions, returned⟩ := lowerMethod_eq_ok lowered
  have parameters : ∃ ps, md.parameters.mapM (resolver.resolveField (docKey service md.name)) = .ok ps := by
    refine mapM_isOk fun f mem => ?_
    obtain ⟨field, mem, lowers⟩ := (lowerFields_eq_ok params).1 f mem
    obtain ⟨t, found⟩ := each _ (mem_shown.mpr (.inr (.inl ⟨field, mem, rfl⟩))) _ lowers
    exact ⟨_, Resolver.fieldBy_eq_ok.mpr ⟨t, found, rfl⟩⟩
  have returnType : ∃ t, resolver.returnType md = .ok t := by
    unfold Resolver.returnType
    rcases returned with ⟨-, none⟩ | ⟨type, f, shown, some, lowers⟩
    · exact ⟨.void, by rw [none]⟩
    · rw [some]
      exact each _ (mem_shown.mpr (.inl shown)) _ lowers
  have thrown : ∃ es, (md.exceptions.filter (· ≠ MethodDescriptor.baseException)).mapM resolver.resolveException =
      .ok es := by
    rw [exceptions]
    refine mapM_isOk fun name mem => ?_
    obtain ⟨t, found⟩ := each _ (mem_shown.mpr (.inr (.inr ⟨name, mem, rfl⟩))) _ (lower_thrown wf mem)
    obtain ⟨_, record, -, rfl⟩ := Resolver.resolves_exception.mp ⟨_, found⟩
    exact ⟨record, Resolver.resolveException_eq_ok.mpr found⟩
  obtain ⟨ps, parameters⟩ := parameters
  obtain ⟨t, returnType⟩ := returnType
  obtain ⟨es, thrown⟩ := thrown
  refine ⟨_, Resolver.function_eq_ok.mpr ⟨ps, t, es, "", parameters, returnType, thrown, ?_, rfl⟩⟩
  unfold Samples.encode
  split
  · contradiction
  · rfl

/-- A function shows what the types in its documentation resolve to, and nothing else. -/
theorem function_shows (wf : r.definitions.WellFormed) (lowered : r.lowerMethod service m = .ok md) {samples : Samples}
    {f : FunctionInfo} (built : resolver.function service samples md = .ok f) :
    (∀ t, f.Shows t → t = .void ∨
      ∃ type ∈ r.definitions.shown m, ∃ v, r.lower none type = .ok v ∧ resolver.Resolves v t) ∧
    ∀ type ∈ r.definitions.shown m, ∃ t v, f.Shows t ∧ r.lower none type = .ok v ∧ resolver.Resolves v t := by
  obtain ⟨-, params, exceptions, returned⟩ := lowerMethod_eq_ok lowered
  obtain ⟨ps, t, es, sample, parameters, returnType, thrown, -, rfl⟩ := Resolver.function_eq_ok.mp built
  rw [exceptions] at thrown
  unfold Resolver.returnType at returnType
  constructor
  · rintro _ (rfl | ⟨p, mem, rfl⟩ | ⟨e, mem, rfl⟩)
    · rcases returned with ⟨-, none⟩ | ⟨type, f, shown, some, lowers⟩
      · rw [none] at returnType
        cases returnType
        exact .inl rfl
      · rw [some] at returnType
        exact .inr ⟨type, mem_shown.mpr (.inl shown), _, lowers, _, returnType⟩
    · obtain ⟨f, lowered, made⟩ := mem_of_mapM parameters mem
      obtain ⟨t, found, rfl⟩ := Resolver.fieldBy_eq_ok.mp made
      obtain ⟨field, listed, lowers⟩ := (lowerFields_eq_ok params).1 f lowered
      exact .inr ⟨field.type, mem_shown.mpr (.inr (.inl ⟨field, listed, rfl⟩)), _, lowers, _, found⟩
    · obtain ⟨name, listed, made⟩ := mem_of_mapM thrown mem
      exact .inr ⟨.named name, mem_shown.mpr (.inr (.inr ⟨name, listed, rfl⟩)), _, lower_thrown wf listed, _,
        Resolver.resolveException_eq_ok.mp made⟩
  · intro type mem
    rcases mem_shown.mp mem with shown | ⟨field, listed, rfl⟩ | ⟨name, listed, rfl⟩
    · rcases returned with ⟨none, -⟩ | ⟨type, f, shown', some, lowers⟩
      · rw [none] at shown
        contradiction
      · cases shown.symm.trans shown'
        rw [some] at returnType
        exact ⟨_, _, .inl rfl, lowers, _, returnType⟩
    · obtain ⟨f, lowered, lowers⟩ := (lowerFields_eq_ok params).2 field listed
      obtain ⟨p, built, made⟩ := mem_mapM parameters lowered
      obtain ⟨t, found, rfl⟩ := Resolver.fieldBy_eq_ok.mp made
      exact ⟨_, _, .inr (.inl ⟨_, built, rfl⟩), lowers, _, found⟩
    · obtain ⟨e, built, made⟩ := mem_mapM thrown listed
      exact ⟨_, _, .inr (.inr ⟨e, built, rfl⟩), lower_thrown wf listed, _, Resolver.resolveException_eq_ok.mp made⟩

end

end Registry

end ThriftCatalog
