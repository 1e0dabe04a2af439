import ThriftCatalog.Proofs.Answer

/-! Which type a function is documented to return. The returned value is found among the fields of the result struct by
its name, which what is thrown may have as well. Where a method returns something this is what the name finds. Where it
returns nothing, the name finds nothing, or else an exception. -/
namespace ThriftCatalog

open Relation Fallible

/-- A method returns nothing if it says so or does not say what. -/
def MethodDef.Silent (m : MethodDef) : Prop := ∀ text ∈ m.returns, TypeExpr.parse text = .ok (.base .void)

namespace Registry

open Definitions

variable {r : Registry} {resolver : Resolver} {samples : Samples} {service key name scope : String} {m : MethodDecl}
  {md : MethodDescriptor} {f : FunctionInfo} {type : TypeExpr} {v : ValueDescriptor} {t : TypeInfo}

/-- What a method that is written in a namespace is documented to return. -/
inductive DocumentsReturn (r : Registry) (resolver : Resolver) (scope : String) (m : MethodDef) : TypeInfo → Prop where
  | declared {text : String} {e : TypeExpr} {v : ValueDescriptor} {t : TypeInfo} : m.returns = some text →
      TypeExpr.parse text = .ok e → e ≠ .base .void → r.lower none (e.mapNames (qualify scope)) = .ok v →
      resolver.resolve v = .ok t → DocumentsReturn r resolver scope m t
  | nothing : m.Silent → (∀ f ∈ m.throws, f.name ≠ MethodDescriptor.successName) →
      DocumentsReturn r resolver scope m .void
  /-- Of what is thrown under the name of the returned value, the first is documented as returned. -/
  | thrown {f : FieldDef} {e : TypeExpr} {v : ValueDescriptor} {t : TypeInfo} : m.Silent →
      m.throws.find? (·.name = MethodDescriptor.successName) = some f →
      TypeExpr.parse f.type = .ok e → r.lower none (e.mapNames (qualify scope)) = .ok v →
      resolver.resolve v = .ok t → t ≠ .void → DocumentsReturn r resolver scope m t

/-- A method that returns nothing is documented to return the first that it throws under the name of the returned value.
A oneway method throws nothing, so it needs no case of its own. -/
theorem returned?_silent {m : MethodDef} (checked : r.definitions.MethodChecked (m.inScope scope)) (silent : m.Silent) :
    (m.inScope scope).returned? =
      (m.throws.find? (·.name = MethodDescriptor.successName)).map fun f => .inScope scope f.type := by
  have readable : ∀ text ∈ m.returns, TypeExpr.Readable text := fun text mem => ⟨_, silent text mem⟩
  have void : (m.inScope scope).returns = .base .void := (MethodDef.returns_void_iff readable).mpr silent
  have throws : ((m.inScope scope).throws.find? fun f => f.name = MethodDescriptor.successName).map (·.type) =
      (m.throws.find? (·.name = MethodDescriptor.successName)).map fun f => .inScope scope f.type := by
    rw [MethodDef.inScope, List.find?_map, Option.map_map]
    rfl
  rw [← throws, MethodDecl.returned?, if_pos void]
  split
  · next oneway =>
    rw [(checked.oneway oneway).2]
    rfl
  · rfl

theorem returned?_declared {m : MethodDef} (checked : r.definitions.MethodChecked (m.inScope scope)) {text : String}
    (declared : m.returns = some text) {e : TypeExpr} (parsed : TypeExpr.parse text = .ok e)
    (something : e ≠ .base .void) :
    (m.inScope scope).returned? = some (e.mapNames (qualify scope)) := by
  have returns : (m.inScope scope).returns = e.mapNames (qualify scope) := by
    rw [MethodDef.inScope, declared, Option.elim_some, TypeExpr.inScope_of_parse parsed]
  have nonvoid : (m.inScope scope).returns ≠ .base .void := by
    rw [returns]
    cases e <;> simp_all [TypeExpr.mapNames]
  rw [MethodDecl.returned?, if_neg fun oneway => nonvoid (checked.oneway oneway).1, if_neg nonvoid, returns]

/-- A function returns what the one type resolves to that its method is documented to return. -/
theorem function_returnType (lowered : r.lowerMethod service m = .ok md)
    (made : resolver.function key samples md = .ok f) :
    (m.returned? = none ∧ f.returnType = .void) ∨
      ∃ type v, m.returned? = some type ∧ r.lower none type = .ok v ∧ resolver.resolve v = .ok f.returnType := by
  obtain ⟨-, -, -, returned⟩ := lowerMethod_eq_ok lowered
  obtain ⟨ps, t, es, sample, -, found, -, -, rfl⟩ := Resolver.function_eq_ok.mp made
  unfold Resolver.returnType at found
  rcases returned with ⟨none, nothing⟩ | ⟨type, field, some, success, lowers⟩
  · rw [nothing] at found
    exact .inl ⟨none, (pure_eq_ok.mp found).symm⟩
  · rw [success] at found
    exact .inr ⟨type, field.value, some, lowers, found⟩

/-- What denotes an exception is described as that exception, or as an alias with the tag of a struct. -/
theorem describes_denoted (denotes : r.definitions.exceptionName type = .ok (some name)) :
    ∃ other, r.Describes none type (.exception other) ∨ r.Describes none type (.typedef .struct other) := by
  rw [exceptionName_eq, map_eq_ok] at denotes
  obtain ⟨target, ended, found⟩ := denotes
  obtain ⟨rfl, exception⟩ := asException_eq_some.mp found
  obtain ⟨fields, declares⟩ := Table.mem_keys.mp exception
  cases type with
  | named other =>
    refine ⟨other, ?_⟩
    rw [chainEnd] at ended
    split at ended
    · exact .inr (.otherAlias (aliasTarget_iff.mp ended) (.exception declares))
    · cases ended
      exact .inl (.exception declares not_cut_none)
  | base | list | set | map => cases ended

theorem thrown_ne_void (wf : r.definitions.WellFormed)
    (denotes : r.definitions.exceptionName type = .ok (some name)) (lowered : r.lower none type = .ok v)
    (found : resolver.resolve v = .ok t) : t ≠ .void := by
  have described := (lower_iff wf).mp lowered
  have resolves : resolver.Resolves v t := ⟨_, found⟩
  obtain ⟨other, exception | reference⟩ := describes_denoted denotes
  · obtain rfl := described.unique wf exception
    obtain ⟨room, record, -, rfl⟩ := Resolver.resolves_exception.mp resolves
    exact nofun
  · obtain rfl := described.unique wf reference
    obtain ⟨kind, -, rfl⟩ := Resolver.resolves_typedef.mp resolves
    exact nofun

theorem function_documentsReturn (wf : r.definitions.WellFormed) {m : MethodDef}
    (readable : ∀ text ∈ m.texts, TypeExpr.Readable text) (checked : r.definitions.MethodChecked (m.inScope scope))
    (lowered : r.lowerMethod service (m.inScope scope) = .ok md)
    (made : resolver.function key samples md = .ok f) : r.DocumentsReturn resolver scope m f.returnType := by
  have returned := function_returnType lowered made
  by_cases silent : m.Silent
  · rw [returned?_silent checked silent] at returned
    cases found : m.throws.find? (·.name = MethodDescriptor.successName) with
    | none =>
      rw [found] at returned
      obtain ⟨-, nothing⟩ | ⟨type, v, shown, -⟩ := returned
      · rw [nothing]
        refine .nothing silent fun f mem => ?_
        simpa using List.find?_eq_none.mp found f mem
      · contradiction
    | some g =>
      rw [found] at returned
      obtain ⟨none, -⟩ | ⟨type, v, shown, lowered, resolved⟩ := returned
      · contradiction
      · have same : .inScope scope g.type = type := Option.some.inj shown
        subst same
        have mem := List.mem_of_find?_eq_some found
        obtain ⟨e, parsed⟩ : TypeExpr.Readable g.type :=
          readable _ (List.mem_append_right _ (List.mem_map_of_mem (List.mem_append_right _ mem)))
        obtain ⟨name, denotes⟩ := checked.throws _ (List.mem_map_of_mem mem)
        have other := thrown_ne_void wf denotes lowered resolved
        rw [TypeExpr.inScope_of_parse parsed] at lowered
        exact .thrown silent found parsed lowered resolved other
  · simp only [MethodDef.Silent, not_forall] at silent
    obtain ⟨text, declared, something⟩ := silent
    obtain ⟨e, parsed⟩ := readable text (List.mem_append_left _ (Option.mem_toList.mpr declared))
    have something : e ≠ .base .void := by
      rintro rfl
      exact something parsed
    rw [returned?_declared checked declared parsed something] at returned
    obtain ⟨none, -⟩ | ⟨type, v, shown, lowered, resolved⟩ := returned
    · contradiction
    · obtain rfl := Option.some.inj shown
      exact .declared declared parsed something lowered resolved

/-- The documented return type is the declared one, except for a method that returns nothing and throws something under
the name of the returned value. -/
theorem build_documentsReturn {files : List RegistryFile} (built : build files = .ok r) :
    ∀ file ∈ files, ∀ name s, file.services.get? name = some s →
      ∃ mds, r.provider.methods (qualify file.namespaceName name) = .ok mds ∧
        List.Forall₂ (fun m md => ∀ (resolver : Resolver) service samples f,
          resolver.function service samples md = .ok f →
            r.DocumentsReturn resolver file.namespaceName m f.returnType) s.methods mds := by
  intro file mem name s found
  have wf := build_wellFormed built
  have holds : file.Holds name (.service s) := found
  have declares := declares_of_build built mem holds
  obtain ⟨mds, answered, lowered⟩ := methods_isOk declares
  refine ⟨mds, answered, ?_⟩
  have each : ∀ m ∈ s.methods, (∀ text ∈ m.texts, TypeExpr.Readable text) ∧
      r.definitions.MethodChecked (m.inScope file.namespaceName) := by
    intro m listed
    constructor
    · intro text written
      apply (consistent_of_build built).readable file mem
      refine List.mem_flatMap.mpr ⟨_, RegistryFile.mem_items.mpr holds, ?_⟩
      exact List.mem_flatMap.mpr ⟨m, listed, written⟩
    · exact r.definitions_checked.methods _ _ declares _ (List.mem_map_of_mem listed)
  refine ((List.forall₂_and_left _ _).mpr ⟨each, List.forall₂_map_left_iff.mp lowered⟩).imp ?_
  rintro m md ⟨⟨readable, checked⟩, lowered⟩ resolver service samples f made
  exact function_documentsReturn wf readable checked lowered made

/-- A service each method of which throws something, under the name of the returned value or another. -/
def thrownSuccess : ServiceDef where
  methods := [
    { name := "put", throws := [{ name := "error", type := "E" }] },
    { name := "drop", throws := [{ name := "success", type := "E" }] },
    { name := "get", returns := "string", throws := [{ name := "success", type := "E" }] }]

def thrownSuccessFile : RegistryFile where
  services := .ofList [("S", thrownSuccess)]
  exceptions := .ofList [("E", {})]

theorem thrownSuccess_facts : (fun r : Registry => (fun mds => mds.map fun md =>
      (fun f => f.returnType) <$> Resolver.function ⟨r.provider, r.provider.docs, 64⟩ "S" {} md) <$>
        r.provider.methods "S") <$> build [thrownSuccessFile] =
    .ok (.ok [.ok .void, .ok (.exception ⟨"E", [], none⟩), .ok .string]) := by decide +kernel

theorem thrownSuccess_documentsReturn : ∃ r mds, build [thrownSuccessFile] = .ok r ∧
    r.provider.methods "S" = .ok mds ∧
    mds.map (fun md => (fun f => f.returnType) <$> Resolver.function ⟨r.provider, r.provider.docs, 64⟩ "S" {} md) =
      [.ok .void, .ok (.exception ⟨"E", [], none⟩), .ok .string] ∧
    List.Forall₂ (fun m md => ∀ (resolver : Resolver) service samples f,
      resolver.function service samples md = .ok f → r.DocumentsReturn resolver "" m f.returnType)
        thrownSuccess.methods mds := by
  obtain ⟨r, built, facts⟩ := map_eq_ok.mp thrownSuccess_facts
  obtain ⟨mds, answered, returns⟩ := map_eq_ok.mp facts
  obtain ⟨_, answered', documents⟩ := build_documentsReturn built thrownSuccessFile (List.mem_singleton.mpr rfl) "S"
    thrownSuccess (by decide +kernel)
  cases answered.symm.trans answered'
  exact ⟨r, mds, built, answered, returns, documents⟩

/-- Not every method that returns nothing is documented to return nothing. -/
theorem thrown_success_returned : ¬ ∀ files r, build files = .ok r → ∀ file ∈ files, ∀ name s,
    file.services.get? name = some s → ∀ mds, r.provider.methods (qualify file.namespaceName name) = .ok mds →
      List.Forall₂ (fun m md => ∀ f,
        Resolver.function ⟨r.provider, r.provider.docs, 64⟩ (qualify file.namespaceName name) {} md = .ok f →
          m.Silent → f.returnType = .void) s.methods mds := by
  intro claim
  obtain ⟨r, built, facts⟩ := map_eq_ok.mp thrownSuccess_facts
  obtain ⟨mds, answered, returns⟩ := map_eq_ok.mp facts
  have documented := claim _ r built thrownSuccessFile (List.mem_singleton.mpr rfl) "S" thrownSuccess
    (by decide +kernel) mds answered
  rw [thrownSuccess] at documented
  -- The second method is the one that throws under the name of the returned value.
  obtain _ | ⟨-, _ | ⟨nothing, -⟩⟩ := documented
  simp only [List.map_cons, List.cons.injEq] at returns
  obtain ⟨f, made, returned⟩ := map_eq_ok.mp returns.2.1
  have silent := nothing f made (by simp [MethodDef.Silent])
  rw [silent] at returned
  contradiction

end Registry

end ThriftCatalog
