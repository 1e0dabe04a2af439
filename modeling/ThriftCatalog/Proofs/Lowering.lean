import ThriftCatalog.Proofs.Fallible
import ThriftCatalog.Registry.Lowering

/-! What descriptors depend on. Two registries lower a type alike if they know the names in it alike and cut the same
references to them, and a method alike if besides that its types denote the same exceptions. -/
namespace ThriftCatalog.Registry

open Fallible

variable {r r' : Registry} {owner : Option String} {type : TypeExpr} {fields : List FieldDecl} {m : MethodDecl}

/-- A name is of one kind in both registries, and if it is an alias, it has one descriptor. -/
def KnownAlike (r r' : Registry) (name : String) : Prop :=
  r'.definitions.kind? name = r.definitions.kind? name ∧ r'.lowerAlias name = r.lowerAlias name

theorem lower_congr (alike : ∀ name ∈ type.names, r.KnownAlike r' name)
    (cuts : ∀ a ∈ owner, ∀ name ∈ type.names, r'.isCut a name = r.isCut a name) :
    r'.lower owner type = r.lower owner type := by
  induction type with
  | base b => rfl
  | list e ih | set e ih => rw [lower, lower, ih alike cuts]
  | map k v ihk ihv =>
    have key := ihk (fun name mem => alike name (List.mem_append_left _ mem))
      fun a own name mem => cuts a own name (List.mem_append_left _ mem)
    have value := ihv (fun name mem => alike name (List.mem_append_right _ mem))
      fun a own name mem => cuts a own name (List.mem_append_right _ mem)
    rw [lower, lower, key, value]
  | named name =>
    have mem : name ∈ (TypeExpr.named name).names := List.mem_singleton.mpr rfl
    obtain ⟨kind, descriptor⟩ := alike name mem
    have cut : (owner.any fun owner => r'.isCut owner name) = owner.any fun owner => r.isCut owner name := by
      cases owner with
      | none => rfl
      | some a => exact cuts a rfl name mem
    rw [lower, lower, kind, descriptor, cut]

theorem lowerFields_congr (alike : ∀ f ∈ fields, ∀ name ∈ f.type.names, r.KnownAlike r' name)
    (cuts : ∀ a ∈ owner, ∀ f ∈ fields, ∀ name ∈ f.type.names, r'.isCut a name = r.isCut a name) :
    r'.lowerFields owner fields = r.lowerFields owner fields :=
  mapM_congr fun f mem => by rw [lower_congr (alike f mem) fun a own => cuts a own f mem]

/-- A method owns no struct, so no reference of its own is cut. -/
theorem lowerMethod_congr {service : String} (returns : ∀ name ∈ m.returns.names, r.KnownAlike r' name)
    (fields : ∀ f ∈ m.params ++ m.throws, ∀ name ∈ f.type.names, r.KnownAlike r' name)
    (thrown : ∀ f ∈ m.throws, r'.definitions.exceptionName f.type = r.definitions.exceptionName f.type) :
    r'.lowerMethod service m = r.lowerMethod service m := by
  have free {type : TypeExpr} (alike : ∀ name ∈ type.names, r.KnownAlike r' name) :
      r'.lower none type = r.lower none type := lower_congr alike (by simp)
  obtain ⟨params, throws⟩ := List.forall_mem_append.mp fields
  have parameters : r'.lowerFields none m.params = r.lowerFields none m.params := lowerFields_congr params (by simp)
  have values : (m.throws.mapM fun f => do
      return ({ name := f.name, value := ← r'.lower none f.type } : FieldDescriptor)) = m.throws.mapM fun f => do
        return { name := f.name, value := ← r.lower none f.type } :=
    mapM_congr fun f mem => by rw [free (throws f mem)]
  have results : r'.resultFields m = r.resultFields m := by
    simp only [resultFields, free returns, values]
  have exceptions : m.throws.mapM r'.thrownName = m.throws.mapM r.thrownName :=
    mapM_congr fun f mem => by rw [thrownName, thrownName, thrown f mem]
  rw [lowerMethod, lowerMethod, results, exceptions, parameters]

end ThriftCatalog.Registry
