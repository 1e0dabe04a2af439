import ThriftCatalog.Proofs.Service
import ThriftCatalog.Proofs.Resolution

/-! Documentation without its docs. Taking the docs out of what a resolver gives is the same as resolving without docs,
for every type and every error, and no value conforms to a type because of a doc. -/
namespace ThriftCatalog

namespace TypeInfo

mutual

/-- The tree without docs. -/
def bare : TypeInfo → TypeInfo
  | struct ⟨n, fs, _⟩ => .struct ⟨n, bareFields fs, none⟩
  | exception ⟨n, fs, _⟩ => .exception ⟨n, bareFields fs, none⟩
  | enum ⟨n, cs, _⟩ => .enum ⟨n, cs, none⟩
  | list e => .list (bare e)
  | set e => .set (bare e)
  | map k v => .map (bare k) (bare v)
  | unresolved ⟨k, n, _⟩ => .unresolved ⟨k, n, none⟩
  | t => t

def bareFields : List (FieldOf TypeInfo) → List (FieldOf TypeInfo)
  | [] => []
  | ⟨n, r, t, _⟩ :: fs => ⟨n, r, bare t, none⟩ :: bareFields fs

end

def bareField (f : FieldInfo) : FieldInfo := ⟨f.name, f.requirement, f.type.bare, none⟩

def bareEnum (e : EnumInfo) : EnumInfo := ⟨e.name, e.constants, none⟩

def bareRecord (r : RecordInfo) : RecordInfo := ⟨r.name, r.fields.map bareField, none⟩

theorem bareFields_eq (fs : List FieldInfo) : bareFields fs = fs.map bareField := by
  induction fs with
  | nil => rfl
  | cons f fs ih => rw [bareFields, ih, List.map_cons, bareField]

theorem bare_struct (r : RecordInfo) : bare (.struct r) = .struct (bareRecord r) := by
  rw [bare, bareFields_eq, bareRecord]

theorem bare_exception (r : RecordInfo) : bare (.exception r) = .exception (bareRecord r) := by
  rw [bare, bareFields_eq, bareRecord]

theorem bare_signature : ∀ t : TypeInfo, t.bare.signature = t.signature
  | list e | set e => by rw [bare, signature, signature, bare_signature e]
  | map k v => by rw [bare, signature, signature, bare_signature k, bare_signature v]
  | struct _ | exception _ | enum _ | unresolved _ => rfl
  | void | bool | i8 | i16 | i32 | i64 | double | string | binary => rfl

end TypeInfo

open TypeInfo

def ClassInfo.bare : ClassInfo → ClassInfo
  | struct r => .struct (bareRecord r)
  | enum e => .enum (bareEnum e)
  | exception r => .exception (bareRecord r)

theorem ClassInfo.bare_name (c : ClassInfo) : c.bare.name = c.name := by
  cases c <;> rfl

theorem ClassInfo.bare_descriptor (c : ClassInfo) : c.bare.descriptor = c.descriptor := by
  cases c <;> rfl

namespace TypeInfo

mutual

theorem bare_classes : ∀ t : TypeInfo, t.bare.classes = t.classes.map ClassInfo.bare
  | struct ⟨n, fs, d⟩ => by
    rw [bare, classes, classes, bare_classesOfFields fs, List.map_append, bareFields_eq]
    rfl
  | exception ⟨n, fs, d⟩ => by
    rw [bare, classes, classes, bare_classesOfFields fs, List.map_append, bareFields_eq]
    rfl
  | list e | set e => by rw [bare, classes, classes, bare_classes e]
  | map k v => by rw [bare, classes, classes, bare_classes k, bare_classes v, List.map_append]
  | enum _ | unresolved _ => rfl
  | void | bool | i8 | i16 | i32 | i64 | double | string | binary => rfl

theorem bare_classesOfFields : ∀ fs : List (FieldOf TypeInfo),
    classesOfFields (bareFields fs) = (classesOfFields fs).map ClassInfo.bare
  | [] => rfl
  | ⟨n, r, t, d⟩ :: fs => by
    rw [bareFields, classesOfFields, classesOfFields, bare_classes t, bare_classesOfFields fs, List.map_append]

end

end TypeInfo

namespace Sample

theorem bare_keyConforms (conforms : Json → Bool) (t : TypeInfo) (key : String) :
    keyConforms conforms t.bare key = keyConforms conforms t key := by
  cases t <;> rfl

mutual

theorem bare_conforms : ∀ (t : TypeInfo) (v : Json), conforms t.bare v = conforms t v
  | .struct ⟨n, fs, d⟩, v | .exception ⟨n, fs, d⟩, v => by
    cases v with
    | object members => simp only [bare, conforms, bare_memberConforms fs]
    | null | bool | number | string | array => rfl
  | .list e, v | .set e, v => by
    cases v with
    | array items => simp only [bare, conforms, bare_conforms e]
    | null | bool | number | string | object => rfl
  | .map key value, v => by
    cases v with
    | object members => simp only [bare, conforms, bare_keyConforms, bare_conforms key, bare_conforms value]
    | null | bool | number | string | array => rfl
  | .enum _, v => by
    rw [bare, conforms, conforms]
    cases v <;> rfl
  | .unresolved _, v => by rw [bare, conforms, conforms]
  | .void, v | .bool, v | .i8, v | .i16, v | .i32, v | .i64, v | .double, v | .string, v | .binary, v => rfl

theorem bare_memberConforms : ∀ (fs : List (FieldOf TypeInfo)) (name : String) (v : Json),
    memberConforms (bareFields fs) name v = memberConforms fs name v
  | [], _, _ => rfl
  | ⟨n, r, t, d⟩ :: fs, name, v => by
    rw [bareFields, memberConforms, memberConforms, bare_conforms t, bare_memberConforms fs]

end

theorem bare_parameter? (parameters : List FieldInfo) (name : String) :
    parameter? (parameters.map bareField) name = (parameter? parameters name).map bareField := by
  rw [parameter?, parameter?, List.find?_map]
  rfl

theorem bare_mismatch (name : String) (t : TypeInfo) :
    (Cause.mismatch name t.bare).message = (Cause.mismatch name t).message :=
  congrArg (fun shown => "parameter '" ++ name ++ "' does not match " ++ shown) (bare_signature t)

/-- An argument is refused for the same reason: types are shown by their signatures. -/
theorem bare_checkArgument (parameters : List FieldInfo) (name : String) (v : Json) :
    (checkArgument (parameters.map bareField) name v).mapError Cause.message =
      (checkArgument parameters name v).mapError Cause.message := by
  rw [checkArgument, checkArgument, bare_parameter?]
  cases parameter? parameters name with
  | none => rfl
  | some f =>
    simp only [Option.map_some, bareField, bare_conforms]
    split
    · rfl
    · exact congrArg Except.error (bare_mismatch name f.type)

theorem check_object (parameters : List FieldInfo) (members : List (String × Json)) :
    (check parameters (.object members)).mapError Cause.message =
      members.forM fun m => (checkArgument parameters m.1 m.2).mapError Cause.message := by
  rw [check, List.forM_eq_forM, List.forM_eq_forM]
  induction members with
  | nil => rfl
  | cons m members ih =>
    rw [List.forM_cons, List.forM_cons, ← ih]
    cases checkArgument parameters m.1 m.2 <;> rfl

theorem bare_check (parameters : List FieldInfo) (v : Json) :
    (check (parameters.map bareField) v).mapError Cause.message = (check parameters v).mapError Cause.message := by
  cases v with
  | object members => simp only [check_object, bare_checkArgument]
  | null | bool | number | string | array => rfl

theorem jsonEncoder_eq (function : String) (parameters : List FieldInfo) (v : Json) :
    jsonEncoder function parameters v =
      match (check parameters v).mapError Cause.message with
      | .ok () => .ok v.compact
      | .error reason => .error ⟨function, reason⟩ := by
  rw [jsonEncoder]
  cases check parameters v <;> rfl

theorem bare_jsonEncoder (function : String) (parameters : List FieldInfo) (v : Json) :
    jsonEncoder function (parameters.map bareField) v = jsonEncoder function parameters v := by
  rw [jsonEncoder_eq, jsonEncoder_eq, bare_check]

end Sample

/-- The provider that answers the same, but has no docs. -/
def Provider.bare (p : Provider) : Provider := { p with docs := ∅ }

namespace Resolver

def bare (r : Resolver) : Resolver := ⟨r.provider.bare, ∅, r.maxDepth⟩

variable {r : Resolver} {resolve resolve' : ValueDescriptor → Except GenerationError TypeInfo}

open Fallible

theorem bare_fieldBy (each : ∀ v, TypeInfo.bare <$> resolve v = resolve' v) (scope : String) (f : FieldDescriptor) :
    bareField <$> r.fieldBy resolve scope f = r.bare.fieldBy resolve' scope f := by
  rw [fieldBy, fieldBy, ← each]
  exact bind_mapped fun _ _ => rfl

theorem bare_recordBy (each : ∀ v, TypeInfo.bare <$> resolve v = resolve' v) (name : String)
    (answered : Except LookupError (List FieldDescriptor)) :
    bareRecord <$> r.recordBy resolve name answered = r.bare.recordBy resolve' name answered := by
  cases answered with
  | error e => rfl
  | ok fields =>
    have infos : List.map bareField <$> fields.mapM (r.fieldBy resolve name) =
        fields.mapM (r.bare.fieldBy resolve' name) := mapM_mapped fun f _ => bare_fieldBy each name f
    have documented : r.recordBy resolve name (.ok fields) =
        fields.mapM (r.fieldBy resolve name) >>= fun infos => pure ⟨name, infos, r.doc name⟩ := rfl
    have undocumented : r.bare.recordBy resolve' name (.ok fields) =
        fields.mapM (r.bare.fieldBy resolve' name) >>= fun infos => pure ⟨name, infos, none⟩ := rfl
    rw [documented, undocumented, ← infos]
    exact bind_mapped fun _ _ => rfl

theorem bare_enumInfo (name : String) : bareEnum <$> r.enumInfo name = r.bare.enumInfo name := by
  have same : r.bare.provider.enumConstants name = r.provider.enumConstants name := rfl
  rw [enumInfo, enumInfo, same]
  cases r.provider.enumConstants name <;> rfl

theorem bare_reference (tag : WireType) (name : String) :
    TypeInfo.bare <$> r.reference tag name = r.bare.reference tag name := by
  rw [reference, reference]
  cases referenceKind? tag <;> rfl

/-- Docs change neither what a descriptor resolves to, docs apart, nor why it does not resolve. -/
theorem bare_resolveAt (room : Nat) (v : ValueDescriptor) :
    TypeInfo.bare <$> r.resolveAt room v = r.bare.resolveAt room v := by
  induction room generalizing v with
  | zero =>
    cases v with
    | void | bool | byte | i16 | i32 | i64 | double | string | binary => rfl
    | enum name => exact map_mapped (fun _ => rfl) (bare_enumInfo name)
    | typedef tag name => exact bare_reference tag name
    | struct | exception | list | set | map => rfl
  | succ room ih =>
    cases v with
    | void | bool | byte | i16 | i32 | i64 | double | string | binary => rfl
    | enum name => exact map_mapped (fun _ => rfl) (bare_enumInfo name)
    | typedef tag name => exact bare_reference tag name
    | struct name => exact map_mapped bare_struct (bare_recordBy ih name (r.provider.structFields name))
    | exception name => exact map_mapped bare_exception (bare_recordBy ih name (r.provider.exceptionFields name))
    | list e | set e => exact map_mapped (fun _ => rfl) (ih e)
    | map k v =>
      have unfolded (r : Resolver) : r.resolveAt (room + 1) (.map k v) =
          (do return TypeInfo.map (← r.resolveAt room k) (← r.resolveAt room v)) := rfl
      rw [unfolded, unfolded, ← ih k, ← ih v]
      exact bind_mapped fun _ _ => bind_mapped fun _ _ => rfl

theorem bare_resolveField (scope : String) (f : FieldDescriptor) :
    bareField <$> r.resolveField scope f = r.bare.resolveField scope f :=
  bare_fieldBy (bare_resolveAt r.maxDepth) scope f

theorem bare_resolveException (name : String) :
    bareRecord <$> r.resolveException name = r.bare.resolveException name := by
  have depth : r.bare.maxDepth = r.maxDepth := rfl
  unfold resolveException
  rw [depth]
  cases r.maxDepth with
  | zero => rfl
  | succ room => exact bare_recordBy (bare_resolveAt room) name (r.provider.exceptionFields name)

theorem bare_returnType (m : MethodDescriptor) : TypeInfo.bare <$> r.returnType m = r.bare.returnType m := by
  unfold returnType
  cases m.success? with
  | none => rfl
  | some success => exact bare_resolveAt r.maxDepth success.value

end Resolver

/-- No encoded sample depends on docs. -/
def Samples.Blind (samples : Samples) : Prop := ∀ argsType function parameters,
  samples.encode argsType function (parameters.map bareField) = samples.encode argsType function parameters

theorem Samples.blind (requests : Table Json) (encode : Bool) :
    Samples.Blind ⟨requests, if encode then some Sample.jsonEncoder else none⟩ := by
  intro argsType function parameters
  cases encode with
  | false => simp [Samples.encode]
  | true =>
    simp only [Samples.encode, if_true]
    cases requests.get? argsType with
    | none => rfl
    | some request => exact Sample.bare_jsonEncoder function parameters request

def FunctionInfo.bare (f : FunctionInfo) : FunctionInfo where
  name := f.name
  returnType := f.returnType.bare
  parameters := f.parameters.map bareField
  exceptions := f.exceptions.map bareRecord
  sampleRequest := f.sampleRequest
  doc := none

theorem FunctionInfo.bare_classes (f : FunctionInfo) : f.bare.classes = f.classes.map ClassInfo.bare := by
  have exception (r : RecordInfo) : (TypeInfo.exception (bareRecord r)).classes =
      (TypeInfo.exception r).classes.map ClassInfo.bare := by
    rw [← bare_exception, TypeInfo.bare_classes]
  simp only [classes, bare, TypeInfo.bare_classes, ← bareFields_eq, bare_classesOfFields, List.flatMap_map, exception,
    List.map_append, List.map_flatMap]

open Fallible in
theorem Resolver.bare_function {r : Resolver} {service : String} {samples : Samples} (blind : samples.Blind)
    (m : MethodDescriptor) :
    FunctionInfo.bare <$> r.function service samples m = r.bare.function service samples m := by
  have parameters : List.map bareField <$> m.parameters.mapM (r.resolveField (docKey service m.name)) =
      m.parameters.mapM (r.bare.resolveField (docKey service m.name)) := mapM_mapped fun f _ => bare_resolveField _ f
  have exceptions : List.map bareRecord <$>
      (m.exceptions.filter (· ≠ MethodDescriptor.baseException)).mapM r.resolveException =
      (m.exceptions.filter (· ≠ MethodDescriptor.baseException)).mapM r.bare.resolveException :=
    mapM_mapped fun name _ => bare_resolveException name
  rw [function_eq, function_eq, ← parameters, ← bare_returnType m, ← exceptions]
  refine bind_mapped fun infos _ => bind_mapped fun returned _ => bind_mapped fun thrown _ => ?_
  rw [blind]
  cases samples.encode m.argsType (docKey service m.name) infos <;> rfl

end ThriftCatalog
