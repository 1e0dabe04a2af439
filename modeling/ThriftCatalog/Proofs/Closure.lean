import Mathlib.Computability.Primrec.List
import Mathlib.Data.List.Permutation
import ThriftCatalog.Proofs.Generation

/-! The class tables of a specification are closed. Whatever struct, enum or exception a function or a class mentions
can be looked up by name, in the table of its service and in the table of the whole specification, and it is the same
definition everywhere. Providers may answer as they like, also inconsistently. -/
namespace ThriftCatalog

open Fallible Generation TypeInfo

variable {p : Provider} {samples : Samples}

def ClassInfo.Listed (c : ClassInfo) (classes : Table ClassInfo) : Prop := classes.get? c.name = some c

/-- Each class stands under its own name, and the names ascend strictly. -/
structure ClassTableOrdered (classes : Table ClassInfo) : Prop where
  named : ∀ name c, classes.get? name = some c → c.name = name
  ascending : classes.keys.Pairwise (· < ·)

/-- A service lists the classes that the functions built for it mention, and no others. -/
theorem Provider.service_get? {name : String} {endpoints : List Endpoint} {headers : List Headers} {maxDepth : Nat}
    {s : ServiceInfo} (h : p.service name endpoints headers samples maxDepth = .ok s) :
    ∃ methods built, p.methods name = .ok methods ∧
      Resolver.Builds ⟨p, p.docs, maxDepth⟩ name samples methods built ∧
      s.functions = .ofList (built.map fun f => (f.name, f)) ∧ s.classes.keys.Pairwise (· < ·) ∧
      ∀ key c, s.classes.get? key = some c ↔ c.name = key ∧ ∃ f ∈ built, f.Mentions c.toType := by
  obtain ⟨methods, built, classes, found, builds, collected, rfl⟩ := service_eq_ok.mp h
  refine ⟨methods, built, found, builds, rfl, Table.keys_sorted_ascending, fun key c => ?_⟩
  dsimp only
  rw [ClassSet.get?_sorted, ClassSet.collectAll_get? collected, and_comm]
  simp [FunctionInfo.mem_classes]

theorem functions_mem {built : List FunctionInfo} {f : FunctionInfo}
    (mem : f ∈ (Table.ofList (built.map fun f => (f.name, f))).values) : f ∈ built := by
  obtain ⟨key, found⟩ := Table.mem_values.mp mem
  rcases Table.get?_insertAll found with none | listed
  · contradiction
  · obtain ⟨g, mem, same⟩ := List.mem_map.mp listed
    cases same
    exact mem

/-- Whatever a service mentions, one of the functions that were built for it mentions. -/
theorem ServiceInfo.Mentions.built {s : ServiceInfo} {t : TypeInfo} (mentions : s.Mentions t)
    {built : List FunctionInfo} (functions : s.functions = .ofList (built.map fun f => (f.name, f)))
    (listed : ∀ key c, s.classes.get? key = some c ↔ c.name = key ∧ ∃ f ∈ built, f.Mentions c.toType) :
    ∃ f ∈ built, f.Mentions t := by
  rcases mentions with ⟨f, mem, mentions⟩ | ⟨c, mem, mentions⟩
  · rw [functions] at mem
    exact ⟨f, functions_mem mem, mentions⟩
  · obtain ⟨key, found⟩ := Table.mem_values.mp mem
    obtain ⟨-, f, mem, outer⟩ := (listed key c).mp found
    exact ⟨f, mem, outer.trans mentions.occurs⟩

/-- What a service mentions is listed there. -/
theorem Provider.service_mentions {name : String} {endpoints : List Endpoint} {headers : List Headers}
    {maxDepth : Nat} {s : ServiceInfo} (h : p.service name endpoints headers samples maxDepth = .ok s)
    {c : ClassInfo} (mentions : s.Mentions c.toType) : c.Listed s.classes := by
  obtain ⟨methods, built, -, -, functions, -, listed⟩ := service_get? h
  exact (listed _ _).mpr ⟨rfl, mentions.built functions listed⟩

/-- With method names all different, every function that was built is kept, and so is all that a service lists. -/
theorem Provider.service_nothing_else {name : String} {endpoints : List Endpoint} {headers : List Headers}
    {maxDepth : Nat} {s : ServiceInfo} (h : p.service name endpoints headers samples maxDepth = .ok s)
    {methods : List MethodDescriptor} (answer : p.methods name = .ok methods)
    (distinct : (methods.map (·.name)).Nodup) {key : String} {c : ClassInfo} (found : s.classes.get? key = some c) :
    ∃ f ∈ s.functions.values, f.Mentions c.toType := by
  obtain ⟨methods', built, answer', builds, functions, -, listed⟩ := service_get? h
  obtain rfl : methods = methods' := Except.ok.inj (answer.symm.trans answer')
  obtain ⟨-, f, mem, mentions⟩ := (listed _ _).mp found
  refine ⟨f, ?_, mentions⟩
  rw [functions]
  apply Table.mem_values.mpr
  refine ⟨f.name, Table.get?_insertAll_of_mem ?_ (List.mem_map.mpr ⟨f, mem, rfl⟩)⟩
  rw [List.map_map]
  exact builds.names ▸ distinct

/-- The services of a specification are what the provider builds under their names. -/
theorem Provider.generate_services {input : GenerationInput} {encoder : Option Sample.Encoder}
    {options : GenerationOptions} {o : Outcome} (h : p.generate input encoder options = .ok o) {name : String}
    {s : ServiceInfo} (found : o.specification.services.get? name = some s) :
    ∃ endpoints headers,
      p.service name endpoints headers ⟨input.sampleRequests, encoder⟩ options.maxDepth = .ok s := by
  obtain ⟨-, classes, -, rfl⟩ := generate_eq_ok.mp h
  dsimp only at found
  rw [Table.get?_sorted] at found
  obtain ⟨entry, -, rfl, service⟩ := get?_built.mp found
  exact ⟨_, _, service⟩

/-- The specification lists what its services list. -/
theorem Provider.generate_get? {input : GenerationInput} {encoder : Option Sample.Encoder}
    {options : GenerationOptions} {o : Outcome} (h : p.generate input encoder options = .ok o) (name : String)
    (c : ClassInfo) :
    o.specification.classes.get? name = some c ↔
      ∃ s ∈ o.specification.services.values, s.classes.get? name = some c := by
  obtain ⟨-, classes, united, rfl⟩ := generate_eq_ok.mp h
  dsimp only
  exact ClassSet.get?_sorted ▸ unionClasses_get? united

/-- Whatever a specification mentions, one of its services mentions: its classes are classes of services. -/
theorem Provider.generate_mentions {input : GenerationInput} {encoder : Option Sample.Encoder}
    {options : GenerationOptions} {o : Outcome} (h : p.generate input encoder options = .ok o) {t : TypeInfo}
    (mentions : o.specification.Mentions t) : ∃ s ∈ o.specification.services.values, s.Mentions t := by
  rcases mentions with service | ⟨c, mem, mentions⟩
  · exact service
  · obtain ⟨key, found⟩ := Table.mem_values.mp mem
    obtain ⟨s, mem, here⟩ := (generate_get? h key c).mp found
    exact ⟨s, mem, .inr ⟨c, Table.mem_values.mpr ⟨key, here⟩, mentions⟩⟩

theorem Provider.generate_ascending {input : GenerationInput} {encoder : Option Sample.Encoder}
    {options : GenerationOptions} {o : Outcome} (h : p.generate input encoder options = .ok o) :
    o.specification.classes.keys.Pairwise (· < ·) := by
  obtain ⟨-, classes, -, rfl⟩ := generate_eq_ok.mp h
  exact Table.keys_sorted_ascending

/-- Closure and coherence of the class tables of a specification. The last part needs method names that differ: of two
methods with one name only the later function is kept, but the classes of both are listed. -/
theorem Provider.generate_classes_closed {input : GenerationInput} {encoder : Option Sample.Encoder}
    {options : GenerationOptions} {o : Outcome} (h : p.generate input encoder options = .ok o) :
    (∀ s ∈ o.specification.services.values, ∀ c : ClassInfo, s.Mentions c.toType →
      c.Listed s.classes ∧ c.Listed o.specification.classes) ∧
    (∀ c : ClassInfo, o.specification.Mentions c.toType → c.Listed o.specification.classes) ∧
    (∀ s ∈ o.specification.services.values, ClassTableOrdered s.classes) ∧
    ClassTableOrdered o.specification.classes ∧
    (∀ name c, o.specification.classes.get? name = some c →
      ∃ s ∈ o.specification.services.values, s.classes.get? name = some c) ∧
    ∀ name s methods, o.specification.services.get? name = some s → p.methods name = .ok methods →
      (methods.map (·.name)).Nodup → ∀ key c, s.classes.get? key = some c →
        ∃ f ∈ s.functions.values, f.Mentions c.toType := by
  have service : ∀ s ∈ o.specification.services.values, ∃ name endpoints headers,
      p.service name endpoints headers ⟨input.sampleRequests, encoder⟩ options.maxDepth = .ok s := by
    intro s mem
    obtain ⟨name, found⟩ := Table.mem_values.mp mem
    exact ⟨name, generate_services h found⟩
  have ordered : ∀ s ∈ o.specification.services.values, ClassTableOrdered s.classes := by
    intro s mem
    obtain ⟨name, endpoints, headers, built⟩ := service s mem
    obtain ⟨_, _, -, -, -, ascending, listed⟩ := service_get? built
    exact ⟨fun key c found => ((listed key c).mp found).1, ascending⟩
  have mentioned : ∀ s ∈ o.specification.services.values, ∀ c : ClassInfo, s.Mentions c.toType →
      c.Listed s.classes ∧ c.Listed o.specification.classes := by
    intro s mem c mentions
    obtain ⟨name, endpoints, headers, built⟩ := service s mem
    have here := service_mentions built mentions
    exact ⟨here, (generate_get? h _ c).mpr ⟨s, mem, here⟩⟩
  refine ⟨mentioned, ?_, ordered, ?_, fun name c => (generate_get? h name c).mp, ?_⟩
  · intro c mentions
    obtain ⟨s, mem, mentions⟩ := generate_mentions h mentions
    exact (mentioned s mem c mentions).2
  · refine ⟨fun name c found => ?_, generate_ascending h⟩
    obtain ⟨s, mem, here⟩ := (generate_get? h name c).mp found
    exact (ordered s mem).named name c here
  · intro name s methods found answer distinct key c listed
    obtain ⟨endpoints, headers, built⟩ := generate_services h found
    exact service_nothing_else built answer distinct listed

/-- One service with one method. It takes a map from an enum to structs and throws an exception that holds both. -/
def orderProvider : Provider where
  methods := fun
    | "Orders" => .ok [{
        name := "place"
        argsType := "Orders.place_args"
        parameters := [{ name := "lines", value := .map (.enum "Size") (.list (.struct "Line")) }]
        resultFields := some []
        exceptions := ["SoldOut", MethodDescriptor.baseException] }]
    | name => .error (.unavailable name)
  structFields := fun
    | "Line" => .ok [{ name := "size", value := .enum "Size" }]
    | name => .error (.unavailable name)
  exceptionFields := fun
    | "SoldOut" => .ok [{ name := "line", value := .struct "Line" }]
    | name => .error (.unavailable name)
  enumConstants := fun
    | "Size" => .ok ["SMALL", "LARGE"]
    | name => .error (.unavailable name)

def singleBinding (interfaces : List String) : GenerationInput where
  bindings := [{
    hostPattern := "*"
    route := .exact "/"
    defaultFormat := .binary
    allowedFormats := [.binary]
    entries := .ofList [("", interfaces)] }]

theorem orderProvider_classes_closed :
    ∃ o, orderProvider.generate (singleBinding ["Orders$Iface"]) none {} = .ok o ∧
      o.specification.classes.keys = ["Line", "Size", "SoldOut"] ∧
      ∀ c : ClassInfo, o.specification.Mentions c.toType → c.Listed o.specification.classes := by
  -- the classes are sorted by a merge sort, through which `decide` does not evaluate
  have keys : (fun o => o.specification.classes.keys) <$>
      orderProvider.generate (singleBinding ["Orders$Iface"]) none {} =
        .ok ["Line", "Size", "SoldOut"] := by cbv
  obtain ⟨o, h, keys⟩ := map_eq_ok.mp keys
  exact ⟨o, h, keys, (Provider.generate_classes_closed h).2.1⟩

end ThriftCatalog
