import Mathlib.Data.List.TakeWhile
import ThriftCatalog.CommandLine.Run
import ThriftCatalog.Proofs.Documentation
import ThriftCatalog.Proofs.RegistryFileText

/-! When registry files are valid, and when they can be inspected. Both commands read the files and build a registry;
what follows touches no files, so it is the registry alone that decides. Inspecting asks for every service by its name.
Validating asks for the interface with that name, which is cut at the first dollar sign. -/
namespace ThriftCatalog

open Fallible Generation

namespace Registry

variable {r : Registry} {service : String}

/-- Whether a service can be built with the depth allowed by default and without samples. -/
def canBuild (r : Registry) (service : String) : Bool :=
  (r.provider.service service [] [] {} Resolver.defaultMaxDepth).isOk

def canBuildInterface (r : Registry) (interface : String) : Bool :=
  r.serviceNames.contains (interfaceService interface) && r.canBuild (interfaceService interface)

/-- Neither endpoints nor headers decide whether a service can be built. -/
theorem canBuild_iff (endpoints : List Endpoint) (headers : List Headers) : r.canBuild service = true ↔
    ∃ s, r.provider.service service endpoints headers {} Resolver.defaultMaxDepth = .ok s := by
  unfold canBuild
  rw [isOk_iff]
  simp only [Provider.service_eq_ok]
  constructor
  · rintro ⟨_, methods, built, classes, answered, builds, collected, -⟩
    exact ⟨_, methods, built, classes, answered, builds, collected, rfl⟩
  · rintro ⟨_, methods, built, classes, answered, builds, collected, -⟩
    exact ⟨_, methods, built, classes, answered, builds, collected, rfl⟩

theorem methodSummary_isOk {m : MethodDescriptor} : (∃ j, r.methodSummary service m = .ok j) ↔
    ∃ f, r.resolver.function service {} m = .ok f := by
  unfold methodSummary
  cases r.resolver.function service {} m <;> simp

/-- A service is summed up exactly if it can be built: its classes never conflict. -/
theorem serviceSummary_isOk (wf : r.definitions.WellFormed) :
    (∃ j, r.serviceSummary service = .ok j) ↔ r.canBuild service = true := by
  rw [canBuild_iff [] []]
  simp only [serviceSummary, bind_eq_ok, mapError_eq_ok, pure_eq_ok]
  constructor
  · rintro ⟨_, methods, answered, functions, summed, -⟩
    obtain ⟨built, builds⟩ := mapM_isOk_iff.mpr fun m mem =>
      methodSummary_isOk.mp (mapM_isOk_iff.mp ⟨functions, summed⟩ m mem)
    exact (consistent wf {} _).service_isOk answered (mapM_eq_ok.mp builds)
  · rintro ⟨s, made⟩
    obtain ⟨methods, built, -, answered, builds, -⟩ := Provider.service_eq_ok.mp made
    obtain ⟨functions, summed⟩ := mapM_isOk_iff.mpr fun m mem =>
      methodSummary_isOk.mpr (mapM_isOk_iff.mp ⟨built, mapM_eq_ok.mpr builds⟩ m mem)
    exact ⟨_, methods, answered, functions, summed, rfl⟩

theorem summary_isOk (wf : r.definitions.WellFormed) : r.summary.isOk = r.serviceNames.all r.canBuild := by
  rw [Bool.eq_iff_iff, isOk_iff, List.all_eq_true]
  simp only [← serviceSummary_isOk wf, ← mapM_isOk_iff, summary, bind_eq_ok, pure_eq_ok]
  constructor
  · rintro ⟨_, services, summed, -⟩
    exact ⟨services, summed⟩
  · rintro ⟨services, summed⟩
    exact ⟨_, services, summed, rfl⟩

theorem wholeInput_interfaces : r.wholeInput.interfaces = r.serviceNames := by
  simp [GenerationInput.interfaces, wholeInput, Binding.registrations, Table.insert, Table.insertEntry,
    List.flatMap_cons, EmptyCollection.emptyCollection, Table.empty, Function.comp_def]

/-- All groups can be built if each service with a group can. -/
theorem groups_build {input : GenerationInput} (silent : input.sampleRequests = ∅) {options : GenerationOptions}
    (depth : options.maxDepth = Resolver.defaultMaxDepth) :
    (∀ entry ∈ (r.provider.group input.bindings input.exampleHeaders).entries.entries, ∃ s,
      r.provider.groupService ⟨input.sampleRequests, none⟩ options entry = .ok s) ↔
    ∀ interface ∈ input.interfaces, ∀ service, r.provider.enclosingService interface = .ok service →
      r.canBuild service = true := by
  rw [silent]
  simp only [Provider.groupService, depth]
  constructor
  · intro each interface mem service placed
    obtain ⟨x, registered, rfl⟩ := List.mem_map.mp mem
    obtain ⟨entry, listed, rfl⟩ :=
      List.mem_map.mp ((Provider.mem_group_keys _ input.exampleHeaders service).mpr ⟨x, registered, placed⟩)
    exact (canBuild_iff _ _).mpr (each entry listed)
  · intro each entry listed
    obtain ⟨x, registered, placed⟩ := (Provider.mem_group_keys _ _ _).mp (Table.mem_keys_of_entry listed)
    exact (canBuild_iff _ _).mp (each x.interface (List.mem_map_of_mem registered) entry.1 placed)

/-- All services can be built together if each interface with the name of a service leads to one that can be built. -/
theorem buildAll_isOk (wf : r.definitions.WellFormed) :
    r.buildAll.isOk = r.serviceNames.all r.canBuildInterface := by
  have strict : r.buildAll.isOk = true ↔ r.provider.failures r.wholeInput none { failFast := true } = [] := by
    obtain ⟨classes, united⟩ := (consistent wf ⟨r.wholeInput.sampleRequests, none⟩ _).classes_unite
    rw [isOk_iff]
    constructor
    · rintro ⟨o, generated⟩
      exact (Provider.generate_eq_ok.mp generated).1 rfl
    · intro clean
      exact ⟨_, Provider.generate_eq_ok.mpr ⟨fun _ => clean, classes, united, rfl⟩⟩
  rw [Bool.eq_iff_iff, strict, Provider.failures_eq_nil, groups_build rfl rfl, wholeInput_interfaces, List.all_eq_true,
    ← forall₂_and]
  refine forall₂_congr fun interface _ => ?_
  rw [canBuildInterface, Bool.and_eq_true, List.contains_iff_mem]
  constructor
  · rintro ⟨⟨service, placed⟩, builds⟩
    have known : interfaceService interface ∈ r.serviceNames := by
      by_contra unknown
      cases (enclosingService_unknown unknown).symm.trans placed
    exact ⟨known, builds _ (enclosingService_known known)⟩
  · rintro ⟨known, builds⟩
    refine ⟨⟨_, enclosingService_known known⟩, fun service placed => ?_⟩
    cases (enclosingService_known known).symm.trans placed
    exact builds

theorem interfaceService_plain {name : String} (plain : '$' ∉ name.toList) : interfaceService name = name := by
  have all : ∀ c ∈ name.toList, decide (c ≠ '$') = true := by
    intro c mem
    rw [decide_eq_true_eq]
    rintro rfl
    exact plain mem
  rw [interfaceService, List.takeWhile_eq_self_iff.mpr all, String.ofList_toList]

/-- Without a dollar sign, every service is the interface with its name. -/
theorem all_canBuildInterface (plain : ∀ name ∈ r.serviceNames, '$' ∉ name.toList) :
    r.serviceNames.all r.canBuildInterface = r.serviceNames.all r.canBuild := by
  rw [Bool.eq_iff_iff, List.all_eq_true, List.all_eq_true]
  refine forall₂_congr fun name known => ?_
  rw [canBuildInterface, interfaceService_plain (plain name known), List.contains_iff_mem.mpr known, Bool.true_and]

end Registry

namespace Command

variable {m : Type → Type} [Monad m] [LawfulMonad m] {α β : Type}

/-- The work prints and ends with this result, and does nothing to files. -/
def Ends (w : Work m α) (result : Except Report α) : Prop := ∀ p, ∃ p', w.run.run p = pure (result, p')

namespace Ends

variable {w : Work m α} {f : α → Work m β} {result : Except Report α} {next : α → Except Report β}

theorem bind (first : Ends w result) (rest : ∀ a, Ends (f a) (next a)) : Ends (w >>= f) (result >>= next) := by
  intro p
  obtain ⟨middle, here⟩ := first p
  rw [ExceptT.run_bind, StateT.run_bind, here, pure_bind]
  cases result with
  | error e => exact ⟨middle, rfl⟩
  | ok a => exact rest a middle

theorem print (change : Printed → Printed) : Ends (modifyThe Printed change : Work m Unit) (.ok ()) := by
  intro p
  have lifted : (modifyThe Printed change : Work m Unit).run =
      Except.ok <$> (modifyGet fun p => ((), change p) : StateT Printed m Unit) := rfl
  refine ⟨change p, ?_⟩
  rw [lifted, StateT.run_map, StateT.run_modifyGet, map_pure]

/-- A printed line changes no result. -/
theorem afterLine (line : String) (rest : Ends w result) : Ends (do printErr line; w) result :=
  (Ends.print _).bind fun _ => rest

omit [LawfulMonad m] in
theorem ofExcept {ε : Type} (report : ε → Report) (x : Except ε α) :
    Ends (Command.ofExcept report x : Work m α) (x.mapError report) := by
  intro p
  refine ⟨p, ?_⟩
  cases x <;> rfl

end Ends

def readFiles (fs : FileSystem m) (paths : List String) : m (Option (List RegistryFile)) :=
  (fun read => read.1.toOption) <$> ((paths.mapM (readRegistryFile fs)).run).run {}

/-- Whether files build into a registry that passes. -/
def buildsAnd (passes : Registry → Bool) (files : Option (List RegistryFile)) : Bool :=
  (files.bind fun files => (Registry.build files).toOption).any passes

theorem run_succeeds (fs : FileSystem m) (c : Command) :
    Prod.fst <$> run fs c = (fun ended => ended.1.isOk) <$> ((c.work fs).run).run {} := by
  rw [run, map_bind, map_eq_pure_bind]
  congr 1
  funext ⟨result, p⟩
  cases result <;> exact map_pure ..

/-- A command that begins with reading a registry succeeds if the rest does for this registry. -/
theorem run_reading {fs : FileSystem m} {c : Command} {paths : List String} {rest : Registry → Work m Unit}
    {result : Registry → Except Report Unit} {passes : Registry → Bool}
    (reading : c.work fs = readRegistry fs paths >>= rest) (ends : ∀ r, Ends (rest r) (result r))
    (decides : ∀ files r, Registry.build files = .ok r → (result r).isOk = passes r) :
    Prod.fst <$> run fs c = buildsAnd passes <$> readFiles fs paths := by
  have built (files : List RegistryFile) :
      (((Registry.build files).mapError Report.ofRegistryError >>= result).isOk = buildsAnd passes (some files)) := by
    rw [buildsAnd, Option.bind_some]
    cases build : Registry.build files with
    | error e => rfl
    | ok r => exact decides files r build
  -- What is printed does not matter, so after the files are read both sides only ask whether the registry passes.
  rw [run_succeeds, reading, readRegistry, bind_assoc, ExceptT.run_bind, StateT.run_bind, map_bind, readFiles,
    Functor.map_map, map_eq_pure_bind]
  congr 1
  funext ⟨read, p⟩
  cases read with
  | error e => exact map_pure ..
  | ok files =>
    obtain ⟨p', ended⟩ := (Ends.ofExcept Report.ofRegistryError (Registry.build files)).bind ends p
    dsimp only
    rw [ended, map_pure, built]
    rfl

theorem run_inspect (fs : FileSystem m) (paths : List String) (format : OutputFormat) :
    Prod.fst <$> run fs (.inspect paths format) =
      buildsAnd (fun r => r.serviceNames.all r.canBuild) <$> readFiles fs paths := by
  refine run_reading rfl (fun r => (Ends.ofExcept id r.summary).bind fun _ => .print _) fun files r built => ?_
  rw [← Registry.summary_isOk (Registry.build_wellFormed built)]
  cases r.summary <;> rfl

theorem run_validate (fs : FileSystem m) (paths : List String) :
    Prod.fst <$> run fs (.validate paths) =
      buildsAnd (fun r => r.serviceNames.all r.canBuildInterface) <$> readFiles fs paths := by
  refine run_reading rfl (fun r => .afterLine _ (.afterLine _ (.afterLine _ (.afterLine _
    ((Ends.ofExcept Report.ofGenerationError r.buildAll).bind fun _ => .afterLine _ (.print _))))))
    fun files r built => ?_
  rw [← Registry.buildAll_isOk (Registry.build_wellFormed built)]
  cases r.buildAll <;> rfl

/-- Inspecting succeeds exactly if the files build into a registry that can build all of its services. Validating asks
this of the interfaces that have the names of the services, which makes no difference where no name has a dollar
sign. -/
theorem inspect_validate_succeed (fs : FileSystem m) (paths : List String) (format : OutputFormat) :
    Prod.fst <$> run fs (.inspect paths format) =
      buildsAnd (fun r => r.serviceNames.all r.canBuild) <$> readFiles fs paths ∧
    Prod.fst <$> run fs (.validate paths) =
      buildsAnd (fun r => r.serviceNames.all r.canBuildInterface) <$> readFiles fs paths ∧
    ∀ r : Registry, (∀ name ∈ r.serviceNames, '$' ∉ name.toList) →
      r.serviceNames.all r.canBuildInterface = r.serviceNames.all r.canBuild :=
  ⟨run_inspect fs paths format, run_validate fs paths, fun _ => Registry.all_canBuildInterface⟩

def everywhere (text : String) : FileSystem Id where
  isThere _ := true
  read _ := .ok text
  createDirectories _ := .ok ()
  write _ _ := .ok ()

def serviceFile (service : String) : RegistryFile := { services := (∅ : Table ServiceDef).insert service {} }

theorem readFiles_everywhere (service : String) :
    readFiles (everywhere (serviceFile service).toJson.compact) ["r.json"] = some [serviceFile service] := by
  have parsed : RegistryFile.parse .json (serviceFile service).toJson.compact = .ok (serviceFile service) := by
    rw [RegistryFile.parse, RegistryFile.parse?_compact (show 1 ≤ 0xFFFFFFFF by decide)]
    rfl
  have json : languageOf "r.json" = .json := by decide
  have read (text : String) : readRegistryFile (everywhere text) "r.json" =
      ofExcept (fun e => ⟨"failed to parse r.json", [e.message]⟩)
        (RegistryFile.parse (languageOf "r.json") text) := rfl
  rw [readFiles, List.mapM_cons, List.mapM_nil, read, json, parsed]
  rfl

theorem service_succeeds :
    (run (everywhere (serviceFile "S").toJson.compact) (.inspect ["r.json"] .json)).1 = true ∧
    (run (everywhere (serviceFile "S").toJson.compact) (.validate ["r.json"])).1 = true := by
  obtain ⟨inspects, validates, -⟩ :=
    inspect_validate_succeed (everywhere (serviceFile "S").toJson.compact) ["r.json"] .json
  rw [readFiles_everywhere] at inspects validates
  have built : buildsAnd (fun r => r.serviceNames.all r.canBuild) (some [serviceFile "S"]) = true := by
    decide +kernel
  have asked : buildsAnd (fun r => r.serviceNames.all r.canBuildInterface) (some [serviceFile "S"]) = true := by
    decide +kernel
  exact ⟨inspects.trans built, validates.trans asked⟩

/-- A service whose name has a dollar sign is a valid service, but it is not the interface with its name. -/
theorem dollar_service_fails :
    (run (everywhere (serviceFile "A$B").toJson.compact) (.inspect ["r.json"] .json)).1 = true ∧
    (run (everywhere (serviceFile "A$B").toJson.compact) (.validate ["r.json"])).1 = false := by
  have inspects := run_inspect (everywhere (serviceFile "A$B").toJson.compact) ["r.json"] .json
  have validates := run_validate (everywhere (serviceFile "A$B").toJson.compact) ["r.json"]
  rw [readFiles_everywhere] at inspects validates
  have built : buildsAnd (fun r => r.serviceNames.all r.canBuild) (some [serviceFile "A$B"]) = true := by
    decide +kernel
  have asked : buildsAnd (fun r => r.serviceNames.all r.canBuildInterface) (some [serviceFile "A$B"]) = false := by
    decide +kernel
  exact ⟨inspects.trans built, validates.trans asked⟩

end Command

end ThriftCatalog
