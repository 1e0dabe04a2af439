import ThriftCatalog.Proofs.Conservation

/-! Merging one file after another. A registry into which files are merged is the one that is built from all of them at
once, a file that is refused is refused for the same reason, and then the registry is what it was. -/
namespace ThriftCatalog.Registry

open Definitions Fallible

variable {files : List RegistryFile} {file : RegistryFile} {r r' : Registry}

/-- The answer of a merge in place, and the registry that it leaves behind. -/
def afterMerge (r : Registry) (file : RegistryFile) : Except RegistryError Unit × Registry :=
  ((mergeInto file).run.run r).run

/-- A run of merges, each into what the one before has left behind: the files that come, those of them that are taken,
and the registry at the end. -/
inductive Merges : Registry → List RegistryFile → List RegistryFile → Registry → Prop where
  | done {r : Registry} : Merges r [] [] r
  | taken {r next last : Registry} {file : RegistryFile} {files kept : List RegistryFile} :
      r.afterMerge file = (.ok (), next) → Merges next files kept last → Merges r (file :: files) (file :: kept) last
  | refused {r next last : Registry} {file : RegistryFile} {files kept : List RegistryFile} {e : RegistryError} :
      r.afterMerge file = (.error e, next) → Merges next files kept last → Merges r (file :: files) kept last

theorem merge_eq (r : Registry) (file : RegistryFile) :
    r.merge file = ((addFile file).run r.definitions >>= fun added => ofDefinitions added.2) := rfl

/-- In place, a merge that fails changes nothing. -/
theorem afterMerge_eq (r : Registry) (file : RegistryFile) : r.afterMerge file =
    match r.merge file with
    | .ok merged => (.ok (), merged)
    | .error e => (.error e, r) := by
  have started : r.afterMerge file = ExceptT.run (do
      let added ← ofExcept ((addFile file).run r.definitions)
      let merged ← ofExcept (ofDefinitions added.2)
      set merged : ExceptT RegistryError (StateM Registry) Unit) r := rfl
  rw [merge_eq, started]
  cases (addFile file).run r.definitions with
  | error e => rfl
  | ok added =>
    change ExceptT.run (ofExcept (ofDefinitions added.2) >>= set : ExceptT RegistryError (StateM Registry) Unit) r =
      match ofDefinitions added.2 with
      | .ok merged => (.ok (), merged)
      | .error e => (.error e, r)
    cases ofDefinitions added.2 with
    | error e => rfl
    | ok merged => rfl

theorem afterMerge_eq_ok : r.afterMerge file = (.ok (), r') ↔ r.merge file = .ok r' := by
  rw [afterMerge_eq]
  cases r.merge file <;> simp

theorem afterMerge_eq_error {e : RegistryError} :
    r.afterMerge file = (.error e, r') ↔ r.merge file = .error e ∧ r' = r := by
  rw [afterMerge_eq]
  cases r.merge file <;> simp [eq_comm]

/-- The last of the files may as well be merged into what is built from those before it. -/
theorem build_concat (built : build files = .ok r) (file : RegistryFile) : build (files ++ [file]) = r.merge file := by
  obtain ⟨⟨⟨⟩, d⟩, added, checked⟩ := bind_eq_ok.mp built
  have last : ((files ++ [file]).forM addFile).run ∅ = (addFile file).run d := by
    rw [List.forM_eq_forM] at added ⊢
    rw [List.forM_append, StateT.run_bind, added, List.forM_cons, List.forM_nil, bind_pure_unit]
    rfl
  rw [build, last, merge_eq, ofDefinitions_eq_ok checked]

theorem Merges.built {given kept : List RegistryFile} {last : Registry} (run : Merges r given kept last)
    (built : build files = .ok r) : build (files ++ kept) = .ok last := by
  induction run generalizing files with
  | done => rwa [List.append_nil]
  | @taken r next last file given kept merged _ ih =>
    have here : build (files ++ [file]) = .ok next := (build_concat built file).trans (afterMerge_eq_ok.mp merged)
    rw [← List.singleton_append, ← List.append_assoc]
    exact ih here
  | @refused r next last file given kept e failed _ ih =>
    -- The registry left behind is the one before, whose files are still all that were taken.
    obtain ⟨-, rfl⟩ := afterMerge_eq_error.mp failed
    exact ih built

/-- Whatever files come, the merges can be gone through. -/
theorem exists_merges (r : Registry) (given : List RegistryFile) : ∃ kept last, Merges r given kept last := by
  induction given generalizing r with
  | nil => exact ⟨[], r, .done⟩
  | cons file given ih =>
    cases merged : r.merge file with
    | ok next =>
      obtain ⟨kept, last, run⟩ := ih next
      exact ⟨file :: kept, last, .taken (afterMerge_eq_ok.mpr merged) run⟩
    | error e =>
      obtain ⟨kept, last, run⟩ := ih r
      exact ⟨kept, last, .refused (afterMerge_eq_error.mpr ⟨merged, rfl⟩) run⟩

/-- A registry into which a file is merged, in place or not, is the one built from its files and this one, and a file
that is refused is refused for the reason for which nothing would be built, and changes nothing. A run of merges ends
in what is built from the files that were taken. -/
theorem merge_eq_build (built : build files = .ok r) :
    (∀ file, r.merge file = build (files ++ [file]) ∧
      r.afterMerge file =
        match build (files ++ [file]) with
        | .ok merged => (.ok (), merged)
        | .error e => (.error e, r)) ∧
    ∀ given, (∃ kept last, Merges r given kept last) ∧
      ∀ kept last, Merges r given kept last → build (files ++ kept) = .ok last := by
  refine ⟨fun file => ⟨(build_concat built file).symm, ?_⟩,
    fun given => ⟨exists_merges r given, fun kept last run => run.built built⟩⟩
  rw [afterMerge_eq, build_concat built]

/-- Of a pair that is there already and one that is new, the new one is taken. -/
theorem secondPair_merged :
    ∃ r last, build [pairFile] = .ok r ∧ r.merge pairFile = .error (.duplicate "S") ∧
      Merges r [pairFile, secondPairFile] [secondPairFile] last ∧ build [pairFile, secondPairFile] = .ok last := by
  have first : (fun r => r.definitions.names) <$> build [pairFile] = .ok ["S", "A", "B"] := by decide +kernel
  have again : (fun r => r.definitions.names) <$> (build [pairFile] >>= fun r => r.merge pairFile) =
      .error (.duplicate "S") := by decide +kernel
  have second : (fun r => r.definitions.names) <$> (build [pairFile] >>= fun r => r.merge secondPairFile) =
      .ok ["S", "A", "B", "C", "D"] := by decide +kernel
  obtain ⟨r, built, -⟩ := map_eq_ok.mp first
  rw [built] at again second
  obtain ⟨last, merged, -⟩ := map_eq_ok.mp second
  have refused : r.merge pairFile = .error (.duplicate "S") := by
    cases result : r.merge pairFile with
    | ok merged =>
      simp [bind, Except.bind, result, Functor.map, Except.map] at again
    | error e =>
      simpa [bind, Except.bind, result, Functor.map, Except.map] using again
  have run : Merges r [pairFile, secondPairFile] [secondPairFile] last :=
    .refused (afterMerge_eq_error.mpr ⟨refused, rfl⟩) (.taken (afterMerge_eq_ok.mpr merged) .done)
  exact ⟨r, last, built, refused, run, ((merge_eq_build built).2 _).2 _ _ run⟩

end ThriftCatalog.Registry
