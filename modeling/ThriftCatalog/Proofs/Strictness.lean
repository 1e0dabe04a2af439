import ThriftCatalog.Proofs.Generation

/-! Strict and lenient generation. A strict run ends with the first failure that the lenient run lists, be it of an
interface or of a service; where the lenient run lists none, both end alike. -/
namespace ThriftCatalog

open Generation

variable {p : Provider} {input : GenerationInput} {encoder : Option Sample.Encoder} {maxDepth : Nat}

/-- What can be built and what fails does not depend on how a run takes a failure. -/
theorem Provider.generate_strict : p.generate input encoder { failFast := true, maxDepth } =
    match p.failures input encoder { failFast := false, maxDepth } with
    | failure :: _ => .error failure.error
    | [] => p.generate input encoder { failFast := false, maxDepth } := by
  have failures : p.failures input encoder { failFast := true, maxDepth } =
      p.failures input encoder { failFast := false, maxDepth } := rfl
  have built : p.built input encoder { failFast := true, maxDepth } =
      p.built input encoder { failFast := false, maxDepth } := rfl
  rw [generate_eq, generate_eq, failures, built]
  cases p.failures input encoder { failFast := false, maxDepth } <;> rfl

theorem Provider.generate_strict_clean (clean : p.failures input encoder { failFast := false, maxDepth } = []) :
    p.generate input encoder { failFast := true, maxDepth } =
      p.generate input encoder { failFast := false, maxDepth } := by
  rw [generate_strict, clean]

theorem Provider.generate_strict_failed {failure : Failure} {rest : List Failure}
    (failed : p.failures input encoder { failFast := false, maxDepth } = failure :: rest) :
    p.generate input encoder { failFast := true, maxDepth } = .error failure.error := by
  rw [generate_strict, failed]

theorem Provider.strict_lenient_agree (p : Provider) (input : GenerationInput) (encoder : Option Sample.Encoder)
    (maxDepth : Nat) :
    (∀ o, p.generate input encoder { failFast := true, maxDepth } = .ok o ↔
      p.generate input encoder { failFast := false, maxDepth } = .ok o ∧ o.failures = []) ∧
    (∀ o failure rest, p.generate input encoder { failFast := false, maxDepth } = .ok o →
      o.failures = failure :: rest →
      p.generate input encoder { failFast := true, maxDepth } = .error failure.error) ∧
    ∀ e, p.generate input encoder { failFast := false, maxDepth } = .error e →
      (∃ e', p.generate input encoder { failFast := true, maxDepth } = .error e') ∧
      ((∀ interface ∈ input.interfaces, ∃ service, p.enclosingService interface = .ok service) →
        (∀ entry ∈ (p.group input.bindings input.exampleHeaders).entries.entries, ∃ s,
          p.service entry.1 entry.2.endpoints entry.2.exampleHeaders ⟨input.sampleRequests, encoder⟩ maxDepth = .ok s) →
        p.generate input encoder { failFast := true, maxDepth } = .error e) := by
  refine ⟨fun o => ⟨fun generated => ?_, fun ⟨generated, clean⟩ => ?_⟩, fun o failure rest generated first => ?_,
    fun e failed => ⟨?_, fun placed each => ?_⟩⟩
  · cases failures : p.failures input encoder { failFast := false, maxDepth } with
    | nil =>
      rw [generate_strict_clean failures] at generated
      exact ⟨generated, (generate_failures generated).trans failures⟩
    | cons failure rest =>
      rw [generate_strict_failed failures] at generated
      contradiction
  · rw [generate_strict_clean ((generate_failures generated).symm.trans clean)]
    exact generated
  · exact generate_strict_failed ((generate_failures generated).symm.trans first)
  · cases failures : p.failures input encoder { failFast := false, maxDepth } with
    | nil => exact ⟨e, (generate_strict_clean failures).trans failed⟩
    | cons failure rest => exact ⟨failure.error, generate_strict_failed failures⟩
  · have clean : p.failures input encoder { failFast := false, maxDepth } = [] := failures_eq_nil.mpr ⟨placed, each⟩
    exact (generate_strict_clean clean).trans failed

end ThriftCatalog
