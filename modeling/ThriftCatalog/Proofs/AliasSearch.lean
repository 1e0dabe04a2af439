import ThriftCatalog.Proofs.Description
import ThriftCatalog.Proofs.Respelling

/-! The search along a chain of aliases, beside the chain itself. On every table it ends, after looking at no more than
one name beyond the number of aliases. It finds the type of the last alias exactly if the chain is finite, and fails
exactly if an alias comes again in it, the first one or a later one. -/
namespace ThriftCatalog

open Fallible

namespace Definitions

def nextAlias? (d : Definitions) (name : String) : Option String :=
  match d.aliases.get? name with
  | some (.named next) => if d.aliases.contains next then some next else none
  | _ => none

/-- What stands in each place of the chain that an alias begins, and nothing beyond the last place. -/
def chain (d : Definitions) (name : String) : Nat → Option String
  | 0 => some name
  | n + 1 => (d.chain name n).bind d.nextAlias?

def Revisits (d : Definitions) (name : String) : Prop :=
  ∃ i j again, i < j ∧ d.chain name i = some again ∧ d.chain name j = some again

/-- What the search from an alias answers, whatever the other aliases stand for. -/
structure ExactlyFollowed (d : Definitions) (name : String) : Prop where
  ends : ∃ looks ≤ d.aliases.size + 1, d.Follows name looks d.aliases.keys name (d.aliasTarget name)
  finite : (∃ target, d.aliasTarget name = .ok target) ↔ ∃ n, d.chain name n = none
  /-- What is found is the type that the last alias of the chain stands for. -/
  found : ∀ target, d.aliasTarget name = .ok target ↔
    ∃ n last, d.chain name n = some last ∧ d.chain name (n + 1) = none ∧ d.aliases.get? last = some target
  /-- What is found is no alias. -/
  settled : ∀ next, d.aliasTarget name = .ok (.named next) → next ∉ d.aliases.keys
  loops : d.aliasTarget name = .error (.aliasCycle name) ↔ d.Revisits name

variable {d : Definitions} {name start current next last : String} {unseen : List String} {target : TypeExpr}
  {answer : Except RegistryError TypeExpr} {looks n m : Nat}

theorem nextAlias?_eq_some : d.nextAlias? name = some next ↔ d.Leads name next ∧ next ∈ d.aliases.keys := by
  unfold nextAlias? Leads
  rw [← Table.contains_iff]
  split
  · next other found =>
    rw [found, Option.ite_none_right_eq_some, Option.some.injEq, Option.some.injEq, TypeExpr.named.injEq]
    constructor
    · rintro ⟨listed, rfl⟩
      exact ⟨rfl, listed⟩
    · rintro ⟨rfl, listed⟩
      exact ⟨listed, rfl⟩
  · next other =>
    simp only [reduceCtorEq, false_iff, not_and]
    exact fun leads => absurd leads (other next)

theorem nextAlias?_eq_none (ends : d.Ends name target) : d.nextAlias? name = none := by
  rw [Option.eq_none_iff_forall_ne_some]
  intro next stands
  obtain ⟨leads, listed⟩ := nextAlias?_eq_some.mp stands
  exact ends.2 next (Option.some.inj (ends.1.symm.trans leads)) listed

theorem chain_add (d : Definitions) (name : String) (n m : Nat) :
    d.chain name (n + m) = (d.chain name n).bind fun middle => d.chain middle m := by
  induction m with
  | zero => simp [chain]
  | succ m ih =>
    rw [← Nat.add_assoc, chain, ih, Option.bind_assoc]
    rfl

/-- The chain from the second name on is the chain of that name. -/
theorem chain_next (leads : d.Leads name next) (listed : next ∈ d.aliases.keys) (n : Nat) :
    d.chain name (n + 1) = d.chain next n := by
  have first : d.chain name 1 = some next := nextAlias?_eq_some.mpr ⟨leads, listed⟩
  rw [Nat.add_comm, chain_add, first, Option.bind_some]

theorem chain_ended (ended : d.chain name n = none) (later : n ≤ m) : d.chain name m = none := by
  obtain ⟨k, rfl⟩ := Nat.exists_eq_add_of_le later
  rw [chain_add, ended, Option.bind_none]

/-- A chain has one last place. -/
theorem last_unique (here : d.chain name n = some current) (ended : d.chain name (n + 1) = none)
    (there : d.chain name m = some last) (ended' : d.chain name (m + 1) = none) : current = last := by
  rcases Nat.lt_trichotomy n m with less | rfl | greater
  · rw [chain_ended ended less] at there
    contradiction
  · exact Option.some.inj (here.symm.trans there)
  · rw [chain_ended ended' greater] at here
    contradiction

/-- From where an alias comes again the chain goes round for ever. -/
theorem Revisits.endless (revisits : d.Revisits name) (n : Nat) : d.chain name n ≠ none := by
  obtain ⟨i, j, again, sooner, first, second⟩ := revisits
  obtain ⟨p, rfl⟩ := Nat.exists_eq_add_of_lt sooner
  have round : d.chain again (p + 1) = some again := by
    rwa [Nat.add_assoc, chain_add, first, Option.bind_some] at second
  have rounds (k : Nat) : d.chain name (i + k * (p + 1)) = some again := by
    induction k with
    | zero => simpa using first
    | succ k ih => rw [Nat.succ_mul, ← Nat.add_assoc, chain_add, ih, Option.bind_some, round]
  intro ended
  have far : n ≤ i + n * (p + 1) := by
    rw [Nat.mul_succ]
    omega
  have none := chain_ended ended far
  rw [rounds] at none
  contradiction

theorem Revisits.before (leads : d.Leads name next) (listed : next ∈ d.aliases.keys) (revisits : d.Revisits next) :
    d.Revisits name := by
  obtain ⟨i, j, again, sooner, first, second⟩ := revisits
  refine ⟨i + 1, j + 1, again, Nat.succ_lt_succ sooner, ?_, ?_⟩
  · rw [chain_next leads listed, first]
  · rw [chain_next leads listed, second]

/-- A search that begins at an alias finds the end of the chain, or comes to a name again: one of the chain, or one that
was met before the search. -/
theorem Follows.ends_or_revisits (follows : d.Follows start looks unseen current answer)
    (listed : current ∈ d.aliases.keys) :
    (∃ target n last, answer = .ok target ∧ d.chain current n = some last ∧ d.chain current (n + 1) = none ∧
      d.Ends last target) ∨
    answer = .error (.aliasCycle start) ∧
      (d.Revisits current ∨ ∃ n again, d.chain current n = some again ∧ again ∈ d.aliases.keys ∧ again ∉ unseen) := by
  induction follows with
  | missing other => exact absurd listed other
  | again _ old => exact .inr ⟨rfl, .inr ⟨0, _, rfl, listed, old⟩⟩
  | found _ ends => exact .inl ⟨_, 0, _, rfl, rfl, nextAlias?_eq_none ends, ends⟩
  | @further unseen current next looks answer new leads more _ ih =>
    rcases ih more with ⟨target, n, last, found, here, ended, ends⟩ | ⟨failed, revisits | ⟨n, again, here, known, old⟩⟩
    · refine .inl ⟨target, n + 1, last, found, ?_, ?_, ends⟩
      · rw [chain_next leads more, here]
      · rw [chain_next leads more, ended]
    · exact .inr ⟨failed, .inl (revisits.before leads more)⟩
    · refine .inr ⟨failed, ?_⟩
      have here : d.chain current (n + 1) = some again := by rw [chain_next leads more, here]
      -- What was met in the meantime is the name where the search stands now.
      by_cases same : again = current
      · exact .inl ⟨0, n + 1, current, Nat.succ_pos n, rfl, same ▸ here⟩
      · exact .inr ⟨n + 1, again, here, known, mt (List.mem_erase_of_ne same).mpr old⟩

/-- At the beginning no name was met, so that the search fails only where the chain comes to one of its own again. -/
theorem aliasTarget_cases (listed : name ∈ d.aliases.keys) :
    (∃ target n last, d.aliasTarget name = .ok target ∧ d.chain name n = some last ∧ d.chain name (n + 1) = none ∧
      d.Ends last target) ∨ d.aliasTarget name = .error (.aliasCycle name) ∧ d.Revisits name := by
  obtain ⟨looks, -, follows⟩ := follow_follows d name d.aliases.keys name
  rcases follows.ends_or_revisits listed with found | ⟨failed, revisits | ⟨n, again, -, known, other⟩⟩
  · exact .inl found
  · exact .inr ⟨failed, revisits⟩
  · exact absurd known other

theorem exactlyFollowed (listed : name ∈ d.aliases.keys) : d.ExactlyFollowed name := by
  constructor
  case ends =>
    obtain ⟨looks, few, follows⟩ := follow_follows d name d.aliases.keys name
    exact ⟨looks, by simpa [Table.keys, Table.size] using few, follows⟩
  case finite =>
    rcases aliasTarget_cases listed with ⟨target, n, last, found, -, ended, -⟩ | ⟨failed, revisits⟩
    · exact iff_of_true ⟨target, found⟩ ⟨n + 1, ended⟩
    · rw [failed]
      apply iff_of_false
      · rintro ⟨target, found⟩
        contradiction
      · rintro ⟨n, ended⟩
        exact revisits.endless n ended
  case found =>
    intro target
    rcases aliasTarget_cases listed with ⟨target', n, last, found, here, ended, ends⟩ | ⟨failed, revisits⟩
    · rw [found, Except.ok.injEq]
      constructor
      · rintro rfl
        exact ⟨n, last, here, ended, ends.1⟩
      · rintro ⟨m, other, there, ended', stands⟩
        obtain rfl := last_unique here ended there ended'
        exact Option.some.inj (ends.1.symm.trans stands)
    · rw [failed]
      apply iff_of_false
      · intro found
        contradiction
      · rintro ⟨n, last, -, ended, -⟩
        exact revisits.endless (n + 1) ended
  case settled =>
    intro next found
    obtain ⟨last, -, ends⟩ := aliasTarget_ends found
    exact ends.2 next rfl
  case loops =>
    rcases aliasTarget_cases listed with ⟨target, n, last, found, -, ended, -⟩ | ⟨failed, revisits⟩
    · rw [found]
      apply iff_of_false
      · intro failed
        contradiction
      · intro revisits
        exact revisits.endless (n + 1) ended
    · exact iff_of_true failed revisits

/-- Where all chains end, it is known of every type whether it denotes an exception, and which. -/
theorem Checked.exceptionName_isOk (checked : d.Checked) (type : TypeExpr) :
    ∃ found, d.exceptionName type = .ok found := by
  have ended : ∃ target, d.chainEnd type = .ok target := by
    cases type with
    | named name =>
      rw [chainEnd]
      split
      · next known => exact checked.chains name (Table.contains_iff.mp known)
      · exact ⟨_, rfl⟩
    | base | list | set | map => exact ⟨_, rfl⟩
  obtain ⟨target, ended⟩ := ended
  exact ⟨d.asException target, by rw [exceptionName_eq, ended]; rfl⟩

end Definitions

namespace Registry

open Definitions

/-- In every table of aliases the search from each of them ends with the type at the end of its chain or with the
failure that the chain calls for. In a registry that was built it never fails, so every type is known to denote an
exception or none, and every alias has a descriptor. -/
theorem aliasTarget_exact : (∀ (d : Definitions), ∀ name ∈ d.aliases.keys, d.ExactlyFollowed name) ∧
    ∀ files r, build files = .ok r →
      (∀ name ∈ r.definitions.aliases.keys, ∃ target, r.definitions.aliasTarget name = .ok target) ∧
      (∀ type, ∃ found, r.definitions.exceptionName type = .ok found) ∧
      ∀ name ∈ r.definitions.aliases.keys, ∃ v, r.lowerAlias name = .ok v := by
  refine ⟨fun d name listed => exactlyFollowed listed, fun files r built => ?_⟩
  have checked := r.definitions_checked
  refine ⟨checked.chains, checked.exceptionName_isOk, fun name listed => ?_⟩
  obtain ⟨target, found⟩ := Table.mem_keys.mp listed
  have kind := kind?_of_declares (x := .typeAlias target) (build_wellFormed built).distinct found
  obtain ⟨v, lowered, -⟩ := lowerAlias_named none kind
  exact ⟨v, lowered⟩

/-- Two aliases that stand for each other, one that leads to them from outside, and a chain that ends. -/
def spiralDefinitions : Definitions where
  services := ∅
  structs := ∅
  exceptions := ∅
  enums := ∅
  aliases := .ofList [("Into", .named "Left"), ("Left", .named "Right"), ("Right", .named "Left"),
    ("Key", .named "Id"), ("Id", .base .i64)]
  docs := ∅

theorem spiral_followed : spiralDefinitions.aliasTarget "Into" = .error (.aliasCycle "Into") ∧
    (List.range 4).map (spiralDefinitions.chain "Into") = [some "Into", some "Left", some "Right", some "Left"] ∧
    (∃ target, spiralDefinitions.aliasTarget "Key" = .ok target) ∧ spiralDefinitions.chain "Key" 2 = none ∧
    ∃ r, build [lookupFile] = .ok r ∧ (∃ found, r.definitions.exceptionName (.named "Missing") = .ok found) ∧
      "Missing" ∈ r.definitions.aliases.keys ∧ ∃ v, r.lowerAlias "Missing" = .ok v := by
  obtain ⟨followed, accepted⟩ := aliasTarget_exact
  have loops : (List.range 4).map (spiralDefinitions.chain "Into") =
      [some "Into", some "Left", some "Right", some "Left"] := by decide +kernel
  have revisits : spiralDefinitions.Revisits "Into" :=
    ⟨1, 3, "Left", by decide, by decide +kernel, by decide +kernel⟩
  have ended : spiralDefinitions.chain "Key" 2 = none := by decide +kernel
  obtain ⟨⟨⟨⟩, d⟩, added, facts⟩ := map_eq_ok.mp lookup_facts
  obtain ⟨-, -, missing, passed⟩ : _ ∧ _ ∧ _ ∧ _ := by simpa only [Prod.mk.injEq] using facts
  obtain ⟨r, checked⟩ := ofDefinitions_isOk.mpr (check_eq_ok.mp passed)
  have built : build [lookupFile] = .ok r := (build_eq added).trans checked
  have listed : "Missing" ∈ r.definitions.aliases.keys := ofDefinitions_eq_ok checked ▸ aliasTarget_mem missing
  obtain ⟨-, known, lowered⟩ := accepted _ r built
  exact ⟨(followed _ "Into" (by decide +kernel)).loops.mpr revisits, loops,
    (followed _ "Key" (by decide +kernel)).finite.mpr ⟨2, ended⟩, ended,
    r, built, known _, listed, lowered _ listed⟩

end Registry

end ThriftCatalog
