import Mathlib.Logic.Relation
import ThriftCatalog.Proofs.Validation

/-! Chains of aliases as a relation. All aliases can be followed to an end exactly if no chain comes back to where it
began, a chain has one end only, and a type denotes the exception that its chain leads to. -/
namespace ThriftCatalog.Definitions

open Relation Fallible

variable {d : Definitions} {a b c name start current last last' x : String} {unseen : List String}
  {type target target' : TypeExpr}

/-- The first name is an alias that stands for the second name. -/
def Leads (d : Definitions) (a b : String) : Prop := d.aliases.get? a = some (.named b)

def Ends (d : Definitions) (last : String) (target : TypeExpr) : Prop :=
  d.aliases.get? last = some target ∧ ∀ next, target = .named next → next ∉ d.aliases.keys

theorem leads_rightUnique : Relator.RightUnique d.Leads := by
  intro a b c first second
  cases first.symm.trans second
  rfl

theorem Leads.mem (leads : d.Leads a b) : a ∈ d.aliases.keys := Table.mem_keys.mpr ⟨_, leads⟩

theorem Ends.mem (ends : d.Ends last target) : last ∈ d.aliases.keys := Table.mem_keys.mpr ⟨_, ends.1⟩

theorem eq_of_not_mem (other : a ∉ d.aliases.keys) (chain : ReflTransGen d.Leads a b) : b = a := by
  rcases ReflTransGen.cases_head chain with rfl | ⟨c, leads, -⟩
  · rfl
  · exact absurd leads.mem other

/-- Beyond the last alias of a chain there is only the name that it stands for. -/
theorem Ends.beyond (ends : d.Ends last target) (chain : ReflTransGen d.Leads last b) :
    b = last ∨ target = .named b := by
  rcases ReflTransGen.cases_head chain with rfl | ⟨c, leads, rest⟩
  · exact .inl rfl
  · obtain rfl : target = .named c := Option.some.inj (ends.1.symm.trans leads)
    rw [eq_of_not_mem (ends.2 c rfl) rest]
    exact .inr rfl

theorem Ends.unique (first : ReflTransGen d.Leads a last) (ends : d.Ends last target)
    (second : ReflTransGen d.Leads a last') (ends' : d.Ends last' target') : target = target' := by
  have same (chain : ReflTransGen d.Leads last last') : last' = last := by
    rcases ends.beyond chain with same | beyond
    · exact same
    · exact absurd ends'.mem (ends.2 last' beyond)
  have same' (chain : ReflTransGen d.Leads last' last) : last' = last := by
    rcases ends'.beyond chain with same | beyond
    · exact same.symm
    · exact absurd ends.mem (ends'.2 last beyond)
  obtain rfl : last' = last := (ReflTransGen.total_of_right_unique leads_rightUnique first second).elim same same'
  exact Option.some.inj (ends.1.symm.trans ends'.1)

/-- A chain that ends nowhere comes back to where it began. -/
theorem Ends.acyclic (chain : ReflTransGen d.Leads a last) (ends : d.Ends last target) : ¬ TransGen d.Leads a a := by
  induction chain using ReflTransGen.head_induction_on with
  | refl =>
    intro cycle
    obtain ⟨b, leads, back⟩ := TransGen.head'_iff.mp cycle
    have other : b ∉ d.aliases.keys := ends.2 b (Option.some.inj (ends.1.symm.trans leads))
    rw [← eq_of_not_mem other back] at other
    exact other ends.mem
  | @head a b leads _ ih =>
    intro cycle
    obtain ⟨c, leads', back⟩ := TransGen.head'_iff.mp cycle
    obtain rfl := leads_rightUnique leads leads'
    exact ih (.tail' back leads)

/-- A search along a chain that ends with an answer after looking at so many names. -/
inductive Follows (d : Definitions) (start : String) :
    Nat → List String → String → Except RegistryError TypeExpr → Prop where
  | missing {unseen : List String} {current : String} : current ∉ d.aliases.keys →
      Follows d start 1 unseen current (.error (.undefinedType current start))
  | again {unseen : List String} {current : String} : current ∈ d.aliases.keys → current ∉ unseen →
      Follows d start 1 unseen current (.error (.aliasCycle start))
  | found {unseen : List String} {current : String} {target : TypeExpr} : current ∈ unseen → d.Ends current target →
      Follows d start 1 unseen current (.ok target)
  | further {unseen : List String} {current next : String} {looks : Nat} {answer : Except RegistryError TypeExpr} :
      current ∈ unseen → d.Leads current next → next ∈ d.aliases.keys →
      Follows d start looks (unseen.erase current) next answer → Follows d start (looks + 1) unseen current answer

/-- Each look but the last takes one name away from those that were not met. -/
theorem follow_follows (d : Definitions) (start : String) (unseen : List String) (current : String) :
    ∃ looks ≤ unseen.length + 1, d.Follows start looks unseen current (d.follow start unseen current) := by
  induction unseen, current using follow.induct d with
  | case1 unseen current none =>
    rw [follow, none]
    exact ⟨1, Nat.le_add_left 1 _, .missing (Table.get?_eq_none.mp none)⟩
  | case2 unseen current new next more found ih =>
    obtain ⟨looks, few, further⟩ := ih
    rw [follow, found]
    dsimp only
    rw [dif_pos new, if_pos more]
    refine ⟨looks + 1, ?_, .further new found (Table.contains_iff.mp more) further⟩
    have := length_erase_lt new
    omega
  | case3 unseen current new next stop found =>
    rw [follow, found]
    dsimp only
    rw [dif_pos new, if_neg stop]
    refine ⟨1, Nat.le_add_left 1 _, .found new ⟨found, fun name same => ?_⟩⟩
    cases same
    rwa [← Table.contains_iff]
  | case4 unseen current other found new plain =>
    rw [follow, found]
    dsimp only
    rw [dif_pos new]
    refine ⟨1, Nat.le_add_left 1 _, ?_⟩
    split
    · next next => exact absurd rfl (plain next)
    · exact .found new ⟨found, fun name same => absurd same (plain name)⟩
  | case5 unseen current other found old =>
    rw [follow, found]
    dsimp only
    rw [dif_neg old]
    exact ⟨1, Nat.le_add_left 1 _, .again (Table.mem_keys.mpr ⟨other, found⟩) old⟩

/-- What following an alias finds is the end of its chain. -/
theorem follow_ends (h : d.follow start unseen current = .ok target) :
    ∃ last, ReflTransGen d.Leads current last ∧ d.Ends last target := by
  obtain ⟨looks, -, follows⟩ := follow_follows d start unseen current
  rw [h] at follows
  clear h
  generalize found : Except.ok target = answer at follows
  induction follows with
  | missing | again => contradiction
  | found _ ends =>
    cases found
    exact ⟨_, .refl, ends⟩
  | further _ leads _ _ ih =>
    obtain ⟨last, chain, ends⟩ := ih found
    exact ⟨last, .head leads chain, ends⟩

/-- Where no chain comes back to its beginning, following goes on past unseen aliases to an end. All aliases that are no
longer unseen lead to the one that is followed. -/
theorem follow_isOk (acyclic : ∀ name, ¬ TransGen d.Leads name name) (mem : current ∈ d.aliases.keys)
    (met : ∀ a ∈ d.aliases.keys, a ∈ unseen ∨ TransGen d.Leads a current) :
    ∃ target, d.follow start unseen current = .ok target := by
  obtain ⟨looks, -, follows⟩ := follow_follows d start unseen current
  generalize d.follow start unseen current = answer at follows
  induction follows with
  | missing other => exact absurd mem other
  | again _ old => exact absurd ((met _ mem).resolve_left old) (acyclic _)
  | found => exact ⟨_, rfl⟩
  | @further unseen current next looks answer new leads more _ ih =>
    apply ih more
    intro a listed
    by_cases here : a = current
    · exact .inr (here ▸ .single leads)
    · exact (met a listed).imp (List.mem_erase_of_ne here).mpr fun chain => chain.tail leads

theorem aliasTarget_ends (h : d.aliasTarget name = .ok target) :
    ∃ last, ReflTransGen d.Leads name last ∧ d.Ends last target := follow_ends h

theorem aliasTarget_of_not_mem (other : name ∉ d.aliases.keys) :
    d.aliasTarget name = .error (.undefinedType name name) := by
  rw [aliasTarget, follow, Table.get?_eq_none.mpr other]

/-- Where all chains end, an alias stands for what is found at the end of its chain. -/
theorem aliasTarget_eq_ok (chains : ∀ name ∈ d.aliases.keys, ∃ target, d.aliasTarget name = .ok target) :
    d.aliasTarget name = .ok target ↔ ∃ last, ReflTransGen d.Leads name last ∧ d.Ends last target := by
  refine ⟨aliasTarget_ends, fun ⟨last, chain, ends⟩ => ?_⟩
  have mem : name ∈ d.aliases.keys := by
    rcases ReflTransGen.cases_head chain with rfl | ⟨next, leads, -⟩
    · exact ends.mem
    · exact leads.mem
  obtain ⟨target', found⟩ := chains name mem
  obtain ⟨last', chain', ends'⟩ := aliasTarget_ends found
  rw [found, Ends.unique chain ends chain' ends']

/-- All chains of aliases end exactly if none of them loops. -/
theorem chains_iff_acyclic :
    (∀ name ∈ d.aliases.keys, ∃ target, d.aliasTarget name = .ok target) ↔ ∀ name, ¬ TransGen d.Leads name name := by
  constructor
  · intro chains name cycle
    obtain ⟨b, leads, -⟩ := TransGen.head'_iff.mp cycle
    obtain ⟨target, found⟩ := chains name leads.mem
    obtain ⟨last, chain, ends⟩ := aliasTarget_ends found
    exact ends.acyclic chain cycle
  · intro acyclic name mem
    exact follow_isOk acyclic mem fun a listed => .inl listed

theorem asException_eq_some : d.asException type = some x ↔ type = .named x ∧ x ∈ d.exceptions.keys := by
  cases type with
  | named name =>
    rw [asException, ← Table.contains_iff]
    split
    · next known =>
      simp only [Option.some.injEq, TypeExpr.named.injEq, iff_self_and]
      rintro rfl
      exact known
    · next unknown =>
      simp only [reduceCtorEq, false_iff, not_and, TypeExpr.named.injEq]
      rintro rfl
      exact unknown
  | base | list | set | map => simp [asException]

/-- A type denotes an exception if it is its name or an alias whose chain leads there. -/
theorem exceptionName_iff (chains : ∀ name ∈ d.aliases.keys, ∃ target, d.aliasTarget name = .ok target)
    (apart : ∀ name ∈ d.exceptions.keys, name ∉ d.aliases.keys) :
    d.exceptionName type = .ok (some x) ↔
      ∃ name, type = .named name ∧ ReflTransGen d.Leads name x ∧ x ∈ d.exceptions.keys := by
  rw [exceptionName_eq, map_eq_ok]
  simp only [asException_eq_some]
  constructor
  · rintro ⟨target, ended, rfl, exception⟩
    cases type with
    | named name =>
      refine ⟨name, rfl, ?_, exception⟩
      rw [chainEnd] at ended
      split at ended
      · obtain ⟨last, chain, ends⟩ := aliasTarget_ends ended
        exact chain.tail ends.1
      · cases ended
        exact .refl
    | base | list | set | map => cases ended
  · rintro ⟨name, rfl, chain, exception⟩
    have other := apart x exception
    refine ⟨.named x, ?_, rfl, exception⟩
    rw [chainEnd]
    split
    · next known =>
      rcases ReflTransGen.cases_tail chain with rfl | ⟨last, chain, leads⟩
      · exact absurd (Table.contains_iff.mp known) other
      · refine (aliasTarget_eq_ok chains).mpr ⟨last, chain, leads, fun next same => ?_⟩
        cases same
        exact other
    · next unknown =>
      rw [Table.contains_iff] at unknown
      rw [eq_of_not_mem unknown chain]

end ThriftCatalog.Definitions
