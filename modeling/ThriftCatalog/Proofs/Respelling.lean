import ThriftCatalog.Proofs.AliasChain
import ThriftCatalog.Proofs.Consistency

/-! What a method returns and throws may be spelled as an alias or as the type at the end of its chain. The checks do
not tell these apart, except that a oneway method has to return void by this name. -/
namespace ThriftCatalog

open Fallible

/-- Where a method says what comes back from it. -/
inductive AnswerPlace where
  | returned
  | thrown (index : Nat)
deriving DecidableEq

namespace MethodDecl

def answer? (m : MethodDecl) : AnswerPlace → Option TypeExpr
  | .returned => some m.returns
  | .thrown i => m.throws[i]?.map (·.type)

def respell (m : MethodDecl) (type : TypeExpr) : AnswerPlace → MethodDecl
  | .returned => { m with returns := type }
  | .thrown i => { m with throws := m.throws.modify i fun f => { f with type } }

end MethodDecl

/-- What holds of all values holds of all after one is replaced, up to what the other makes of it. -/
theorem Table.forall_insert {α : Type} {t : Table α} {key : String} {v w : α} {P : α → Prop} {q : Prop}
    (found : t.get? key = some v) (changed : P v ↔ P w ∧ q) :
    (∀ name x, t.get? name = some x → P x) ↔ (∀ name x, (t.insert key w).get? name = some x → P x) ∧ q := by
  constructor
  · intro all
    obtain ⟨here, other⟩ := changed.mp (all key v found)
    refine ⟨fun name x held => ?_, other⟩
    rw [get?_insert] at held
    split at held
    · cases held
      exact here
    · exact all name x held
  · rintro ⟨all, other⟩ name x held
    by_cases same : name = key
    · subst same
      cases found.symm.trans held
      exact changed.mpr ⟨all name w (by rw [get?_insert, if_pos rfl]), other⟩
    · exact all name x (by rw [get?_insert, if_neg same, held])

namespace Definitions

/-- The definitions with another type at a place of one method of a service. -/
def respell (d : Definitions) (service : String) (index : Nat) (place : AnswerPlace) (type : TypeExpr) : Definitions :=
  let methods := (d.services.get? service).getD []
  { d with services := d.services.insert service (methods.modify index fun m => m.respell type place) }

variable {d d' : Definitions} {name service start current : String} {index : Nat} {unseen : List String}
  {m : MethodDecl} {methods : List MethodDecl} {place : AnswerPlace} {type target : TypeExpr}

/-- What holds of all members holds of all after one is changed, up to what the change makes of it. -/
theorem forall_modify {α : Type} {P : α → Prop} {q : Prop} {f : α → α} {xs : List α} {i : Nat} {x : α}
    (listed : xs[i]? = some x) (changed : P x ↔ P (f x) ∧ q) :
    (∀ y ∈ xs, P y) ↔ (∀ y ∈ xs.modify i f, P y) ∧ q := by
  induction xs generalizing i with
  | nil => contradiction
  | cons y ys ih =>
    cases i with
    | zero =>
      cases listed
      rw [List.modify_zero_cons, List.forall_mem_cons, List.forall_mem_cons, changed]
      tauto
    | succ i =>
      rw [List.modify_succ_cons, List.forall_mem_cons, List.forall_mem_cons, ih listed, and_assoc]

theorem follow_congr (same : d'.aliases = d.aliases) :
    d'.follow start unseen current = d.follow start unseen current := by
  induction unseen, current using follow.induct d with
  | case1 unseen current none => rw [follow, follow, same, none]
  | case2 unseen current mem next more found ih =>
    rw [follow, follow, same, found]
    simp only [dif_pos mem, if_pos more, ih]
  | case3 unseen current mem next stop found =>
    rw [follow, follow, same, found]
    simp only [dif_pos mem, if_neg stop]
  | case4 unseen current other found mem plain =>
    rw [follow, follow, same, found]
    cases other <;> first | rfl | exact absurd rfl (plain _)
  | case5 unseen current other found old =>
    rw [follow, follow, same, found]
    simp only [dif_neg old]

theorem exceptionName_aliases (aliases : d'.aliases = d.aliases) (exceptions : d'.exceptions = d.exceptions) :
    d'.exceptionName type = d.exceptionName type := by
  refine exceptionName_congr ?_ fun name _ => by rw [exceptions]
  cases type with
  | named name => rw [chainEnd, chainEnd, aliases, aliasTarget, aliasTarget, aliases, follow_congr aliases]
  | base | list | set | map => rfl

theorem aliasTarget_mem (ended : d.aliasTarget name = .ok target) : name ∈ d.aliases.keys := by
  by_contra other
  rw [aliasTarget_of_not_mem other] at ended
  contradiction

/-- An alias denotes the exception that the end of its chain denotes. -/
theorem exceptionName_target (ended : d.aliasTarget name = .ok target) :
    d.exceptionName (.named name) = d.exceptionName target := by
  have first : d.chainEnd (.named name) = .ok target := by
    rw [chainEnd, if_pos (Table.contains_iff.mpr (aliasTarget_mem ended)), ended]
  have last : d.chainEnd target = .ok target := by
    obtain ⟨last, -, ends⟩ := aliasTarget_ends ended
    cases target with
    | named next => rw [chainEnd, if_neg (mt Table.contains_iff.mp (ends.2 next rfl))]
    | base | list | set | map => rfl
  rw [exceptionName_eq, exceptionName_eq, first, last]

/-- Both spellings mention only what is defined, if every alias stands for such a type. -/
theorem defined_target (aliased : ∀ name target, d.aliases.get? name = some target → d.Defined target)
    (ended : d.aliasTarget name = .ok target) : d.Defined (.named name) ∧ d.Defined target := by
  constructor
  · intro other mem
    obtain rfl := List.mem_singleton.mp mem
    exact kind?_isSome_iff.mpr (.inr (.inr (.inr (aliasTarget_mem ended))))
  · obtain ⟨last, -, ends⟩ := aliasTarget_ends ended
    exact aliased last target ends.1

/-- The type is the void that a oneway method returns. Where it is spelled as an alias, the checks refuse it. -/
def OnewayVoid (m : MethodDecl) (place : AnswerPlace) (target : TypeExpr) : Prop :=
  place = .returned ∧ m.oneway = true ∧ target = .base .void

theorem methodChecked_respell (aliased : ∀ name target, d.aliases.get? name = some target → d.Defined target)
    (spelled : m.answer? place = some (.named name)) (ended : d.aliasTarget name = .ok target) :
    d.MethodChecked m ↔ d.MethodChecked (m.respell target place) ∧ ¬ OnewayVoid m place target := by
  obtain ⟨known, known'⟩ := defined_target aliased ended
  cases place with
  | returned =>
    have returns : m.returns = .named name := Option.some.inj spelled
    constructor
    · rintro ⟨-, fields, throws, oneway⟩
      have answered : ¬ m.oneway = true := by
        intro one
        have void := (oneway one).1
        rw [returns] at void
        contradiction
      exact ⟨⟨known', fields, throws, fun one => absurd one answered⟩, fun ⟨_, one, _⟩ => answered one⟩
    · rintro ⟨⟨-, fields, throws, oneway⟩, other⟩
      have answered : ¬ m.oneway = true := fun one => other ⟨rfl, one, (oneway one).1⟩
      exact ⟨returns ▸ known, fields, throws, fun one => absurd one answered⟩
  | thrown i =>
    obtain ⟨f, listed, thrown⟩ := Option.map_eq_some_iff.mp spelled
    have fields : (∀ g ∈ m.throws, d.Defined g.type) ↔
        (∀ g ∈ (m.respell target (.thrown i)).throws, d.Defined g.type) ∧ True :=
      forall_modify listed (by rw [thrown]; exact ⟨fun _ => ⟨known', trivial⟩, fun _ => known⟩)
    have denoted : (∀ g ∈ m.throws, ∃ x, d.exceptionName g.type = .ok (some x)) ↔
        (∀ g ∈ (m.respell target (.thrown i)).throws, ∃ x, d.exceptionName g.type = .ok (some x)) ∧ True :=
      forall_modify listed (by rw [thrown, exceptionName_target ended, and_true])
    have silent : (m.respell target (.thrown i)).throws = [] ↔ m.throws = [] := List.modify_eq_nil_iff
    rw [and_true] at fields denoted
    constructor
    · rintro ⟨returns, defined, throws, oneway⟩
      obtain ⟨params, thrown⟩ := List.forall_mem_append.mp defined
      refine ⟨⟨returns, List.forall_mem_append.mpr ⟨params, fields.mp thrown⟩, denoted.mp throws, ?_⟩, nofun⟩
      exact fun one => (oneway one).imp_right silent.mpr
    · rintro ⟨⟨returns, defined, throws, oneway⟩, -⟩
      obtain ⟨params, thrown⟩ := List.forall_mem_append.mp defined
      refine ⟨returns, List.forall_mem_append.mpr ⟨params, fields.mpr thrown⟩, denoted.mpr throws, ?_⟩
      exact fun one => (oneway one).imp_right silent.mp

theorem aliasTarget_services {services : Table (List MethodDecl)} :
    { d with services }.aliasTarget name = d.aliasTarget name := follow_congr rfl

theorem methodChecked_services {services : Table (List MethodDecl)} :
    { d with services }.MethodChecked m ↔ d.MethodChecked m := by
  have denoted (type : TypeExpr) : { d with services }.exceptionName type = d.exceptionName type :=
    exceptionName_aliases rfl rfl
  constructor
  · rintro ⟨returns, fields, throws, oneway⟩
    exact ⟨returns, fields, by simpa only [denoted] using throws, oneway⟩
  · rintro ⟨returns, fields, throws, oneway⟩
    exact ⟨returns, fields, by simpa only [denoted] using throws, oneway⟩

theorem checked_respell (found : d.services.get? service = some methods) (listed : methods[index]? = some m)
    (spelled : m.answer? place = some (.named name)) (ended : d.aliasTarget name = .ok target) :
    d.Checked ↔ (d.respell service index place target).Checked ∧ ¬ OnewayVoid m place target := by
  rw [respell, found, Option.getD_some]
  have methods (aliased : ∀ name target, d.aliases.get? name = some target → d.Defined target) :=
    Table.forall_insert (P := fun ms => ∀ m ∈ ms, d.MethodChecked m) found <|
      forall_modify (f := fun m => m.respell target place) listed (methodChecked_respell aliased spelled ended)
  constructor
  · intro checked
    obtain ⟨changed, other⟩ := (methods checked.aliases).mp checked.methods
    refine ⟨⟨?_, checked.aliases, checked.structs, checked.exceptions, ?_⟩, other⟩
    · simpa only [aliasTarget_services] using checked.chains
    · simpa only [methodChecked_services] using changed
  · rintro ⟨checked, other⟩
    have changed := checked.methods
    simp only [methodChecked_services] at changed
    refine ⟨?_, checked.aliases, checked.structs, checked.exceptions, (methods checked.aliases).mpr ⟨changed, other⟩⟩
    simpa only [aliasTarget_services] using checked.chains

end Definitions

namespace Registry

open Definitions

variable {files : List RegistryFile} {d : Definitions} {service name : String} {index : Nat} {m : MethodDecl}
  {methods : List MethodDecl} {place : AnswerPlace} {target : TypeExpr}

theorem build_eq (added : (files.forM addFile).run ∅ = .ok ((), d)) : build files = ofDefinitions d := by
  rw [build, added]
  rfl

/-- Where a method spells what it returns or throws as an alias, the files are accepted exactly if they are with the
type at the end of its chain, unless that is the void that a oneway method returns. -/
theorem build_respelled (added : (files.forM addFile).run ∅ = .ok ((), d))
    (found : d.services.get? service = some methods) (listed : methods[index]? = some m)
    (spelled : m.answer? place = some (.named name)) (ended : d.aliasTarget name = .ok target) :
    (∃ r, build files = .ok r) ↔
      (∃ r, ofDefinitions (d.respell service index place target) = .ok r) ∧ ¬ OnewayVoid m place target := by
  rw [build_eq added, ofDefinitions_isOk, ofDefinitions_isOk]
  exact checked_respell found listed spelled ended

/-- A method that returns and throws something under other names. -/
def lookupFile : RegistryFile where
  services := .ofList [("S", { methods := [
    { name := "find", returns := "Key", throws := [{ name := "missing", type := "Missing" }] }] })]
  exceptions := .ofList [("NotFound", {})]
  typedefs := .ofList [("Key", "Id"), ("Id", "i64"), ("Missing", "NotFound")]

def lookupMethod : MethodDecl :=
  ⟨"find", [], .named "Key", [⟨"missing", .default, .named "Missing"⟩], false⟩

theorem lookup_facts : (fun added : Unit × Definitions => (added.2.services.get? "S", added.2.aliasTarget "Key",
      added.2.aliasTarget "Missing", added.2.check)) <$> ([lookupFile].forM addFile).run ∅ =
    .ok (some [lookupMethod], .ok (.base .i64), .ok (.named "NotFound"), .ok ()) := by decide +kernel

theorem lookup_respelled : ∃ d, ([lookupFile].forM addFile).run ∅ = .ok ((), d) ∧
    d.services.get? "S" = some [lookupMethod] ∧ d.aliasTarget "Key" = .ok (.base .i64) ∧
    d.aliasTarget "Missing" = .ok (.named "NotFound") ∧ (∃ r, build [lookupFile] = .ok r) ∧
    (∃ r, ofDefinitions (d.respell "S" 0 .returned (.base .i64)) = .ok r) ∧
    ∃ r, ofDefinitions (d.respell "S" 0 (.thrown 0) (.named "NotFound")) = .ok r := by
  obtain ⟨⟨⟨⟩, d⟩, added, facts⟩ := map_eq_ok.mp lookup_facts
  obtain ⟨found, key, missing, passed⟩ : _ ∧ _ ∧ _ ∧ _ := by simpa only [Prod.mk.injEq] using facts
  have built : ∃ r, build [lookupFile] = .ok r := by
    rw [build_eq added]
    exact ofDefinitions_isOk.mpr (check_eq_ok.mp passed)
  have first : [lookupMethod][0]? = some lookupMethod := rfl
  have returns : lookupMethod.answer? .returned = some (.named "Key") := rfl
  have throws : lookupMethod.answer? (.thrown 0) = some (.named "Missing") := rfl
  have returned := (build_respelled added found first returns key).mp built
  have thrown := (build_respelled added found first throws missing).mp built
  exact ⟨d, added, found, key, missing, built, returned.1, thrown.1⟩

/-- A oneway method that returns void by another name. -/
def fireFile : RegistryFile where
  services := .ofList [("S", { methods := [{ name := "fire", returns := "Nothing", oneway := true }] })]
  typedefs := .ofList [("Nothing", "void")]

def fireMethod : MethodDecl := ⟨"fire", [], .named "Nothing", [], true⟩

theorem fire_facts : (fun added : Unit × Definitions => (added.2.services.get? "S", added.2.aliasTarget "Nothing",
      added.2.check, (added.2.respell "S" 0 .returned (.base .void)).check)) <$> ([fireFile].forM addFile).run ∅ =
    .ok (some [fireMethod], .ok (.base .void), .error (.onewayAnswers "S.fire"), .ok ()) := by decide +kernel

/-- Not every type that is returned may be spelled as an alias. -/
theorem oneway_spelling_matters : ¬ ∀ files d service methods index m place name target,
    (files.forM addFile).run ∅ = .ok ((), d) → d.services.get? service = some methods → methods[index]? = some m →
      m.answer? place = some (.named name) → d.aliasTarget name = .ok target →
        ((∃ r, build files = .ok r) ↔ ∃ r, ofDefinitions (d.respell service index place target) = .ok r) := by
  intro claim
  obtain ⟨⟨⟨⟩, d⟩, added, facts⟩ := map_eq_ok.mp fire_facts
  obtain ⟨found, nothing, failed, passed⟩ : _ ∧ _ ∧ _ ∧ _ := by simpa only [Prod.mk.injEq] using facts
  have same := claim [fireFile] d "S" [fireMethod] 0 fireMethod .returned "Nothing" _ added found rfl rfl nothing
  have checked := ofDefinitions_isOk.mp (build_eq added ▸ same.mpr (ofDefinitions_isOk.mpr (check_eq_ok.mp passed)))
  rw [check_eq_ok.mpr checked] at failed
  contradiction

end Registry

end ThriftCatalog
