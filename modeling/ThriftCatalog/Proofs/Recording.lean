import Mathlib.Data.List.Induction
import ThriftCatalog.Proofs.Collection

/-! Calls on one class set, whether they succeed or fail. However they mix, each recorded class stands after everything
that its fields mention, and what was recorded stays as it is. Without a conflict the calls record the classes that
occur in their arguments, so their order and number do not matter. -/
namespace ThriftCatalog

open TypeInfo

/-- Each class stands after all classes that its fields mention. -/
def PartsFirst (cs : List ClassInfo) : Prop :=
  ∀ before c after, cs = before ++ c :: after → ∀ d : ClassInfo, c.Mentions d.toType → d ∈ before

namespace PartsFirst

variable {α : Type} {cs ds : List ClassInfo} {c : ClassInfo}

theorem nil : PartsFirst [] := by
  intro before c after split
  simp at split

theorem concat_iff : PartsFirst (cs ++ [c]) ↔ PartsFirst cs ∧ ∀ d : ClassInfo, c.Mentions d.toType → d ∈ cs := by
  constructor
  · intro ordered
    refine ⟨fun before b after split => ?_, ordered cs c [] rfl⟩
    exact ordered before b (after ++ [c]) (by simp [split])
  · rintro ⟨ordered, inside⟩ before b after split
    rcases List.eq_nil_or_concat' after with rfl | ⟨after, last, rfl⟩
    · obtain ⟨rfl, same⟩ := List.append_inj' split rfl
      cases same
      exact inside
    · rw [← List.cons_append, ← List.append_assoc] at split
      exact ordered before b after (List.append_inj' split rfl).1

theorem append (first : PartsFirst cs) (second : PartsFirst ds) : PartsFirst (cs ++ ds) := by
  induction ds using List.reverseRecOn with
  | nil => rwa [List.append_nil]
  | append_singleton ds c ih =>
    obtain ⟨second, inside⟩ := concat_iff.mp second
    rw [← List.append_assoc]
    exact concat_iff.mpr ⟨ih second, fun d mentions => List.mem_append_right _ (inside d mentions)⟩

theorem flatMap {f : α → List ClassInfo} {xs : List α} (each : ∀ x ∈ xs, PartsFirst (f x)) :
    PartsFirst (xs.flatMap f) := by
  induction xs with
  | nil => exact nil
  | cons x xs ih =>
    rw [List.flatMap_cons]
    exact (each x List.mem_cons_self).append (ih fun y mem => each y (List.mem_cons_of_mem _ mem))

end PartsFirst

/-- The classes in a tree are listed parts before wholes. -/
theorem TypeInfo.classes_partsFirst (t : TypeInfo) : PartsFirst t.classes := by
  induction t using part_induction with
  | step t ih =>
    have own (c : ClassInfo) (same : c.toType = t) : PartsFirst t.classes := by
      subst same
      rw [c.classes_toType]
      refine PartsFirst.concat_iff.mpr ⟨PartsFirst.flatMap fun f mem => ?_, ?_⟩
      · exact ih _ (ClassInfo.part_iff.mpr ⟨f, mem, rfl⟩)
      · rintro d ⟨f, mem, occurs⟩
        exact List.mem_flatMap.mpr ⟨f, mem, mem_classes.mpr occurs⟩
    cases t with
    | struct r => exact own (.struct r) rfl
    | enum e => exact own (.enum e) rfl
    | exception r => exact own (.exception r) rfl
    | list e => exact ih e .listElement
    | set e => exact ih e .setElement
    | map k v => exact (ih k .mapKey).append (ih v .mapValue)
    | void | bool | i8 | i16 | i32 | i64 | double | string | binary | unresolved => exact .nil

theorem FunctionInfo.classes_partsFirst (f : FunctionInfo) : PartsFirst f.classes := by
  have parameters : PartsFirst (classesOfFields f.parameters) := by
    rw [classesOfFields_eq]
    exact PartsFirst.flatMap fun p _ => p.type.classes_partsFirst
  have exceptions : PartsFirst (f.exceptions.flatMap fun e => (TypeInfo.exception e).classes) :=
    PartsFirst.flatMap fun e _ => TypeInfo.classes_partsFirst _
  exact (f.returnType.classes_partsFirst.append parameters).append exceptions

namespace ClassSet

variable {s s' : ClassSet} {name : String} {c : ClassInfo} {entries : List (String × ClassInfo)} {cs : List ClassInfo}

/-- Recording appends at most. -/
theorem insert?_entries (recorded : s.insert? name c = some s') :
    s' = s ∨ s'.table.entries = s.table.entries ++ [(name, c)] := by
  unfold insert? at recorded
  split at recorded
  · next absent =>
    cases recorded
    exact .inr (Table.entries_insert (Table.get?_eq_none.mp absent))
  · split at recorded
    · exact .inl (Option.some.inj recorded).symm
    · contradiction

theorem insertAll_appends : s.table.entries <+: (s.insertAll entries).1.table.entries := by
  induction entries generalizing s with
  | nil => exact List.prefix_rfl
  | cons entry rest ih =>
    simp only [insertAll]
    split
    · next middle recorded =>
      rcases insert?_entries recorded with rfl | appended
      · exact ih
      · exact (appended ▸ List.prefix_append _ _).trans ih
    · exact List.prefix_rfl

/-- Each class is recorded under its own name, after everything that its fields mention. -/
structure Closed (s : ClassSet) : Prop where
  named : ∀ name c, s.get? name = some c → c.name = name
  partsFirst : PartsFirst s.table.values

theorem empty_closed : (∅ : ClassSet).Closed where
  named := fun _ _ none => by simp at none
  partsFirst := .nil

/-- A set stays closed when a class is recorded whose parts are recorded. -/
theorem Closed.insert? (closed : s.Closed) (inside : ∀ d : ClassInfo, c.Mentions d.toType → s.get? d.name = some d)
    (recorded : s.insert? c.name c = some s') : s'.Closed := by
  constructor
  case named =>
    intro name d found
    rw [(insert?_eq_some recorded).2] at found
    split at found
    · next here =>
      cases found
      exact here.symm
    · exact closed.named name d found
  case partsFirst =>
    rcases insert?_entries recorded with rfl | appended
    · exact closed.partsFirst
    · have values : s'.table.values = s.table.values ++ [c] := by simp [Table.values, appended]
      rw [values]
      refine PartsFirst.concat_iff.mpr ⟨closed.partsFirst, fun d mentions => ?_⟩
      exact Table.mem_values.mpr ⟨d.name, inside d mentions⟩

/-- A collection that ends with a conflict leaves behind what came before the conflict, so it keeps a set closed too. -/
theorem Closed.collectAll (closed : s.Closed) (passed : List ClassInfo) (ordered : PartsFirst (passed ++ cs))
    (recorded : ∀ d ∈ passed, s.get? d.name = some d) : (s.collectAll cs).1.Closed := by
  -- Along the classes that arrive; those that have passed are recorded, and parts have passed before wholes arrive.
  induction cs generalizing s passed with
  | nil => exact closed
  | cons c cs ih =>
    have inside (d : ClassInfo) (mentions : c.Mentions d.toType) : s.get? d.name = some d :=
      recorded d (ordered passed c cs rfl d mentions)
    simp only [ClassSet.collectAll, List.map_cons, insertAll]
    split
    · next middle inserted =>
      refine ih (closed.insert? inside inserted) (passed ++ [c]) (by simpa using ordered) fun d mem => ?_
      obtain ⟨free, finds⟩ := insert?_eq_some inserted
      rw [finds]
      rcases List.mem_append.mp mem with mem | mem
      · have found := recorded d mem
        split
        · next same =>
          rw [same] at found
          rcases free with absent | held
          · cases absent.symm.trans found
          · exact held.symm.trans found
        · exact found
      · obtain rfl := List.mem_singleton.mp mem
        exact if_pos rfl
    · exact closed

inductive Call where
  | type (t : TypeInfo)
  | exception (e : RecordInfo)
  | function (f : FunctionInfo)

namespace Call

/-- The set after the call, and the name of the conflict if the call fails. -/
def run (s : ClassSet) : Call → ClassSet × Option String
  | type t => s.collect t
  | exception e => s.collectException e
  | function f => s.collectFunction f

def Mentions : Call → TypeInfo → Prop
  | type t, u => Occurs u t
  | exception e, u => Occurs u (.exception e)
  | function f, u => f.Mentions u

def classes : Call → List ClassInfo
  | type t => t.classes
  | exception e => (TypeInfo.exception e).classes
  | function f => f.classes

theorem run_eq (call : Call) : call.run s = s.collectAll call.classes := by
  cases call <;> rfl

theorem mem_classes {call : Call} : c ∈ call.classes ↔ call.Mentions c.toType := by
  cases call with
  | type | exception => exact TypeInfo.mem_classes
  | function => exact FunctionInfo.mem_classes

theorem classes_partsFirst (call : Call) : PartsFirst call.classes := by
  cases call with
  | type | exception => exact TypeInfo.classes_partsFirst _
  | function f => exact f.classes_partsFirst

end Call

/-- Makes the calls one after the other, also after a failure. How each of them ended is the second component. -/
def runAll (s : ClassSet) : List Call → ClassSet × List (Option String)
  | [] => (s, [])
  | call :: calls =>
    let (s, ended) := call.run s
    let (s, rest) := s.runAll calls
    (s, ended :: rest)

def Succeed (calls : List Call) : Prop := ∀ ended ∈ ((∅ : ClassSet).runAll calls).2, ended = none

def Mentioned (calls : List Call) (c : ClassInfo) : Prop := ∃ call ∈ calls, call.Mentions c.toType

section

variable {calls later : List Call}

theorem runAll_cons {call : Call} : (s.runAll (call :: calls)).1 = ((call.run s).1.runAll calls).1 := rfl

theorem runAll_append : (s.runAll (calls ++ later)).1 = ((s.runAll calls).1.runAll later).1 := by
  induction calls generalizing s with
  | nil => rfl
  | cons call calls ih => exact ih

theorem runAll_appends : s.table.entries <+: (s.runAll calls).1.table.entries := by
  induction calls generalizing s with
  | nil => exact List.prefix_rfl
  | cons call calls ih =>
    have first : s.table.entries <+: (call.run s).1.table.entries := call.run_eq ▸ insertAll_appends
    exact first.trans ih

theorem Closed.runAll (closed : s.Closed) : (s.runAll calls).1.Closed := by
  induction calls generalizing s with
  | nil => exact closed
  | cons call calls ih =>
    have first : (call.run s).1.Closed := by
      rw [call.run_eq]
      exact closed.collectAll [] call.classes_partsFirst (List.forall_mem_nil _)
    exact ih first

/-- Calls that all succeed collect the classes of all arguments. -/
theorem runAll_eq_collectAll : (s.runAll calls).1 = s' ∧ (∀ ended ∈ (s.runAll calls).2, ended = none) ↔
    s.collectAll (calls.flatMap Call.classes) = (s', none) := by
  induction calls generalizing s with
  | nil => simp [runAll, ClassSet.collectAll, insertAll]
  | cons call calls ih =>
    have ends : (s.runAll (call :: calls)).2 = (call.run s).2 :: ((call.run s).1.runAll calls).2 := rfl
    rw [runAll_cons, ends, List.forall_mem_cons, List.flatMap_cons, collectAll_append, ← call.run_eq]
    constructor
    · rintro ⟨reached, first, rest⟩
      exact ⟨(call.run s).1, Prod.ext rfl first, ih.mp ⟨reached, rest⟩⟩
    · rintro ⟨middle, first, rest⟩
      rw [first]
      obtain ⟨reached, rest⟩ := ih.mpr rest
      exact ⟨reached, rfl, rest⟩

theorem mem_flatMap_classes : c ∈ calls.flatMap Call.classes ↔ Mentioned calls c := by
  rw [List.mem_flatMap]
  exact exists_congr fun call => and_congr_right fun _ => Call.mem_classes

theorem runAll_get? (succeed : Succeed calls) :
    ((∅ : ClassSet).runAll calls).1.get? name = some c ↔ c.name = name ∧ Mentioned calls c := by
  rw [collectAll_get? (runAll_eq_collectAll.mp ⟨rfl, succeed⟩), mem_flatMap_classes]
  simp [and_comm]

/-- A sequence of calls succeeds exactly if no name has two definitions among the classes in the arguments. -/
theorem succeed_iff : Succeed calls ↔ ∀ c d, Mentioned calls c → Mentioned calls d → c.name = d.name → c = d := by
  constructor
  · intro succeed c d mentioned mentioned' same
    have found := (runAll_get? succeed).mpr ⟨same, mentioned⟩
    have found' := (runAll_get? succeed).mpr ⟨rfl, mentioned'⟩
    exact Option.some.inj (found.symm.trans found')
  · intro unique
    have one : ∀ n c d, c.name = n ∧ Mentioned calls c → d.name = n ∧ Mentioned calls d → c = d := by
      rintro n c d ⟨here, mentioned⟩ ⟨there, mentioned'⟩
      exact unique c d mentioned mentioned' (here.trans there.symm)
    have arriving : ∀ c ∈ calls.flatMap Call.classes, c.name = c.name ∧ Mentioned calls c := by
      intro c mem
      exact ⟨rfl, mem_flatMap_classes.mp mem⟩
    obtain ⟨s', collected⟩ := collectAll_of_unique (s := ∅) one (fun _ _ none => by simp at none) arriving
    exact (runAll_eq_collectAll.mpr collected).2

end

/-- Calls on an empty set unite the classes in their arguments. They all succeed exactly if these have one definition
for each name, and then the sorted table holds these and no others. Which calls there are decides this, not how often
and in which order they are made. -/
theorem runAll_unites (calls : List Call) :
    (Succeed calls ↔ ∀ c d, Mentioned calls c → Mentioned calls d → c.name = d.name → c = d) ∧
    (Succeed calls → ((∅ : ClassSet).runAll calls).1.sorted.keys.Pairwise (· < ·) ∧ ∀ name c,
      ((∅ : ClassSet).runAll calls).1.sorted.get? name = some c ↔ c.name = name ∧ Mentioned calls c) ∧
    ∀ calls', (∀ call, call ∈ calls' ↔ call ∈ calls) → (Succeed calls' ↔ Succeed calls) ∧
      (Succeed calls → ((∅ : ClassSet).runAll calls').1.sorted = ((∅ : ClassSet).runAll calls).1.sorted) := by
  refine ⟨succeed_iff, fun succeed => ⟨Table.keys_sorted_ascending, fun name c => ?_⟩, fun calls' same => ?_⟩
  · rw [get?_sorted, runAll_get? succeed]
  · have mentioned (c : ClassInfo) : Mentioned calls' c ↔ Mentioned calls c :=
      exists_congr fun call => and_congr_left fun _ => same call
    have alike : Succeed calls' ↔ Succeed calls := by simp only [succeed_iff, mentioned]
    refine ⟨alike, fun succeed => Table.sorted_congr fun name => Option.ext fun c => ?_⟩
    exact (runAll_get? (alike.mpr succeed)).trans
      ((and_congr_right fun _ => mentioned c).trans (runAll_get? succeed).symm)

def sizeEnum : EnumInfo where
  name := "Size"
  constants := ["SMALL", "LARGE"]

def lineRecord : RecordInfo where
  name := "Line"
  fields := [{ name := "size", requirement := .default, type := .enum sizeEnum }]

theorem lineRecord_united :
    Succeed [.exception lineRecord, .type (.enum sizeEnum)] ∧
    (∀ c ∈ [ClassInfo.exception lineRecord, .enum sizeEnum],
      ((∅ : ClassSet).runAll [.exception lineRecord, .type (.enum sizeEnum)]).1.sorted.get? c.name = some c) ∧
    Succeed [.type (.enum sizeEnum), .exception lineRecord, .type (.enum sizeEnum)] ∧
    ((∅ : ClassSet).runAll [.type (.enum sizeEnum), .exception lineRecord, .type (.enum sizeEnum)]).1.sorted =
      ((∅ : ClassSet).runAll [.exception lineRecord, .type (.enum sizeEnum)]).1.sorted := by
  have succeed : Succeed [.exception lineRecord, .type (.enum sizeEnum)] := by
    unfold Succeed
    decide
  obtain ⟨-, united, reordered⟩ := runAll_unites [.exception lineRecord, .type (.enum sizeEnum)]
  have held : ∀ c ∈ [ClassInfo.exception lineRecord, .enum sizeEnum],
      ((∅ : ClassSet).runAll [.exception lineRecord, .type (.enum sizeEnum)]).1.sorted.get? c.name = some c := by
    simp only [List.forall_mem_cons]
    refine ⟨?_, ?_, List.forall_mem_nil _⟩ <;> refine ((united succeed).2 _ _).mpr ⟨rfl, ?_⟩
    · exact ⟨.exception lineRecord, List.mem_cons_self, .refl⟩
    · exact ⟨.type (.enum sizeEnum), List.mem_cons_of_mem _ List.mem_cons_self, .refl⟩
  obtain ⟨alike, same⟩ := reordered [.type (.enum sizeEnum), .exception lineRecord, .type (.enum sizeEnum)]
    fun call => by simp only [List.mem_cons, List.not_mem_nil]; tauto
  exact ⟨succeed, held, alike.mpr succeed, same succeed⟩

/-- A struct around another one of its own name conflicts with it. -/
example : ((∅ : ClassSet).runAll [.type (.struct { lineRecord with
    fields := [{ name := "inner", requirement := .default, type := .struct lineRecord }] })]).2 = [some "Line"] := by
  decide

/-- A class set stays closed whatever calls are made, also where some of them fail midway, and later calls change
nothing that was recorded. -/
theorem runAll_closed (calls later : List Call) :
    ((∅ : ClassSet).runAll calls).1.Closed ∧
      ((∅ : ClassSet).runAll calls).1.table.entries <+:
        ((∅ : ClassSet).runAll (calls ++ later)).1.table.entries := by
  refine ⟨empty_closed.runAll, ?_⟩
  rw [runAll_append]
  exact runAll_appends

/-- The second call fails at the other size, and what it recorded until then stays. -/
example : (fun (held, ended) => (held.table.keys, ended)) ((∅ : ClassSet).runAll [.type (.enum sizeEnum),
    .type (.map (.exception lineRecord) (.list (.enum { sizeEnum with constants := [] }))), .type (.list .i32)]) =
      (["Size", "Line"], [none, some "Size", none]) := by
  decide

end ClassSet

end ThriftCatalog
