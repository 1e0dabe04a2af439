import Mathlib.Data.List.Chain
import ThriftCatalog.Proofs.Resolution

/-! The depth that is allowed. A tree comes out the same under every limit that its height fits in, and under a lower
one resolving ends because of the limit. What fails for another reason fails for the same reason under every higher
limit, and a type that expands without end fails under all of them. -/
namespace ThriftCatalog

open Fallible TypeInfo

/-- Chains of descriptors, each directly inside the one before, go down from here as far as one likes. -/
def Provider.Endless (p : Provider) (v : ValueDescriptor) : Prop :=
  ∀ depth, ∃ path, path.length = depth ∧ (v :: path).IsChain p.Unfolds

namespace Resolver

variable {α β : Type} {r : Resolver} {room more limit : Nat} {v : ValueDescriptor} {t : TypeInfo}

/-- Of two runs the first ends like the second, or because of its limit. -/
inductive CutShort (limit : Nat) (x y : Except GenerationError α) : Prop where
  | same : x = y → CutShort limit x y
  | tooDeep {context : String} : x = .error (.tooDeep context limit) → CutShort limit x y

namespace CutShort

variable {x y : Except GenerationError α}

theorem map (f : α → β) (first : CutShort limit x y) : CutShort limit (f <$> x) (f <$> y) := by
  cases first with
  | same alike => exact .same (congrArg _ alike)
  | tooDeep cut =>
    rw [cut]
    exact .tooDeep rfl

theorem bind {f g : α → Except GenerationError β} (first : CutShort limit x y)
    (next : ∀ a, CutShort limit (f a) (g a)) : CutShort limit (x >>= f) (y >>= g) := by
  cases first with
  | same alike =>
    rw [alike]
    cases y with
    | ok a => exact next a
    | error e => exact .same rfl
  | tooDeep cut =>
    rw [cut]
    exact .tooDeep rfl

theorem mapM {f g : α → Except GenerationError β} {xs : List α} (each : ∀ x, CutShort limit (f x) (g x)) :
    CutShort limit (xs.mapM f) (xs.mapM g) := by
  induction xs with
  | nil => exact .same rfl
  | cons x xs ih =>
    rw [List.mapM_cons, List.mapM_cons]
    exact (each x).bind fun _ => ih.bind fun _ => .same rfl

/-- The fields are resolved one after the other, so the first that goes too deep ends the record. -/
theorem recordBy {resolve other : ValueDescriptor → Except GenerationError TypeInfo}
    (each : ∀ v, CutShort limit (resolve v) (other v)) (name : String)
    (answered : Except LookupError (List FieldDescriptor)) :
    CutShort limit (r.recordBy resolve name answered) (r.recordBy other name answered) := by
  have field (f : FieldDescriptor) : CutShort limit (r.fieldBy resolve name f) (r.fieldBy other name f) :=
    (each f.value).bind fun _ => .same rfl
  exact bind (.same rfl) fun _ => (mapM field).bind fun _ => .same rfl

end CutShort

/-- In less room resolving ends as it does in more, or because of the limit. -/
theorem resolveAt_cutShort (wider : room ≤ more) (v : ValueDescriptor) :
    CutShort r.maxDepth (r.resolveAt room v) ({ r with maxDepth := limit }.resolveAt more v) := by
  -- What takes a level asks nothing before it, so both runs make the same steps until the room is used up.
  induction room generalizing more v with
  | zero =>
    cases v with
    | void | bool | byte | i16 | i32 | i64 | double | string | binary | enum | typedef =>
      cases more <;> exact .same rfl
    | struct | exception | list | set | map => exact .tooDeep rfl
  | succ room ih =>
    obtain ⟨more, rfl⟩ := Nat.exists_eq_add_of_le' (Nat.le_of_add_left_le wider)
    have part := ih (Nat.le_of_succ_le_succ wider)
    cases v with
    | void | bool | byte | i16 | i32 | i64 | double | string | binary | enum | typedef => exact .same rfl
    | struct name => exact (CutShort.recordBy part name (r.provider.structFields name)).map TypeInfo.struct
    | exception name => exact (CutShort.recordBy part name (r.provider.exceptionFields name)).map TypeInfo.exception
    | list e => exact (part e).map TypeInfo.list
    | set e => exact (part e).map TypeInfo.set
    | map k v => exact (part k).bind fun _ => (part v).bind fun _ => .same rfl

/-- A chain of descriptors is resolved to parts within parts. -/
theorem Resolves.chain_le_height {path : List ValueDescriptor} (h : r.Resolves v t)
    (chain : (v :: path).IsChain r.provider.Unfolds) : path.length ≤ t.height := by
  induction path generalizing v t with
  | nil => exact Nat.zero_le _
  | cons next path ih =>
    obtain ⟨inside, chain⟩ := List.isChain_cons_cons.mp chain
    obtain ⟨u, part, found⟩ := h.unfolds inside
    exact Nat.succ_le_of_lt (Nat.lt_of_le_of_lt (ih found chain) part.height_lt)

/-- What a limit does to a run that resolves a descriptor, or a field or record with its type. -/
structure Capped (p : Provider) (v : ValueDescriptor) (height : α → Nat) (run : Nat → Except GenerationError α) :
    Prop where
  /-- The limit is exact, and otherwise not to be seen. -/
  sharp : ∀ depth a, run depth = .ok a → ∀ limit, (height a ≤ limit → run limit = .ok a) ∧
    (limit < height a → ∃ context, run limit = .error (.tooDeep context limit))
  /-- A name that is not known, or has the tag of a type without one, is found under every higher limit. -/
  stands : ∀ depth e, run depth = .error e → (∀ context limit, e ≠ .tooDeep context limit) →
    ∀ limit, depth ≤ limit → run limit = .error e
  endless : p.Endless v → ∀ limit, ∃ e, run limit = .error e

theorem capped_map {p : Provider} {run : Nat → Except GenerationError α} {height : β → Nat} {f : α → β}
    (injective : Function.Injective f) :
    Capped p v height (fun limit => f <$> run limit) ↔ Capped p v (fun a => height (f a)) run := by
  have ok {limit : Nat} {a : α} : f <$> run limit = .ok (f a) ↔ run limit = .ok a := by
    rw [map_eq_ok]
    constructor
    · rintro ⟨other, made, same⟩
      exact injective same ▸ made
    · exact fun made => ⟨a, made, rfl⟩
  have error {limit : Nat} {e : GenerationError} : f <$> run limit = .error e ↔ run limit = .error e := by
    cases run limit <;> simp [Functor.map, Except.map]
  constructor
  · rintro ⟨sharp, stands, endless⟩
    simp only [error] at sharp stands endless
    refine ⟨fun depth a made limit => ?_, stands, endless⟩
    have sharp := sharp depth (f a) (ok.mpr made) limit
    rwa [ok] at sharp
  · rintro ⟨sharp, stands, endless⟩
    refine ⟨fun depth b built limit => ?_, ?_, ?_⟩
    · obtain ⟨a, made, rfl⟩ := map_eq_ok.mp built
      rw [ok]
      simp only [error]
      exact sharp depth a made limit
    · simpa only [error] using stands
    · simpa only [error] using endless

theorem resolve_capped (p : Provider) (docs : Table String) (v : ValueDescriptor) :
    Capped p v height fun limit => resolve ⟨p, docs, limit⟩ v := by
  constructor
  case sharp =>
    intro depth t found limit
    constructor
    · intro fits
      exact resolveAt_fits found fits
    · intro short
      have within : t.height ≤ depth := height_le_room found
      have cut : CutShort limit (resolve ⟨p, docs, limit⟩ v) (resolve ⟨p, docs, depth⟩ v) :=
        resolveAt_cutShort (r := ⟨p, docs, limit⟩) (Nat.le_of_lt (Nat.lt_of_lt_of_le short within)) v
      cases cut with
      | same alike => exact absurd (height_le_room (alike.trans found)) (Nat.not_le_of_lt short)
      | tooDeep cut => exact ⟨_, cut⟩
  case stands =>
    intro depth e failed other limit wider
    have cut : CutShort depth (resolve ⟨p, docs, depth⟩ v) (resolve ⟨p, docs, limit⟩ v) :=
      resolveAt_cutShort (r := ⟨p, docs, depth⟩) wider v
    cases cut with
    | same alike => exact alike.symm.trans failed
    | tooDeep cut => exact absurd (Except.error.inj (failed.symm.trans cut)) (other _ _)
  case endless =>
    intro endless limit
    cases made : resolve ⟨p, docs, limit⟩ v with
    | error e => exact ⟨e, rfl⟩
    | ok t =>
      obtain ⟨path, deep, chain⟩ := endless (t.height + 1)
      have bound : path.length ≤ t.height := Resolves.chain_le_height (r := ⟨p, docs, limit⟩) ⟨limit, made⟩ chain
      omega

end Resolver

open Resolver

/-- The limit on the depth is exact and otherwise not to be seen, whatever is resolved: a descriptor, a struct or
exception by its name, or a field. -/
theorem Provider.resolving_capped (p : Provider) (docs : Table String) :
    (∀ v, Capped p v height fun limit => resolve ⟨p, docs, limit⟩ v) ∧
    (∀ name, Capped p (.struct name) (fun record => (TypeInfo.struct record).height)
      fun limit => resolveStruct ⟨p, docs, limit⟩ name) ∧
    (∀ name, Capped p (.exception name) (fun record => (TypeInfo.exception record).height)
      fun limit => resolveException ⟨p, docs, limit⟩ name) ∧
    ∀ scope f, Capped p f.value (fun info => info.type.height)
      fun limit => resolveField ⟨p, docs, limit⟩ scope f := by
  refine ⟨resolve_capped p docs, fun name => ?_, fun name => ?_, fun scope f => ?_⟩
  · have whole := resolve_capped p docs (.struct name)
    simp only [resolve_struct] at whole
    exact (capped_map fun _ _ same => TypeInfo.struct.inj same).mp whole
  · have whole := resolve_capped p docs (.exception name)
    simp only [resolve_exception] at whole
    exact (capped_map fun _ _ same => TypeInfo.exception.inj same).mp whole
  · let field (t : TypeInfo) : FieldInfo := ⟨f.name, f.requirement, t, docs.get? (docKey scope f.name)⟩
    have within : (fun limit => resolveField ⟨p, docs, limit⟩ scope f) =
        fun limit => field <$> resolve ⟨p, docs, limit⟩ f.value := by
      funext limit
      show fieldBy _ _ _ _ = _
      rw [fieldBy]
      cases resolve ⟨p, docs, limit⟩ f.value <;> rfl
    rw [within]
    exact (capped_map fun _ _ same => (FieldOf.mk.inj same).2.2.1).mpr (resolve_capped p docs f.value)

/-- Every struct has one field, of its own type. -/
def loopProvider : Provider where
  methods := fun name => .error (.unavailable name)
  structFields := fun name => .ok [{ name := "next", value := .struct name }]
  exceptionFields := fun _ => .ok []
  enumConstants := fun name => .error (.unavailable name)

theorem loopProvider_endless (name : String) : loopProvider.Endless (.struct name) := by
  have inside : loopProvider.Unfolds (.struct name) (.struct name) :=
    .structField (f := { name := "next", value := .struct name }) rfl List.mem_cons_self
  intro depth
  refine ⟨List.replicate depth (.struct name), List.length_replicate, ?_⟩
  exact List.isChain_replicate_of_rel (depth + 1) inside

theorem loopProvider_capped :
    (∀ limit, ∃ e, resolveStruct ⟨loopProvider, ∅, limit⟩ "Loop" = .error e) ∧
    resolve ⟨loopProvider, ∅, 2⟩ (.list (.list .i32)) = .ok (.list (.list .i32)) ∧
    (∃ context, resolve ⟨loopProvider, ∅, 1⟩ (.list (.list .i32)) = .error (.tooDeep context 1)) ∧
    ∀ limit, 1 ≤ limit → resolve ⟨loopProvider, ∅, limit⟩ (.map (.enum "E") (.struct "Loop")) =
      .error (.lookup (.unavailable "E")) := by
  obtain ⟨values, structs, -, -⟩ := Provider.resolving_capped loopProvider ∅
  have nested : resolve ⟨loopProvider, ∅, 64⟩ (.list (.list .i32)) = .ok (.list (.list .i32)) := rfl
  have unknown : resolve ⟨loopProvider, ∅, 1⟩ (.map (.enum "E") (.struct "Loop")) =
      .error (.lookup (.unavailable "E")) := rfl
  refine ⟨(structs "Loop").endless (loopProvider_endless "Loop"), ?_, ?_, ?_⟩
  · exact ((values _).sharp 64 _ nested 2).1 (by decide)
  · exact ((values _).sharp 64 _ nested 1).2 (by decide)
  · exact (values _).stands 1 _ unknown (by simp)

end ThriftCatalog
