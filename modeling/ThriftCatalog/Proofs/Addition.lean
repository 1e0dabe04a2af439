import Mathlib.Logic.Relation
import ThriftCatalog.Proofs.Declaration

/-! Adding a file as a sequence of additions. Each gives a meaning to a name that had none, by types that nest no deeper
than a written type may, or files docs; nothing is ever changed or taken away. -/
namespace ThriftCatalog

open Relation Fallible

namespace TypeExpr

variable {room : Nat} {c last : Cursor} {e : TypeExpr}

theorem ofWord_nesting {w : String}
    (h : (match BaseType.ofWord? w with
      | some b => pure (base b, c)
      | none => pure (named w, c) : Except Fault (TypeExpr × Cursor)) = .ok (e, last)) : e.nesting = 0 := by
  split at h <;> cases pure_eq_ok.mp h <;> rfl

/-- Reading counts the containers it goes into. -/
theorem read_nesting (h : read room c = .ok (e, last)) : e.nesting ≤ room := by
  induction room generalizing c e last with
  | zero =>
    unfold read at h
    simp only [bind_eq_ok] at h
    obtain ⟨⟨w, c⟩, -, h⟩ := h
    split at h
    case h_4 => exact Nat.le_of_eq (ofWord_nesting h)
    all_goals simp only [bind_eq_ok, throw_ne_ok, and_false, exists_false] at h
  | succ room ih =>
    unfold read at h
    simp only [bind_eq_ok] at h
    obtain ⟨⟨w, c⟩, -, h⟩ := h
    split at h
    case h_4 => exact Nat.le_trans (Nat.le_of_eq (ofWord_nesting h)) (Nat.zero_le _)
    all_goals simp only [bind_eq_ok, pure_eq_ok, Prod.mk.injEq] at h
    · obtain ⟨_, -, ⟨element, _⟩, inner, _, -, rfl, -⟩ := h
      exact Nat.succ_le_succ (ih inner)
    · obtain ⟨_, -, ⟨element, _⟩, inner, _, -, rfl, -⟩ := h
      exact Nat.succ_le_succ (ih inner)
    · obtain ⟨_, -, ⟨key, _⟩, first, _, -, ⟨value, _⟩, second, _, -, rfl, -⟩ := h
      exact Nat.succ_le_succ (Nat.max_le.mpr ⟨ih first, ih second⟩)

theorem parse_nesting {text : String} (h : parse text = .ok e) : e.nesting ≤ maxNesting := by
  simp only [parse, bind_eq_ok] at h
  obtain ⟨⟨e', c⟩, found, h⟩ := h
  split at h
  · cases pure_eq_ok.mp h
    exact read_nesting found
  · exact absurd h throw_ne_ok

/-- A text never stands for a type that nests deeper than a written type may. -/
theorem inScope_nesting (scope text : String) : (inScope scope text).nesting ≤ maxNesting := by
  unfold inScope
  split
  · next e parsed =>
    rw [nesting_mapNames]
    exact parse_nesting parsed
  · exact Nat.zero_le _

end TypeExpr

/-- Every type in a method nests no deeper than a written type may. -/
def MethodDecl.Bounded (m : MethodDecl) : Prop :=
  m.returns.nesting ≤ TypeExpr.maxNesting ∧ ∀ f ∈ m.params ++ m.throws, f.type.nesting ≤ TypeExpr.maxNesting

def Declaration.Bounded : Declaration → Prop
  | .service methods => ∀ m ∈ methods, m.Bounded
  | .struct fields => ∀ f ∈ fields, f.type.nesting ≤ TypeExpr.maxNesting
  | .exception fields => ∀ f ∈ fields.getD [], f.type.nesting ≤ TypeExpr.maxNesting
  | .enum _ => True
  | .typeAlias target => target.nesting ≤ TypeExpr.maxNesting

namespace Definitions

variable {d d' : Definitions} {name : String} {x : Declaration} {xs : List (String × Declaration)}

inductive Addition (d : Definitions) : Definitions → Prop where
  | docs (docs : Table String) : Addition d { d with docs }
  | service {name : String} {methods : List MethodDecl} (docs : Table String) : name ∉ d.names →
      (∀ m ∈ methods, m.Bounded) → Addition d { d with services := d.services.insert name methods, docs }
  | struct {name : String} {fields : List FieldDecl} (docs : Table String) : name ∉ d.names →
      (∀ f ∈ fields, f.type.nesting ≤ TypeExpr.maxNesting) →
      Addition d { d with structs := d.structs.insert name fields, docs }
  | exception {name : String} {fields : Option (List FieldDecl)} (docs : Table String) : name ∉ d.names →
      (∀ f ∈ fields.getD [], f.type.nesting ≤ TypeExpr.maxNesting) →
      Addition d { d with exceptions := d.exceptions.insert name fields, docs }
  | enum {name : String} {constants : List String} (docs : Table String) : name ∉ d.names →
      Addition d { d with enums := d.enums.insert name constants, docs }
  | typeAlias {name : String} {target : TypeExpr} (docs : Table String) : name ∉ d.names →
      target.nesting ≤ TypeExpr.maxNesting →
      Addition d { d with aliases := d.aliases.insert name target, docs }

theorem addition_declare (new : name ∉ d.names) (bounded : x.Bounded) : Addition d (d.declare name x) := by
  cases x with
  | service methods => exact .service d.docs new bounded
  | struct fields => exact .struct d.docs new bounded
  | exception fields => exact .exception d.docs new bounded
  | enum constants => exact .enum d.docs new
  | typeAlias target => exact .typeAlias d.docs new bounded

theorem additions_declareAll (fits : d.Fits xs) (bounded : ∀ x ∈ xs, x.2.Bounded) :
    ReflTransGen Addition d (d.declareAll xs) := by
  induction xs generalizing d with
  | nil => exact .refl
  | cons x xs ih =>
    obtain ⟨first, rest⟩ := fits_append.mp (List.singleton_append ▸ fits : d.Fits ([x] ++ xs))
    have one : Addition d (d.declare x.1 x.2) := addition_declare (first.2 x.1 (by simp)) (bounded x List.mem_cons_self)
    exact .head one (ih rest fun y mem => bounded y (List.mem_cons_of_mem _ mem))

/-- What declares names and files docs makes additions only. -/
theorem Introduces.additions {action : AddM Unit} {readable : Prop} (introduces : Introduces action readable xs)
    (bounded : ∀ x ∈ xs, x.2.Bounded) (run : action.run d = .ok ((), d')) : ReflTransGen Addition d d' := by
  obtain ⟨file, introduces⟩ := introduces
  obtain ⟨-, fits, rfl⟩ := (introduces _ _).mp run
  exact .tail (additions_declareAll fits bounded) (.docs _)

theorem declarations_bounded (f : RegistryFile) : ∀ x ∈ f.declarations, x.2.Bounded := by
  have fields (scope : String) (fs : List FieldDef) :
      ∀ f ∈ fs.map (·.inScope scope), f.type.nesting ≤ TypeExpr.maxNesting :=
    List.forall_mem_map.mpr fun f _ => TypeExpr.inScope_nesting scope f.type
  refine List.forall_mem_map.mpr fun ⟨name, item⟩ _ => ?_
  cases item with
  | service s =>
    refine List.forall_mem_map.mpr fun m _ => ⟨?_, List.forall_mem_append.mpr ⟨fields _ _, fields _ _⟩⟩
    unfold MethodDef.inScope
    cases m.returns with
    | none => exact Nat.zero_le _
    | some text => exact TypeExpr.inScope_nesting _ text
  | struct s => exact fields _ s.fields
  | exception e =>
    obtain ⟨doc, fs⟩ := e
    cases fs with
    | none => simp [RegistryFile.Item.inScope, Declaration.Bounded]
    | some fs => exact fields _ fs
  | enum e => trivial
  | typedef text => exact TypeExpr.inScope_nesting _ text

/-- A file makes additions only. -/
theorem addFile_additions {f : RegistryFile} (run : (addFile f).run d = .ok ((), d')) : ReflTransGen Addition d d' :=
  (addFile_introduces f).additions (declarations_bounded f) run

theorem addFiles_additions {files : List RegistryFile} (run : (files.forM addFile).run d = .ok ((), d')) :
    ReflTransGen Addition d d' := by
  refine (Introduces.forM files addFile_introduces).additions (fun x mem => ?_) run
  obtain ⟨f, -, mem⟩ := List.mem_flatMap.mp mem
  exact declarations_bounded f x mem

end Definitions

end ThriftCatalog
