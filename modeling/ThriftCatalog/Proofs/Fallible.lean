import Mathlib.Data.List.Forall2
import Mathlib.Logic.Relation
import ThriftCatalog.Generation.Error

/-! Steps that may fail, one after the other and along lists: what a success says about each of them. -/
namespace ThriftCatalog.Fallible

variable {ε ζ α β : Type}

theorem bind_eq_ok {x : Except ε α} {f : α → Except ε β} {b : β} :
    (x >>= f) = .ok b ↔ ∃ a, x = .ok a ∧ f a = .ok b := by
  cases x <;> simp [bind, Except.bind]

theorem mapM_congr {f g : α → Except ε β} {xs : List α} (h : ∀ x ∈ xs, f x = g x) : xs.mapM f = xs.mapM g := by
  induction xs with
  | nil => rfl
  | cons x xs ih =>
    rw [List.mapM_cons, List.mapM_cons, h x (by simp), ih fun y mem => h y (by simp [mem])]

theorem seq_eq_ok {x : Except ε PUnit} {y : Except ε β} {b : β} :
    (x >>= fun _ => y) = .ok b ↔ x = .ok () ∧ y = .ok b := by
  cases x <;> simp [bind, Except.bind]

theorem map_eq_ok {x : Except ε α} {f : α → β} {b : β} :
    f <$> x = .ok b ↔ ∃ a, x = .ok a ∧ f a = b := by
  cases x <;> simp [Functor.map, Except.map]

theorem mapError_eq_ok {x : Except ε α} {f : ε → ζ} {a : α} :
    x.mapError f = .ok a ↔ x = .ok a := by
  cases x <;> simp [Except.mapError]

theorem answer_eq_ok {x : Except LookupError α} {a : α} : answer x = .ok a ↔ x = .ok a :=
  mapError_eq_ok

theorem pure_eq_ok {a b : α} : (pure a : Except ε α) = .ok b ↔ a = b := by
  simp [pure, Except.pure]

theorem throw_ne_ok {e : ε} {a : α} : (throw e : Except ε α) ≠ .ok a := by
  simp [throw, throwThe, MonadExceptOf.throw]

theorem mapM_eq_ok {f : α → Except ε β} {xs : List α} {ys : List β} :
    xs.mapM f = .ok ys ↔ List.Forall₂ (fun x y => f x = .ok y) xs ys := by
  induction xs generalizing ys with
  | nil => cases ys <;> simp [pure, Except.pure]
  | cons x xs ih =>
    simp only [List.mapM_cons, bind_eq_ok, pure_eq_ok, ih]
    constructor
    · rintro ⟨y, hy, rest, hrest, rfl⟩
      exact .cons hy hrest
    · rintro (_ | ⟨hy, hrest⟩)
      exact ⟨_, hy, _, hrest, rfl⟩

theorem mapM_isOk {f : α → Except ε β} {xs : List α} (h : ∀ x ∈ xs, ∃ y, f x = .ok y) :
    ∃ ys, xs.mapM f = .ok ys := by
  induction xs with
  | nil => exact ⟨[], rfl⟩
  | cons x xs ih =>
    obtain ⟨y, hy⟩ := h x (by simp)
    obtain ⟨ys, hys⟩ := ih fun z hz => h z (by simp [hz])
    exact ⟨y :: ys, mapM_eq_ok.mpr (.cons hy (mapM_eq_ok.mp hys))⟩

/-- Each member of the second of two related lists has a partner in the first. -/
theorem forall₂_source {R : α → β → Prop} {xs : List α} {ys : List β} (related : List.Forall₂ R xs ys) {y : β}
    (mem : y ∈ ys) : ∃ x ∈ xs, R x y := by
  induction related with
  | nil => contradiction
  | cons first _ ih =>
    rcases List.mem_cons.mp mem with rfl | mem
    · exact ⟨_, by simp, first⟩
    · obtain ⟨x, hx, found⟩ := ih mem
      exact ⟨x, by simp [hx], found⟩

/-- Each member of the first of two related lists has a partner in the second. -/
theorem forall₂_target {R : α → β → Prop} {xs : List α} {ys : List β} (related : List.Forall₂ R xs ys) {x : α}
    (mem : x ∈ xs) : ∃ y ∈ ys, R x y := by
  obtain ⟨y, mem, found⟩ := forall₂_source related.flip mem
  exact ⟨y, mem, found⟩

theorem forall₂_comp {γ : Type} {R : α → β → Prop} {S : β → γ → Prop} {xs : List α} {ys : List β} {zs : List γ}
    (first : List.Forall₂ R xs ys) (second : List.Forall₂ S ys zs) : List.Forall₂ (Relation.Comp R S) xs zs := by
  induction first generalizing zs with
  | nil =>
    cases second
    exact .nil
  | cons related _ ih =>
    cases second with
    | cons related' rest => exact .cons ⟨_, related, related'⟩ (ih rest)

theorem mem_of_mapM {f : α → Except ε β} {xs : List α} {ys : List β} (h : xs.mapM f = .ok ys)
    {y : β} (mem : y ∈ ys) : ∃ x ∈ xs, f x = .ok y :=
  forall₂_source (mapM_eq_ok.mp h) mem

theorem mem_mapM {f : α → Except ε β} {xs : List α} {ys : List β} (h : xs.mapM f = .ok ys)
    {x : α} (mem : x ∈ xs) : ∃ y ∈ ys, f x = .ok y :=
  forall₂_target (mapM_eq_ok.mp h) mem

/-- Steps that give the same results along a list give the same list. -/
theorem mapM_transfer {f g : α → Except ε β} {xs : List α} {ys : List β} (h : xs.mapM f = .ok ys)
    (each : ∀ x, ∀ y ∈ ys, f x = .ok y → g x = .ok y) : xs.mapM g = .ok ys := by
  rw [mapM_eq_ok] at h ⊢
  induction h with
  | nil => exact .nil
  | cons first _ ih =>
    have rest := ih fun x y mem => each x y (List.mem_cons_of_mem _ mem)
    exact .cons (each _ _ List.mem_cons_self first) rest

theorem mapM_isOk_iff {f : α → Except ε β} {xs : List α} :
    (∃ ys, xs.mapM f = .ok ys) ↔ ∀ x ∈ xs, ∃ y, f x = .ok y := by
  refine ⟨?_, mapM_isOk⟩
  rintro ⟨ys, all⟩ x mem
  obtain ⟨y, -, made⟩ := mem_mapM all mem
  exact ⟨y, made⟩

theorem isOk_iff {x : Except ε α} : x.isOk = true ↔ ∃ a, x = .ok a := by
  cases x <;> simp [Except.isOk, Except.toBool]

theorem forM_eq_ok {f : α → Except ε PUnit} {xs : List α} :
    xs.forM f = .ok () ↔ ∀ x ∈ xs, f x = .ok () := by
  rw [List.forM_eq_forM]
  induction xs with
  | nil => simp [pure, Except.pure]
  | cons x xs ih =>
    rw [List.forM_cons, bind_eq_ok, ih, List.forall_mem_cons]
    exact ⟨fun ⟨_, first, rest⟩ => ⟨first, rest⟩, fun ⟨first, rest⟩ => ⟨(), first, rest⟩⟩

/-- Steps whose results are mapped one into the other may follow one another. -/
theorem bind_mapped {γ δ : Type} {x : Except ε α} {f : α → Except ε β} {e : α → γ} {e' : β → δ}
    {g : γ → Except ε δ} (next : ∀ a, x = .ok a → e' <$> f a = g (e a)) :
    e' <$> (x >>= f) = (e <$> x) >>= g := by
  cases x with
  | error err => rfl
  | ok a => exact next a rfl

theorem map_mapped {γ δ : Type} {x : Except ε α} {y : Except ε γ} {f : α → β} {g : γ → δ} {e : α → γ} {e' : β → δ}
    (same : ∀ a, e' (f a) = g (e a)) (mapped : e <$> x = y) : e' <$> (f <$> x) = g <$> y := by
  rw [← mapped, Functor.map_map, Functor.map_map]
  congr 1
  exact funext same

theorem mapM_mapped {γ : Type} {f : α → Except ε β} {e : β → γ} {g : α → Except ε γ} {xs : List α}
    (each : ∀ x ∈ xs, e <$> f x = g x) : List.map e <$> xs.mapM f = xs.mapM g := by
  induction xs with
  | nil => rfl
  | cons x xs ih =>
    have rest := ih fun y mem => each y (List.mem_cons_of_mem _ mem)
    rw [List.mapM_cons, List.mapM_cons, ← each x List.mem_cons_self, ← rest]
    refine bind_mapped fun y _ => bind_mapped fun ys _ => ?_
    rfl

/-- Two runs along a list go together as long as the first keeps an invariant. -/
theorem foldlM_mapped {γ ι : Type} {f : α → ι → Except ε α} {e : α → γ} {g : γ → ι → Except ε γ} {I : α → Prop}
    {xs : List ι} (step : ∀ a, ∀ x ∈ xs, I a → e <$> f a x = g (e a) x)
    (kept : ∀ a, ∀ x ∈ xs, I a → ∀ a', f a x = .ok a' → I a') {a : α} (start : I a) :
    e <$> xs.foldlM f a = xs.foldlM g (e a) := by
  induction xs generalizing a with
  | nil => rfl
  | cons x xs ih =>
    rw [List.foldlM_cons, List.foldlM_cons, ← step a x List.mem_cons_self start]
    refine bind_mapped fun a' made => ?_
    exact ih (fun b y mem => step b y (List.mem_cons_of_mem _ mem))
      (fun b y mem => kept b y (List.mem_cons_of_mem _ mem)) (kept a x List.mem_cons_self start a' made)

/-- Whatever error a step ends with satisfies the predicate. -/
def OnlyFails (P : ε → Prop) (x : Except ε α) : Prop := ∀ e, x = .error e → P e

namespace OnlyFails

variable {P : ε → Prop} {x : Except ε α}

theorem ok (a : α) : OnlyFails P (.ok a) := by
  intro e failed
  contradiction

theorem error {e : ε} (holds : P e) : OnlyFails P (.error e : Except ε α) := by
  intro e' failed
  cases failed
  exact holds

theorem bind {f : α → Except ε β} (first : OnlyFails P x) (next : ∀ a, x = .ok a → OnlyFails P (f a)) :
    OnlyFails P (x >>= f) := by
  cases x with
  | ok a => exact next a rfl
  | error e => exact error (first e rfl)

theorem map {f : α → β} (first : OnlyFails P x) : OnlyFails P (f <$> x) := by
  cases x with
  | ok a => exact ok (f a)
  | error e => exact error (first e rfl)

theorem mapError {y : Except ζ α} {f : ζ → ε} (each : ∀ e, P (f e)) : OnlyFails P (y.mapError f) := by
  cases y with
  | ok a => exact ok a
  | error e => exact error (each e)

theorem mapM {f : α → Except ε β} {xs : List α} (each : ∀ x ∈ xs, OnlyFails P (f x)) : OnlyFails P (xs.mapM f) := by
  induction xs with
  | nil => exact ok []
  | cons x xs ih =>
    rw [List.mapM_cons]
    have rest : OnlyFails P (xs.mapM f) := ih fun y mem => each y (List.mem_cons_of_mem _ mem)
    exact (each x List.mem_cons_self).bind fun _ _ => rest.bind fun _ _ => ok _

end OnlyFails

end ThriftCatalog.Fallible
