import Mathlib.Tactic.TypeStar

namespace Frameleaf.Outcome

/-!
# Peeling fallible computations apart

One rule for sequencing in `Except`: a bound computation succeeds exactly when
both of its parts do.  Proofs about a `do` block cite it once per line instead
of unfolding the monad.
-/

universe u v

variable {ε : Type u} {α β : Type v}

theorem bind_eq_ok
    {first : Except ε α}
    {next : α → Except ε β}
    {result : β} :
    (first >>= next) = .ok result ↔
      ∃ middle, first = .ok middle ∧ next middle = .ok result := by
  cases first with
  | error failure =>
      simp [bind, Except.bind]
  | ok middle =>
      simp [bind, Except.bind]

/-- A successful first part is substituted into the rest. -/
@[simp] theorem ok_bind
    (middle : α)
    (next : α → Except ε β) :
    ((.ok middle : Except ε α) >>= next) = next middle :=
  rfl

/-- A failed first part is the failure of the whole. -/
@[simp] theorem error_bind
    (failure : ε)
    (next : α → Except ε β) :
    ((.error failure : Except ε α) >>= next) = .error failure :=
  rfl

/-- Returning a value succeeds with that value. -/
@[simp] theorem pure_eq_ok
    {value result : α} :
    (pure value : Except ε α) = .ok result ↔ value = result := by
  simp [pure, Except.pure]

theorem mapM_eq_ok
    {Item : Type*}
    {attempt : Item → Except ε α}
    {Accepted : Item → Prop}
    {make : Item → α}
    (attempts : ∀ item result,
      attempt item = .ok result ↔ Accepted item ∧ result = make item)
    {items : List Item}
    {results : List α} :
    items.mapM attempt = .ok results ↔
      (∀ item ∈ items, Accepted item) ∧ results = items.map make := by
  induction items generalizing results with
  | nil =>
      rw [List.mapM_nil, pure_eq_ok, List.map_nil]
      exact ⟨fun isNil => ⟨nofun, isNil.symm⟩, fun accepted => accepted.2.symm⟩
  | cons item rest inductionHypothesis =>
      simp only [List.mapM_cons, bind_eq_ok, attempts, inductionHypothesis,
        pure_eq_ok, List.forall_mem_cons, List.map_cons]
      constructor
      · rintro ⟨_, ⟨accepted, rfl⟩, _, ⟨others, rfl⟩, rfl⟩
        exact ⟨⟨accepted, others⟩, rfl⟩
      · rintro ⟨⟨accepted, others⟩, rfl⟩
        exact ⟨_, ⟨accepted, rfl⟩, _, ⟨others, rfl⟩, rfl⟩

end Frameleaf.Outcome
