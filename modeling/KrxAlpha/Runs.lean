/-! Runs of a deterministic machine on a list of inputs, each of which may be
held to a condition on the state it arrives in, and computations that may fail
midway. -/
namespace KrxAlpha
open List

universe u v

variable {σ : Type u} {ι : Type v} {step : σ → ι → σ}

/-- Every input of a run meets a condition on the state it arrives in. -/
def Along (step : σ → ι → σ) (Meets : σ → ι → Prop) : σ → List ι → Prop
  | _, [] => True
  | state, input :: rest => Meets state input ∧ Along step Meets (step state input) rest

instance Along.decidable {Meets : σ → ι → Prop} [∀ state input, Decidable (Meets state input)] :
    (state : σ) → (inputs : List ι) → Decidable (Along step Meets state inputs)
  | _, [] => inferInstanceAs (Decidable True)
  | state, input :: rest =>
    have : Decidable (Along step Meets (step state input) rest) := Along.decidable _ rest
    inferInstanceAs (Decidable (Meets state input ∧ Along step Meets (step state input) rest))

/-- What one step preserves, a run preserves. -/
theorem foldl_preserves (Inv : σ → Prop) {Meets : σ → ι → Prop}
    (kept : ∀ state input, Meets state input → Inv state → Inv (step state input))
    (meets : Along step Meets state inputs) (holds : Inv state) :
    Inv (inputs.foldl step state) := by
  induction inputs generalizing state with
  | nil => exact holds
  | cons input rest ih => exact ih meets.2 (kept state input meets.1 holds)

/-- A computation that comes through has come through its first part. -/
theorem bind_ok {next : α → Except ε β} (passed : (first >>= next) = .ok result) :
    ∃ value, first = .ok value ∧ next value = .ok result := by
  cases first with
  | error _ => cases passed
  | ok value => exact ⟨value, rfl, passed⟩

theorem map_ok {value : α → β} {first : Except ε α} (passed : first.map value = .ok result) :
    ∃ item, first = .ok item ∧ value item = result := by
  cases first with
  | error failure => cases passed
  | ok item => exact ⟨item, rfl, Except.ok.inj passed⟩

/-- A loop that comes through has done every item, if a step does its item and what is done
stays so in later states. -/
theorem foldlM_done {act : σ → α → Except ε σ} {Later : σ → σ → Prop}
    {Done : σ → α → Prop} (refl : ∀ state, Later state state)
    (trans : ∀ first second third, Later first second → Later second third → Later first third)
    (does : ∀ state item ended, act state item = .ok ended → Later state ended ∧ Done ended item)
    (stays : ∀ state ended item, Later state ended → Done state item → Done ended item)
    {items : List α} (passed : items.foldlM act state = .ok ended) :
    Later state ended ∧ ∀ item ∈ items, Done ended item := by
  induction items generalizing state with
  | nil =>
    cases passed
    exact ⟨refl _, by simp⟩
  | cons item rest ih =>
    rw [foldlM_cons] at passed
    obtain ⟨next, stepped, passed⟩ := bind_ok passed
    obtain ⟨later, here⟩ := does state item next stepped
    obtain ⟨last, done⟩ := ih passed
    exact ⟨trans _ _ _ later last, forall_mem_cons.mpr ⟨stays _ _ item last here, done⟩⟩

/-- What every step keeps, a loop keeps. -/
theorem foldlM_keeps {act : σ → α → Except ε σ} {Inv : σ → Prop} {items : List α}
    (keeps : ∀ state item ended, item ∈ items → Inv state → act state item = .ok ended → Inv ended)
    (start : Inv state) (passed : items.foldlM act state = .ok ended) : Inv ended := by
  induction items generalizing state with
  | nil =>
    cases passed
    exact start
  | cons item rest ih =>
    rw [foldlM_cons] at passed
    obtain ⟨next, stepped, passed⟩ := bind_ok passed
    exact ih (fun state item ended member => keeps state item ended (mem_cons_of_mem _ member))
      (keeps state item next mem_cons_self start stepped) passed

/-- A loop over items comes through if every item does. -/
theorem mapM_ok {act : α → Except ε β} {value : α → β} {items : List α}
    (each : ∀ item ∈ items, act item = .ok (value item)) : items.mapM act = .ok (items.map value) := by
  induction items with
  | nil => rfl
  | cons item rest ih =>
    obtain ⟨here, later⟩ := forall_mem_cons.mp each
    rw [mapM_cons, here, ih later]
    rfl

/-- Where a loop over items comes through, each item has its result and each result its item. -/
theorem mem_mapM_ok {act : α → Except ε β} {items : List α}
    (passed : items.mapM act = .ok results) :
    (∀ item ∈ items, ∃ result ∈ results, act item = .ok result) ∧
      ∀ result ∈ results, ∃ item ∈ items, act item = .ok result := by
  induction items generalizing results with
  | nil =>
    cases passed
    simp
  | cons item rest ih =>
    rw [mapM_cons] at passed
    obtain ⟨first, here, passed⟩ := bind_ok passed
    obtain ⟨later, run, passed⟩ := bind_ok passed
    cases passed
    obtain ⟨each, back⟩ := ih run
    refine ⟨forall_mem_cons.mpr ⟨⟨first, by simp, here⟩, fun other held => ?_⟩,
      forall_mem_cons.mpr ⟨⟨item, by simp, here⟩, fun other held => ?_⟩⟩
    · obtain ⟨result, found, acted⟩ := each other held
      exact ⟨result, mem_cons_of_mem _ found, acted⟩
    · obtain ⟨source, found, acted⟩ := back other held
      exact ⟨source, mem_cons_of_mem _ found, acted⟩

end KrxAlpha
