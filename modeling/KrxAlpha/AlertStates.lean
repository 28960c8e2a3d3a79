import KrxAlpha.AlertLedger
import Mathlib.Data.List.Perm.Subperm

/-! States of the alert ledger. A state that was saved is one the check of the loader lets through, so
a call finds what the last one left; and what reserving, ending and reaping slots make of such a state
is said once for each. -/
namespace KrxAlpha

namespace AlertState

/-! ### States the loader lets through -/

/-- A budget counted from the reservations, with something to count. -/
structure Settled (reservations : Dict String Reservation) (key : String) (budget : KeyBudget) : Prop where
  counted : refreshBudget reservations key budget = budget
  used : budget.count ≠ 0
  dated : budget.confirmedCount = 0 ↔ budget.lastSuccessS = none

structure Consistent (state : AlertState) : Prop where
  owned : ∀ reservationId reservation, state.reservations.get? reservationId = some reservation →
    ∃ budget, state.keys.get? reservation.key = some budget
  settled : ∀ key budget, state.keys.get? key = some budget → Settled state.reservations key budget
  summed : state.sentToday = sumCounts state.keys

theorem empty_consistent (day : Int) : Consistent { day } := by
  constructor
  · intro reservationId reservation held
    cases held
  · intro key budget found
    cases found
  · rfl

/-- Consistent but for the count of one key. -/
structure Loose (state : AlertState) (key : String) (budget : KeyBudget) : Prop where
  found : state.keys.get? key = some budget
  dated : budget.confirmedCount = 0 ↔ budget.lastSuccessS = none
  owned : ∀ reservationId reservation, state.reservations.get? reservationId = some reservation →
    ∃ budget, state.keys.get? reservation.key = some budget
  settled : ∀ other, other ≠ key → ∀ budget, state.keys.get? other = some budget →
    Settled state.reservations other budget

variable {state : AlertState} {key : String} {budget : KeyBudget}

theorem refresh_key_found (found : state.keys.get? key = some budget) :
    state.refreshKey key =
      { state with
        keys := if (refreshBudget state.reservations key budget).count = 0 then state.keys.erase key
          else state.keys.set key (refreshBudget state.reservations key budget)
        sentToday := sumCounts (if (refreshBudget state.reservations key budget).count = 0 then
          state.keys.erase key
          else state.keys.set key (refreshBudget state.reservations key budget)) } := by
  simp only [refreshKey, found]

@[simp] theorem refresh_key_day (state : AlertState) (key : String) :
    (state.refreshKey key).day = state.day := by
  unfold refreshKey
  split <;> rfl

@[simp] theorem refresh_key_reservations (state : AlertState) (key : String) :
    (state.refreshKey key).reservations = state.reservations := by
  unfold refreshKey
  split <;> rfl

/-- The budgets after a key is counted anew. -/
theorem refresh_key_get? (found : state.keys.get? key = some budget) (probe : String) :
    (state.refreshKey key).keys.get? probe =
      if probe = key then
        if (refreshBudget state.reservations key budget).count = 0 then none
        else some (refreshBudget state.reservations key budget)
      else state.keys.get? probe := by
  rw [refresh_key_found found]
  by_cases empty : (refreshBudget state.reservations key budget).count = 0
  · simp only [empty, ↓reduceIte, Dict.get?_erase]
  · simp only [empty, ↓reduceIte, Dict.get?_set]

theorem refresh_budget_idem (reservations : Dict String Reservation) (key : String) (budget : KeyBudget) :
    refreshBudget reservations key (refreshBudget reservations key budget) =
      refreshBudget reservations key budget := rfl

/-- A reservation is part of its key's count. -/
theorem refresh_budget_pending {reservations : Dict String Reservation}
    (held : reservations.get? reservationId = some reservation)
    (budget : KeyBudget) : (refreshBudget reservations reservation.key budget).count ≠ 0 := by
  have inside : reservation ∈ reservations.values.filter (·.key = reservation.key) :=
    List.mem_filter.mpr ⟨Dict.mem_values_iff.mpr ⟨reservationId, held⟩, by simp⟩
  have positive := List.length_pos_of_mem inside
  simp only [refreshBudget, List.length_map]
  omega

theorem Loose.refresh (loose : Loose state key budget) : Consistent (state.refreshKey key) := by
  have get? := refresh_key_get? loose.found
  constructor
  · intro reservationId reservation held
    rw [refresh_key_reservations] at held
    by_cases same : reservation.key = key
    · have counted := refresh_budget_pending held budget
      rw [same] at counted
      rw [get?, if_pos same, if_neg counted]
      exact ⟨_, rfl⟩
    · rw [get?, if_neg same]
      exact loose.owned reservationId reservation held
  · intro probe found held
    rw [refresh_key_reservations]
    rw [get?] at held
    by_cases same : probe = key
    · subst same
      rw [if_pos rfl] at held
      split at held
      · cases held
      · rename_i used
        cases held
        exact ⟨refresh_budget_idem _ _ _, used, loose.dated⟩
    · rw [if_neg same] at held
      exact loose.settled probe same found held
  · rw [refresh_key_found loose.found]

/-- The mails confirmed for a key. -/
def confirmedOf (state : AlertState) (key : String) : Nat :=
  ((state.keys.get? key).map (·.confirmedCount)).getD 0

/-- The mails counted for a key, confirmed or pending. -/
def countOf (state : AlertState) (key : String) : Nat :=
  ((state.keys.get? key).map (·.count)).getD 0

theorem confirmed_refresh (found : state.keys.get? key = some budget) (probe : String) :
    (state.refreshKey key).confirmedOf probe = state.confirmedOf probe := by
  unfold confirmedOf
  rw [refresh_key_get? found]
  by_cases same : probe = key
  · subst same
    rw [if_pos rfl, found]
    split
    · rename_i empty
      simp only [refreshBudget] at empty
      simp only [Option.map_none, Option.getD_none, Option.map_some, Option.getD_some]
      omega
    · rfl
  · rw [if_neg same]

theorem count_eq_pending (consistent : Consistent state) (key : String) :
    state.countOf key =
      state.confirmedOf key + (state.reservations.values.filter (·.key = key)).length := by
  unfold countOf confirmedOf
  cases found : state.keys.get? key with
  | none =>
    have unpending : state.reservations.values.filter (·.key = key) = [] := by
      refine List.filter_eq_nil_iff.mpr fun reservation inside same => ?_
      obtain ⟨reservationId, held⟩ := Dict.mem_values_iff.mp inside
      obtain ⟨budget, present⟩ := consistent.owned reservationId reservation held
      rw [of_decide_eq_true same, found] at present
      cases present
    simp [unpending]
  | some budget =>
    have counted := (consistent.settled key budget found).counted
    have count := congrArg KeyBudget.count counted
    simpa [refreshBudget] using count.symm

theorem Settled.congr {reservations others : Dict String Reservation}
    (settled : Settled reservations key budget)
    (same : others.values.filter (·.key = key) = reservations.values.filter (·.key = key)) :
    Settled others key budget := by
  refine ⟨?_, settled.used, settled.dated⟩
  rw [← settled.counted]
  simp only [refreshBudget, same]

/-! ### What ending and reserving a slot leave -/

/-- What a call leaves of a state. -/
structure Ends (state after : AlertState) (key reservationId : String) (success : Bool) : Prop where
  consistent : Consistent after
  day : after.day = state.day
  reservations : after.reservations = state.reservations.erase reservationId
  confirmed : ∀ probe, after.confirmedOf probe =
    state.confirmedOf probe + if probe = key ∧ success = true then 1 else 0

theorem finish_cases (ended : state.finish key reservationId success = some after) :
    ∃ reservation budget marked, state.reservations.get? reservationId = some reservation ∧
      reservation.key = key ∧ state.keys.get? key = some budget ∧
      (success = false → marked = budget) ∧
      (success = true → marked.confirmedCount = budget.confirmedCount + 1 ∧
        marked.lastSuccessS ≠ none) ∧
      after = refreshKey
        { state with
          reservations := state.reservations.erase reservationId
          keys := state.keys.set key marked } key := by
  unfold finish at ended
  split at ended
  · rename_i reservation budget held found
    split at ended
    · rename_i same
      refine ⟨reservation, budget, _, held, same, found, ?_, ?_, (Option.some.inj ended).symm⟩
      · rintro rfl
        rfl
      · rintro rfl
        exact ⟨rfl, by simp⟩
    · cases ended
  · cases ended

theorem finish_ends
    (consistent : Consistent state) (ended : state.finish key reservationId success = some after) :
    Ends state after key reservationId success := by
  obtain ⟨reservation, budget, marked, held, same, found, unsent, sent, rfl⟩ := finish_cases ended
  have settled := consistent.settled key budget found
  have present : (state.keys.set key marked).get? key = some marked := Dict.get?_set_self _ _ _
  have dated : marked.confirmedCount = 0 ↔ marked.lastSuccessS = none := by
    cases success with
    | false =>
      rw [unsent rfl]
      exact settled.dated
    | true =>
      obtain ⟨one_more, marked_at⟩ := sent rfl
      exact iff_of_false (by omega) marked_at
  have loose : Loose
      { state with
        reservations := state.reservations.erase reservationId
        keys := state.keys.set key marked } key marked := by
    refine ⟨present, dated, fun other pending listed => ?_, fun other different budget counted => ?_⟩
    · rw [Dict.get?_erase] at listed
      split at listed
      · cases listed
      · obtain ⟨owner, owned⟩ := consistent.owned other pending listed
        rw [Dict.get?_set]
        split
        · exact ⟨_, rfl⟩
        · exact ⟨owner, owned⟩
    · rw [Dict.get?_set_of_ne different] at counted
      refine (consistent.settled other budget counted).congr (Dict.filter_values_erase ?_)
      intro value at_id
      rw [held] at at_id
      cases at_id
      simp [same, Ne.symm different]
  refine ⟨loose.refresh, by simp, by simp, fun probe => ?_⟩
  rw [confirmed_refresh present]
  unfold confirmedOf
  by_cases here : probe = key
  · subst here
    rw [present, found]
    cases success with
    | false => simp [unsent rfl]
    | true => simp [(sent rfl).1]
  · simp [Dict.get?_set_of_ne here, here]

/-- What is granted is within the limits, and it is counted from now on. -/
structure Grants (limits : AlertLimits) (state after : AlertState) (key drawn : String)
    (owner : AlertOwner) : Prop where
  consistent : Consistent after
  day : after.day = state.day
  reservations : ∃ nowS, after.reservations = state.reservations.set drawn { key, nowS, owner }
  confirmed : ∀ probe, after.confirmedOf probe = state.confirmedOf probe
  daily : state.sentToday < limits.dailyCap
  perKey : state.countOf key < limits.perKeyDailyCap

theorem decide_suppression_none {sentToday keyCount : Nat}
    (passed : decideSuppression sentToday keyCount last nowS limits = none) :
    sentToday < limits.dailyCap ∧ keyCount < limits.perKeyDailyCap := by
  unfold decideSuppression at passed
  split at passed
  · cases passed
  split at passed
  · cases passed
  exact ⟨by omega, by omega⟩

/-- What a request for a slot comes to. -/
inductive Slots (limits : AlertLimits) (state : AlertState) (key drawn : String) (owner : AlertOwner) :
    AlertDecision × AlertState → Prop where
  | suppressed (reason : SuppressedReason) (last : Option ℚ) :
      Slots limits state key drawn owner
        ({ send := false, suppressedReason := some reason, previousLastSentS := last }, state)
  | granted (last : Option ℚ) (after : AlertState) (grants : Grants limits state after key drawn owner) :
      Slots limits state key drawn owner
        ({ send := true, suppressedReason := none, previousLastSentS := last
           reservationId := some drawn }, after)

theorem reserve_slot_cases (limits : AlertLimits) (key drawn : String) (nowS : ℚ) (owner : AlertOwner)
    (consistent : Consistent state) (fresh : state.reservations.get? drawn = none) :
    Slots limits state key drawn owner (reserveSlot state key nowS limits owner drawn) := by
  unfold reserveSlot
  simp only
  split
  · exact .suppressed _ _
  · rename_i passed
    refine .granted _ _ ?_
    obtain ⟨daily, perKey⟩ := decide_suppression_none passed
    have present := Dict.get?_set_self state.keys key ((state.keys.get? key).getD {})
    have loose : Loose
        { state with
          keys := state.keys.set key ((state.keys.get? key).getD {})
          reservations := state.reservations.set drawn { key, nowS, owner } }
        key ((state.keys.get? key).getD {}) := by
      refine ⟨present, ?_, ?_, fun other different budget counted => ?_⟩
      · cases found : state.keys.get? key with
        | none => simp
        | some budget => exact (consistent.settled key budget found).dated
      · refine Dict.forall_set ⟨_, present⟩ fun reservationId reservation held => ?_
        obtain ⟨budget, owned⟩ := consistent.owned reservationId reservation held
        rw [Dict.get?_set]
        split
        · exact ⟨_, rfl⟩
        · exact ⟨budget, owned⟩
      · rw [Dict.get?_set_of_ne different] at counted
        refine (consistent.settled other budget counted).congr ?_
        simp [Dict.values_set_new fresh, Ne.symm different]
    refine ⟨loose.refresh, by simp, ⟨nowS, by simp⟩, fun probe => ?_, daily, ?_⟩
    · rw [confirmed_refresh present]
      unfold confirmedOf
      rw [Dict.get?_set]
      split
      · rename_i same
        subst same
        cases state.keys.get? probe <;> rfl
      · rfl
    · unfold countOf
      cases found : state.keys.get? key with
      | none =>
        simp only [Option.map_none, Option.getD_none]
        omega
      | some budget => simpa [found] using perKey

/-- Reaping ends the reservations of processes that are gone, and no other. -/
structure Reaped (alive : AlertOwner → Bool) (state after : AlertState) : Prop where
  consistent : Consistent after
  day : after.day = state.day
  kept : ∀ reservationId reservation, state.reservations.get? reservationId = some reservation →
    alive reservation.owner = true → after.reservations.get? reservationId = some reservation
  fewer : ∀ reservationId, state.reservations.get? reservationId = none →
    after.reservations.get? reservationId = none
  confirmed : ∀ key, after.confirmedOf key = state.confirmedOf key

theorem reap_step {alive : AlertOwner → Bool}
    (held : first.reservations.get? reservationId = some reservation)
    (gone : alive reservation.owner = false) (reaped : Reaped alive first now) :
    Reaped alive first ((now.finish reservation.key reservationId false).getD now) := by
  cases ended : now.finish reservation.key reservationId false with
  | none => exact reaped
  | some after =>
    have ends := finish_ends reaped.consistent ended
    refine ⟨ends.consistent, ends.day.trans reaped.day, fun other pending listed lives => ?_,
      fun other absent => ?_, fun key => ?_⟩
    · have different : other ≠ reservationId := by
        rintro rfl
        rw [held] at listed
        cases listed
        rw [gone] at lives
        cases lives
      simp only [Option.getD_some, ends.reservations, Dict.get?_erase, different]
      exact reaped.kept other pending listed lives
    · simp only [Option.getD_some, ends.reservations, Dict.get?_erase]
      split
      · rfl
      · exact reaped.fewer other absent
    · simpa [reaped.confirmed key] using ends.confirmed key

theorem reap_abandoned_reaped (alive : AlertOwner → Bool) (consistent : Consistent state) :
    Reaped alive state (reapAbandoned alive state).1 := by
  have listed : ∀ entry ∈ state.reservations.entries,
      state.reservations.get? entry.1 = some entry.2 := fun _ inside => Dict.mem_entries_iff.mp inside
  have begun : Reaped alive state (state, false).1 :=
    ⟨consistent, rfl, fun _ _ held _ => held, fun _ absent => absent, fun _ => rfl⟩
  refine List.foldlRecOn (motive := fun now : AlertState × Bool => Reaped alive state now.1)
    state.reservations.entries _ begun fun now reaped entry inside => ?_
  simp only
  split
  · exact reaped
  · rename_i gone
    exact reap_step (listed entry inside) (by simpa using gone) reaped

/-! ### The check of the loader -/

theorem refresh_key_settled {raw : AlertState} (found : raw.keys.get? key = some budget)
    (counted : refreshBudget raw.reservations key budget = budget) (probe : String) :
    (raw.refreshKey key).keys.get? probe =
      if probe = key ∧ budget.count = 0 then none else raw.keys.get? probe := by
  rw [refresh_key_get? found, counted]
  by_cases same : probe = key
  · subst same
    by_cases empty : budget.count = 0
    · simp [empty]
    · simp [empty, found]
  · simp [same]

theorem check_key_passes (passed : AlertFile.checkKey state entry = some after) :
    refreshBudget state.reservations entry.1 entry.2 = entry.2 ∧
      (entry.2.confirmedCount = 0 ↔ entry.2.lastSuccessS = none) ∧
      after = state.refreshKey entry.1 := by
  unfold AlertFile.checkKey at passed
  split at passed
  · cases passed
  rename_i dated
  simp only at passed
  split at passed
  · cases passed
  rename_i same
  simp only [ne_eq, not_or, not_not] at same
  refine ⟨?_, ?_, (Option.some.inj passed).symm⟩
  · obtain ⟨count, lastSent⟩ := same
    have shape : refreshBudget state.reservations entry.1 entry.2 =
        { entry.2 with
          count := (refreshBudget state.reservations entry.1 entry.2).count
          lastSentS := (refreshBudget state.reservations entry.1 entry.2).lastSentS } := rfl
    rw [shape, count, lastSent]
  · rw [← Option.isNone_iff_eq_none, ← not_not.mp dated, decide_eq_true_eq]

/-- What comes through the check of some entries. -/
structure Checked (entries : List (String × KeyBudget)) (raw after : AlertState) : Prop where
  reservations : after.reservations = raw.reservations
  settled : ∀ key budget, after.keys.get? key = some budget → raw.keys.get? key = some budget ∧
    (key ∈ entries.map Prod.fst → Settled raw.reservations key budget)
  dropped : ∀ key budget, raw.keys.get? key = some budget → after.keys.get? key = some budget ∨
    (refreshBudget raw.reservations key budget).count = 0

theorem check_keys {entries : List (String × KeyBudget)} (distinct : (entries.map Prod.fst).Nodup)
    (present : ∀ entry ∈ entries, raw.keys.get? entry.1 = some entry.2)
    (passed : entries.foldlM AlertFile.checkKey raw = some after) : Checked entries raw after := by
  induction entries generalizing raw with
  | nil =>
    cases passed
    exact ⟨rfl, fun _ _ found => ⟨found, fun inside => by simp at inside⟩, fun _ _ found => .inl found⟩
  | cons entry rest ih =>
    obtain ⟨absent, distinct⟩ := List.nodup_cons.mp distinct
    rw [List.foldlM_cons] at passed
    cases first : AlertFile.checkKey raw entry with
    | none => simp [first] at passed
    | some next =>
      simp only [first] at passed
      obtain ⟨counted, dated, rfl⟩ := check_key_passes first
      have found := present entry (List.mem_cons_self ..)
      have get? := refresh_key_settled found counted
      have later := ih distinct (fun other inside => by
        have different : other.1 ≠ entry.1 := by
          intro same
          exact absent (same ▸ List.mem_map_of_mem inside)
        rw [get?, if_neg (fun both => different both.1)]
        exact present other (List.mem_cons_of_mem _ inside)) passed
      have reservations := later.reservations
      rw [refresh_key_reservations] at reservations
      refine ⟨reservations, fun key budget held => ?_, fun key budget held => ?_⟩
      · obtain ⟨before, settled⟩ := later.settled key budget held
        rw [get?] at before
        split at before
        · cases before
        rename_i live
        refine ⟨before, fun inside => ?_⟩
        rcases List.mem_cons.mp inside with here | further
        · have same : key = entry.1 := here
          subst same
          rw [found] at before
          cases before
          exact ⟨counted, fun empty => live ⟨rfl, empty⟩, dated⟩
        · simpa using settled further
      · by_cases gone : key = entry.1 ∧ entry.2.count = 0
        · obtain ⟨rfl, empty⟩ := gone
          rw [found] at held
          cases held
          exact .inr (by rw [counted]; exact empty)
        · have still : (raw.refreshKey entry.1).keys.get? key = some budget := by
            rw [get?, if_neg gone]
            exact held
          simpa using later.dropped key budget still

end AlertState

namespace AlertFile

open AlertState

theorem validate_consistent (passed : validate raw = some state) : Consistent state := by
  unfold validate at passed
  split at passed
  · cases passed
  rename_i owned
  cases checked : raw.keys.entries.foldlM checkKey raw with
  | none => simp [checked] at passed
  | some after =>
    simp only [checked, Option.bind_eq_bind, Option.bind_some] at passed
    split at passed
    · cases passed
    cases passed
    have through := check_keys raw.keys.distinct
      (fun entry inside => Dict.mem_entries_iff.mp inside) checked
    refine ⟨fun reservationId reservation held => ?_, fun key budget found => ?_, rfl⟩
    · simp only [through.reservations] at held
      have known : raw.keys.contains reservation.key = true := by
        have inside := Dict.mem_values_iff.mpr ⟨reservationId, held⟩
        simpa using List.all_eq_true.mp (by simpa [List.all_eq_not_any_not] using owned) reservation inside
      obtain ⟨budget, found⟩ := Option.isSome_iff_exists.mp known
      refine ⟨budget, (through.dropped reservation.key budget found).resolve_right ?_⟩
      exact refresh_budget_pending held budget
    · obtain ⟨before, settled⟩ := through.settled key budget found
      simp only [through.reservations]
      exact settled (Dict.mem_keys_of_get? before)

theorem check_key_same (consistent : Consistent state) (inside : entry ∈ state.keys.entries) :
    checkKey state entry = some state := by
  have found := Dict.mem_entries_iff.mp inside
  have settled := consistent.settled entry.1 entry.2 found
  have dated : decide (entry.2.confirmedCount = 0) = entry.2.lastSuccessS.isNone := by
    rw [Bool.eq_iff_iff, decide_eq_true_eq, Option.isNone_iff_eq_none]
    exact settled.dated
  have same : state.refreshKey entry.1 = state := by
    rw [refresh_key_found found, settled.counted, if_neg settled.used, Dict.set_same found,
      ← consistent.summed]
  unfold checkKey
  simp [dated, settled.counted, same]

/-- A consistent state is loaded as it was saved. -/
theorem validate_self (consistent : Consistent state) : validate state = some state := by
  have checked : ∀ entries : List (String × KeyBudget), (∀ entry ∈ entries, entry ∈ state.keys.entries) →
      entries.foldlM checkKey state = some state := by
    intro entries
    induction entries with
    | nil => exact fun _ => rfl
    | cons entry rest ih =>
      intro inside
      rw [List.foldlM_cons, check_key_same consistent (inside entry (List.mem_cons_self ..))]
      exact ih fun other further => inside other (List.mem_cons_of_mem _ further)
  have owned : (state.reservations.values.any fun reservation =>
      !state.keys.contains reservation.key) = false := by
    refine List.any_eq_false.mpr fun reservation inside => ?_
    obtain ⟨reservationId, held⟩ := Dict.mem_values_iff.mp inside
    obtain ⟨budget, found⟩ := consistent.owned reservationId reservation held
    simp [Dict.contains, found]
  unfold validate
  simp [owned, checked state.keys.entries fun _ inside => inside, ← consistent.summed]

theorem load_consistent (file : AlertFile) (day : Int) : Consistent (file.load day) := by
  have checked : ∀ raw : AlertState, Consistent ((validate raw).getD { day }) := by
    intro raw
    cases passed : validate raw with
    | none => exact empty_consistent day
    | some state => exact validate_consistent passed
  unfold load
  split
  · exact empty_consistent day
  · exact empty_consistent day
  · split
    · exact checked _
    · split
      · exact checked _
      · exact empty_consistent day

theorem load_stored (consistent : Consistent state) (day : Int) :
    (stored 2 state).load day = state := by
  simp [load, validate_self consistent]

/-- Whatever the file holds, what is loaded of it and saved is loaded unchanged on any day. -/
theorem reload_settles (file : AlertFile) (day later : Int) :
    (stored 2 (file.load day)).load later = file.load day :=
  load_stored (load_consistent file day) later

end AlertFile

/-! ### The ledger reads what it writes -/

/-- A call with the limits its process has. -/
def AlertHost.serve (host : AlertHost) (entry : AlertLimits × AlertCall) : AlertHost :=
  host.step entry.1 entry.2

/-- An identifier is drawn that no pending reservation has. -/
def AlertHost.Draws (host : AlertHost) (entry : AlertLimits × AlertCall) : Prop :=
  match entry.2 with
  | .reserve _ _ _ day _ drawn => (host.file.load day).reservations.get? drawn = none
  | _ => True

instance AlertHost.decidableDraws (host : AlertHost) (entry : AlertLimits × AlertCall) :
    Decidable (host.Draws entry) := by
  unfold AlertHost.Draws
  split <;> infer_instance

/-- A file as it was found, or with a state that the loader lets through. -/
def AlertFile.Sane (found file : AlertFile) : Prop :=
  file = found ∨ ∃ state : AlertState, file = .stored 2 state ∧ state.Consistent

theorem AlertFile.finish_sane (sane : Sane found file) (key : String) (day : Int)
    (reservationId : Option String) (success : Bool) :
    Sane found (file.finish key day reservationId success) := by
  unfold AlertFile.finish
  split
  · exact sane
  · simp only
    split
    · split
      · rename_i ended
        exact .inr ⟨_, rfl, (AlertState.finish_ends (load_consistent file day) ended).consistent⟩
      · exact sane
    · exact sane

theorem AlertFile.reserve_sane (sane : Sane found file) (limits : AlertLimits)
    (alive : AlertOwner → Bool) (owner : AlertOwner) (key : String) (nowS : ℚ)
    (fresh : (file.load day).reservations.get? drawn = none) :
    Sane found (file.reserve limits alive owner key day nowS drawn).2 := by
  simp only [AlertFile.reserve]
  generalize begun : (if (file.load day).day ≠ day then { day } else file.load day) = state
  have start : state.Consistent ∧ state.reservations.get? drawn = none := by
    rw [← begun]
    split
    · exact ⟨AlertState.empty_consistent day, rfl⟩
    · exact ⟨load_consistent file day, fresh⟩
  have reaped := AlertState.reap_abandoned_reaped alive start.1
  have slots := AlertState.reserve_slot_cases limits key drawn nowS owner reaped.consistent
    (reaped.fewer drawn start.2)
  have consistent :
      (reserveSlot (reapAbandoned alive state).1 key nowS limits owner drawn).2.Consistent := by
    generalize reserveSlot (reapAbandoned alive state).1 key nowS limits owner drawn = slot at slots ⊢
    cases slots with
    | suppressed => exact reaped.consistent
    | granted _ _ grants => exact grants.consistent
  split
  · exact .inr ⟨_, rfl, consistent⟩
  · exact sane

/-- Whatever file the calls began with, a state that they wrote passes the loader's checks and is
loaded as it was written; its counts are those of its keys, and each key's those of its confirmed
mails and pending reservations. -/
theorem ledger_reads_own_state (file : AlertFile) (calls : List (AlertLimits × AlertCall))
    (draws : Along AlertHost.serve AlertHost.Draws { file } calls) :
    let written := (calls.foldl AlertHost.serve { file }).file
    written = file ∨ ∃ state : AlertState, written = .stored 2 state ∧
      AlertFile.validate state = some state ∧ (∀ day, written.load day = state) ∧
      state.sentToday = (state.keys.values.map (·.count)).sum ∧
      ∀ key budget, state.keys.get? key = some budget → 0 < budget.count ∧
        budget.count = budget.confirmedCount +
          (state.reservations.values.filter (·.key = key)).length := by
  have sane := foldl_preserves (fun host : AlertHost => AlertFile.Sane file host.file)
    (fun host entry meets sane => by
      obtain ⟨limits, call⟩ := entry
      cases call with
      | reserve alive owner key day nowS drawn =>
        exact AlertFile.reserve_sane sane limits alive owner key nowS meets
      | commit key day reservationId => exact AlertFile.finish_sane sane key day reservationId true
      | release key day reservationId => exact AlertFile.finish_sane sane key day reservationId false)
    draws (.inl rfl)
  refine sane.imp_right ?_
  rintro ⟨state, stored, consistent⟩
  refine ⟨state, stored, AlertFile.validate_self consistent, fun day => ?_, consistent.summed,
    fun key budget found => ?_⟩
  · rw [stored]
    exact AlertFile.load_stored consistent day
  · have settled := consistent.settled key budget found
    have counted := congrArg KeyBudget.count settled.counted
    simp only [AlertState.refreshBudget, List.length_map] at counted
    exact ⟨Nat.pos_of_ne_zero settled.used, counted.symm⟩

/-- A mail that is committed and one that waits. -/
theorem committed_and_pending_read :
    let limits : AlertLimits := { perKeyDailyCap := 2, perKey := by decide, reserved := by decide }
    let host := [(limits, AlertCall.reserve (fun _ => true) ⟨7, "90"⟩ "disk" 1 0 "a"),
      (limits, .commit "disk" 1 (some "a")),
      (limits, .reserve (fun _ => true) ⟨8, "91"⟩ "feed" 1 5 "b")].foldl AlertHost.serve { file := .missing }
    host.file = .missing ∨ ∃ state : AlertState, host.file = .stored 2 state ∧
      AlertFile.validate state = some state :=
  (ledger_reads_own_state .missing _ (by decide +kernel)).imp_right
    fun ⟨state, stored, valid, _⟩ => ⟨state, stored, valid⟩

end KrxAlpha
