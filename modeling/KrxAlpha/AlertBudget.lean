import KrxAlpha.AlertStates

/-! Alert budgets across processes. What a state counts for a day covers every slot granted on that day
and not given back, and with dates that do not go back no state of an earlier day is begun again. -/
namespace KrxAlpha
open List

/-! ### The slots of a run -/

/-- A state counts the slots of its own day and knows of none later. -/
structure SlotCover (state : AlertState) (committed outstanding : List AlertGrant) : Prop where
  pending : ∀ grant ∈ outstanding, grant.day = state.day →
    ∃ reservation, state.reservations.get? grant.reservationId = some reservation ∧
      reservation.key = grant.key ∧ reservation.owner = grant.owner
  confirmed : ∀ key, committed.countP (fun grant => grant.key = key ∧ grant.day = state.day) ≤
    state.confirmedOf key
  past : ∀ grant ∈ committed ++ outstanding, grant.day ≤ state.day

variable {state : AlertState} {committed outstanding : List AlertGrant}

section

variable (covers : SlotCover state committed outstanding)
include covers

/-- Pending slots have reservations of their own. -/
theorem SlotCover.pending_le (distinct : (outstanding.map (·.reservationId)).Nodup) (key : String) :
    outstanding.countP (fun grant => grant.key = key ∧ grant.day = state.day) ≤
      (state.reservations.values.filter (·.key = key)).length := by
  have ids : ((outstanding.filter fun grant => grant.key = key ∧ grant.day = state.day).map
      (·.reservationId)).Nodup := distinct.sublist (filter_sublist.map _)
  have inside : ((outstanding.filter fun grant => grant.key = key ∧ grant.day = state.day).map
      (·.reservationId)) ⊆ (state.reservations.entries.filter (·.2.key = key)).map Prod.fst := by
    intro reservationId listed
    obtain ⟨grant, chosen, rfl⟩ := mem_map.mp listed
    obtain ⟨held, same⟩ := mem_filter.mp chosen
    obtain ⟨same_key, same_day⟩ := of_decide_eq_true same
    obtain ⟨reservation, found, keyed, _⟩ := covers.pending grant held same_day
    exact mem_map.mpr ⟨(grant.reservationId, reservation),
      mem_filter.mpr ⟨Dict.mem_entries_iff.mpr found, by simp [keyed, same_key]⟩, rfl⟩
  have bound := (subperm_of_subset ids inside).length_le
  rw [length_map, length_map, ← countP_eq_length_filter] at bound
  refine bound.trans (le_of_eq ?_)
  simp only [Dict.values, filter_map, length_map]
  rfl

section

variable (consistent : state.Consistent) (distinct : (outstanding.map (·.reservationId)).Nodup)
include consistent distinct

theorem SlotCover.key_le (key : String) :
    (committed ++ outstanding).countP (fun grant => grant.key = key ∧ grant.day = state.day) ≤
      state.countOf key := by
  rw [countP_append, AlertState.count_eq_pending consistent]
  exact Nat.add_le_add (covers.confirmed key) (covers.pending_le distinct key)

/-- The count of the day covers its slots because each key's count does. -/
theorem SlotCover.day_le :
    (committed ++ outstanding).countP (·.day = state.day) ≤ state.sentToday := by
  rw [consistent.summed, countP_eq_length_filter]
  refine Dict.length_le_sum AlertGrant.key KeyBudget.count state.keys fun key => ?_
  have bound := covers.key_le consistent distinct key
  rw [countP_filter]
  simpa [Bool.decide_and, AlertState.countOf] using bound

end

end

/-- The slots within the limits of their days. -/
structure WithinCaps (limits : AlertLimits) (grants : List AlertGrant) : Prop where
  daily : ∀ day, grants.countP (·.day = day) ≤ limits.dailyCap
  perKey : ∀ key day, grants.countP (fun grant => grant.key = key ∧ grant.day = day) ≤
    limits.perKeyDailyCap

theorem WithinCaps.mono
    (within : WithinCaps limits grants) (less : ∀ select, fewer.countP select ≤ grants.countP select) :
    WithinCaps limits fewer :=
  ⟨fun day => (less _).trans (within.daily day), fun key day => (less _).trans (within.perKey key day)⟩

structure AlertBooks (limits : AlertLimits) (host : AlertHost) : Prop where
  within : WithinCaps limits (host.committed ++ host.outstanding)
  distinct : (host.outstanding.map (·.reservationId)).Nodup
  kept : host.committed ++ host.outstanding ≠ [] → ∃ state, host.file = .stored 2 state ∧
    state.Consistent ∧ state.day ∈ host.days ∧ SlotCover state host.committed host.outstanding

/-- Dates do not go back, an identifier is drawn that no reservation has, and the processes whose
slots are outstanding are alive. -/
def Timely (host : AlertHost) : AlertCall → Prop
  | .reserve alive _ _ day _ drawn =>
    (∀ earlier ∈ host.days, earlier ≤ day) ∧
      (∀ grant ∈ host.outstanding, grant.reservationId ≠ drawn) ∧
      ((host.file.load day).reservations.get? drawn = none) ∧
      ∀ grant ∈ host.outstanding, alive grant.owner = true
  | _ => True

instance (host : AlertHost) : (call : AlertCall) → Decidable (Timely host call)
  | .reserve alive _ _ day _ drawn => inferInstanceAs (Decidable
      ((∀ earlier ∈ host.days, earlier ≤ day) ∧
        (∀ grant ∈ host.outstanding, grant.reservationId ≠ drawn) ∧
        ((host.file.load day).reservations.get? drawn = none) ∧
        ∀ grant ∈ host.outstanding, alive grant.owner = true))
  | .commit .. | .release .. => inferInstanceAs (Decidable True)

/-- The state a reservation starts from: the one of its day, or an empty one. -/
theorem AlertBooks.begins (books : AlertBooks limits host)
    (onward : ∀ earlier ∈ host.days, earlier ≤ day)
    (begun : state = if (host.file.load day).day ≠ day then { day } else host.file.load day) :
    state.Consistent ∧ state.day = day ∧ SlotCover state host.committed host.outstanding := by
  have consistent : state.Consistent := by
    rw [begun]
    split
    · exact AlertState.empty_consistent day
    · exact AlertFile.load_consistent host.file day
  have today : state.day = day := by
    rw [begun]
    split
    · rfl
    · exact not_not.mp ‹_›
  refine ⟨consistent, today, ?_⟩
  by_cases unused : host.committed ++ host.outstanding = []
  · obtain ⟨none_committed, none_outstanding⟩ := append_eq_nil_iff.mp unused
    rw [none_committed, none_outstanding]
    exact ⟨by simp, by simp, by simp⟩
  · obtain ⟨stored, file, kept, among, covers⟩ := books.kept unused
    rw [file, AlertFile.load_stored kept] at begun
    by_cases same : stored.day = day
    · rw [if_neg (not_not.mpr same)] at begun
      rw [begun]
      exact covers
    · -- The stored day is over, and no slot was granted for the new one.
      have passed : stored.day < day := lt_of_le_of_ne (onward stored.day among) same
      have elsewhere : ∀ grant ∈ host.committed ++ host.outstanding, grant.day ≠ day :=
        fun grant held => ne_of_lt (lt_of_le_of_lt (covers.past grant held) passed)
      refine ⟨fun grant held on_day => ?_, fun key => ?_, fun grant held => ?_⟩
      · exact absurd (on_day.trans today) (elsewhere grant (mem_append_right _ held))
      · refine le_of_eq_of_le (countP_eq_zero.mpr fun grant held chosen => ?_) (Nat.zero_le _)
        have on_day := (of_decide_eq_true chosen).2
        exact elsewhere grant (mem_append_left _ held) (on_day.trans today)
      · rw [today]
        exact (covers.past grant held).trans passed.le

theorem SlotCover.reaped {alive : AlertOwner → Bool}
    (covers : SlotCover state committed outstanding) (reaped : AlertState.Reaped alive state later)
    (living : ∀ grant ∈ outstanding, alive grant.owner = true) : SlotCover later committed outstanding := by
  refine ⟨fun grant held on_day => ?_, fun key => ?_, fun grant held => ?_⟩
  · obtain ⟨reservation, found, keyed, owned⟩ :=
      covers.pending grant held (on_day.trans reaped.day)
    refine ⟨reservation, reaped.kept _ _ found ?_, keyed, owned⟩
    rw [owned]
    exact living grant held
  · rw [reaped.day, reaped.confirmed]
    exact covers.confirmed key
  · rw [reaped.day]
    exact covers.past grant held

theorem SlotCover.granted (covers : SlotCover state committed outstanding)
    (granted : AlertState.Grants limits state later key drawn owner)
    (fresh : ∀ grant ∈ outstanding, grant.reservationId ≠ drawn) :
    SlotCover later committed
      (outstanding ++ [{ reservationId := drawn, key, day := state.day, owner }]) := by
  obtain ⟨nowS, reservations⟩ := granted.reservations
  refine ⟨fun grant held on_day => ?_, fun probe => ?_, ?_⟩
  · rw [reservations]
    rcases mem_append.mp held with before | last
    · rw [Dict.get?_set_of_ne (fresh grant before)]
      exact covers.pending grant before (on_day.trans granted.day)
    · rw [mem_singleton.mp last, Dict.get?_set_self]
      exact ⟨_, rfl, rfl, rfl⟩
  · rw [granted.day, granted.confirmed]
    exact covers.confirmed probe
  · rw [granted.day, ← append_assoc]
    exact forall_mem_append.mpr ⟨covers.past, forall_mem_singleton.mpr (Int.le_refl _)⟩

/-- One slot more is within the limits when the counts were below them. -/
theorem WithinCaps.granted (within : WithinCaps limits (committed ++ outstanding))
    (covers : SlotCover state committed outstanding) (consistent : state.Consistent)
    (distinct : (outstanding.map (·.reservationId)).Nodup)
    (granted : AlertState.Grants limits state later key drawn owner) :
    WithinCaps limits (committed ++
      (outstanding ++ [{ reservationId := drawn, key, day := state.day, owner }])) := by
  rw [← append_assoc]
  constructor
  · intro day
    rw [countP_append, countP_singleton]
    split
    · rename_i same
      have bound := covers.day_le consistent distinct
      have below := granted.daily
      have today : state.day = day := of_decide_eq_true same
      rw [today] at bound
      omega
    · exact within.daily day
  · intro probe day
    rw [countP_append, countP_singleton]
    split
    · rename_i same
      have keyed : key = probe ∧ state.day = day := of_decide_eq_true same
      have bound := covers.key_le consistent distinct key
      have below := granted.perKey
      rw [keyed.1, keyed.2] at bound
      rw [keyed.1] at below
      omega
    · exact within.perKey probe day

theorem AlertBooks.reserve (books : AlertBooks limits host) {alive : AlertOwner → Bool}
    (timely : Timely host (.reserve alive owner key day nowS drawn)) :
    AlertBooks limits (host.step limits (.reserve alive owner key day nowS drawn)) := by
  obtain ⟨onward, fresh, unused, living⟩ := timely
  simp only [AlertHost.step, AlertFile.reserve]
  generalize begun : (if (host.file.load day).day ≠ day then { day } else host.file.load day) = state
  obtain ⟨consistent, today, covers⟩ := books.begins onward begun.symm
  have absent : state.reservations.get? drawn = none := by
    rw [← begun]
    split
    · rfl
    · exact unused
  have reaped := AlertState.reap_abandoned_reaped alive consistent
  generalize reapAbandoned alive state = reaping at reaped
  obtain ⟨after, changed⟩ := reaping
  have now_covers := covers.reaped reaped living
  have slot := AlertState.reserve_slot_cases limits key drawn nowS owner reaped.consistent
    (reaped.fewer drawn absent)
  simp only at slot now_covers ⊢
  generalize reserveSlot after key nowS limits owner drawn = answer at slot
  have now_today : after.day = day := reaped.day.trans today
  cases slot with
  | suppressed reason last =>
    refine ⟨by simpa using books.within, by simpa using books.distinct, fun used => ?_⟩
    simp only [append_nil] at used ⊢
    cases changed with
    | true => exact ⟨after, rfl, reaped.consistent, by simp [now_today], now_covers⟩
    | false =>
      obtain ⟨stored, file, kept, among, before⟩ := books.kept used
      exact ⟨stored, file, kept, mem_append_left _ among, before⟩
  | granted last next grants =>
    have next_covers := now_covers.granted grants fresh
    have within := books.within.granted now_covers reaped.consistent books.distinct grants
    rw [now_today] at next_covers within
    refine ⟨within, ?_, fun _ => ⟨next, rfl, grants.consistent, ?_, next_covers⟩⟩
    · rw [map_append, nodup_append]
      refine ⟨books.distinct, nodup_singleton _, ?_⟩
      rintro id listed other last rfl
      obtain ⟨grant, held, same⟩ := mem_map.mp listed
      rw [map_singleton, mem_singleton] at last
      exact fresh grant held (same.trans last)
    · rw [grants.day, now_today]
      simp

/-! ### Ending a slot -/

section Ending

variable {key : String} {day : Int} {reservationId : Option String} {success : Bool}

/-- The slots committed by a call that ends some. -/
def committedBy (key : String) (day : Int) (reservationId : Option String) (success : Bool)
    (outstanding : List AlertGrant) : List AlertGrant :=
  if success then outstanding.filter (·.endedBy key day reservationId) else []

theorem AlertGrant.ended_by_iff {grant : AlertGrant} :
    grant.endedBy key day reservationId = true ↔
      reservationId = some grant.reservationId ∧ grant.key = key ∧ grant.day = day := by
  simp [AlertGrant.endedBy, and_assoc]

theorem committed_by_subset (held : grant ∈ committedBy key day reservationId success outstanding) :
    grant ∈ outstanding ∧ grant.endedBy key day reservationId = true := by
  unfold committedBy at held
  split at held
  · exact mem_filter.mp held
  · cases held

/-- No slot appears by ending some. -/
theorem count_ended_le (select : AlertGrant → Bool) :
    (committed ++ committedBy key day reservationId success outstanding ++
        outstanding.filter (!·.endedBy key day reservationId)).countP select ≤
      (committed ++ outstanding).countP select := by
  have whole := (filter_append_perm (·.endedBy key day reservationId) outstanding).countP_eq select
  rw [countP_append] at whole
  simp only [countP_append, committedBy]
  split
  · omega
  · simp only [countP_nil]
    omega

theorem ended_past (covers : SlotCover state committed outstanding)
    (held : grant ∈ committed ++ committedBy key day reservationId success outstanding ++
      outstanding.filter (!·.endedBy key day reservationId)) : grant.day ≤ state.day := by
  rcases mem_append.mp held with done | still
  · rcases mem_append.mp done with before | now
    · exact covers.past grant (mem_append_left _ before)
    · exact covers.past grant (mem_append_right _ (committed_by_subset now).1)
  · exact covers.past grant (mem_append_right _ (mem_filter.mp still).1)

/-- Slots of other days end without the state. -/
theorem SlotCover.ended_elsewhere (covers : SlotCover state committed outstanding)
    (elsewhere : ∀ grant ∈ outstanding, grant.endedBy key day reservationId = true →
      grant.day ≠ state.day) :
    SlotCover state (committed ++ committedBy key day reservationId success outstanding)
      (outstanding.filter (!·.endedBy key day reservationId)) := by
  refine ⟨fun grant held => covers.pending grant (mem_filter.mp held).1, fun probe => ?_,
    fun grant held => ended_past covers held⟩
  have none_here : (committedBy key day reservationId success outstanding).countP
      (fun grant => grant.key = probe ∧ grant.day = state.day) = 0 := by
    refine countP_eq_zero.mpr fun grant held chosen => ?_
    obtain ⟨inside, ended⟩ := committed_by_subset held
    exact elsewhere grant inside ended (of_decide_eq_true chosen).2
  rw [countP_append, none_here]
  exact covers.confirmed probe

/-- At most one slot has the identifier. -/
theorem ended_length_le (distinct : (outstanding.map (·.reservationId)).Nodup) :
    (outstanding.filter (·.endedBy key day reservationId)).length ≤ 1 := by
  rw [← countP_eq_length_filter]
  cases reservationId with
  | none =>
    have none_named : outstanding.countP (·.endedBy key day none) = 0 :=
      countP_eq_zero.mpr fun grant _ ended => by simpa using (AlertGrant.ended_by_iff.mp ended).1
    omega
  | some id =>
    have named : outstanding.countP (·.endedBy key day (some id)) ≤
        outstanding.countP (·.reservationId == id) :=
      countP_mono_left fun grant _ ended => by
        have same := Option.some.inj (AlertGrant.ended_by_iff.mp ended).1
        simp [same]
    have once := nodup_iff_count_le_one.mp distinct id
    rw [count_eq_countP, countP_map] at once
    exact named.trans once

theorem count_committed_by_le (distinct : (outstanding.map (·.reservationId)).Nodup) (probe : String) :
    (committedBy key day reservationId success outstanding).countP
        (fun grant => grant.key = probe ∧ grant.day = state.day) ≤
      if probe = key ∧ success = true then 1 else 0 := by
  cases success with
  | false => simp [committedBy]
  | true =>
    by_cases same : probe = key
    · simp only [same, and_self, ↓reduceIte, committedBy]
      exact countP_le_length.trans (ended_length_le distinct)
    · simp only [same, false_and, ↓reduceIte, nonpos_iff_eq_zero]
      refine countP_eq_zero.mpr fun grant held chosen => ?_
      have ended := AlertGrant.ended_by_iff.mp (committed_by_subset held).2
      exact same ((of_decide_eq_true chosen).1.symm.trans ended.2.1)

section

variable (covers : SlotCover state committed outstanding)
include covers

/-- A slot of the state's day ends with its reservation. -/
theorem SlotCover.ended_here {id : String}
    (distinct : (outstanding.map (·.reservationId)).Nodup) (consistent : state.Consistent)
    (today : state.day = day) (ended : state.finish key id success = some later) :
    SlotCover later (committed ++ committedBy key day (some id) success outstanding)
      (outstanding.filter (!·.endedBy key day (some id))) := by
  have ends := AlertState.finish_ends consistent ended
  obtain ⟨reservation, _, _, held_id, keyed, _⟩ := AlertState.finish_cases ended
  refine ⟨fun grant held on_day => ?_, fun probe => ?_, fun grant held => ?_⟩
  · obtain ⟨inside, open_still⟩ := mem_filter.mp held
    obtain ⟨pending, found, same_key, owned⟩ := covers.pending grant inside (on_day.trans ends.day)
    have different : grant.reservationId ≠ id := by
      intro same
      rw [same, held_id] at found
      cases found
      have named : grant.endedBy key day (some id) = true :=
        AlertGrant.ended_by_iff.mpr ⟨by rw [same], same_key.symm.trans keyed,
          (on_day.trans ends.day).trans today⟩
      simp [named] at open_still
    rw [ends.reservations, Dict.get?_erase, if_neg different]
    exact ⟨pending, found, same_key, owned⟩
  · rw [ends.day, ends.confirmed, countP_append]
    exact Nat.add_le_add (covers.confirmed probe) (count_committed_by_le distinct probe)
  · rw [ends.day]
    exact ended_past covers held

/-- With its reservation there and its key counted, a slot of the day can be ended. -/
theorem SlotCover.ends {id : String} (consistent : state.Consistent) (held : grant ∈ outstanding)
    (named : grant.endedBy key day (some id) = true) (today : state.day = day) :
    state.finish key id success ≠ none := by
  obtain ⟨same_id, same_key, same_day⟩ := AlertGrant.ended_by_iff.mp named
  obtain ⟨reservation, found, keyed, _⟩ := covers.pending grant held (same_day.trans today.symm)
  obtain ⟨budget, counted⟩ := consistent.owned _ _ found
  rw [← Option.some.inj same_id] at found
  rw [keyed, same_key] at counted
  simp [AlertState.finish, found, counted, keyed, same_key]

/-- The file and the slots after a call that ends some. -/
theorem SlotCover.finish
    (distinct : (outstanding.map (·.reservationId)).Nodup) (consistent : state.Consistent) :
    ∃ after, (AlertFile.stored 2 state).finish key day reservationId success = .stored 2 after ∧
      after.Consistent ∧ after.day = state.day ∧
      SlotCover after (committed ++ committedBy key day reservationId success outstanding)
        (outstanding.filter (!·.endedBy key day reservationId)) := by
  unfold AlertFile.finish
  cases reservationId with
  | none =>
    refine ⟨state, rfl, consistent, rfl, covers.ended_elsewhere fun grant held ended => ?_⟩
    cases (AlertGrant.ended_by_iff.mp ended).1
  | some id =>
    simp only [AlertFile.load_stored consistent]
    by_cases today : state.day = day
    · simp only [today, ↓reduceIte]
      cases ended : state.finish key id success with
      | some after =>
        have ends := AlertState.finish_ends consistent ended
        exact ⟨after, rfl, ends.consistent, ends.day.trans today,
          covers.ended_here distinct consistent today ended⟩
      | none =>
        refine ⟨state, rfl, consistent, today, covers.ended_elsewhere fun grant held named => ?_⟩
        exact absurd ended (covers.ends consistent held named today)
    · simp only [today, ↓reduceIte]
      refine ⟨state, rfl, consistent, rfl, covers.ended_elsewhere fun grant held named same => ?_⟩
      exact today (same.symm.trans (AlertGrant.ended_by_iff.mp named).2.2)

end

theorem AlertBooks.finish (books : AlertBooks limits host)
    (key : String) (day : Int) (reservationId : Option String) (success : Bool) :
    AlertBooks limits
      { host with
        file := host.file.finish key day reservationId success
        outstanding := host.outstanding.filter (!·.endedBy key day reservationId)
        committed := host.committed ++ committedBy key day reservationId success host.outstanding } := by
  refine ⟨books.within.mono fun select => count_ended_le select,
    books.distinct.sublist (filter_sublist.map _), fun used => ?_⟩
  have before : host.committed ++ host.outstanding ≠ [] := by
    intro unused
    obtain ⟨none_committed, none_outstanding⟩ := append_eq_nil_iff.mp unused
    simp [none_committed, none_outstanding, committedBy] at used
  obtain ⟨state, file, consistent, among, covers⟩ := books.kept before
  obtain ⟨after, saved, kept, same_day, covered⟩ := covers.finish books.distinct consistent
  refine ⟨after, ?_, kept, same_day ▸ among, covered⟩
  rw [file]
  exact saved

end Ending

theorem AlertBooks.step (books : AlertBooks limits host)
    (call : AlertCall) (timely : Timely host call) : AlertBooks limits (host.step limits call) := by
  cases call with
  | reserve => exact books.reserve timely
  | commit key day reservationId => exact books.finish key day reservationId true
  | release key day reservationId =>
    have released := books.finish key day reservationId false
    simp only [committedBy, Bool.false_eq_true, ↓reduceIte, append_nil] at released
    exact released

/-- As long as the dates brought to the ledger do not go back, no day and no key of a day has more
committed slots than its cap, in any order of the calls of live processes. -/
theorem alert_budgets_hold (limits : AlertLimits) (file : AlertFile) (calls : List AlertCall)
    (timely : Along (AlertHost.step limits) Timely { file } calls) (day : Int) :
    let host := calls.foldl (AlertHost.step limits) { file }
    host.committed.countP (·.day = day) ≤ limits.dailyCap ∧
      ∀ key, host.committed.countP (fun grant => grant.key = key ∧ grant.day = day) ≤
        limits.perKeyDailyCap := by
  have first : AlertBooks limits { file } :=
    ⟨⟨by simp, by simp⟩, by simp, fun used => absurd rfl used⟩
  have books := foldl_preserves (AlertBooks limits)
    (fun host call meets books => books.step call meets) timely first
  have within := books.within
  refine ⟨?_, fun key => ?_⟩
  · exact (List.Sublist.countP_le (sublist_append_left _ _)).trans (within.daily day)
  · exact (List.Sublist.countP_le (sublist_append_left _ _)).trans (within.perKey key day)

namespace Sample

def mailLimits : AlertLimits where
  perKey := Nat.one_pos
  reserved := by decide

/-- A slot for a mail, asked for by a live process. -/
def mailOn (day : Int) (key drawn : String) : AlertCall :=
  .reserve (fun _ => true) { pid := 7, start := "100" } key day 0 drawn

end Sample

open Sample

/-- A mail on one day, a second one suppressed, and one more after midnight. -/
theorem alert_budgets_hold_past_midnight :
    (([mailOn 1 "disk_low" "a", .commit "disk_low" 1 (some "a"), mailOn 1 "disk_low" "b",
        mailOn 2 "disk_low" "c", .commit "disk_low" 2 (some "c")].foldl
      (AlertHost.step mailLimits) { file := .missing }).committed.countP (·.day = 2)) ≤ 20 :=
  (alert_budgets_hold mailLimits .missing _ (by decide +kernel) 2).1

/-- A process that read the date before midnight and comes late finds the ledger of the new day,
replaces it by an empty one of the old day, and sends the mail of that day again. -/
theorem date_back_doubles_mail :
    (([mailOn 1 "disk_low" "a", .commit "disk_low" 1 (some "a"), mailOn 2 "backup_stale" "b",
        mailOn 1 "disk_low" "c", .commit "disk_low" 1 (some "c")].foldl
      (AlertHost.step mailLimits) { file := .missing }).committed.countP
        fun grant => grant.key = "disk_low" ∧ grant.day = 1) = 2 ∧
    mailLimits.perKeyDailyCap = 1 := by
  decide +kernel

end KrxAlpha
