import KrxAlpha.OrderNumbers

/-! The order rate over a day. The gate counts the sends noted within the last minute, and
a send is noted no earlier than its intent was journaled; a restore notes the journal's own
times. So whichever minute is looked at, its newest intent passed a gate that had counted
all the others. -/
namespace KrxAlpha
open List
open OrderManager

/-- The time of a record that is an intent of the mode. -/
def intentTime? (mode : ExecutionMode) (record : Record) : Option Timestamp :=
  match record.event with
  | .intent .. => if record.mode = mode then some record.ts else none
  | _ => none

/-- The times of one mode's intents on record. -/
def intentTimes (mode : ExecutionMode) (journal : List Record) : List Timestamp :=
  journal.filterMap (intentTime? mode)

/-- The minute that ends at an instant, the instant included. -/
def inMinute (last at_ : Int) : Bool := last - 60000000 < at_ ∧ at_ ≤ last

/-- The intents of a mode on record within the minute that ends at an instant. -/
def intentsInMinute (mode : ExecutionMode) (journal : List Record) (last : Timestamp) : Nat :=
  (intentTimes mode journal).countP (inMinute last)

theorem intent_times_append (mode : ExecutionMode) (front back : List Record) :
    intentTimes mode (front ++ back) = intentTimes mode front ++ intentTimes mode back :=
  filterMap_append ..

variable {mode : ExecutionMode}

/-- An intent of the mode is a numbered record of the mode. -/
theorem intent_time_some {record : Record}
    (intent : intentTime? mode record = some at_) :
    record.event.numberedId?.isSome ∧ record.mode = mode := by
  unfold intentTime? at intent
  split at intent
  · rename_i event
    split at intent
    · rename_i own
      exact ⟨by rw [event]; rfl, own⟩
    · cases intent
  · cases intent

variable {journal : List Record}

/-- Dropping records that are no intents of the mode drops no time. -/
theorem intent_times_filter {keep : Record → Bool}
    (kept : ∀ record ∈ journal, record.event.numberedId?.isSome → record.mode = mode →
      keep record) : intentTimes mode (journal.filter keep) = intentTimes mode journal := by
  unfold intentTimes
  rw [filterMap_filter]
  apply filterMap_congr
  intro record member
  cases intent : intentTime? mode record with
  | none => simp
  | some at_ =>
    obtain ⟨numbered, own⟩ := intent_time_some intent
    simp [kept record member numbered own]

theorem intent_times_numbered (mode : ExecutionMode) (journal : List Record) :
    intentTimes mode journal = intentTimes mode (numberedRecords journal) :=
  (intent_times_filter fun _ _ numbered _ => numbered).symm

/-- A day's file has every intent that stands on the day. -/
theorem intent_times_read
    (today : ∀ record ∈ numberedRecords journal, dayOf record.ts = day) :
    intentTimes mode (readDay journal mode day) = intentTimes mode journal := by
  apply intent_times_filter
  intro record member numbered own
  exact decide_eq_true ⟨today record (mem_filter.mpr ⟨member, numbered⟩), own⟩

theorem scan_record_times {record : Record} (accepted : scanRecord scan record = .ok newer) :
    newer.2 = scan.2 ++ (intentTime? record.mode record).toList := by
  obtain ⟨ts, mode, event⟩ := record
  cases event with
  | intent clientId =>
    obtain ⟨seq, -, done⟩ := bind_ok accepted
    cases done
    rw [intentTime?, if_pos rfl]
    rfl
  | riskReject clientId =>
    obtain ⟨seq, -, done⟩ := bind_ok accepted
    cases done
    exact (append_nil _).symm
  | _ =>
    cases accepted
    exact (append_nil _).symm

/-- The sends a restore notes are the intents on record that it reads. -/
theorem scan_times (mode : ExecutionMode) (own : ∀ record ∈ records, record.mode = mode)
    (scanned : records.foldlM scanRecord scan = .ok last) :
    last.2 = scan.2 ++ intentTimes mode records := by
  induction records generalizing scan with
  | nil =>
    cases scanned
    exact (append_nil _).symm
  | cons record rest ih =>
    rw [foldlM_cons] at scanned
    obtain ⟨middle, first, later⟩ := bind_ok scanned
    have split : intentTimes mode (record :: rest) =
        (intentTime? mode record).toList ++ intentTimes mode rest := by
      unfold intentTimes
      rw [filterMap_cons]
      cases intentTime? mode record <;> rfl
    rw [ih (fun other member => own other (mem_cons_of_mem _ member)) later,
      scan_record_times first, own record mem_cons_self, append_assoc, split]

/-- The clock does not go back within a submission. -/
def SubmitClock.Forward (clock : SubmitClock) : Prop :=
  clock.idAt ≤ clock.gateAt ∧ clock.gateAt ≤ clock.createdAt ∧ clock.createdAt ≤ clock.journaledAt ∧
    clock.journaledAt ≤ clock.submittedAt ∧ clock.submittedAt ≤ clock.resultAt

instance (clock : SubmitClock) : Decidable clock.Forward := inferInstanceAs (Decidable (_ ∧ _))

/-- Sends noted later are counted wherever the journaled ones are. -/
theorem noted_count {journaled noted : List Int}
    (later : List.Forall₂ (· ≤ ·) journaled noted) (since : Int) :
    journaled.countP (fun at_ => since < at_) ≤ noted.countP (fun at_ => since < at_) := by
  induction later with
  | nil => exact le_rfl
  | cons first rest ih =>
    rename_i earlier later _ _
    have order : earlier ≤ later := first
    simp only [countP_cons, decide_eq_true_eq]
    split <;> split <;> omega

/-- No minute of a mode's intents on record is over the cap. -/
structure RateKept (cap : Int) (day : Int) (journal : List Record) : Prop where
  minutes : ∀ mode last, (intentsInMinute mode journal last : Int) ≤ max 0 cap
  today : ∀ record ∈ numberedRecords journal, dayOf record.ts = day

/-- The running session has noted every intent of its mode on record. -/
structure RateWatched (cap : Int) (day : Int) (m : OrderManager) : Prop where
  kept : RateKept cap day m.journal
  capped : m.limits.maxOrdersPerMinute ≤ cap
  noted : List.Forall₂ (· ≤ ·) (intentTimes m.mode m.journal) m.submitTimes

/-- A change that journals no intent keeps every minute and every noted send. -/
theorem RateWatched.silent (watched : RateWatched cap day m)
    (mode : later.mode = m.mode) (limits : later.limits = m.limits)
    (noted : later.submitTimes = m.submitTimes)
    (same : ∀ mode, intentTimes mode later.journal = intentTimes mode m.journal)
    (today : ∀ record ∈ numberedRecords later.journal, dayOf record.ts = day) :
    RateWatched cap day later := by
  refine ⟨⟨fun mode last => ?_, today⟩, limits ▸ watched.capped, ?_⟩
  · rw [intentsInMinute, same]
    exact watched.kept.minutes mode last
  · rw [mode, same, noted]
    exact watched.noted

/-- One more intent, let through by a gate that counted fewer noted sends than the cap. -/
theorem minute_after_send {journaled noted : List Int}
    (later : List.Forall₂ (· ≤ ·) journaled noted) (order : gateAt ≤ journaledAt)
    (room : ((noted.filter fun at_ => gateAt - 60000000 < at_).length : Int) < cap)
    (minutes : ∀ last, (journaled.countP (inMinute last) : Int) ≤ max 0 cap) (last : Int) :
    ((journaled ++ [journaledAt]).countP (inMinute last) : Int) ≤ max 0 cap := by
  rw [countP_append, countP_singleton]
  split
  · rename_i inside
    simp only [inMinute, decide_eq_true_eq] at inside
    -- Whatever else is in the minute is later than a minute before the gate.
    have counted : journaled.countP (inMinute last) ≤
        journaled.countP (fun at_ => gateAt - 60000000 < at_) := by
      apply countP_mono_left
      intro at_ _ within
      simp only [inMinute, decide_eq_true_eq] at within ⊢
      omega
    have seen := noted_count later (gateAt - 60000000)
    rw [← countP_eq_length_filter] at room
    omega
  · simpa using minutes last

theorem action_rate
    (forward : ∀ env ∈ op.submitEnv?, env.clock.Forward ∧ dayOf env.clock.journaledAt = day)
    (action : Action start op m later) (watched : RateWatched cap day m) : RateWatched cap day later := by
  have limits : later.limits = m.limits := by cases action <;> rfl
  have mode := (action_config action).1
  have today := watched.kept.today
  have filed : ∀ {record}, numberedRecords later.journal = numberedRecords m.journal ++ [record] →
      dayOf record.ts = day → ∀ other ∈ numberedRecords later.journal, dayOf other.ts = day := by
    intro record records newest
    rw [records]
    exact forall_mem_append.mpr ⟨today, forall_mem_singleton.mpr newest⟩
  have times : ∀ mode, intentTimes mode later.journal =
      intentTimes mode (numberedRecords later.journal) :=
    fun mode => intent_times_numbered mode later.journal
  cases action_counts action with
  | quiet grows same records =>
    refine watched.silent mode limits same (fun mode => ?_) (records ▸ today)
    rw [times, records, ← intent_times_numbered]
  | refused intent env code detail asked seq same records =>
    refine watched.silent mode limits same (fun mode => ?_) (filed records (forward env asked).2)
    rw [times, records, intent_times_append, ← intent_times_numbered]
    simp [intentTimes, filterMap_cons, intentTime?]
  | sent intent env quote ref asked passed seq sent records =>
    obtain ⟨⟨-, gate, created, journaled, -⟩, newest⟩ := forward env asked
    obtain ⟨-, orderable, -, checked⟩ := risk_gate_ok passed
    have own : intentTimes m.mode later.journal =
        intentTimes m.mode m.journal ++ [env.clock.journaledAt] := by
      rw [times, records, intent_times_append, ← intent_times_numbered]
      simp [intentTimes, intentTime?]
    refine ⟨⟨fun other last => ?_, filed records newest⟩, limits ▸ watched.capped, ?_⟩
    · by_cases same : other = m.mode
      · rw [same, intentsInMinute, own]
        have room : ((m.submitTimes.filter fun at_ => env.clock.gateAt - 60000000 < at_).length : Int) <
            cap := lt_of_lt_of_le checked.rate watched.capped
        exact minute_after_send watched.noted (gate.trans created) room (watched.kept.minutes m.mode) last
      · have unchanged : intentTimes other later.journal = intentTimes other m.journal := by
          rw [times, records, intent_times_append, ← intent_times_numbered]
          simp [intentTimes, intentTime?, Ne.symm same]
        rw [intentsInMinute, unchanged]
        exact watched.kept.minutes other last
    · rw [mode, own, sent]
      exact rel_append watched.noted (.cons journaled .nil)

/-- A restore notes a send for every intent of its mode on record, at the record's time. -/
theorem open_session_watched
    {limits : RiskLimits} {costs : CostModel}
    (kept : RateKept cap day journal) (capped : limits.maxOrdersPerMinute ≤ cap)
    (opened : openSession journal mode limits costs day opening = .ok m) : RateWatched cap day m := by
  obtain ⟨modeOf, limitsOf, journalOf, scanned⟩ := open_session_scan opened
  refine ⟨journalOf ▸ kept, limitsOf ▸ capped, ?_⟩
  have own : ∀ record ∈ readDay journal mode day, record.mode = mode := fun record member => by
    simpa using (of_decide_eq_true (mem_filter.mp member).2).2
  have times := scan_times mode own scanned
  simp only [nil_append] at times
  rw [modeOf, journalOf, times, intent_times_read kept.today]
  exact forall₂_same.mpr fun _ _ => le_rfl

/-- What a run of the day is made of: sessions under one cap, a clock that does not go back
within a submission, intents filed on the day, and a journal that takes every record. -/
def DeskStep.Timely (cap day : Int) : DeskStep → Prop
  | .start _ limits _ _ => limits.maxOrdersPerMinute ≤ cap
  | .announce .. => True
  | .op inner => ∀ env ∈ inner.submitEnv?, env.clock.Forward ∧ dayOf env.clock.journaledAt = day
  | .die during _ => ∀ env ∈ during.submitEnv?, env.clock.Forward ∧ dayOf env.clock.journaledAt = day
  | .failSubmit .. => False
  | .failReconcile .. => False
  | .failResolve .. => False

instance DeskStep.decidableTimely (cap day : Int) (step : DeskStep) :
    Decidable (step.Timely cap day) :=
  match step with
  | .start _ limits _ _ => inferInstanceAs (Decidable (limits.maxOrdersPerMinute ≤ cap))
  | .announce .. => inferInstanceAs (Decidable True)
  | .op inner => inferInstanceAs
      (Decidable (∀ env ∈ inner.submitEnv?, env.clock.Forward ∧ dayOf env.clock.journaledAt = day))
  | .die during _ => inferInstanceAs
      (Decidable (∀ env ∈ during.submitEnv?, env.clock.Forward ∧ dayOf env.clock.journaledAt = day))
  | .failSubmit .. => inferInstanceAs (Decidable False)
  | .failReconcile .. => inferInstanceAs (Decidable False)
  | .failResolve .. => inferInstanceAs (Decidable False)

theorem desk_rate (cap day : Int) {desk : Desk} {step : DeskStep} (timely : step.Timely cap day)
    (holds : desk.Holds (RateWatched cap day) (RateKept cap day)) :
    (desk.step day step).Holds (RateWatched cap day) (RateKept cap day) := by
  refine Desk.step_holds (fun m watched => watched.kept) ?_ ?_ ?_ ?_ ?_ ?_ holds
  · rintro during kind start m after action watched
    refine action_rate (fun env asked => ?_) action watched
    rcases kind with rfl | ⟨appends, rfl⟩ <;> exact timely env asked
  · rintro mode limits costs opening rfl journal m kept opened
    exact open_session_watched kept timely opened
  · rintro at_ event rfl opens m watched
    have quiet := announce_quiet m at_ opens
    refine watched.silent rfl rfl rfl (fun mode => ?_) (quiet ▸ watched.kept.today)
    rw [intent_times_numbered, quiet, ← intent_times_numbered]
  · rintro intent env fault rfl
    exact timely.elim
  · rintro env left rfl
    exact timely.elim
  · rintro clientId reason env recordedAt rfl
    exact timely.elim

/-- Over every run of the day's sessions, restarts included, no minute holds more journaled
intents of a mode than the cap allows. -/
theorem order_rate_within_cap (cap day : Int) (steps : List DeskStep)
    (timely : ∀ step ∈ steps, step.Timely cap day) (mode : ExecutionMode) (last : Timestamp) :
    (intentsInMinute mode ((Desk.idle []).run day steps).journal last : Int) ≤ max 0 cap := by
  have empty : RateKept cap day [] := ⟨fun _ _ => le_max_left _ _, by simp [numberedRecords]⟩
  have reached : ((Desk.idle []).run day steps).Holds (RateWatched cap day) (RateKept cap day) :=
    Desk.run_holds (fun _ _ allowed holds => desk_rate cap day allowed holds) timely empty
  cases shape : (Desk.idle []).run day steps with
  | idle journal =>
    rw [shape] at reached
    exact reached.minutes mode last
  | running m =>
    rw [shape] at reached
    exact reached.kept.minutes mode last

namespace Sample

/-- A desk that may send two orders a minute, and tries three with a restart in between. -/
def twoAMinute : List DeskStep :=
  let start := DeskStep.start .paper { limits with maxOrdersPerMinute := 2 } free
    { cashKrw := 1000000, costs := free }
  [start, .op (.submit (order "005930" .buy 10) (accepted "1")),
    .die (.submit (order "000660" .buy 10) (accepted "2")) 1, start,
    .op (.submit (order "005930" .buy 10) (accepted "3"))]

end Sample

open Sample

theorem order_rate_within_cap_two :
    intentTimes .paper ((Desk.idle []).run 20707 twoAMinute).journal =
        [nine, nine] ∧
      intentsInMinute .paper ((Desk.idle []).run 20707 twoAMinute).journal nine ≤
        max 0 (2 : Int) :=
  ⟨by decide +kernel, order_rate_within_cap 2 20707 twoAMinute (by decide +kernel) .paper
    nine⟩

end KrxAlpha
