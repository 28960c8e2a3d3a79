import KrxAlpha.HandoverTrace

/-! What caught up means. A cut-over is caught up when the newest event second of the old
connection has reached the first one of the standby. The exchange's order of events is
finer than its seconds, so this leaves open which of the events of that second, and of
those that carry no time, the old connection has brought by then. -/
namespace KrxAlpha

/-- An event of the exchange: its payload, and the second the handover reads from it. -/
abbrev ExchangeEvent := FrameKey × Option (Fin 86400)

def L0Frame.event (frame : L0Frame) : ExchangeEvent := (frame.key, frame.eventSecond)

/-- The event second in the form it is compared in. -/
def L0Frame.eventS (frame : L0Frame) : Option Int :=
  frame.eventSecond.map fun second => (second.val : Int)

/-- The frame a call takes from one side. -/
def HandoverOp.takenFrom (fromStandby : Bool) : HandoverOp → Option L0Frame
  | .admitFrame frame side _ => if side = fromStandby then some frame else none
  | _ => none

/-- The frames a run takes from one side, in order. -/
def deliveredFrom (fromStandby : Bool) (ops : List HandoverOp) : List L0Frame :=
  ops.filterMap (HandoverOp.takenFrom fromStandby)

namespace Handover

/-- What the handover knows, while the standby with this number is there, are seconds of
frames it was given: `old` by the primary and `new` by the standby. -/
structure Noted (owner : Nat) (old new : List L0Frame) (handover : Handover) : Prop where
  adopted : owner ≤ handover.standbyOwner
  primary : handover.standbyOwner = owner → handover.standby.isSome →
    handover.primaryEventS = -1 ∨ ∃ frame ∈ old, frame.eventS = some handover.primaryEventS
  first : handover.standbyOwner = owner → ∀ standby ∈ handover.standby,
    ∀ second ∈ standby.firstEventS, ∃ frame ∈ new, frame.eventS = some second

variable (settings : HandoverSettings) {handover after : Handover} {owner : Nat}
  {old new : List L0Frame}

theorem Noted.settled (noted : handover.Noted owner old new) (settles : handover.Settles after) :
    after.Noted owner old new where
  adopted := noted.adopted.trans settles.owner
  primary same present := by
    have before : handover.standbyOwner = owner :=
      le_antisymm (same ▸ settles.owner) noted.adopted
    rcases settles.standby (same.trans before.symm) with ended | ⟨standby, primary⟩
    · rw [ended] at present
      cases present
    · rw [primary]
      exact noted.primary before (standby ▸ present)
  first same standby present := by
    have before : handover.standbyOwner = owner :=
      le_antisymm (same ▸ settles.owner) noted.adopted
    rcases settles.standby (same.trans before.symm) with ended | ⟨unchanged, -⟩
    · rw [ended] at present
      cases present
    · exact noted.first before standby (unchanged ▸ present)

/-- The ways an admission can change the times: not at all, the primary's newest second,
or those of the standby. -/
inductive Times (before after : Handover) (frame : L0Frame) : Bool → Prop where
  | same (fromStandby : Bool) (standby : after.standby = before.standby)
      (primary : after.primaryEventS = before.primaryEventS) : Times before after frame fromStandby
  | primary (fromStandby : Bool) (second : Int) (timed : frame.eventS = some second)
      (side : before.standby.isSome → fromStandby = false) (standby : after.standby = before.standby)
      (primary : after.primaryEventS = max before.primaryEventS second) :
      Times before after frame fromStandby
  | standby (second : Int) (timed : frame.eventS = some second) (standby : Standby)
      (present : before.standby = some standby)
      (changed : after.standby = some { standby with
        firstEventS := some (standby.firstEventS.getD second)
        newestEventS := some (standby.newestEventS.elim second (max · second)) })
      (primary : after.primaryEventS = before.primaryEventS) : Times before after frame true

theorem note_event_times (handover : Handover) (frame : L0Frame) (fromStandby : Bool) :
    handover.Times (handover.noteEvent frame.eventS fromStandby) frame fromStandby := by
  unfold noteEvent
  cases timed : frame.eventS with
  | none => exact .same _ rfl rfl
  | some second =>
    cases present : handover.standby with
    | none => exact .primary _ second timed (by simp [present]) (by simp [present]) (by simp)
    | some standby =>
      cases fromStandby with
      | false => exact .primary _ second timed (fun _ => rfl) (by simp [present]) rfl
      | true => exact .standby second timed standby present rfl rfl

theorem note_event_owner (handover : Handover) (eventS : Option Int) (fromStandby : Bool) :
    (handover.noteEvent eventS fromStandby).standbyOwner = handover.standbyOwner := by
  unfold noteEvent
  split
  · rfl
  · split <;> rfl

theorem Times.congr {before other : Handover}
    (times : before.Times after frame fromStandby) (standby : other.standby = after.standby)
    (primary : other.primaryEventS = after.primaryEventS) :
    before.Times other frame fromStandby := by
  cases times with
  | same _ kept unchanged => exact .same _ (standby.trans kept) (primary.trans unchanged)
  | primary _ second timed side kept newest =>
    exact .primary _ second timed side (standby.trans kept) (primary.trans newest)
  | standby second timed there present changed unchanged =>
    exact .standby second timed there present (standby.trans changed) (primary.trans unchanged)

/-- An admission has the owner number and the times of the noted event, or no effect. -/
theorem admit_times (handover : Handover) (frame : L0Frame) (fromStandby : Bool) :
    (handover.admitFrame frame fromStandby).1.standbyOwner = handover.standbyOwner ∧
      handover.Times (handover.admitFrame frame fromStandby).1 frame fromStandby := by
  have owner := handover.note_event_owner frame.eventS fromStandby
  have times := handover.note_event_times frame fromStandby
  unfold admitFrame
  split
  · dsimp only
    split
    · split <;> exact ⟨owner, times.congr rfl rfl⟩
    · exact ⟨owner, times.congr rfl rfl⟩
  · exact ⟨rfl, .same _ rfl rfl⟩

section

variable (noted : handover.Noted owner old new)
include noted

theorem Noted.append (more further : List L0Frame) :
    handover.Noted owner (old ++ more) (new ++ further) where
  adopted := noted.adopted
  primary same present := by
    rcases noted.primary same present with reset | ⟨frame, listed, timed⟩
    · exact .inl reset
    · exact .inr ⟨frame, List.mem_append_left _ listed, timed⟩
  first same standby present second noticed := by
    obtain ⟨frame, listed, timed⟩ := noted.first same standby present second noticed
    exact ⟨frame, List.mem_append_left _ listed, timed⟩

theorem Noted.admitted (frame : L0Frame) (fromStandby raises : Bool) :
    (handover.admitFrame frame fromStandby).1.Noted owner
      (old ++ deliveredFrom false [.admitFrame frame fromStandby raises])
      (new ++ deliveredFrom true [.admitFrame frame fromStandby raises]) := by
  obtain ⟨sameOwner, times⟩ := handover.admit_times frame fromStandby
  generalize (handover.admitFrame frame fromStandby).1 = after at sameOwner times
  obtain ⟨adopted, primary, first⟩ := noted.append
    (deliveredFrom false [.admitFrame frame fromStandby raises])
    (deliveredFrom true [.admitFrame frame fromStandby raises])
  rw [← sameOwner] at adopted primary first
  refine ⟨adopted, fun same present => ?_, fun same standby held => ?_⟩
  · cases times with
    | same _ unchanged kept => exact kept ▸ primary same (unchanged ▸ present)
    | standby second timed there before changed kept => exact kept ▸ primary same (by simp [before])
    | primary _ second timed side unchanged newest =>
      obtain rfl := side (unchanged ▸ present)
      rcases max_choice handover.primaryEventS second with older | newer
      · rw [newest, older]
        exact primary same (unchanged ▸ present)
      · rw [newest, newer]
        exact .inr ⟨frame, by simp [deliveredFrom, HandoverOp.takenFrom], timed⟩
  · cases times with
    | same _ unchanged kept => exact first same standby (unchanged ▸ held)
    | primary _ second timed side unchanged newest => exact first same standby (unchanged ▸ held)
    | standby second timed there before changed kept =>
      obtain rfl := Option.mem_some_iff.mp (changed ▸ held)
      intro earliest noticed
      rw [Option.mem_some_iff] at noticed
      -- the second is the one noted already, or else this frame's
      cases known : there.firstEventS with
      | none =>
        obtain rfl : second = earliest := by simpa [known] using noticed
        exact ⟨frame, by simp [deliveredFrom, HandoverOp.takenFrom], timed⟩
      | some time =>
        obtain rfl : time = earliest := by simpa [known] using noticed
        exact first same there before time known

theorem Noted.applied (op : HandoverOp) :
    (handover.apply settings op).Noted owner (old ++ deliveredFrom false [op])
      (new ++ deliveredFrom true [op]) := by
  cases op with
  | admitFrame frame fromStandby raises => exact noted.admitted frame fromStandby raises
  | _ => exact (noted.settled (handover.apply_settles settings (by simp))).append _ _

/-- Along any run the handover only knows seconds of frames it was given. -/
theorem Noted.run (ops : List HandoverOp) :
    (handover.run settings ops).Noted owner (old ++ deliveredFrom false ops)
      (new ++ deliveredFrom true ops) := by
  induction ops generalizing handover old new with
  | nil => simpa [deliveredFrom, Handover.run] using noted
  | cons op rest step =>
    have later := step (noted.applied settings op)
    simp only [List.append_assoc, deliveredFrom, ← List.filterMap_append] at later
    exact later

end

/-- What a caught-up step has compared. -/
theorem step_caught_up
    (cut : handover.step settings standbyFailed answers = (next, some (adapter, .caughtUp))) :
    ∃ standby second, (handover.settle settings answers).standby = some standby ∧
      standby.firstEventS = some second ∧
      second ≤ (handover.settle settings answers).primaryEventS ∧
      next.standbyOwner = (handover.settle settings answers).standbyOwner := by
  unfold step at cut
  split at cut
  · cases cut
  · unfold cutWhenDue at cut
    split at cut
    · cases cut
    · rename_i standby present
      dsimp only at cut
      split at cut
      · cases cut
      split at cut
      · cases cut
      split at cut
      · cases cut
      split at cut
      · cases cut
      simp only [Prod.mk.injEq, Option.some.injEq] at cut
      obtain ⟨rfl, -, reason⟩ := cut
      have reached : standby.firstEventS.any
          (· ≤ (handover.settle settings answers).primaryEventS) = true := by
        by_contra behind
        rw [if_neg behind] at reason
        cases reason
      obtain ⟨timed, atMost⟩ := (Option.any_eq_true_iff_get _ _).mp reached
      exact ⟨standby, _, present, (Option.some_get timed).symm, by simpa using atMost, rfl⟩

end Handover

private theorem delivered_second {exchange : ℕ → ExchangeEvent} {frames : List L0Frame}
    (order : frames.map L0Frame.event = (List.range' start count).map exchange)
    (known : ∃ frame ∈ frames, frame.eventS = some second) :
    ∃ index, start ≤ index ∧ index < start + count ∧
      ∃ time : Fin 86400, (exchange index).2 = some time ∧ (time.val : Int) = second := by
  obtain ⟨frame, listed, timed⟩ := known
  have event := List.mem_map_of_mem (f := L0Frame.event) listed
  rw [order] at event
  obtain ⟨index, within, same⟩ := List.mem_map.mp event
  rw [List.mem_range'_1] at within
  obtain ⟨time, read, value⟩ := Option.map_eq_some_iff.mp timed
  exact ⟨index, within.1, within.2, time, by rw [same]; exact read, value⟩

/-- A standby takes over as caught up, the old connection having brought the exchange's
events `start` to `start + count` since its adoption and the standby those from `first` on.
Then no event was left out exactly when none of those the old connection still had to
bring is without a time or in a second of which the standby has brought an event. -/
theorem caught_up_loses_no_event_iff {settings : HandoverSettings} {handover next : Handover}
    {standby : Standby} {ops : List HandoverOp} {exchange : ℕ → ExchangeEvent}
    (ordered : ∀ i j, i ≤ j → ∀ s ∈ (exchange i).2, ∀ t ∈ (exchange j).2, s ≤ t)
    (adopted : handover.standby = some standby) (silent : standby.firstEventS = none)
    (reset : handover.primaryEventS = -1) {start count first brought : ℕ}
    (old : (deliveredFrom false ops).map L0Frame.event = (List.range' start count).map exchange)
    (new : (deliveredFrom true ops).map L0Frame.event = (List.range' first brought).map exchange)
    {standbyFailed : Bool} {answers : StepAnswers} {adapter : Connection}
    (cut : (handover.run settings ops).step settings standbyFailed answers =
      (next, some (adapter, .caughtUp)))
    (same : next.standbyOwner = handover.standbyOwner) :
    (∀ i < first, i < start + count) ↔
      ∀ i, start + count ≤ i → i < first → ∃ time, (exchange i).2 = some time ∧
        ∀ j, first ≤ j → j < first + brought → (exchange j).2 ≠ some time := by
  constructor
  · intro caughtUp i behind early
    exact absurd (caughtUp i early) (by omega)
  · intro apart
    by_contra missing
    have behind : start + count < first := by
      by_contra notBehind
      exact missing fun i early => by omega
    have begun : handover.Noted handover.standbyOwner [] [] :=
      ⟨le_rfl, fun _ _ => .inl reset, fun _ there present => by
        rw [adopted, Option.mem_some_iff] at present
        simp [← present, silent]⟩
    have noted := (begun.run settings ops).settled
      ((handover.run settings ops).settle_settles settings answers)
    obtain ⟨there, second, present, earliest, reached, owner⟩ := Handover.step_caught_up settings cut
    obtain ⟨j, _, _, late, lateTime, rfl⟩ := delivered_second new
      (noted.first (owner.symm.trans same) there present second earliest)
    have primary := (noted.primary (owner.symm.trans same) (by simp [present])).resolve_left
      (by have := late.isLt; omega)
    obtain ⟨k, _, _, early, earlyTime, value⟩ := delivered_second old primary
    obtain ⟨time, timed, elsewhere⟩ := apart (start + count) le_rfl behind
    -- the missing event lies between one of each connection, both of the standby's second
    have lower : early ≤ time := ordered k (start + count) (by omega) early earlyTime time timed
    have upper : time ≤ late := ordered (start + count) j (by omega) time timed late lateTime
    have level : time = late := by omega
    exact elsewhere j (by omega) (by omega) (level ▸ lateTime)

namespace Sample

/-- The exchange's trades of one symbol, numbered in order and timed by a clock. -/
def tick (clock : ℕ → ℕ) (connection : String) (index : ℕ) : L0Frame :=
  tradeFrame connection (toString index) index index (clock index)

def ticks (clock : ℕ → ℕ) (index : ℕ) : ExchangeEvent := (tick clock "" index).event

/-- A trade every second. -/
def eachSecond (index : ℕ) : ℕ := 32400 + index

/-- All trades in one second. -/
def oneSecond (_ : ℕ) : ℕ := 32400

def adopted : Pump := (freshPump.loop handoverConfig swapBegun).1

/-- The standby begins with trade 2; the old connection brings trades 0 to 2. -/
def bringsAll : List HandoverOp :=
  [.admitFrame (tick eachSecond "new" 2) true false, .admitFrame (tick eachSecond "old" 0) false false,
    .admitFrame (tick eachSecond "old" 1) false false, .admitFrame (tick eachSecond "old" 2) false false]

/-- The standby begins with trade 2, the old connection brings trade 0 of the same second. -/
def bringsFirst : List Round :=
  [{ standby := .frame (tick oneSecond "new" 2) }, { primary := .frame (tick oneSecond "old" 0) }]

end Sample

open Sample in
theorem caught_up_loses_no_event_iff_each_second :
    (∀ i < 2, i < 0 + 3) ↔
      ∀ i, 0 + 3 ≤ i → i < 2 → ∃ time, (ticks eachSecond i).2 = some time ∧
        ∀ j, 2 ≤ j → j < 2 + 1 → (ticks eachSecond j).2 ≠ some time := by
  have ordered : ∀ i j, i ≤ j → ∀ s ∈ (ticks eachSecond i).2, ∀ t ∈ (ticks eachSecond j).2, s ≤ t := by
    intro i j early s hs t ht
    simp only [ticks, tick, tradeFrame, L0Frame.event, Option.mem_some_iff] at hs ht
    subst hs ht
    exact Fin.mk_le_mk.mpr (by simp only [eachSecond]; omega)
  have cut : ∃ next, (adopted.handover.run handoverSettings bringsAll).step handoverSettings false {} =
      (next, some (newConnection, .caughtUp)) ∧ next.standbyOwner = adopted.handover.standbyOwner :=
    ⟨_, rfl, rfl⟩
  obtain ⟨next, cuts, same⟩ := cut
  have standby : adopted.handover.standby = some { adapter := newConnection, started := 0 } := rfl
  exact caught_up_loses_no_event_iff ordered standby rfl rfl (by decide +kernel) (by decide +kernel)
    cuts same

open Sample in
/-- Trade 1 precedes the standby's first trade and has not been delivered when the standby
takes over as caught up: it is never recorded. -/
theorem caught_up_within_second_skips_trade :
    (deliveredFrom false (adopted.loopOps handoverConfig bringsFirst)).map L0Frame.event =
      (List.range' 0 1).map (ticks oneSecond) ∧
    (deliveredFrom true (adopted.loopOps handoverConfig bringsFirst)).map L0Frame.event =
      (List.range' 2 1).map (ticks oneSecond) ∧
    ((adopted.loop handoverConfig bringsFirst).1.stepHandover handoverConfig {}).2 =
      some (newConnection, .caughtUp) ∧
    ¬ (∀ i < 2, i < 0 + 1) ∧
    (ticks oneSecond 1).1 ∉ (adopted.loop handoverConfig (bringsFirst ++
      [{ primary := .pending }, { primary := .frame (tick oneSecond "new" 3) }])).1.recorded.map L0Frame.key := by
  decide +kernel

end KrxAlpha
