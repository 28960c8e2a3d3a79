import KrxAlpha.Streamer
import Mathlib.Data.List.Nodup

/-! Frames at a cut-over. A round takes the standby's frame, lets the handover step, and
looks at the primary's receive task only if no cut-over happened; a frame that task had
returned by then is left behind with the old connection. -/
namespace KrxAlpha

/-- The frames the receive tasks have returned by the end of the round's wait. -/
def Recv.frames : Recv → List L0Frame
  | .frame returned => [returned]
  | _ => []

def Round.deliveries (round : Round) : List L0Frame := round.standby.frames ++ round.primary.frames

namespace Pump

variable {config : StreamerConfig}

/-- The handover cuts over in this round, as caught up or forced. -/
def CutsOver (config : StreamerConfig) (pump : Pump) (round : Round) : Prop :=
  round.watchdog = false ∧ (pump.beforeStep config round).2 = true ∧
    ((pump.beforeStep config round).1.stepHandover config round).2 ≠ none

/-- The pump after rounds none of which ended it. -/
def after (config : StreamerConfig) (pump : Pump) : List Round → Option Pump
  | [] => some pump
  | round :: rest =>
    match pump.round config round with
    | (next, none) => after config next rest
    | (_, some _) => none

/-- A cut-over of the run found this frame returned by the old connection's receive task,
with so much in the sink. -/
def ReturnedAtCut (config : StreamerConfig) (pump : Pump) (rounds : List Round)
    (frame : L0Frame) (recorded : List L0Frame) : Prop :=
  ∃ earlier round later reached, rounds = earlier ++ round :: later ∧
    pump.after config earlier = some reached ∧ reached.CutsOver config round ∧
    round.primary = .frame frame ∧ recorded = (reached.beforeStep config round).1.recorded

end Pump

/-- A stretch of a pump's sink: what was recorded, from frames that were there to take. -/
def Adds (before after : List L0Frame) (offered : List L0Frame) : Prop :=
  ∃ more, after = before ++ more ∧ more.Sublist offered

namespace Adds

theorem refl (recorded offered : List L0Frame) : Adds recorded recorded offered :=
  ⟨[], by simp, by simp⟩

theorem trans (earlier : Adds first second offered)
    (later : Adds second third more) : Adds first third (offered ++ more) := by
  obtain ⟨some, rfl, part⟩ := earlier
  obtain ⟨rest, rfl, tail⟩ := later
  exact ⟨some ++ rest, by simp, part.append tail⟩

theorem widen (adds : Adds before after offered)
    (part : offered.Sublist more) : Adds before after more := by
  obtain ⟨added, shape, within⟩ := adds
  exact ⟨added, shape, within.trans part⟩

theorem mem (adds : Adds before after offered)
    (listed : frame ∈ after) : frame ∈ before ∨ frame ∈ offered := by
  obtain ⟨more, rfl, part⟩ := adds
  rcases List.mem_append.mp listed with early | late
  · exact .inl early
  · exact .inr (part.subset late)

end Adds

namespace Pump

variable (config : StreamerConfig) (pump : Pump) (round : Round)

theorem record_adds (frame : L0Frame) (raises : Bool) :
    Adds pump.recorded (pump.record frame raises).1.recorded [frame] := by
  cases raises with
  | true => exact .refl _ _
  | false => exact ⟨[frame], rfl, .refl _⟩

theorem waited_recorded :
    ((pump.startHandover config round).subscribe round.subscribed).recorded = pump.recorded := by
  unfold startHandover
  split <;> rfl

theorem take_standby_adds :
    Adds pump.recorded (pump.takeStandby config round).1.recorded round.standby.frames := by
  unfold takeStandby
  split
  · rename_i delivered _
    rw [delivered]
    dsimp only
    split
    · exact record_adds _ _ round.recordRaises
    · exact .refl _ _
  · exact .refl _ _

theorem before_step_adds :
    Adds pump.recorded (pump.beforeStep config round).1.recorded round.standby.frames :=
  waited_recorded config pump round ▸ take_standby_adds config _ round

theorem step_recorded : (pump.stepHandover config round).1.recorded = pump.recorded := by
  unfold stepHandover
  split <;> rfl

theorem closed_by_recorded (frame : L0Frame) :
    (pump.closedBy config frame).recorded = pump.recorded := by
  unfold closedBy
  dsimp only
  split
  · exact close_outage_recorded config _ _
  · rfl

theorem take_frame_adds (frame : L0Frame) (raises : Bool) :
    Adds pump.recorded (pump.takeFrame config frame raises).1.recorded [frame] := by
  unfold takeFrame
  rw [← closed_by_recorded config pump frame]
  dsimp only
  split
  · exact record_adds _ frame raises
  · exact .refl _ _

theorem take_primary_adds :
    Adds pump.recorded (pump.takePrimary config round).1.recorded round.primary.frames := by
  unfold takePrimary
  split
  · exact .refl _ _
  · rename_i frame returned
    rw [returned]
    exact take_frame_adds config pump frame round.recordRaises
  · split
    · exact .refl _ _
    · split <;> exact .refl _ _

theorem round_watchdog (fired : round.watchdog = true) :
    pump.round config round = (pump, some .watchdog) := by
  simp [Pump.round, fired]

theorem round_raised (quiet : round.watchdog = false)
    (raised : (pump.beforeStep config round).2 = false) :
    pump.round config round = ((pump.beforeStep config round).1, some .disconnect) := by
  simp only [Pump.round, quiet, Bool.false_eq_true, if_false]
  split <;> simp_all

theorem round_stepped (quiet : round.watchdog = false)
    (taken : (pump.beforeStep config round).2 = true) :
    pump.round config round = (pump.beforeStep config round).1.fromStep config round := by
  simp only [Pump.round, quiet, Bool.false_eq_true, if_false]
  split <;> simp_all

/-- A cut-over leaves the sink as it is. -/
theorem from_step_cut (cut : (pump.stepHandover config round).2 ≠ none) :
    (pump.fromStep config round).2 = none ∧
      (pump.fromStep config round).1.recorded = pump.recorded := by
  have kept := step_recorded config pump round
  unfold fromStep
  revert cut kept
  rcases pump.stepHandover config round with ⟨stepped, _ | cut⟩
  · exact fun none _ => absurd rfl none
  · exact fun _ kept => ⟨rfl, kept⟩

theorem from_step_adds :
    Adds pump.recorded (pump.fromStep config round).1.recorded round.primary.frames := by
  have kept := step_recorded config pump round
  unfold fromStep
  revert kept
  rcases pump.stepHandover config round with ⟨stepped, _ | cut⟩
  · exact fun kept => kept ▸ take_primary_adds config stepped round
  · exact fun kept => kept ▸ .refl _ _

/-- A round records some of the frames its receive tasks returned, each at most once. -/
theorem round_adds :
    Adds pump.recorded (pump.round config round).1.recorded round.deliveries := by
  have standby := before_step_adds config pump round
  cases quiet : round.watchdog with
  | true => rw [round_watchdog config pump round quiet]; exact .refl _ _
  | false =>
    cases taken : (pump.beforeStep config round).2 with
    | false =>
      rw [round_raised config pump round quiet taken]
      exact standby.widen (List.sublist_append_left _ _)
    | true =>
      rw [round_stepped config pump round quiet taken]
      exact standby.trans (from_step_adds config _ round)

/-- A round that cuts over goes on, and has recorded at most the standby's frame. -/
theorem round_cut_over (cuts : pump.CutsOver config round) :
    (pump.round config round).2 = none ∧
      Adds pump.recorded (pump.round config round).1.recorded round.standby.frames := by
  obtain ⟨quiet, taken, cut⟩ := cuts
  obtain ⟨goesOn, kept⟩ := from_step_cut config _ round cut
  rw [round_stepped config pump round quiet taken, kept]
  exact ⟨goesOn, before_step_adds config pump round⟩

variable (rest : List Round)

theorem loop_goes_on (goesOn : (pump.round config round).2 = none) :
    pump.loop config (round :: rest) = (pump.round config round).1.loop config rest := by
  rw [loop]
  split <;> simp_all

theorem loop_ends (ends : (pump.round config round).2 = some reason) :
    pump.loop config (round :: rest) = ((pump.round config round).1, reason) := by
  rw [loop]
  split <;> simp_all

/-- A pump records some of the frames its receive tasks returned, each at most once. -/
theorem loop_adds (rounds : List Round) :
    Adds pump.recorded (pump.loop config rounds).1.recorded (rounds.flatMap Round.deliveries) := by
  induction rounds generalizing pump with
  | nil => exact .refl _ _
  | cons round rest step =>
    have first := round_adds config pump round
    cases ends : (pump.round config round).2 with
    | none =>
      rw [loop_goes_on config pump round rest ends]
      exact first.trans (step _)
    | some reason =>
      rw [loop_ends config pump round rest ends]
      exact first.widen (List.sublist_append_left _ _)

theorem after_cons
    (reaches : pump.after config (round :: rest) = some reached) :
    (pump.round config round).2 = none ∧
      (pump.round config round).1.after config rest = some reached := by
  rw [after] at reaches
  split at reaches <;> simp_all

/-- The loop from a reached pump on is the loop's remainder. -/
theorem loop_after (reaches : pump.after config rounds = some reached) (rest : List Round) :
    pump.loop config (rounds ++ rest) = reached.loop config rest := by
  induction rounds generalizing pump with
  | nil =>
    cases reaches
    rfl
  | cons round _ step =>
    obtain ⟨goesOn, onwards⟩ := after_cons config pump round _ reaches
    rw [List.cons_append, loop_goes_on config pump round _ goesOn]
    exact step _ onwards

theorem after_adds (reaches : pump.after config rounds = some reached) :
    Adds pump.recorded reached.recorded (rounds.flatMap Round.deliveries) := by
  induction rounds generalizing pump with
  | nil =>
    cases reaches
    exact .refl _ _
  | cons round _ step =>
    obtain ⟨_, onwards⟩ := after_cons config pump round _ reaches
    exact (round_adds config pump round).trans (step _ onwards)

/-- What a cut-over finds returned is recorded neither then nor later. -/
theorem returned_at_cut_not_recorded
    (distinct : (pump.recorded ++ rounds.flatMap Round.deliveries).Nodup)
    (returned : pump.ReturnedAtCut config rounds frame recorded) :
    frame ∉ (pump.loop config rounds).1.recorded := by
  obtain ⟨earlier, round, later, reached, rfl, reaches, cuts, primary, -⟩ := returned
  obtain ⟨goesOn, cut⟩ := round_cut_over config reached round cuts
  rw [loop_after config pump reaches, loop_goes_on config reached round later goesOn]
  intro listed
  have source := (((after_adds config pump reaches).trans cut).trans
    (loop_adds config _ later)).mem listed
  have shape : pump.recorded ++ (earlier ++ round :: later).flatMap Round.deliveries =
      (pump.recorded ++ (earlier.flatMap Round.deliveries ++ round.standby.frames)) ++
        frame :: later.flatMap Round.deliveries := by
    simp [Round.deliveries, primary, Recv.frames]
  rw [shape, List.nodup_middle, List.nodup_cons] at distinct
  exact distinct.1 (by simpa [or_assoc] using source)

end Pump

/-- The primary's frames survive every cut-over of a run exactly when each frame a cut-over
finds returned carries a payload that was recorded before: a cut-over drops it. -/
theorem cut_over_loses_no_frame_iff (config : StreamerConfig) (pump : Pump) (rounds : List Round)
    (distinct : (pump.recorded ++ rounds.flatMap Round.deliveries).Nodup) :
    (∀ frame recorded, pump.ReturnedAtCut config rounds frame recorded →
      frame ∈ (pump.loop config rounds).1.recorded ∨ frame.key ∈ recorded.map L0Frame.key) ↔
    ∀ frame recorded, pump.ReturnedAtCut config rounds frame recorded →
      frame.key ∈ recorded.map L0Frame.key := by
  constructor
  · intro kept frame recorded returned
    exact (kept frame recorded returned).resolve_left
      (pump.returned_at_cut_not_recorded config distinct returned)
  · intro known frame recorded returned
    exact .inr (known frame recorded returned)

namespace Sample

/-- A trade of one symbol, as one of two connections brings it. -/
def tradeFrame (connection raw : String) (connSeq recvWallNs : Int) (second : Nat) : L0Frame :=
  { stream := "H0STCNT0", symbol := "005930", raw, recvWallNs, connSeq, connId := connection,
    eventSecond := some ⟨min second 86399, by omega⟩ }

def oldConnection : Connection := ⟨"old", ["005930"]⟩

def newConnection : Connection := ⟨"new", ["005930"]⟩

def handoverSettings : HandoverSettings := { maxS := 60, lasting := by decide }

def handoverConfig : StreamerConfig :=
  { replayPairs := [("005930", "H0STCNT0")], handover := some handoverSettings }

def freshPump : Pump := { adapter := oldConnection, subscribedNs := 0 }

/-- A trade is received, a swap asked for and the standby adopted. -/
def swapBegun : List Round :=
  [ { primary := .frame (tradeFrame "old" "t1" 1 10 32400) },
    { swapRequested := true },
    { step := { opening := .opened newConnection } } ]

/-- The time is up with the standby silent, and the old connection has returned a trade. -/
def forcedCut : Round :=
  { primary := .frame (tradeFrame "old" "t2" 2 20 32401), step := { now := 60 } }

/-- The standby's first trade is of a second the old connection then reaches with `t2`. -/
def caughtUp : List Round :=
  swapBegun ++
    [ { standby := .frame (tradeFrame "new" "t4" 1 20 32401) },
      { primary := .frame (tradeFrame "old" "t2" 2 21 32401) } ]

/-- The old connection has returned `t3` of that second when the cut-over comes. -/
def caughtUpCut : Round := { primary := .frame (tradeFrame "old" "t3" 3 22 32401) }

/-- The new connection goes on after its first trade. -/
def takenOver : List Round :=
  [ { primary := .frame (tradeFrame "new" "t5" 2 23 32402) },
    { primary := .frame (tradeFrame "new" "t6" 3 24 32403) } ]

end Sample

open Sample in
theorem cut_over_loses_no_frame_iff_forced :
    ¬ ∀ frame recorded, freshPump.ReturnedAtCut handoverConfig (swapBegun ++ [forcedCut]) frame recorded →
      frame ∈ (freshPump.loop handoverConfig (swapBegun ++ [forcedCut])).1.recorded ∨
        frame.key ∈ recorded.map L0Frame.key := by
  rw [cut_over_loses_no_frame_iff _ _ _ (by decide +kernel)]
  intro known
  have cuts : ∃ reached, freshPump.after handoverConfig swapBegun = some reached ∧
      reached.CutsOver handoverConfig forcedCut ∧
      (tradeFrame "old" "t2" 2 20 32401).key ∉
        (reached.beforeStep handoverConfig forcedCut).1.recorded.map L0Frame.key :=
    ⟨_, rfl, by unfold Pump.CutsOver; decide +kernel, by decide +kernel⟩
  obtain ⟨reached, reaches, cut, unknown⟩ := cuts
  exact unknown (known _ _ ⟨swapBegun, forcedCut, [], reached, rfl, reaches, cut, rfl, rfl⟩)

open Sample in
/-- A cut-over that drops a trade the old connection had returned: no trade with its payload
is ever recorded. -/
theorem caught_up_cut_drops_returned_trade :
    (∃ recorded, freshPump.ReturnedAtCut handoverConfig (caughtUp ++ caughtUpCut :: takenOver)
      (tradeFrame "old" "t3" 3 22 32401) recorded) ∧
    (tradeFrame "old" "t3" 3 22 32401).key ∉
      (freshPump.loop handoverConfig
        (caughtUp ++ caughtUpCut :: takenOver)).1.recorded.map L0Frame.key := by
  have cuts : ∃ reached, freshPump.after handoverConfig caughtUp = some reached ∧
      reached.CutsOver handoverConfig caughtUpCut :=
    ⟨_, rfl, by unfold Pump.CutsOver; decide +kernel⟩
  obtain ⟨reached, reaches, cut⟩ := cuts
  exact ⟨⟨_, caughtUp, caughtUpCut, takenOver, reached, rfl, reaches, cut, rfl, rfl⟩,
    by decide +kernel⟩

end KrxAlpha
