import KrxAlpha.CutOver

/-! Outages and the gaps that record them. An outage opens when a pump fails, at the last
frame's reception, and is closed by the first frame of a later connection or at the end of
the run. However many pumps it spans, the gaps it is closed with reach from before the
failure to after the next frame, for every symbol of the replayed pairs and no other. -/
namespace KrxAlpha
open List

/-- The time of the last reception, the run's start if there is none. -/
def lastReception (runStartNs : Int) (frames : List L0Frame) : Int :=
  frames.foldl (fun latest frame => max latest frame.recvWallNs) runStartNs

/-- The time of the first reception, the run's end if there is none. -/
def firstReception (runEndNs : Int) (frames : List L0Frame) : Int :=
  frames.foldl (fun earliest frame => min earliest frame.recvWallNs) runEndNs

theorem last_reception_le_iff :
    lastReception runStartNs frames ≤ bound ↔
      runStartNs ≤ bound ∧ ∀ frame ∈ frames, frame.recvWallNs ≤ bound := by
  induction frames generalizing runStartNs with
  | nil => simp [lastReception]
  | cons frame rest step =>
    change lastReception (max runStartNs frame.recvWallNs) rest ≤ bound ↔ _
    rw [step, max_le_iff, forall_mem_cons, and_assoc]

theorem le_first_reception_iff :
    bound ≤ firstReception runEndNs frames ↔
      bound ≤ runEndNs ∧ ∀ frame ∈ frames, bound ≤ frame.recvWallNs := by
  induction frames generalizing runEndNs with
  | nil => simp [firstReception]
  | cons frame rest step =>
    change bound ≤ firstReception (min runEndNs frame.recvWallNs) rest ↔ _
    rw [step, le_min_iff, forall_mem_cons, and_assoc]

theorem le_last_reception (runStartNs : Int)
    (listed : frame ∈ frames) : frame.recvWallNs ≤ lastReception runStartNs frames :=
  (last_reception_le_iff.mp le_rfl).2 frame listed

theorem first_reception_le (runEndNs : Int)
    (listed : frame ∈ frames) : firstReception runEndNs frames ≤ frame.recvWallNs :=
  (le_first_reception_iff.mp le_rfl).2 frame listed

theorem first_reception_le_end (runEndNs : Int) (frames : List L0Frame) :
    firstReception runEndNs frames ≤ runEndNs :=
  (le_first_reception_iff.mp le_rfl).1

theorem last_reception_append (runStartNs : Int) (frames more : List L0Frame) :
    lastReception runStartNs frames ≤ lastReception runStartNs (frames ++ more) := by
  obtain ⟨start, later⟩ := last_reception_le_iff.mp (le_refl (lastReception runStartNs (frames ++ more)))
  exact last_reception_le_iff.mpr ⟨start, fun frame listed =>
    later frame (mem_append_left _ listed)⟩

theorem first_reception_append (runEndNs : Int) (frames more : List L0Frame) :
    firstReception runEndNs (frames ++ more) ≤ firstReception runEndNs more :=
  le_first_reception_iff.mpr ⟨first_reception_le_end _ _, fun _ listed =>
    first_reception_le _ (mem_append_right _ listed)⟩

/-- A gap of a symbol from an outage's start on. -/
structure Gap.Closes (gap : Gap) (symbol : String) (startNs : Int) : Prop where
  symbol : gap.symbol = symbol
  start : gap.startNs = startNs
  ordered : startNs ≤ gap.endNs

/-- A stretch of a run in which these frames are received: gaps stay, an open outage stays
open or is closed no earlier than one of the frames, and so does the last frame's time. -/
structure Stretch (config : StreamerConfig) (before after : Streamer) (frames : List L0Frame) :
    Prop where
  received : after.received = before.received ++ frames
  kept : ∀ gap ∈ before.gaps, gap ∈ after.gaps
  listed : ∀ gap ∈ after.gaps, gap ∈ before.gaps ∨ gap.symbol ∈ replaySymbols config
  outage : after.outage = before.outage ∨ after.outage = none ∧
    ∀ startNs reason, before.outage = some (startNs, reason) → ∀ symbol ∈ replaySymbols config,
      ∃ gap ∈ after.gaps, gap.Closes symbol startNs ∧ ∃ frame ∈ frames, frame.recvWallNs ≤ gap.endNs
  last : after.lastFrameWallNs = before.lastFrameWallNs ∨
    ∃ frame ∈ frames, after.lastFrameWallNs = some frame.recvWallNs

namespace Stretch

variable {config : StreamerConfig} {first second third : Streamer} {frames more : List L0Frame}

theorem of_same (config : StreamerConfig) (received : second.received = first.received)
    (gaps : second.gaps = first.gaps) (outage : second.outage = first.outage)
    (last : second.lastFrameWallNs = first.lastFrameWallNs) : Stretch config first second [] :=
  ⟨by simp [received], fun _ => gaps ▸ id, fun _ member => .inl (gaps ▸ member), .inl outage,
    .inl last⟩

theorem refl (config : StreamerConfig) (streamer : Streamer) : Stretch config streamer streamer [] :=
  .of_same config rfl rfl rfl rfl

theorem trans (earlier : Stretch config first second frames)
    (later : Stretch config second third more) : Stretch config first third (frames ++ more) where
  received := by rw [later.received, earlier.received, append_assoc]
  kept gap member := later.kept gap (earlier.kept gap member)
  listed gap member := (later.listed gap member).elim (earlier.listed gap) .inr
  outage := by
    rcases earlier.outage with same | ⟨closed, covered⟩
    · rcases later.outage with unchanged | ⟨closed, covered⟩
      · exact .inl (unchanged.trans same)
      · refine .inr ⟨closed, fun startNs reason opened symbol replayed => ?_⟩
        obtain ⟨gap, member, closes, frame, taken, reached⟩ :=
          covered startNs reason (same.trans opened) symbol replayed
        exact ⟨gap, member, closes, frame, mem_append_right _ taken, reached⟩
    · have stays : third.outage = none := by
        rcases later.outage with unchanged | ⟨none, -⟩
        · exact unchanged.trans closed
        · exact none
      refine .inr ⟨stays, fun startNs reason opened symbol replayed => ?_⟩
      obtain ⟨gap, member, closes, frame, taken, reached⟩ :=
        covered startNs reason opened symbol replayed
      exact ⟨gap, later.kept gap member, closes, frame, mem_append_left _ taken, reached⟩
  last := by
    rcases later.last with same | ⟨frame, taken, noted⟩
    · rcases earlier.last with unchanged | ⟨frame, taken, noted⟩
      · exact .inl (same.trans unchanged)
      · exact .inr ⟨frame, mem_append_left _ taken, same.trans noted⟩
    · exact .inr ⟨frame, mem_append_right _ taken, noted⟩

end Stretch

/-- Closing an outage makes a gap of every replayed symbol, up to the time given. -/
theorem close_outage_gaps (config : StreamerConfig) {streamer : Streamer} (endNs : Int)
    (opened : streamer.outage = some (startNs, reason)) (replayed : symbol ∈ replaySymbols config) :
    ∃ gap ∈ (streamer.closeOutage config endNs).gaps, gap.Closes symbol startNs ∧ endNs ≤ gap.endNs := by
  simp only [Streamer.closeOutage, opened]
  exact ⟨⟨symbol, startNs, max startNs endNs, reason⟩,
    mem_append_right _ (mem_map_of_mem replayed),
    ⟨rfl, rfl, le_max_left _ _⟩, le_max_right _ _⟩

theorem close_outage_kept (config : StreamerConfig) (streamer : Streamer) (endNs : Int) :
    (∀ gap ∈ streamer.gaps, gap ∈ (streamer.closeOutage config endNs).gaps) ∧
      ∀ gap ∈ (streamer.closeOutage config endNs).gaps,
        gap ∈ streamer.gaps ∨ gap.symbol ∈ replaySymbols config := by
  unfold Streamer.closeOutage
  split
  · exact ⟨fun _ => id, fun _ => .inl⟩
  · refine ⟨fun gap => mem_append_left _, fun gap member => ?_⟩
    rcases mem_append.mp member with early | late
    · exact .inl early
    · obtain ⟨symbol, replayed, rfl⟩ := mem_map.mp late
      exact .inr replayed

theorem close_outage_stretch (stretch : Stretch config before opened frames)
    (same : opened.outage = before.outage) (taken : frame ∈ frames)
    (late : frame.recvWallNs ≤ endNs) :
    Stretch config before (opened.closeOutage config endNs) frames := by
  obtain ⟨kept, listed⟩ := close_outage_kept config opened endNs
  refine ⟨?_, fun gap member => kept gap (stretch.kept gap member),
    fun gap member => (listed gap member).elim (stretch.listed gap) .inr, .inr ⟨?_, ?_⟩, ?_⟩
  · rw [close_outage_received, stretch.received]
  · exact close_outage_closed config opened endNs
  · intro startNs reason open_ symbol replayed
    obtain ⟨gap, member, closes, reached⟩ :=
      close_outage_gaps config endNs (same.trans open_) replayed
    exact ⟨gap, member, closes, frame, taken, late.trans reached⟩
  · rw [close_outage_last]
    exact stretch.last

namespace Pump

variable (config : StreamerConfig) (pump : Pump) (round : Round)

theorem closed_by_stretch (frame : L0Frame) :
    Stretch config pump.toStreamer (pump.closedBy config frame) [frame] := by
  unfold closedBy
  dsimp only
  generalize grown : ({ pump.toStreamer with received := pump.received ++ [frame] } : Streamer) = opened
  have plain : Stretch config pump.toStreamer opened [frame] := by
    subst grown
    exact ⟨rfl, fun _ => id, fun _ => .inl, .inl rfl, .inl rfl⟩
  split
  · exact close_outage_stretch plain (grown ▸ rfl) (mem_singleton_self _) (le_max_left _ _)
  · exact plain

/-- Recording a frame of the stretch makes it the last one. -/
theorem record_stretch {frames : List L0Frame}
    (stretch : Stretch config before pump.toStreamer frames) (taken : frame ∈ frames) (raises : Bool) :
    Stretch config before (pump.record frame raises).1.toStreamer frames := by
  cases raises with
  | true => exact stretch
  | false => exact { stretch with last := .inr ⟨frame, taken, rfl⟩ }

theorem take_standby_stretch :
    ∃ frames, Stretch config pump.toStreamer (pump.takeStandby config round).1.toStreamer frames := by
  unfold takeStandby
  split
  · rename_i frame _ _ _ _
    refine ⟨[frame], ?_⟩
    have taken (handover : Handover) : Stretch config pump.toStreamer
        { pump.toStreamer with handover, received := pump.received ++ [frame] } [frame] :=
      ⟨rfl, fun _ => id, fun _ => .inl, .inl rfl, .inl rfl⟩
    dsimp only
    split
    · exact record_stretch config _ (taken _) (mem_singleton_self _) _
    · exact taken _
  · exact ⟨[], .refl _ _⟩

theorem take_frame_stretch (frame : L0Frame) (raises : Bool) :
    Stretch config pump.toStreamer (pump.takeFrame config frame raises).1.toStreamer [frame] := by
  have closed := closed_by_stretch config pump frame
  unfold takeFrame
  dsimp only
  split
  · refine record_stretch config _ ?_ (mem_singleton_self _) raises
    exact { closed with }
  · exact { closed with last := .inr ⟨frame, mem_singleton_self _, rfl⟩ }

theorem take_primary_stretch :
    ∃ frames, Stretch config pump.toStreamer (pump.takePrimary config round).1.toStreamer frames := by
  unfold takePrimary
  split
  · exact ⟨[], .refl _ _⟩
  · exact ⟨_, take_frame_stretch config pump _ _⟩
  · split
    · exact ⟨[], .refl _ _⟩
    · split <;> exact ⟨[], .of_same config rfl rfl rfl rfl⟩

theorem before_step_stretch :
    ∃ frames, Stretch config pump.toStreamer (pump.beforeStep config round).1.toStreamer frames := by
  obtain ⟨frames, taken⟩ := take_standby_stretch config
    ((pump.startHandover config round).subscribe round.subscribed) round
  refine ⟨_, Stretch.trans (?_ : Stretch config _ _ []) taken⟩
  unfold startHandover
  split <;> exact .of_same config rfl rfl rfl rfl

theorem from_step_stretch :
    ∃ frames, Stretch config pump.toStreamer (pump.fromStep config round).1.toStreamer frames := by
  have stepped : Stretch config pump.toStreamer (pump.stepHandover config round).1.toStreamer [] := by
    unfold stepHandover
    split <;> exact .of_same config rfl rfl rfl rfl
  unfold fromStep
  revert stepped
  rcases pump.stepHandover config round with ⟨next, _ | cut⟩
  · intro stepped
    obtain ⟨frames, taken⟩ := take_primary_stretch config next round
    exact ⟨_, stepped.trans taken⟩
  · intro stepped
    exact ⟨[], { stepped with }⟩

theorem round_stretch :
    ∃ frames, Stretch config pump.toStreamer (pump.round config round).1.toStreamer frames := by
  unfold Pump.round
  split
  · exact ⟨[], .refl _ _⟩
  · have before := before_step_stretch config pump round
    revert before
    rcases pump.beforeStep config round with ⟨taken, _ | _⟩
    · exact id
    · rintro ⟨_, before⟩
      obtain ⟨_, rest⟩ := from_step_stretch config taken round
      exact ⟨_, before.trans rest⟩

theorem loop_stretch (rounds : List Round) :
    ∃ frames, Stretch config pump.toStreamer (pump.loop config rounds).1.toStreamer frames := by
  induction rounds generalizing pump with
  | nil => exact ⟨[], .refl _ _⟩
  | cons round rest step =>
    have first := round_stretch config pump round
    rw [loop]
    revert first
    rcases pump.round config round with ⟨next, _ | reason⟩
    · rintro ⟨_, first⟩
      obtain ⟨_, later⟩ := step next
      exact ⟨_, first.trans later⟩
    · exact id

end Pump

namespace Streamer

variable (config : StreamerConfig) (runStartNs runEndNs : Int)

theorem pump_stretch (streamer : Streamer) (script : PumpScript) :
    ∃ frames, Stretch config streamer (streamer.pump config script).1 frames := by
  cases script with
  | refused failure symbols => exact ⟨[], .refl _ _⟩
  | connected adapter subscribedNs rounds =>
    obtain ⟨frames, stretch⟩ := Pump.loop_stretch config
      { toStreamer := streamer, adapter, subscribedNs } rounds
    exact ⟨frames, { stretch with }⟩

theorem pump_received (streamer : Streamer) (script : PumpScript) :
    (streamer.pump config script).2.received = (streamer.pump config script).1.received.length := by
  cases script <;> rfl

/-- What holds of a streamer between two pumps: the times it goes by are not after the last
reception, and its gaps are of replayed symbols. -/
structure Sound (streamer : Streamer) : Prop where
  last : streamer.lastFrameWallNs.getD runStartNs ≤ lastReception runStartNs streamer.received
  outage : ∀ startNs reason, streamer.outage = some (startNs, reason) →
    startNs ≤ lastReception runStartNs streamer.received
  listed : ∀ gap ∈ streamer.gaps, gap.symbol ∈ replaySymbols config

variable {config runStartNs} {streamer after : Streamer} {frames : List L0Frame}

theorem Sound.stretch (sound : streamer.Sound config runStartNs)
    (stretch : Stretch config streamer after frames) : after.Sound config runStartNs where
  last := by
    rw [stretch.received]
    rcases stretch.last with same | ⟨frame, taken, noted⟩
    · rw [same]
      exact sound.last.trans (last_reception_append _ _ _)
    · rw [noted]
      exact le_last_reception _ (mem_append_right _ taken)
  outage startNs reason opened := by
    rw [stretch.received]
    rcases stretch.outage with same | ⟨closed, -⟩
    · exact (sound.outage startNs reason (same ▸ opened)).trans (last_reception_append _ _ _)
    · rw [closed] at opened
      cases opened
  listed gap member := (stretch.listed gap member).elim (sound.listed gap) id

/-- A failed pump leaves an outage open, from no later than the last reception on. -/
theorem Sound.opened (sound : streamer.Sound config runStartNs) (reason : PumpEnd) :
    (streamer.openOutage runStartNs reason).Sound config runStartNs ∧
      ∃ startNs cause, (streamer.openOutage runStartNs reason).outage = some (startNs, cause) ∧
        startNs ≤ lastReception runStartNs streamer.received := by
  unfold openOutage
  split
  · rename_i outage opened
    exact ⟨sound, outage.1, outage.2, opened, sound.outage _ _ opened⟩
  · refine ⟨⟨sound.last, ?_, sound.listed⟩, _, _, rfl, sound.last⟩
    rintro startNs cause ⟨⟩
    exact sound.last

/-- Nothing received and no gap is given up. -/
structure Extends (before after : Streamer) : Prop where
  received : before.received <+: after.received
  gaps : ∀ gap ∈ before.gaps, gap ∈ after.gaps

theorem Extends.trans {first second third : Streamer} (earlier : first.Extends second)
    (later : second.Extends third) : first.Extends third :=
  ⟨earlier.received.trans later.received, fun gap member => later.gaps gap (earlier.gaps gap member)⟩

theorem extends_of_stretch (stretch : Stretch config streamer after frames) :
    streamer.Extends after :=
  ⟨⟨frames, stretch.received.symm⟩, stretch.kept⟩

theorem open_outage_received (streamer : Streamer) (reason : PumpEnd) :
    (streamer.openOutage runStartNs reason).received = streamer.received := by
  unfold openOutage
  split <;> rfl

theorem extends_open_outage (streamer : Streamer) (reason : PumpEnd) :
    streamer.Extends (streamer.openOutage runStartNs reason) := by
  unfold openOutage
  split <;> exact ⟨prefix_refl _, fun _ => id⟩

variable (config runStartNs)

theorem extends_close_outage (streamer : Streamer) (endNs : Int) :
    streamer.Extends (streamer.closeOutage config endNs) :=
  ⟨by simp, (close_outage_kept config streamer endNs).1⟩

theorem extends_cycles (streamer : Streamer) (scripts : List PumpScript) :
    streamer.Extends (streamer.cycles config runStartNs scripts).1 := by
  induction scripts generalizing streamer with
  | nil => exact ⟨prefix_refl _, fun _ => id⟩
  | cons script rest step =>
    obtain ⟨_, stretch⟩ := pump_stretch config streamer script
    have pumped := extends_of_stretch stretch
    rw [cycles]
    dsimp only
    split
    · exact pumped
    · exact (pumped.trans (extends_open_outage _ _)).trans (step _)

private theorem drop_received (stretch : Stretch config streamer middle frames)
    (later : middle.Extends last) :
    last.received.drop streamer.received.length =
      frames ++ last.received.drop middle.received.length := by
  obtain ⟨rest, shape⟩ := later.received
  rw [← shape, drop_left, stretch.received, append_assoc, drop_left]

variable (scripts : List PumpScript)

/-- An open outage is closed, for every replayed symbol, by a gap from its start to the
next reception or later. -/
theorem outage_closed
    (opened : streamer.outage = some (startNs, reason)) (replayed : symbol ∈ replaySymbols config) :
    ∃ gap ∈ ((streamer.cycles config runStartNs scripts).1.closeOutage config runEndNs).gaps,
      gap.Closes symbol startNs ∧
        firstReception runEndNs (((streamer.cycles config runStartNs scripts).1.closeOutage config
          runEndNs).received.drop streamer.received.length) ≤ gap.endNs := by
  induction scripts generalizing streamer with
  | nil =>
    obtain ⟨gap, member, closes, reached⟩ := close_outage_gaps config runEndNs opened replayed
    exact ⟨gap, member, closes, (first_reception_le_end _ _).trans reached⟩
  | cons script rest step =>
    obtain ⟨frames, stretch⟩ := pump_stretch config streamer script
    -- a frame of this pump closed the outage, or it is as open as before
    rcases stretch.outage with same | ⟨-, covered⟩
    · rw [cycles]
      dsimp only
      split
      · obtain ⟨gap, member, closes, reached⟩ :=
          close_outage_gaps config runEndNs (same.trans opened) replayed
        exact ⟨gap, member, closes, (first_reception_le_end _ _).trans reached⟩
      · have unchanged : (streamer.pump config script).1.openOutage runStartNs
            (streamer.pump config script).2.reason = (streamer.pump config script).1 := by
          simp [openOutage, same, opened]
        rw [unchanged]
        obtain ⟨gap, member, closes, reached⟩ := step (same.trans opened)
        refine ⟨gap, member, closes, le_trans ?_ reached⟩
        rw [drop_received config stretch ((extends_cycles config runStartNs _ rest).trans
          (extends_close_outage config _ runEndNs))]
        exact first_reception_append _ _ _
    · have later : (streamer.pump config script).1.Extends
          ((streamer.cycles config runStartNs (script :: rest)).1.closeOutage config runEndNs) := by
        refine Extends.trans ?_ (extends_close_outage config _ runEndNs)
        rw [cycles]
        dsimp only
        split
        · exact ⟨prefix_refl _, fun _ => id⟩
        · exact (extends_open_outage _ _).trans (extends_cycles config runStartNs _ rest)
      obtain ⟨gap, member, closes, frame, taken, reached⟩ :=
        covered startNs reason opened symbol replayed
      refine ⟨gap, later.gaps gap member, closes, le_trans ?_ reached⟩
      rw [drop_received config stretch later]
      exact first_reception_le _ (mem_append_left _ taken)

/-- The gap of one symbol that covers the failure of one pump of a finished run. -/
def Covers (last : Streamer) (record : PumpRecord) (symbol : String) : Prop :=
  ∃ gap ∈ last.gaps, gap.symbol = symbol ∧ gap.startNs ≤ gap.endNs ∧
    gap.startNs ≤ lastReception runStartNs (last.received.take record.received) ∧
    firstReception runEndNs (last.received.drop record.received) ≤ gap.endNs

theorem failures_covered (sound : streamer.Sound config runStartNs)
    (replayed : symbol ∈ replaySymbols config) :
    ∀ record ∈ (streamer.cycles config runStartNs scripts).2, record.reason ≠ .stopped →
      Covers runStartNs runEndNs
        ((streamer.cycles config runStartNs scripts).1.closeOutage config runEndNs) record symbol := by
  induction scripts generalizing streamer with
  | nil => exact fun record member => absurd member not_mem_nil
  | cons script rest step =>
    obtain ⟨frames, stretch⟩ := pump_stretch config streamer script
    have pumped := sound.stretch stretch
    rw [cycles]
    dsimp only
    split
    · intro record member failed
      rw [mem_singleton.mp member] at failed
      contradiction
    · obtain ⟨opened, startNs, cause, outage, early⟩ :=
        pumped.opened (streamer.pump config script).2.reason
      intro record member failed
      rcases mem_cons.mp member with rfl | later
      · obtain ⟨gap, listed, closes, reached⟩ :=
          outage_closed config runStartNs runEndNs rest outage replayed
        obtain ⟨more, shape⟩ := ((extends_cycles config runStartNs _ rest).trans
          (extends_close_outage config _ runEndNs)).received
        rw [open_outage_received] at shape reached
        refine ⟨gap, listed, closes.symbol, closes.start ▸ closes.ordered, ?_, ?_⟩
        · rw [pump_received, ← shape, take_left, closes.start]
          exact early
        · rw [pump_received]
          exact reached
      · exact step opened record later failed

theorem cycles_sound (sound : streamer.Sound config runStartNs) :
    (streamer.cycles config runStartNs scripts).1.Sound config runStartNs := by
  induction scripts generalizing streamer with
  | nil => exact sound
  | cons script rest step =>
    obtain ⟨frames, stretch⟩ := pump_stretch config streamer script
    have pumped := sound.stretch stretch
    rw [cycles]
    dsimp only
    split
    · exact pumped
    · exact step (pumped.opened _).1

theorem new_sound : ({} : Streamer).Sound config runStartNs :=
  ⟨le_rfl, fun _ _ opened => (nomatch opened), fun _ listed => absurd listed not_mem_nil⟩

end Streamer

/-- Every failed pump of a run is covered for every symbol of its connection, from the last
reception before the failure to the first one after it, exactly when the symbols of those
connections are all among the replayed pairs. -/
theorem outages_covered_iff (config : StreamerConfig) (runStartNs runEndNs : Int)
    (scripts : List PumpScript) :
    (∀ record ∈ (Streamer.runForever config runStartNs runEndNs scripts).2,
      record.reason ≠ .stopped → ∀ symbol ∈ record.symbols,
        Streamer.Covers runStartNs runEndNs
          (Streamer.runForever config runStartNs runEndNs scripts).1 record symbol) ↔
    ∀ record ∈ (Streamer.runForever config runStartNs runEndNs scripts).2,
      record.reason ≠ .stopped → ∀ symbol ∈ record.symbols, symbol ∈ replaySymbols config := by
  have start := Streamer.new_sound config runStartNs
  constructor
  · intro covered record member failed symbol subscribed
    obtain ⟨gap, listed, rfl, -⟩ := covered record member failed symbol subscribed
    exact ((close_outage_kept config _ runEndNs).2 gap listed).elim
      ((Streamer.cycles_sound config runStartNs scripts start).listed gap) id
  · intro replayed record member failed symbol subscribed
    exact Streamer.failures_covered config runStartNs runEndNs scripts start
      (replayed record member failed symbol subscribed) record member failed

namespace Sample

def replayConfig : StreamerConfig := { replayPairs := [("005930", "H0STCNT0")] }

/-- A connection with a symbol the pairs provider has added fails after one trade, and the
next one runs until the stop. -/
def grownOutage : List PumpScript :=
  [ .connected ⟨"first", ["005930", "000660"]⟩ 5
      [ { primary := .frame (tradeFrame "first" "t1" 1 10 32400) }, { primary := .failed .disconnect } ],
    .connected ⟨"second", ["005930", "000660"]⟩ 25
      [ { primary := .frame (tradeFrame "second" "t2" 1 30 32420) } ] ]

end Sample

open Sample in
/-- The outage of a connection that also carried 000660 is noted for 005930 only. -/
theorem grown_symbol_has_no_gap :
    ((Streamer.runForever replayConfig 0 100 grownOutage).2.map fun record =>
        (record.reason, record.symbols)) =
      [(.disconnect, ["005930", "000660"]), (.stopped, ["005930", "000660"])] ∧
    (Streamer.runForever replayConfig 0 100 grownOutage).1.gaps =
      [⟨"005930", 10, 30, .disconnect⟩] := by
  decide +kernel

end KrxAlpha
