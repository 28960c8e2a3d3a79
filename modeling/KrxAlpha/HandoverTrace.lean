import KrxAlpha.CutOver

/-! A pump seen from its handover. The rounds of a pump call the handover's operations in
some order; this is the list of those calls, and the handover's state and the frames
recorded are what the calls make of the state before. -/
namespace KrxAlpha

/-! ### What the calls leave of an overlap -/

namespace Handover

/-- What any call but an admission may do: the memory stays or is emptied, and a standby
that is still there has the times it had. -/
structure Settles (before after : Handover) : Prop where
  seen : after.seen = before.seen ∨ after.seen = ∅
  owner : before.standbyOwner ≤ after.standbyOwner
  standby : after.standbyOwner = before.standbyOwner → after.standby = none ∨
    after.standby = before.standby ∧ after.primaryEventS = before.primaryEventS

namespace Settles

variable {before middle after : Handover}

theorem of_same (seen : after.seen = before.seen)
    (owner : after.standbyOwner = before.standbyOwner) (standby : after.standby = before.standby)
    (primary : after.primaryEventS = before.primaryEventS) : before.Settles after :=
  ⟨.inl seen, owner.ge, fun _ => .inr ⟨standby, primary⟩⟩

theorem of_ended (seen : after.seen = before.seen ∨ after.seen = ∅)
    (owner : after.standbyOwner = before.standbyOwner) (ended : after.standby = none) :
    before.Settles after :=
  ⟨seen, owner.ge, fun _ => .inl ended⟩

theorem refl (handover : Handover) : handover.Settles handover := .of_same rfl rfl rfl rfl

theorem trans (earlier : before.Settles middle) (later : middle.Settles after) :
    before.Settles after where
  seen := by
    rcases later.seen with same | emptied
    · exact same ▸ earlier.seen
    · exact .inr emptied
  owner := earlier.owner.trans later.owner
  standby unchanged := by
    have first : middle.standbyOwner = before.standbyOwner :=
      le_antisymm (unchanged ▸ later.owner) earlier.owner
    rcases later.standby (unchanged.trans first.symm) with ended | ⟨standby, primary⟩
    · exact .inl ended
    · rcases earlier.standby first with ended | ⟨standbyBefore, primaryBefore⟩
      · exact .inl (standby.trans ended)
      · exact .inr ⟨standby.trans standbyBefore, primary.trans primaryBefore⟩

theorem get? (settles : before.Settles after) (key : FrameKey) :
    after.seen.get? key = before.seen.get? key ∨ after.seen.get? key = none := by
  rcases settles.seen with same | emptied
  · exact .inl (by rw [same])
  · exact .inr (by rw [emptied]; rfl)

end Settles

variable (settings : HandoverSettings) (handover : Handover)

theorem maybe_start_settles (eligible : Bool) (liveConnections : Int) (answers : StartAnswers) :
    handover.Settles (handover.maybeStart settings eligible liveConnections answers) := by
  unfold maybeStart startOpening
  split
  · exact .refl _
  · split
    · split <;> exact .of_same rfl rfl rfl rfl
    · dsimp only
      split_ifs <;> exact .of_same rfl rfl rfl rfl

variable (answers : StepAnswers)

theorem adopt_settles :
    handover.Settles (handover.adopt settings answers) := by
  unfold adopt
  split
  · dsimp only
    split
    · exact .refl _
    · exact ⟨.inr rfl, le_rfl, fun _ => .inr ⟨rfl, rfl⟩⟩
    · split
      · exact ⟨.inr rfl, le_rfl, fun _ => .inr ⟨rfl, rfl⟩⟩
      · -- a new standby has a number of its own
        refine ⟨?_, Nat.le_succ _, fun same => absurd same (Nat.succ_ne_self _)⟩
        dsimp only
        split
        · exact .inl rfl
        · exact .inr rfl
  · exact .refl _

theorem tend_leases_settles :
    handover.Settles (handover.tendLeases settings answers) := by
  unfold tendLeases
  split
  · exact .refl _
  · dsimp only
    split
    · exact .of_ended (.inr rfl) rfl rfl
    · exact .of_same rfl rfl rfl rfl

theorem settle_settles :
    handover.Settles (handover.settle settings answers) := by
  unfold settle
  dsimp only
  split
  · exact (adopt_settles settings handover answers).trans (tend_leases_settles settings _ answers)
  · exact adopt_settles settings handover answers

theorem cut_when_due_settles (standbyFailed : Bool) (answers : StepAnswers) :
    handover.Settles (handover.cutWhenDue settings standbyFailed answers).1 := by
  unfold cutWhenDue
  split
  · exact .refl _
  · dsimp only
    split_ifs
    · exact .of_ended (.inr rfl) rfl rfl
    · exact .refl _
    · exact .refl _
    all_goals exact .of_ended (.inr rfl) rfl rfl

theorem refresh_settles (granted : Bool) :
    handover.Settles (handover.refresh settings granted) := by
  unfold refresh startOpening
  dsimp only
  split <;> exact .of_ended (.inl rfl) rfl rfl

theorem step_settles (standbyFailed : Bool) (answers : StepAnswers) :
    handover.Settles (handover.step settings standbyFailed answers).1 := by
  unfold step
  split
  · exact refresh_settles settings handover answers.granted
  · exact (settle_settles settings handover answers).trans
      (cut_when_due_settles settings _ standbyFailed answers)

theorem on_primary_failure_settles : handover.Settles handover.onPrimaryFailure.1 := by
  unfold onPrimaryFailure
  split
  · exact .refl _
  · exact .of_ended (.inr rfl) rfl rfl

end Handover

/-! ### The calls of a pump -/

/-- The calls a receive loop makes; an admission also says whether recording raises. -/
inductive HandoverOp where
  | request
  | start (eligible : Bool) (liveConnections : Int) (answers : StartAnswers)
  | admitFrame (frame : L0Frame) (fromStandby raises : Bool)
  | step (standbyFailed : Bool) (answers : StepAnswers)
  | failover

namespace Handover

variable (settings : HandoverSettings)

def apply (handover : Handover) : HandoverOp → Handover
  | .request => { handover with requested := true }
  | .start eligible liveConnections answers =>
    handover.maybeStart settings eligible liveConnections answers
  | .admitFrame frame fromStandby _ => (handover.admitFrame frame fromStandby).1
  | .step standbyFailed answers => (handover.step settings standbyFailed answers).1
  | .failover => handover.onPrimaryFailure.1

/-- The frames recorded with a call. -/
def recordedBy (handover : Handover) : HandoverOp → List L0Frame
  | .admitFrame frame fromStandby raises =>
    if (handover.admitFrame frame fromStandby).2 && !raises then [frame] else []
  | _ => []

def run (handover : Handover) (ops : List HandoverOp) : Handover := ops.foldl (apply settings) handover

/-- The frames recorded along a run, in order. -/
def sink (handover : Handover) : List HandoverOp → List L0Frame
  | [] => []
  | op :: rest => handover.recordedBy op ++ sink (handover.apply settings op) rest

theorem apply_settles (handover : Handover)
    (other : ∀ frame fromStandby raises, op ≠ .admitFrame frame fromStandby raises) :
    handover.Settles (handover.apply settings op) := by
  cases op with
  | request => exact .of_same rfl rfl rfl rfl
  | start eligible liveConnections answers => exact maybe_start_settles settings handover _ _ _
  | admitFrame frame fromStandby raises => exact absurd rfl (other frame fromStandby raises)
  | step standbyFailed answers => exact step_settles settings handover _ _
  | failover => exact on_primary_failure_settles handover

theorem run_append (handover : Handover) (ops more : List HandoverOp) :
    handover.run settings (ops ++ more) = (handover.run settings ops).run settings more :=
  List.foldl_append

theorem sink_append (handover : Handover) (ops more : List HandoverOp) :
    handover.sink settings (ops ++ more) =
      handover.sink settings ops ++ (handover.run settings ops).sink settings more := by
  induction ops generalizing handover with
  | nil => rfl
  | cons op rest step => simp [sink, step, run]

end Handover

namespace Pump

variable (config : StreamerConfig) (pump : Pump) (round : Round)

/-! ### The calls of a round -/

def startOps : List HandoverOp :=
  (if round.swapRequested then [.request] else []) ++
    [.start (0 < pump.frames) (if pump.handover.active then 2 else 1) round.start]

def standbyOps : List HandoverOp :=
  match round.standby, pump.handover.standby with
  | .frame frame, some _ => [.admitFrame frame true round.recordRaises]
  | _, _ => []

def primaryOps : List HandoverOp :=
  match round.primary with
  | .pending => []
  | .frame frame => [.admitFrame frame false round.recordRaises]
  | .failed _ => [.failover]

/-- The calls from the handover's step on. -/
def stepOps : List HandoverOp :=
  .step (pump.standbyFailed round) round.step ::
    match pump.stepHandover config round with
    | (_, some _) => []
    | (_, none) => primaryOps round

def waited : Pump := (pump.startHandover config round).subscribe round.subscribed

def roundOps : List HandoverOp :=
  if round.watchdog then []
  else
    pump.startOps round ++ (pump.waited config round).standbyOps round ++
      match pump.beforeStep config round with
      | (_, false) => []
      | (taken, true) => taken.stepOps config round

def loopOps (pump : Pump) : List Round → List HandoverOp
  | [] => []
  | round :: rest =>
    pump.roundOps config round ++
      match pump.round config round with
      | (next, none) => loopOps next rest
      | (_, some _) => []

/-- One pump state follows from another by these calls of the handover. -/
structure Follows (settings : HandoverSettings) (before after : Pump) (ops : List HandoverOp) :
    Prop where
  handover : after.handover = before.handover.run settings ops
  recorded : after.recorded = before.recorded ++ before.handover.sink settings ops

namespace Follows

variable {settings : HandoverSettings} {first second third : Pump} {ops more : List HandoverOp}

theorem refl (settings : HandoverSettings) (pump : Pump) : Follows settings pump pump [] :=
  ⟨rfl, by simp [Handover.sink]⟩

theorem trans (earlier : Follows settings first second ops)
    (later : Follows settings second third more) : Follows settings first third (ops ++ more) where
  handover := by rw [Handover.run_append, ← earlier.handover, later.handover]
  recorded := by
    rw [Handover.sink_append, ← earlier.handover, later.recorded, earlier.recorded,
      List.append_assoc]

theorem one (applied : second.handover = first.handover.apply settings op)
    (written : second.recorded = first.recorded ++ first.handover.recordedBy op) :
    Follows settings first second [op] :=
  ⟨applied, by simpa [Handover.sink] using written⟩

end Follows

theorem record_handover (frame : L0Frame) (raises : Bool) :
    (pump.record frame raises).1.handover = pump.handover := by
  cases raises <;> rfl

theorem record_recorded (frame : L0Frame) (raises : Bool) :
    (pump.record frame raises).1.recorded = pump.recorded ++ if !raises then [frame] else [] := by
  cases raises <;> simp [record]

theorem closed_by_handover (frame : L0Frame) :
    (pump.closedBy config frame).handover = pump.handover := by
  unfold closedBy Streamer.closeOutage
  dsimp only
  split <;> [split; skip] <;> rfl

variable {config} {settings : HandoverSettings} (uses : config.handover = some settings)
include uses

theorem start_follows : Follows settings pump (pump.waited config round) (pump.startOps round) := by
  unfold waited startHandover startOps
  rw [uses]
  cases asked : round.swapRequested with
  | false => exact ⟨by simp [Handover.run, Handover.apply, subscribe, Handover.active],
      by simp [Handover.sink, Handover.recordedBy, subscribe]⟩
  | true => exact ⟨by simp [Handover.run, Handover.apply, subscribe, Handover.active],
      by simp [Handover.sink, Handover.recordedBy, subscribe]⟩

theorem standby_follows :
    Follows settings pump (pump.takeStandby config round).1 (pump.standbyOps round) := by
  unfold takeStandby standbyOps
  rw [uses]
  cases round.standby with
  | pending => exact .refl _ _
  | failed _ => exact .refl _ _
  | frame frame =>
    cases present : pump.handover.standby with
    | none => exact .refl _ _
    | some _ =>
      dsimp only
      cases admitted : (pump.handover.admitFrame frame true).2 with
      | false => exact .one rfl (by simp [Handover.recordedBy, admitted])
      | true =>
        refine .one (by simp [record_handover, Handover.apply]) ?_
        simp [record_recorded, Handover.recordedBy, admitted]

theorem frame_follows (frame : L0Frame) (raises : Bool) :
    Follows settings pump (pump.takeFrame config frame raises).1 [.admitFrame frame false raises] := by
  unfold takeFrame Pump.admitted
  rw [uses]
  dsimp only
  rw [closed_by_handover]
  cases admitted : (pump.handover.admitFrame frame false).2 with
  | false => exact .one rfl (by simp [closed_by_recorded, Handover.recordedBy, admitted])
  | true =>
    refine .one (by simp [record_handover, Handover.apply]) ?_
    simp [record_recorded, closed_by_recorded, Handover.recordedBy, admitted]

theorem primary_follows :
    Follows settings pump (pump.takePrimary config round).1 (primaryOps round) := by
  unfold takePrimary primaryOps
  cases round.primary with
  | pending => exact .refl _ _
  | frame frame => exact frame_follows pump uses frame round.recordRaises
  | failed failure =>
    rw [uses]
    cases cut : pump.handover.onPrimaryFailure with
    | mk handover promoted =>
      refine .one ?_ ?_ <;> cases promoted <;>
        simp [Handover.apply, Handover.recordedBy, cut, switch]

theorem step_follows :
    Follows settings pump (pump.stepHandover config round).1
      [.step (pump.standbyFailed round) round.step] := by
  unfold stepHandover
  rw [uses]
  exact .one rfl (by simp [Handover.recordedBy])

theorem from_step_follows :
    Follows settings pump (pump.fromStep config round).1 (pump.stepOps config round) := by
  have stepped := step_follows pump round uses
  unfold fromStep stepOps
  revert stepped
  rcases pump.stepHandover config round with ⟨next, _ | cut⟩
  · exact fun stepped => stepped.trans (primary_follows next round uses)
  · exact fun stepped => ⟨stepped.handover, stepped.recorded⟩

theorem round_follows :
    Follows settings pump (pump.round config round).1 (pump.roundOps config round) := by
  unfold Pump.round roundOps
  cases round.watchdog with
  | true => exact .refl _ _
  | false =>
    have before := (start_follows pump round uses).trans
      (standby_follows (pump.waited config round) round uses)
    change Follows settings pump (pump.beforeStep config round).1 _ at before
    simp only [Bool.false_eq_true, if_false]
    revert before
    rcases pump.beforeStep config round with ⟨taken, _ | _⟩
    · intro before
      simpa using before
    · exact fun before => before.trans (from_step_follows taken round uses)

/-- A pump's handover and sink are what the calls of its rounds make of them. -/
theorem loop_follows (rounds : List Round) :
    Follows settings pump (pump.loop config rounds).1 (pump.loopOps config rounds) := by
  induction rounds generalizing pump with
  | nil => exact .refl _ _
  | cons round rest step =>
    have first := round_follows pump round uses
    rw [loop, loopOps]
    revert first
    rcases pump.round config round with ⟨next, _ | reason⟩
    · exact fun first => first.trans (step next)
    · intro first
      simpa using first

end Pump
end KrxAlpha
