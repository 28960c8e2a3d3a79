import KrxAlpha.HandoverTrace
import Mathlib.Data.List.Infix

/-! One event brought by two connections. The memory that keeps it from being recorded
twice only takes payloads in while a standby is there, and it is emptied when a standby is
adopted, lost or takes over. Two frames with one payload are recorded once exactly when
the memory holds the first one all the time until the second is looked up. -/
namespace KrxAlpha
open List

/-- The payload a call offers for recording. -/
def HandoverOp.payload : HandoverOp → Option FrameKey
  | .admitFrame frame _ _ => some frame.key
  | _ => none

namespace Handover

variable (settings : HandoverSettings) (handover : Handover)

/-! ### What the calls do to one payload in the memory -/

theorem trimmed_of_some
    (found : handover.trimmed.get? key = some owner) : handover.seen.get? key = some owner := by
  unfold trimmed at found
  split at found
  · exact Dict.get?_of_dropOldest found
  · exact found

theorem trimmed_get (key : FrameKey) :
    handover.trimmed.get? key = handover.seen.get? key ∨ handover.trimmed.get? key = none := by
  cases found : handover.trimmed.get? key with
  | none => exact .inr rfl
  | some owner => exact .inl (handover.trimmed_of_some found).symm

variable (frame : L0Frame) (fromStandby : Bool)

theorem admit_idle (idle : ¬ handover.Live) :
    handover.admitFrame frame fromStandby = (handover, true) := by
  simp [admitFrame, idle]

theorem admit_seen (live : handover.Live) :
    (handover.admitFrame frame fromStandby).1.seen =
      (match handover.trimmed.get? frame.key with
      | some _ => handover.trimmed
      | none => handover.trimmed.set frame.key (handover.token fromStandby)) := by
  simp only [admitFrame, live, if_true]
  cases known : handover.trimmed.get? frame.key with
  | none => rfl
  | some owner =>
    dsimp only
    split <;> rfl

/-- A frame is refused when the other side's number stands in the memory. -/
theorem admit_refuses_iff :
    (handover.admitFrame frame fromStandby).2 = false ↔ handover.Live ∧
      ∃ owner, handover.trimmed.get? frame.key = some owner ∧ owner ≠ handover.token fromStandby := by
  by_cases live : handover.Live
  · simp only [admitFrame, live, if_true, true_and]
    split
    · rename_i owner found
      split <;> simp_all
    · simp_all
  · simp [admit_idle, live]

theorem admit_new
    (absent : handover.seen.get? frame.key = none) :
    (handover.admitFrame frame fromStandby).2 = true ∧
      (handover.admitFrame frame fromStandby).1.seen.get? frame.key =
        if handover.Live then some (handover.token fromStandby) else none := by
  have unknown : handover.trimmed.get? frame.key = none := by
    rcases handover.trimmed_get frame.key with same | none
    · exact same.trans absent
    · exact none
  constructor
  · refine Bool.of_not_eq_false fun refused => ?_
    obtain ⟨-, owner, found, -⟩ := (handover.admit_refuses_iff frame fromStandby).mp refused
    rw [unknown] at found
    cases found
  · by_cases live : handover.Live
    · rw [admit_seen _ _ _ live, unknown]
      simp [live]
    · rw [admit_idle _ _ _ live]
      simp [live, absent]

theorem admit_other (other : key ≠ frame.key) :
    (handover.admitFrame frame fromStandby).1.seen.get? key = handover.seen.get? key ∨
      (handover.admitFrame frame fromStandby).1.seen.get? key = none := by
  by_cases live : handover.Live
  · rw [admit_seen _ _ _ live]
    split
    · exact handover.trimmed_get key
    · rw [Dict.get?_set_of_ne other]
      exact handover.trimmed_get key
  · rw [admit_idle _ _ _ live]
    exact .inl rfl

/-- A call that does not offer a payload leaves its entry or loses it. -/
theorem apply_other (other : op.payload ≠ some key) :
    (handover.apply settings op).seen.get? key = handover.seen.get? key ∨
      (handover.apply settings op).seen.get? key = none := by
  cases op with
  | admitFrame frame fromStandby raises =>
    exact handover.admit_other frame fromStandby fun same => other (congrArg some same.symm)
  | _ => exact (handover.apply_settles settings (by simp)).get? key

variable {handover} {ops : List HandoverOp} {key : FrameKey}

section

variable (other : ∀ op ∈ ops, op.payload ≠ some key)
include other

/-- A payload that is not offered does not come into the memory. -/
theorem run_unknown (unknown : handover.seen.get? key = none) :
    (handover.run settings ops).seen.get? key = none := by
  induction ops generalizing handover with
  | nil => exact unknown
  | cons op rest step =>
    obtain ⟨here, later⟩ := forall_mem_cons.mp other
    refine step later ?_
    rcases handover.apply_other settings here with same | lost
    · exact same.trans unknown
    · exact lost

private theorem run_kept_or_lost :
    (handover.run settings ops).seen.get? key = handover.seen.get? key ∨
      (handover.run settings ops).seen.get? key = none := by
  induction ops generalizing handover with
  | nil => exact .inl rfl
  | cons op rest step =>
    obtain ⟨here, later⟩ := forall_mem_cons.mp other
    rcases handover.apply_other settings here with same | lost
    · exact same ▸ step later
    · right
      change ((handover.apply settings op).run settings rest).seen.get? key = none
      exact run_unknown settings later lost

/-- A payload that is not offered again keeps its entry as long as it is in the memory. -/
theorem run_known_iff (known : handover.seen.get? key = some owner) :
    (handover.run settings ops).seen.get? key = some owner ↔
      ∀ done ∈ ops.inits, key ∈ (handover.run settings done).seen.keys := by
  constructor
  · intro kept done early
    obtain ⟨rest, rfl⟩ := (mem_inits _ _).mp early
    by_contra absent
    have lost := run_unknown settings (fun op member => other op (mem_append_right _ member))
      (Dict.get?_eq_none.mpr absent)
    rw [← run_append, kept] at lost
    cases lost
  · intro keeps
    have last := keeps ops ((mem_inits _ _).mpr (prefix_refl ops))
    rcases run_kept_or_lost settings other with same | lost
    · exact same.trans known
    · exact absurd last (Dict.get?_eq_none.mp lost)

/-- Only an offered payload is recorded. -/
theorem sink_without : ((handover.sink settings ops).map L0Frame.key).count key = 0 := by
  induction ops generalizing handover with
  | nil => rfl
  | cons op rest step =>
    obtain ⟨here, later⟩ := forall_mem_cons.mp other
    rw [sink, map_append, count_append, step later, Nat.add_zero, count_eq_zero]
    cases op with
    | admitFrame frame fromStandby raises =>
      simp only [recordedBy]
      split
      · simpa [HandoverOp.payload, eq_comm] using here
      · simp
    | _ => simp [recordedBy]

end

/-- The payload of the first frame is in the memory from its admission to the second
frame's, which another side brings while the handover is live. -/
structure Overlap (atFirst : Handover) (first : L0Frame) (firstSide : Bool)
    (between : List HandoverOp) (secondSide : Bool) : Prop where
  begun : atFirst.Live
  kept : ∀ done ∈ between.inits,
    first.key ∈ ((atFirst.admitFrame first firstSide).1.run settings done).seen.keys
  lasting : ((atFirst.admitFrame first firstSide).1.run settings between).Live
  untrimmed : first.key ∈ ((atFirst.admitFrame first firstSide).1.run settings between).trimmed.keys
  apart : atFirst.token firstSide ≠
    ((atFirst.admitFrame first firstSide).1.run settings between).token secondSide

/-- The second of two frames with one payload is refused exactly in an overlap. -/
theorem second_refused_iff (firstSide secondSide : Bool)
    (same : second.key = first.key) (unknown : handover.seen.get? first.key = none)
    (other : ∀ op ∈ ops, op.payload ≠ some first.key) :
    (((handover.admitFrame first firstSide).1.run settings ops).admitFrame second secondSide).2 = false ↔
      handover.Overlap settings first firstSide ops secondSide := by
  obtain ⟨-, remembered⟩ := handover.admit_new first firstSide unknown
  rw [admit_refuses_iff, same]
  constructor
  · rintro ⟨live, owner, found, apart⟩
    have held := trimmed_of_some _ found
    have begun : handover.Live := by
      by_contra idle
      rw [if_neg idle] at remembered
      rw [run_unknown settings other remembered] at held
      cases held
    rw [if_pos begun] at remembered
    have kept := (run_kept_or_lost settings other).imp_left (·.trans remembered)
    rw [held] at kept
    obtain rfl : owner = handover.token firstSide := by simpa using kept
    exact ⟨begun, (run_known_iff settings other remembered).mp held, live,
      Dict.mem_keys_of_get? found, apart⟩
  · intro overlap
    rw [if_pos overlap.begun] at remembered
    have held := (run_known_iff settings other remembered).mpr overlap.kept
    refine ⟨overlap.lasting, handover.token firstSide, ?_, overlap.apart⟩
    rcases trimmed_get ((handover.admitFrame first firstSide).1.run settings ops) first.key with
      same | lost
    · exact same.trans held
    · exact absurd overlap.untrimmed (Dict.get?_eq_none.mp lost)

/-- How often the payload of two frames is recorded along a run that offers it no more. -/
theorem count_of_two (before between after : List HandoverOp) (firstRaises secondRaises : Bool)
    (same : second.key = first.key) (unknown : handover.seen.get? first.key = none)
    (once : ∀ op ∈ before ++ between ++ after, op.payload ≠ some first.key) :
    ((handover.sink settings (before ++ .admitFrame first firstSide firstRaises ::
        (between ++ .admitFrame second secondSide secondRaises :: after))).map L0Frame.key).count
        first.key ≤ 1 ↔
      firstRaises = true ∨ secondRaises = true ∨
        (handover.run settings before).Overlap settings first firstSide between secondSide := by
  simp only [mem_append, or_imp, forall_and] at once
  obtain ⟨⟨early, middle⟩, late⟩ := once
  have unknownFirst := run_unknown settings early unknown
  obtain ⟨admitted, -⟩ := admit_new _ first firstSide unknownFirst
  rw [← second_refused_iff settings firstSide secondSide same unknownFirst middle]
  simp only [sink_append, sink, map_append, count_append, sink_without settings early,
    sink_without settings middle, sink_without settings late, recordedBy, admitted, apply]
  generalize ((((handover.run settings before).admitFrame first firstSide).1.run settings between).admitFrame
    second secondSide).2 = answer
  cases firstRaises <;> cases secondRaises <;> cases answer <;> simp [same]

end Handover

/-- A payload that a pump's connections deliver twice is recorded at most once exactly when
the second frame comes while the memory, live since before the first, still holds it, or
when recording one of them raises. -/
theorem handover_records_once_iff {config : StreamerConfig} {settings : HandoverSettings}
    (uses : config.handover = some settings) (pump : Pump) (rounds : List Round)
    (before between after : List HandoverOp) {first second : L0Frame}
    {firstSide secondSide firstRaises secondRaises : Bool}
    (calls : pump.loopOps config rounds = before ++ .admitFrame first firstSide firstRaises ::
      (between ++ .admitFrame second secondSide secondRaises :: after))
    (same : second.key = first.key)
    (once : ∀ op ∈ before ++ between ++ after, op.payload ≠ some first.key)
    (unknown : pump.handover.seen.get? first.key = none)
    (unrecorded : first.key ∉ pump.recorded.map L0Frame.key) :
    ((pump.loop config rounds).1.recorded.map L0Frame.key).count first.key ≤ 1 ↔
      firstRaises = true ∨ secondRaises = true ∨
        (pump.handover.run settings before).Overlap settings first firstSide between secondSide := by
  rw [(pump.loop_follows uses rounds).recorded, map_append, count_append,
    count_eq_zero.mpr unrecorded, Nat.zero_add, calls]
  exact Handover.count_of_two settings before between after firstRaises secondRaises same unknown once

namespace Sample

/-- Once the standby is adopted, it and then the old connection bring one trade. -/
def broughtInOverlap : List Round :=
  swapBegun ++
    [ { standby := .frame (tradeFrame "new" "t2" 1 20 32401) },
      { primary := .frame (tradeFrame "old" "t2" 2 21 32401) } ]

def overlapCalls : List HandoverOp := freshPump.loopOps handoverConfig broughtInOverlap

/-- The old connection brings a trade while the standby is being opened, and the standby
brings it once it is adopted. -/
def broughtWhileOpening : List Round :=
  [ { primary := .frame (tradeFrame "old" "t1" 1 10 32400) },
    { swapRequested := true },
    { primary := .frame (tradeFrame "old" "t2" 2 20 32401) },
    { step := { opening := .opened newConnection } },
    { standby := .frame (tradeFrame "new" "t2" 1 21 32401) } ]

end Sample

open Sample in
theorem handover_records_once_iff_in_overlap :
    (freshPump.handover.run handoverSettings (overlapCalls.take 9)).Overlap handoverSettings
      (tradeFrame "new" "t2" 1 20 32401) true ((overlapCalls.drop 10).take 3) false ∧
    ((freshPump.loop handoverConfig broughtInOverlap).1.recorded.map L0Frame.key).count
      (tradeFrame "new" "t2" 1 20 32401).key ≤ 1 := by
  have overlap : (freshPump.handover.run handoverSettings (overlapCalls.take 9)).Overlap
      handoverSettings (tradeFrame "new" "t2" 1 20 32401) true ((overlapCalls.drop 10).take 3) false :=
    ⟨by decide +kernel, by decide +kernel, by decide +kernel, by decide +kernel, by decide +kernel⟩
  have calls : freshPump.loopOps handoverConfig broughtInOverlap =
      overlapCalls.take 9 ++ .admitFrame (tradeFrame "new" "t2" 1 20 32401) true false ::
        ((overlapCalls.drop 10).take 3 ++ .admitFrame (tradeFrame "old" "t2" 2 21 32401) false false :: []) :=
    rfl
  have configured : handoverConfig.handover = some handoverSettings := rfl
  exact ⟨overlap, (handover_records_once_iff configured freshPump broughtInOverlap _ _ [] calls rfl
    (by decide +kernel) rfl (by decide)).mpr (.inr (.inr overlap))⟩

open Sample in
/-- A trade brought by the old connection before the standby's adoption and by the standby
after it is recorded twice. -/
theorem trade_recorded_from_both_connections :
    (freshPump.loop handoverConfig broughtWhileOpening).1.recorded =
      [tradeFrame "old" "t1" 1 10 32400, tradeFrame "old" "t2" 2 20 32401, tradeFrame "new" "t2" 1 21 32401] := by
  decide +kernel

end KrxAlpha
