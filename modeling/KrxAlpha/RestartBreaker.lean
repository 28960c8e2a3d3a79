import KrxAlpha.Runs
import Mathlib.Algebra.BigOperators.Group.Finset.Basic
import Mathlib.Algebra.Order.Ring.Rat
import Mathlib.Order.Bounds.Basic
import Mathlib.Tactic.Linarith

/-! The supervision of a child process. A dead child is started again at once while the restarts of
the last window are few, and after that only as a probe, further and further from the restart
before it. The restarts and the probes share one list of times. -/
namespace KrxAlpha
open List

structure RestartCircuitBreaker where
  maxRestarts : Nat
  windowS : ℚ
  probeBaseIntervalS : ℚ
  probeMaxIntervalS : ℚ
  bounded : 1 ≤ maxRestarts
  lasting : 0 < windowS
  spaced : 0 < probeBaseIntervalS
  ordered : probeBaseIntervalS ≤ probeMaxIntervalS

namespace RestartCircuitBreaker

variable (breaker : RestartCircuitBreaker)

def prune (timestamps : List ℚ) (now : ℚ) : List ℚ := timestamps.filter (now - breaker.windowS < ·)

def isOpen (timestamps : List ℚ) (now : ℚ) : Bool :=
  breaker.maxRestarts ≤ (breaker.prune timestamps now).length

def allowRestart (timestamps : List ℚ) (now : ℚ) : Bool :=
  (breaker.prune timestamps now).length < breaker.maxRestarts

/-- The time a probe keeps from the restart before it, when so many are beyond the budget. -/
def spacing (beyond : Nat) : ℚ :=
  min breaker.probeMaxIntervalS (breaker.probeBaseIntervalS * 2 ^ beyond)

def allowProbe (timestamps : List ℚ) (now : ℚ) : Bool :=
  let kept := breaker.prune timestamps now
  if kept.length < breaker.maxRestarts then false
  else kept.max?.any fun latest => breaker.spacing (kept.length - breaker.maxRestarts) ≤ now - latest

def recordRestart (timestamps : List ℚ) (now : ℚ) : List ℚ := breaker.prune timestamps now ++ [now]

end RestartCircuitBreaker

inductive EnsureReply where
  | started | running | restarted | circuitOpen | spawnFailed
  deriving DecidableEq

/-- One `ensure_running`: the clock, the child's exit code if it is dead, and whether a new one can
be started. -/
structure EnsureCall where
  now : ℚ
  exited : Option Int
  spawns : Bool

structure ProcessSupervisor where
  childStarted : Bool := false
  lastExitCode : Option Int := none
  openAlerted : Bool := false
  armedReason : Option String := none
  timestamps : List ℚ := []

namespace ProcessSupervisor

/-- A restart is recorded before the new child is started. -/
def restart (breaker : RestartCircuitBreaker) (state : ProcessSupervisor) (call : EnsureCall) :
    ProcessSupervisor × EnsureReply :=
  let recorded := { state with timestamps := breaker.recordRestart state.timestamps call.now }
  if call.spawns then ({ recorded with armedReason := none }, .restarted) else (recorded, .spawnFailed)

def ensureRunning (breaker : RestartCircuitBreaker) (state : ProcessSupervisor) (call : EnsureCall) :
    ProcessSupervisor × EnsureReply :=
  let state := { state with
    timestamps := breaker.prune state.timestamps call.now
    openAlerted := state.openAlerted && breaker.isOpen state.timestamps call.now }
  if !state.childStarted then
    if call.spawns then ({ state with childStarted := true }, .started) else (state, .spawnFailed)
  else
    match call.exited with
    | none => (state, .running)
    | some code =>
      let state := { state with lastExitCode := some code }
      if breaker.allowRestart state.timestamps call.now then restart breaker state call
      else if breaker.allowProbe state.timestamps call.now then restart breaker state call
      else (state, .circuitOpen)

/-- The times of the restarts of a run of calls. -/
def restarts (breaker : RestartCircuitBreaker) : ProcessSupervisor → List EnsureCall → List ℚ
  | _, [] => []
  | state, call :: rest =>
    let next := ensureRunning breaker state call
    (if next.2 = .restarted then [call.now] else []) ++ restarts breaker next.1 rest

end ProcessSupervisor

namespace RestartCircuitBreaker

variable {breaker : RestartCircuitBreaker} {times : List ℚ}

/-- The times inside the window that ends at a time. -/
def within (breaker : RestartCircuitBreaker) (times : List ℚ) (at_ : ℚ) : List ℚ :=
  times.filter fun time => at_ - breaker.windowS < time ∧ time ≤ at_

theorem mem_within : time ∈ breaker.within times at_ ↔
    time ∈ times ∧ at_ - breaker.windowS < time ∧ time ≤ at_ := by
  simp [within]

/-- What is let through after some times: few of them are in its window, or it keeps its distance
from all that are. -/
def Admits (breaker : RestartCircuitBreaker) (times : List ℚ) (now : ℚ) : Prop :=
  (breaker.prune times now).length < breaker.maxRestarts ∨ ∀ time ∈ breaker.prune times now,
    breaker.spacing ((breaker.prune times now).length - breaker.maxRestarts) ≤ now - time

/-- Every window beyond its budget is as wide as the probes in it ask for. -/
def Spread (breaker : RestartCircuitBreaker) (times : List ℚ) : Prop :=
  ∀ at_, (breaker.within times at_).length ≤ breaker.maxRestarts ∨
    ∃ early ∈ breaker.within times at_, ∃ late ∈ breaker.within times at_,
      ∑ beyond ∈ Finset.range ((breaker.within times at_).length - breaker.maxRestarts),
        breaker.spacing beyond ≤ late - early

theorem spacing_mono (few : first ≤ second) : breaker.spacing first ≤ breaker.spacing second := by
  refine min_le_min_left _ (mul_le_mul_of_nonneg_left ?_ breaker.spaced.le)
  exact pow_le_pow_right₀ (by norm_num) few

theorem allow_probe_admits (allowed : breaker.allowProbe times now = true) : breaker.Admits times now := by
  dsimp only [allowProbe] at allowed
  split_ifs at allowed with few
  refine .inr fun time kept => ?_
  obtain ⟨latest, found, apart⟩ := (Option.any_eq_true _ _).mp allowed
  have newest := (max?_eq_some_iff.mp found).2 time kept
  have apart := of_decide_eq_true apart
  linarith

theorem Spread.record (spread : breaker.Spread times) (admits : breaker.Admits times now) :
    breaker.Spread (times ++ [now]) := by
  intro at_
  by_cases inside : at_ - breaker.windowS < now ∧ now ≤ at_
  · have grown : breaker.within (times ++ [now]) at_ = breaker.within times at_ ++ [now] := by
      simp [within, inside]
    -- all the times of the window lie in the one that ends with the new time
    have earlier : (breaker.within times at_).Sublist (breaker.prune times now) := by
      refine monotone_filter_right _ fun time held => ?_
      simp only [decide_eq_true_eq] at held ⊢
      linarith
    have few := earlier.length_le
    have bounded := breaker.bounded
    rw [grown, length_append, length_singleton]
    rcases Nat.lt_or_ge (breaker.within times at_).length breaker.maxRestarts with spare | full
    · exact .inl spare
    have apart (time : ℚ) (held : time ∈ breaker.within times at_) :
        breaker.spacing ((breaker.within times at_).length - breaker.maxRestarts) ≤ now - time :=
      (spacing_mono (by omega)).trans ((admits.resolve_left (by omega)) time (earlier.subset held))
    rw [Nat.sub_add_comm full, Finset.sum_range_succ]
    rcases spread at_ with least | ⟨early, first, late, last, wide⟩
    · obtain ⟨time, held⟩ := exists_mem_of_length_pos (by omega : 0 < (breaker.within times at_).length)
      have distance := apart time held
      refine .inr ⟨time, mem_append_left _ held, now, by simp, ?_⟩
      rw [Nat.sub_eq_zero_of_le least] at distance ⊢
      simpa using distance
    · have distance := apart late last
      exact .inr ⟨early, mem_append_left _ first, now, by simp, by linarith⟩
  · have same : breaker.within (times ++ [now]) at_ = breaker.within times at_ := by
      simp [within, inside]
    rw [same]
    exact spread at_

/-- Times that lie in one window are less than the window apart. -/
theorem Spread.length_le (spread : breaker.Spread times) {most : Nat} (at_ : ℚ)
    (greatest : IsGreatest
      {count | ∑ beyond ∈ Finset.range count, breaker.spacing beyond < breaker.windowS} most) :
    (breaker.within times at_).length ≤ breaker.maxRestarts + most := by
  rcases spread at_ with few | ⟨early, first, late, last, wide⟩
  · omega
  · have first := mem_within.mp first
    have last := mem_within.mp last
    have narrow := greatest.2 (lt_of_le_of_lt wide (by linarith))
    omega

theorem prune_append (front back : List ℚ) (now : ℚ) :
    breaker.prune (front ++ back) now = breaker.prune front now ++ breaker.prune back now :=
  filter_append _ _

theorem prune_prune (later : now ≤ at_) :
    breaker.prune (breaker.prune times now) at_ = breaker.prune times at_ := by
  rw [prune, prune, filter_filter, prune]
  refine filter_congr fun time _ => ?_
  rw [Bool.and_eq_left_iff_imp]
  simp only [decide_eq_true_eq]
  exact fun recent => by linarith

end RestartCircuitBreaker

namespace ProcessSupervisor

variable {breaker : RestartCircuitBreaker}

/-- The breaker remembers all recorded times that can still matter. -/
structure Remembers (breaker : RestartCircuitBreaker) (times : List ℚ) (state : ProcessSupervisor)
    (now : ℚ) : Prop where
  kept : ∀ at_, now ≤ at_ → breaker.prune state.timestamps at_ = breaker.prune times at_
  spread : breaker.Spread times

/-- A call forgets old times, or records its own if the breaker lets it through. -/
theorem ensure_running_cases (state : ProcessSupervisor) (call : EnsureCall) :
    (ensureRunning breaker state call).1.timestamps = breaker.prune state.timestamps call.now ∧
        (ensureRunning breaker state call).2 ≠ .restarted ∨
      (ensureRunning breaker state call).1.timestamps =
          breaker.prune state.timestamps call.now ++ [call.now] ∧
        breaker.Admits (breaker.prune state.timestamps call.now) call.now := by
  have recorded (before : ProcessSupervisor) (same : before.timestamps = breaker.prune state.timestamps call.now) :
      (restart breaker before call).1.timestamps = breaker.prune state.timestamps call.now ++ [call.now] := by
    unfold restart
    split_ifs <;>
      exact congrArg (· ++ [call.now]) ((congrArg (breaker.prune · call.now) same).trans
        (RestartCircuitBreaker.prune_prune le_rfl))
  dsimp only [ensureRunning]
  split
  · split <;> exact .inl ⟨rfl, by simp⟩
  cases call.exited with
  | none => exact .inl ⟨rfl, by simp⟩
  | some code =>
    dsimp only
    split_ifs with few probe
    · exact .inr ⟨recorded _ rfl, .inl (of_decide_eq_true few)⟩
    · exact .inr ⟨recorded _ rfl, RestartCircuitBreaker.allow_probe_admits probe⟩
    · exact .inl ⟨rfl, by simp⟩

/-- What a call restarts it records. -/
theorem ensure_running_remembers {state : ProcessSupervisor} {call : EnsureCall}
    (remembers : Remembers breaker times state now) (later : now ≤ call.now) :
    ∃ new, Remembers breaker (times ++ new) (ensureRunning breaker state call).1 call.now ∧
      (if (ensureRunning breaker state call).2 = .restarted then [call.now] else []).Sublist new := by
  have kept := remembers.kept
  rcases @ensure_running_cases breaker state call with ⟨pruned, idle⟩ | ⟨recorded, admits⟩
  · refine ⟨[], ⟨fun at_ after => ?_, by simpa using remembers.spread⟩, by rw [if_neg idle]⟩
    rw [pruned, RestartCircuitBreaker.prune_prune after, kept at_ (later.trans after), append_nil]
  · rw [kept call.now later] at admits recorded
    refine ⟨[call.now], ⟨fun at_ after => ?_, remembers.spread.record ?_⟩, ?_⟩
    · rw [recorded, RestartCircuitBreaker.prune_append, RestartCircuitBreaker.prune_prune after,
        ← RestartCircuitBreaker.prune_append]
    · rwa [RestartCircuitBreaker.Admits, RestartCircuitBreaker.prune_prune le_rfl] at admits
    · split_ifs
      · exact .refl _
      · exact nil_sublist _

theorem restarts_recorded (calls : List EnsureCall) {state : ProcessSupervisor}
    (remembers : Remembers breaker times state now) (later : ∀ call ∈ calls, now ≤ call.now)
    (rising : (calls.map (·.now)).Pairwise (· ≤ ·)) :
    ∃ all, breaker.Spread all ∧ (times ++ restarts breaker state calls).Sublist all := by
  induction calls generalizing times state now with
  | nil => exact ⟨times, remembers.spread, by rw [restarts, append_nil]⟩
  | cons call rest ih =>
    obtain ⟨first, others⟩ := pairwise_cons.mp rising
    obtain ⟨new, next, listed⟩ := ensure_running_remembers remembers (later call mem_cons_self)
    obtain ⟨all, spread, covered⟩ := ih next (by simpa using first) others
    refine ⟨all, spread, .trans ?_ covered⟩
    rw [restarts, ← append_assoc]
    exact ((List.Sublist.refl times).append listed).append (.refl _)

/-- Whenever the child dies and whenever it is looked at: no window holds more restarts than the
budget and as many probes as can keep their distance inside of it. -/
theorem restart_storms_bounded (breaker : RestartCircuitBreaker) (calls : List EnsureCall)
    (rising : (calls.map (·.now)).Pairwise (· ≤ ·)) (probes : Nat)
    (greatest : IsGreatest
      {count | ∑ beyond ∈ Finset.range count, breaker.spacing beyond < breaker.windowS} probes) (at_ : ℚ) :
    ((restarts breaker {} calls).filter fun time => at_ - breaker.windowS < time ∧ time ≤ at_).length ≤
      breaker.maxRestarts + probes := by
  cases calls with
  | nil => exact Nat.zero_le _
  | cons call rest =>
    have begun : Remembers breaker [] {} call.now := ⟨fun _ _ => rfl, fun _ => .inl (Nat.zero_le _)⟩
    have later : ∀ other ∈ call :: rest, call.now ≤ other.now := by
      simpa using (pairwise_cons.mp rising).1
    obtain ⟨all, spread, covered⟩ := restarts_recorded (call :: rest) begun later rising
    exact (covered.filter _).length_le.trans (spread.length_le at_ greatest)

def steadyBreaker : RestartCircuitBreaker := ⟨1, 2, 1, 1, le_rfl, by norm_num, by norm_num, le_rfl⟩

def dyingChild : List EnsureCall := [⟨0, none, true⟩, ⟨1, some 1, true⟩, ⟨3 / 2, some 1, true⟩, ⟨2, some 1, true⟩]

theorem steady_probe_spaced :
    restarts steadyBreaker {} dyingChild = [1, 2] ∧
      ((restarts steadyBreaker {} dyingChild).filter fun time => (2 : ℚ) - 2 < time ∧ time ≤ 2).length ≤ 1 + 1 := by
  refine ⟨by decide +kernel, restart_storms_bounded steadyBreaker dyingChild (by decide +kernel) 1 ?_ 2⟩
  have even (beyond : Nat) : steadyBreaker.spacing beyond = 1 :=
    min_eq_left (by simpa [steadyBreaker] using one_le_pow₀ (by norm_num : (1 : ℚ) ≤ 2))
  simp only [even, Finset.sum_const, Finset.card_range, nsmul_eq_mul, mul_one]
  refine ⟨show ((1 : Nat) : ℚ) < 2 by norm_num, fun count fits => ?_⟩
  have fewer : count < 2 := by exact_mod_cast (show (count : ℚ) < 2 from fits)
  omega

end ProcessSupervisor
end KrxAlpha
