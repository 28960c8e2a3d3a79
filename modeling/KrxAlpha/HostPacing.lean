import KrxAlpha.Runs
import Mathlib.Algebra.Order.Field.Basic
import Mathlib.Algebra.Order.Ring.Rat
import Mathlib.Data.List.Pairwise
import Mathlib.Tactic.Linarith

/-! Pacing of the requests a whole host sends under one credential. One file holds the time
from which the next request may go out. A caller takes the file's lock, books the first free
slot by storing the end of it, releases the lock and sleeps until its slot; a caller with a
bound on its lead books nothing when the slot is too far off, and tries again later. Two
programs follow this protocol, the KIS limiter and the host contract. -/
namespace KrxAlpha

/-- What the pacing file says; times are seconds of the epoch. -/
inductive PacingFile where
  | blank | garbled
  | time (nextFree : ℚ)
  deriving DecidableEq

/-- A file that says nothing, or nothing readable, is read as the epoch. Each program has its own
reader. They differ on a time that is not finite, which the contract takes for unreadable and the
limiter does not; neither program stores one, so no file here has one. -/
def PacingFile.readNextFreeLocked : PacingFile → ℚ
  | .blank => 0
  | .garbled => 0
  | .time nextFree => nextFree

/-- Which of the two programs a pacer belongs to. -/
inductive PacerCode where
  | limiter | contract
  deriving DecidableEq

/-- A pacer as its constructor leaves it. -/
structure Pacer where
  code : PacerCode
  interval : ℚ
  maxLead : Option ℚ
  spaced : 0 < interval
  led : ∀ lead ∈ maxLead, 0 < lead

inductive PacerError where
  | value (text : String)
  | notShared
  deriving DecidableEq

/-- The constructor of the KIS limiter. In a container the directory has to be marked as
shared by the host. -/
def hostPacedRateLimiter (shared : Bool) (ratePerS : ℚ) (maxLeadS : Option ℚ) :
    Except PacerError Pacer :=
  if rate : ratePerS ≤ 0 then .error (.value "rate_per_s must be positive")
  else if lead : ∃ lead ∈ maxLeadS, lead ≤ 0 then .error (.value "max_lead_s must be positive")
  else if shared then
    .ok {
      code := .limiter
      interval := 1 / ratePerS
      maxLead := maxLeadS
      spaced := one_div_pos.mpr (not_le.mp rate)
      led := fun given held => not_le.mp fun low => lead ⟨given, held, low⟩ }
  else .error .notShared

/-- The constructor of the host contract's pacers, blocking or not. -/
def hostPacer (maxRate timePeriod : ℚ) (maxLeadSeconds : Option ℚ) : Except PacerError Pacer :=
  if rate : maxRate ≤ 0 ∨ timePeriod ≤ 0 then
    .error (.value "max_rate and time_period must be positive")
  else if lead : ∃ lead ∈ maxLeadSeconds, lead ≤ 0 then
    .error (.value "max_lead_seconds must be positive")
  else
    .ok {
      code := .contract
      interval := timePeriod / maxRate
      maxLead := maxLeadSeconds
      spaced := div_pos (not_le.mp fun low => rate (.inr low)) (not_le.mp fun low => rate (.inl low))
      led := fun given held => not_le.mp fun low => lead ⟨given, held, low⟩ }

/-- What a turn under the lock leaves in the file and returns. -/
structure PacingTurn where
  file : PacingFile
  booked : Bool
  wait : ℚ
  deriving DecidableEq

namespace Pacer

/-- The first slot free at a reading of the clock: `max(now, next_free)`. -/
def slotAt (file : PacingFile) (now : ℚ) : ℚ :=
  if now < file.readNextFreeLocked then file.readNextFreeLocked else now

/-- The wait after a refusal: `max(slot - now - lead, interval)`. -/
def refusedWait (interval lead slot now : ℚ) : ℚ :=
  if slot - now - lead < interval then interval else slot - now - lead

/-- The limiter's turn without a bound. -/
def bookUnconditional (interval : ℚ) (file : PacingFile) (now : ℚ) : PacingTurn :=
  let slot := slotAt file now
  { file := .time (slot + interval), booked := true, wait := slot - now }

/-- The limiter's turn with a bound. -/
def tryBookOrWait (interval lead : ℚ) (file : PacingFile) (now : ℚ) : PacingTurn :=
  let slot := slotAt file now
  if slot - now ≤ lead then { file := .time (slot + interval), booked := true, wait := slot - now }
  else { file, booked := false, wait := refusedWait interval lead slot now }

/-- The contract's turn, with or without a bound. -/
def bookSlot (interval : ℚ) (maxLead : Option ℚ) (file : PacingFile) (now : ℚ) : PacingTurn :=
  let slot := slotAt file now
  let refuse lead := { file, booked := false, wait := refusedWait interval lead slot now }
  let book := { file := .time (slot + interval), booked := true, wait := slot - now }
  match maxLead with
  | some lead => if slot - now > lead then refuse lead else book
  | none => book

/-- One turn under the lock of an `acquire`. -/
def turn (pacer : Pacer) (file : PacingFile) (now : ℚ) : PacingTurn :=
  match pacer.code, pacer.maxLead with
  | .limiter, none => bookUnconditional pacer.interval file now
  | .limiter, some lead => tryBookOrWait pacer.interval lead file now
  | .contract, maxLead => bookSlot pacer.interval maxLead file now

/-- What a turn comes to, whichever program takes it. -/
inductive Turns (pacer : Pacer) (file : PacingFile) (now : ℚ) : PacingTurn → Prop where
  | booked (within : ∀ lead ∈ pacer.maxLead, slotAt file now - now ≤ lead) :
      Turns pacer file now
        { file := .time (slotAt file now + pacer.interval), booked := true, wait := slotAt file now - now }
  | refused (lead : ℚ) (bound : pacer.maxLead = some lead) (far : lead < slotAt file now - now) :
      Turns pacer file now
        { file, booked := false, wait := refusedWait pacer.interval lead (slotAt file now) now }

theorem turn_cases (pacer : Pacer) (file : PacingFile) (now : ℚ) :
    Turns pacer file now (pacer.turn file now) := by
  unfold turn
  cases bound : pacer.maxLead with
  | none =>
    have unbound : ∀ lead ∈ pacer.maxLead, slotAt file now - now ≤ lead := by simp [bound]
    cases pacer.code with
    | limiter => exact .booked unbound
    | contract => exact .booked unbound
  | some lead =>
    have within (near : slotAt file now - now ≤ lead) :
        ∀ lead ∈ pacer.maxLead, slotAt file now - now ≤ lead := by simpa [bound] using near
    cases pacer.code with
    | limiter =>
      simp only [tryBookOrWait]
      by_cases near : slotAt file now - now ≤ lead
      · simp only [near, ↓reduceIte]
        exact .booked (within near)
      · simp only [near, ↓reduceIte]
        exact .refused lead bound (not_le.mp near)
    | contract =>
      simp only [bookSlot]
      by_cases far : slotAt file now - now > lead
      · simp only [far, ↓reduceIte]
        exact .refused lead bound far
      · simp only [far, ↓reduceIte]
        exact .booked (within (not_lt.mp far))

theorem slot_at_free (file : PacingFile) (now : ℚ) : file.readNextFreeLocked ≤ slotAt file now := by
  unfold slotAt
  split
  · exact le_refl _
  · exact not_lt.mp ‹_›

end Pacer

/-- A booking as the file has it: the time stored is the end of the slot. -/
structure Booking where
  pacer : Pacer
  now : ℚ
  wait : ℚ
  stored : ℚ

def Booking.slot (booking : Booking) : ℚ := booking.stored - booking.pacer.interval

/-- The callers of one host and the file they share. A caller inside `acquire` has a pacer, and
leaves with its booking; the bookings are in the order in which the file took them. -/
structure PacedHost where
  file : PacingFile
  acquiring : Nat → Option Pacer := fun _ => none
  bookings : List Booking := []

/-- A caller enters `acquire`, or it holds the lock and reads the clock. The lock makes of a turn
one step, and nothing is asked of the clock. -/
inductive PacingStep where
  | acquire (caller : Nat) (pacer : Pacer)
  | turn (caller : Nat) (now : ℚ)

namespace PacedHost

def take (host : PacedHost) (caller : Nat) (pacer : Pacer) (now : ℚ) (turn : PacingTurn) : PacedHost :=
  -- After a refusal the caller sleeps and comes back for another turn.
  if turn.booked then
    { file := turn.file
      acquiring := Function.update host.acquiring caller none
      bookings := host.bookings ++
        [{ pacer, now, wait := turn.wait, stored := turn.file.readNextFreeLocked }] }
  else { host with file := turn.file }

def step (host : PacedHost) : PacingStep → PacedHost
  | .acquire caller pacer =>
    match host.acquiring caller with
    | some _ => host
    | none => { host with acquiring := Function.update host.acquiring caller (some pacer) }
  | .turn caller now =>
    match host.acquiring caller with
    | some pacer => host.take caller pacer now (pacer.turn host.file now)
    | none => host

/-- What a step does to the file and to the bookings. -/
inductive Books (host : PacedHost) : PacedHost → Prop where
  | quiet {after : PacedHost} (file : after.file = host.file) (bookings : after.bookings = host.bookings) :
      Books host after
  | booked {after : PacedHost} (booking : Booking)
      (file : after.file = .time (booking.slot + booking.pacer.interval))
      (bookings : after.bookings = host.bookings ++ [booking])
      (free : host.file.readNextFreeLocked ≤ booking.slot)
      (slept : booking.slot = booking.now + booking.wait)
      (within : ∀ lead ∈ booking.pacer.maxLead, booking.wait ≤ lead) : Books host after

theorem step_books (host : PacedHost) (input : PacingStep) : Books host (host.step input) := by
  cases input with
  | acquire caller pacer =>
    cases inside : host.acquiring caller with
    | some _ => exact .quiet (by simp [step, inside]) (by simp [step, inside])
    | none => exact .quiet (by simp [step, inside]) (by simp [step, inside])
  | turn caller now =>
    cases inside : host.acquiring caller with
    | none => exact .quiet (by simp [step, inside]) (by simp [step, inside])
    | some pacer =>
      have turned := pacer.turn_cases host.file now
      simp only [step, inside]
      generalize pacer.turn host.file now = turn at turned
      cases turned with
      | refused => exact .quiet rfl rfl
      | booked within =>
        have slot : (Pacer.slotAt host.file now + pacer.interval) - pacer.interval =
            Pacer.slotAt host.file now := add_sub_cancel_right _ _
        refine .booked
          { pacer, now, wait := Pacer.slotAt host.file now - now
            stored := Pacer.slotAt host.file now + pacer.interval } ?_ rfl ?_ ?_ within
        · simp only [Booking.slot, slot]
          rfl
        · simp only [Booking.slot, slot]
          exact Pacer.slot_at_free host.file now
        · simp only [Booking.slot, slot]
          linarith

/-- What the file keeps of the bookings. -/
structure Paced (host : PacedHost) : Prop where
  apart : host.bookings.Pairwise fun earlier later =>
    earlier.slot + earlier.pacer.interval ≤ later.slot
  -- Clocks may go back; the stored time does not, since a slot is never earlier than it.
  passed : ∀ booking ∈ host.bookings,
    booking.slot + booking.pacer.interval ≤ host.file.readNextFreeLocked
  slept : ∀ booking ∈ host.bookings, booking.slot = booking.now + booking.wait
  within : ∀ booking ∈ host.bookings, ∀ lead ∈ booking.pacer.maxLead, booking.wait ≤ lead

theorem step_paced (input : PacingStep) (paced : Paced host) : Paced (host.step input) := by
  have books := step_books host input
  generalize host.step input = after at books
  cases books with
  | quiet file bookings =>
    constructor
    · rw [bookings]
      exact paced.apart
    · rw [bookings, file]
      exact paced.passed
    · rw [bookings]
      exact paced.slept
    · rw [bookings]
      exact paced.within
  | booked booking file bookings free slept within =>
    have earlier : ∀ old ∈ host.bookings, old.slot + old.pacer.interval ≤ booking.slot :=
      fun old held => (paced.passed old held).trans free
    constructor
    · rw [bookings, List.pairwise_append]
      exact ⟨paced.apart, List.pairwise_singleton _ _, by simpa using earlier⟩
    · rw [bookings, file]
      refine List.forall_mem_append.mpr ⟨fun old before => ?_, List.forall_mem_singleton.mpr le_rfl⟩
      exact (earlier old before).trans (le_add_of_nonneg_right booking.pacer.spaced.le)
    · rw [bookings]
      simpa [or_imp, forall_and] using ⟨paced.slept, slept⟩
    · rw [bookings]
      simpa [or_imp, forall_and] using ⟨paced.within, within⟩

/-- In every order of calls, over any file and any clocks: a slot begins no earlier than the end of
each slot booked before it, no caller with a bound books further ahead than its bound, and what
books nothing leaves the file as it was. -/
theorem host_slots_apart (file : PacingFile) (calls : List PacingStep) :
    let host := calls.foldl step { file }
    host.bookings.Pairwise
        (fun earlier later => earlier.slot + earlier.pacer.interval ≤ later.slot) ∧
      (∀ booking ∈ host.bookings, booking.slot = booking.now + booking.wait ∧
        ∀ lead ∈ booking.pacer.maxLead, booking.slot ≤ booking.now + lead) ∧
      ∀ call, (host.step call).bookings = host.bookings → (host.step call).file = host.file := by
  have paced : Paced (calls.foldl step { file }) :=
    List.foldlRecOn calls step
      ⟨List.Pairwise.nil, by simp, by simp, by simp⟩ fun _ paced call _ => step_paced call paced
  refine ⟨paced.apart, fun booking held => ⟨paced.slept booking held, fun lead bound => ?_⟩,
    fun call unbooked => ?_⟩
  · have wait := paced.within booking held lead bound
    have slept := paced.slept booking held
    linarith
  · have books := step_books (calls.foldl step { file }) call
    generalize (calls.foldl step { file }).step call = after at books unbooked
    cases books with
    | quiet same _ => exact same
    | booked booking _ bookings =>
      rw [bookings] at unbooked
      simp at unbooked

end PacedHost

end KrxAlpha
