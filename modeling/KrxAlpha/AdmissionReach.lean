import KrxAlpha.AdmissionSafety

/-! Admissions and the collectors. An admission is in the ledger before it is in the file the
collectors watch, and nothing goes back to one whose write was lost: the process counts it as
collected, and so does the next one, which starts from the ledger. -/
namespace KrxAlpha

/-- The poll does not end between the append to the ledger and the write of the watched file. -/
def DiscoveryStep.delivers : DiscoveryStep → Bool
  | .admissionPoll _ _ _ .ipc => false
  | .admissionPoll _ _ _ .diesAfterAppend => false
  | _ => true

/-- Every admission of the ledger has its entry in the plan. -/
def Delivered (ledger : List MembershipRow) (plan : DynamicPlan) : Prop :=
  ∀ row ∈ ledger, row.tier = .b → row.source = .dynamic →
    ∃ entry ∈ plan.entries, entry.symbol = row.symbol ∧ feedOf row = some entry.feed

instance Delivered.decidable (ledger : List MembershipRow) (plan : DynamicPlan) :
    Decidable (Delivered ledger plan) :=
  inferInstanceAs (Decidable (∀ row ∈ ledger, row.tier = .b → row.source = .dynamic →
    ∃ entry ∈ plan.entries, entry.symbol = row.symbol ∧ feedOf row = some entry.feed))

theorem read_plan_ok_iff :
    readDynamicAdmissions (.plan written) = .ok plan ↔
      (∀ entry ∈ written.entries, isKrxShortCode entry.symbol = true) ∧ written = plan := by
  simp only [readDynamicAdmissions]
  split
  · rename_i odd
    obtain ⟨entry, inside, shape⟩ := List.any_eq_true.mp odd
    constructor
    · intro refused
      cases refused
    · rintro ⟨short, _⟩
      simp [short entry inside] at shape
  · rename_i short
    constructor
    · intro same
      refine ⟨fun entry inside => ?_, Except.ok.inj same⟩
      by_contra shape
      exact short (List.any_eq_true.mpr ⟨entry, inside, by simpa using shape⟩)
    · rintro ⟨_, rfl⟩
      rfl

/-- What was read of a file has symbols of the right shape. -/
theorem read_short (read : readDynamicAdmissions file = .ok plan) :
    ∀ entry ∈ plan.entries, isKrxShortCode entry.symbol = true := by
  cases file with
  | missing =>
    cases read
    simp
  | invalid => cases read
  | plan written =>
    obtain ⟨short, rfl⟩ := read_plan_ok_iff.mp read
    exact short

/-- Admissions are written wherever the file can be read, and after what is there. -/
theorem publish_ipc_ok_iff :
    publishIpc file admitted decided = .ok next ↔ ∃ current, readDynamicAdmissions file = .ok current ∧
      next = .plan {
        rev := current.rev + 1, entries := current.entries ++ admitted.map (·.entry decided) } := by
  unfold publishIpc writeDynamicAdmissions
  cases read : readDynamicAdmissions file with
  | error error => simp [bind, Except.bind]
  | ok current => simp [bind, Except.bind, pure, Except.pure, eq_comm]

/-- A file that was written reads back. -/
theorem publish_ipc_reads_back
    (short : ∀ admission ∈ admitted, isKrxShortCode admission.symbol = true)
    (ok : publishIpc file admitted decided = .ok next) :
    ∃ current plan, readDynamicAdmissions file = .ok current ∧ readDynamicAdmissions next = .ok plan ∧
      plan.entries = current.entries ++ admitted.map (·.entry decided) := by
  obtain ⟨current, read, rfl⟩ := publish_ipc_ok_iff.mp ok
  refine ⟨current, _, read, read_plan_ok_iff.mpr ⟨?_, rfl⟩, rfl⟩
  exact List.forall_mem_append.mpr ⟨read_short read, List.forall_mem_map.mpr short⟩

/-- The ledger against the file, where it can be read, and the file against the one of the morning. -/
structure Reaching (morning : AdmissionsFile) (world : DiscoveryWorld) : Prop where
  delivered : ∀ plan, readDynamicAdmissions world.ipc = .ok plan → Delivered world.ledger plan
  readable : world.ipc ≠ morning → ∃ plan, readDynamicAdmissions world.ipc = .ok plan

/-- Rows that are no admissions need no entry. -/
theorem Delivered.quiet (delivered : Delivered ledger plan) (plain : ∀ row ∈ more, Plain row) :
    Delivered (ledger ++ more) plan :=
  List.forall_mem_append.mpr ⟨delivered, fun row last _ dynamic =>
    absurd dynamic (plain row last).not_dynamic⟩

theorem Delivered.take_in (delivered : Delivered ledger plan) {admitted : List Admission}
    (entries : next.entries = plan.entries ++ admitted.map (·.entry decided)) (levels : Dict String String) :
    Delivered (ledger ++ admitted.map (admittedRow levels decided)) next := by
  intro row inside tier dynamic
  rw [entries]
  rcases List.mem_append.mp inside with earlier | last
  · obtain ⟨entry, listed, same⟩ := delivered row earlier tier dynamic
    exact ⟨entry, List.mem_append_left _ listed, same⟩
  · obtain ⟨admission, held, rfl⟩ := List.mem_map.mp last
    exact ⟨admission.entry decided, List.mem_append_right _ (List.mem_map_of_mem held), rfl,
      feed_of_admitted_row levels decided admission⟩

theorem Reaching.step
    (reaching : Reaching morning world) (cfg : AdmissionSettings) (capacity : Dict Feed Int)
    (delivers : input.delivers = true) : Reaching morning (world.step cfg capacity input) := by
  have moves := DiscoveryWorld.step_moves cfg capacity world input
  generalize world.step cfg capacity input = next at moves
  cases moves with
  | quiet more plain ledger ipc _ =>
    constructor
    · intro plan read
      rw [ledger]
      exact (reaching.delivered plan (ipc ▸ read)).quiet plain
    · rw [ipc]
      exact reaching.readable
  | started made => exact ⟨reaching.delivered, reaching.readable⟩
  | admitted levels more _ _ decides plain ledger ipc _ =>
    rw [← List.append_assoc] at ledger
    generalize after : next.ipc = file at ipc
    cases ipc with
    | written ok =>
      obtain ⟨current, plan, before, back, entries⟩ := publish_ipc_reads_back decides.short ok
      rw [← after] at back
      refine ⟨fun other read => ?_, fun _ => ⟨plan, back⟩⟩
      rw [back] at read
      cases read
      rw [ledger]
      exact ((reaching.delivered current before).take_in entries levels).quiet plain
    | refused refusal =>
      -- Only a file that cannot be read refuses the admissions.
      have unread : ∀ plan, readDynamicAdmissions world.ipc ≠ .ok plan := by
        intro plan read
        rw [publish_ipc_ok_iff.mpr ⟨plan, read, rfl⟩] at refusal
        cases refusal
      constructor
      · intro plan read
        exact absurd (after ▸ read) (unread plan)
      · rw [after]
        exact reaching.readable
    | cut between =>
      rcases between with rfl | rfl <;> cases delivers

/-- Every admission reaches the collectors where no poll ends between its append and its write: from a
world in which all have, over all polls, failures, crashes and restarts, once the watched file has
been written it has an entry with the symbol and feed of every dynamic row of the second tier. -/
theorem delivered_admissions_reach (cfg : AdmissionSettings) (capacity : Dict Feed Int)
    (start : DiscoveryWorld)
    (began : ∀ plan, readDynamicAdmissions start.ipc = .ok plan → Delivered start.ledger plan)
    (inputs : List DiscoveryStep) (delivers : ∀ input ∈ inputs, input.delivers = true) :
    let world := inputs.foldl (DiscoveryWorld.step cfg capacity) start
    world.ipc ≠ start.ipc →
      ∃ plan, readDynamicAdmissions world.ipc = .ok plan ∧ Delivered world.ledger plan := by
  intro world wrote
  have reaching : Reaching start.ipc world :=
    List.foldlRecOn inputs _ ⟨began, fun other => absurd rfl other⟩
      fun _ so_far input inside => so_far.step cfg capacity (delivers input inside)
  obtain ⟨plan, read⟩ := reaching.readable wrote
  exact ⟨plan, read, reaching.delivered plan read⟩

namespace Sample

def twoWrites : List DiscoveryStep :=
  [.restart [], .admissionPoll (some [mover]) none 10 .nothing, .crash, .restart [],
    .admissionPoll (some [faller, mover]) none 20 .nothing]

/-- The write for the first admission is lost, the one for the second is not. -/
def lostWrite : List DiscoveryStep :=
  [.restart [], .admissionPoll (some [mover]) none 10 .ipc,
    .admissionPoll (some [faller, mover]) none 20 .nothing]

/-- The process dies between the two files, and the next one goes on. -/
def diedBetween : List DiscoveryStep :=
  [.restart [], .admissionPoll (some [mover]) none 10 .diesAfterAppend, .restart [],
    .admissionPoll (some [faller, mover]) none 20 .nothing]

def afterDay (inputs : List DiscoveryStep) : DiscoveryWorld :=
  inputs.foldl (DiscoveryWorld.step movers (feedCapacities 2 0 none)) { ledger := [] }

end Sample

open Sample

theorem delivered_admissions_reach_two :
    dynamicSymbols (afterDay twoWrites).ledger = ["000660", "035420"] ∧
    ∃ plan, readDynamicAdmissions (afterDay twoWrites).ipc = .ok plan ∧
      Delivered (afterDay twoWrites).ledger plan := by
  refine ⟨by decide +kernel, ?_⟩
  exact delivered_admissions_reach movers (feedCapacities 2 0 none) { ledger := [] }
    (fun _ _ row inside => by cases inside) twoWrites (by decide) (by decide +kernel)

/-- An admission whose write was lost stays without an entry, whether the process lives on or a new
one starts from the ledger, and although the symbol is ranked again at the next write. -/
theorem lost_write_not_made_up :
    ∃ plan, plan.rev = 1 ∧
      (afterDay lostWrite).ipc = .plan plan ∧
      ¬ Delivered (afterDay lostWrite).ledger plan ∧
      (afterDay diedBetween).ipc = .plan plan ∧
      ¬ Delivered (afterDay diedBetween).ledger plan :=
  ⟨{ rev := 1, entries := [(faller.admission (.ls 1)).entry 20] }, by decide +kernel⟩

end KrxAlpha
