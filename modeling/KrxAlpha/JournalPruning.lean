import KrxAlpha.Retention

/-! What one pass over the journal does to a partition. Work on a partition reads
and writes that partition, its archive file and its place in the quarantine
only, so a pass does to each partition what it would have done to it first. -/
namespace KrxAlpha
open List

/-- What the work on a partition can see and change. -/
def Storage.view (storage : Storage) (part : RelPath) :
    Option (List Int) × Option L1File × Option (List Int) :=
  (storage.journal.get? part, storage.l1Of part, storage.quarantine.get? part)

/-- All other partitions are as they were. -/
def Storage.KeepsOthers (storage : Storage) (part : RelPath) (after : Storage) : Prop :=
  ∀ other, other ≠ part → after.view other = storage.view other

section

variable (storage : Storage) (part : RelPath)
include storage part

theorem remove_keeps_others (before : List PruneEvent) :
    storage.KeepsOthers part (removePart storage part before).storage := by
  intro other different
  simp [removePart, Storage.view, Storage.l1Of, Dict.get?_erase, different]

private theorem quarantine_keeps_others :
    storage.KeepsOthers part (quarantinePart storage part) := by
  intro other different
  simp [quarantinePart, Storage.view, Storage.l1Of, Dict.get?_erase, Dict.get?_set, different]

private theorem write_keeps_others (file : Option L1File) :
    storage.KeepsOthers part (writeL1 storage part file) := by
  intro other different
  have apart : l1RelpathForL0Partition other ≠ l1RelpathForL0Partition part :=
    fun same => different (l1_relpath_injective same)
  cases file with
  | none => rfl
  | some file => simp [writeL1, Storage.view, Storage.l1Of, Dict.get?_set, apart]

end

/-- Two pieces of work on a partition that no one can tell apart there. -/
structure Pruned.SameFor (part : RelPath) (first second : Pruned) : Prop where
  events : first.events = second.events
  stop : first.stop = second.stop
  view : first.storage.view part = second.storage.view part

section Views
variable {first second : Storage} {part : RelPath} (same : first.view part = second.view part)
include same

private theorem same_files : first.filesOf part = second.filesOf part :=
  congrArg (fun view => view.1.getD []) same

private theorem same_l1 : first.l1Of part = second.l1Of part := congrArg (fun view => view.2.1) same

private theorem same_quarantine : first.quarantine.get? part = second.quarantine.get? part :=
  congrArg (fun view => view.2.2) same

private theorem remove_same (before : List PruneEvent) :
    (removePart first part before).SameFor part (removePart second part before) where
  events := by simp only [removePart, same_files same, same_l1 same]
  stop := rfl
  view := by
    have l1 := same_l1 same
    simp only [Storage.l1Of] at l1
    simp [removePart, Storage.view, Storage.l1Of, Dict.get?_erase, l1, same_quarantine same]

private theorem release_same (args : PruneArgs) (before : List PruneEvent) :
    (args.release first part before).SameFor part (args.release second part before) := by
  unfold PruneArgs.release
  split_ifs
  · exact ⟨rfl, rfl, same⟩
  · exact remove_same same _
  · exact ⟨rfl, rfl, same⟩

private theorem settle_same (args : PruneArgs) (before : List PruneEvent) (outcome : NormalizeEnd) :
    (args.settle first part before outcome).SameFor part
      (args.settle second part before outcome) := by
  have l1 := same_l1 same
  have quarantined : first.quarantine.contains part = second.quarantine.contains part :=
    congrArg Option.isSome (same_quarantine same)
  cases outcome with
  | rows count =>
    simp only [PruneArgs.settle, l1]
    split_ifs
    · exact ⟨rfl, rfl, same⟩
    · exact ⟨rfl, rfl, same⟩
    · exact release_same same args _
  | dataFault =>
    simp only [PruneArgs.settle]
    rw [quarantined]
    cases second.quarantine.contains part with
    | true => exact ⟨rfl, rfl, same⟩
    | false =>
      refine ⟨rfl, rfl, ?_⟩
      simp only [Storage.l1Of] at l1
      simp [quarantinePart, Storage.view, Storage.l1Of, Dict.get?_erase, l1, same_files same]
  | storageIo => exact ⟨rfl, rfl, same⟩
  | workerCrash => exact ⟨rfl, rfl, same⟩
  | osError => exact ⟨rfl, rfl, same⟩

private theorem write_same (file : Option L1File) :
    (writeL1 first part file).view part = (writeL1 second part file).view part := by
  cases file with
  | none => exact same
  | some file =>
    have files := congrArg Prod.fst same
    simp only [Storage.view] at files
    simp [writeL1, Storage.view, Storage.l1Of, files, same_quarantine same]

private theorem prune_part_same (args : PruneArgs) :
    (args.prunePart first part).SameFor part (args.prunePart second part) := by
  have rebuilt : ∀ before, (args.rebuild first part before).SameFor part
      (args.rebuild second part before) :=
    fun before => settle_same (write_same same _) args before _
  unfold PruneArgs.prunePart
  rw [same_files same, same_l1 same]
  split_ifs
  · split
    · exact release_same same args _
    · exact rebuilt _
  · exact rebuilt _
  · exact remove_same same _
  · exact ⟨rfl, rfl, same⟩

end Views

/-- Events that only the gate of a verified partition produces. -/
def PruneEvent.gated : PruneEvent → Bool
  | .removed _ _ _ | .consulted _ _ | .held _ => true
  | _ => false

/-- How the work ends once the normalizer has run: the partition stays, moves to the
quarantine, or comes to the gate. -/
inductive Settled (args : PruneArgs) (storage : Storage) (part : RelPath)
    (before : List PruneEvent) : Pruned → Prop where
  | stays (quiet : List PruneEvent) (stop : Option Error)
    (plain : ∀ event ∈ quiet, event.gated = false) :
    Settled args storage part before ⟨storage, before ++ quiet, stop⟩
  | moves : Settled args storage part before
      ⟨quarantinePart storage part, before ++ [.failed, .quarantined part], none⟩
  | gate (any : args.reuseFreshL1 = false) :
    Settled args storage part before (args.release storage part (before ++ [.normalized]))

theorem settle_settled (args : PruneArgs) (storage : Storage) (part : RelPath)
    (before : List PruneEvent) (outcome : NormalizeEnd) :
    Settled args storage part before (args.settle storage part before outcome) := by
  have unchanged : ∀ stop, Settled args storage part before ⟨storage, before, stop⟩ := by
    intro stop
    have stays : Settled args storage part before ⟨storage, before ++ [], stop⟩ :=
      .stays [] stop (by simp)
    rwa [append_nil] at stays
  cases outcome with
  | rows count =>
    simp only [PruneArgs.settle]
    split_ifs with empty fresh
    · exact unchanged none
    · exact .stays [.normalized] none (by simp [PruneEvent.gated])
    · exact .gate (by simpa using fresh)
  | dataFault =>
    simp only [PruneArgs.settle]
    split_ifs
    · exact .stays [.failed] none (by simp [PruneEvent.gated])
    · exact .moves
  | storageIo => exact .stays [.failed] none (by simp [PruneEvent.gated])
  | workerCrash => exact .stays [.failed] none (by simp [PruneEvent.gated])
  | osError => exact unchanged _

section Frames
variable (args : PruneArgs) (storage : Storage) (part : RelPath)

private theorem release_keeps_others (before : List PruneEvent) :
    storage.KeepsOthers part (args.release storage part before).storage := by
  unfold PruneArgs.release
  split_ifs
  · exact fun _ _ => rfl
  · exact remove_keeps_others storage part _
  · exact fun _ _ => rfl

private theorem settle_keeps_others (before : List PruneEvent) (outcome : NormalizeEnd) :
    storage.KeepsOthers part (args.settle storage part before outcome).storage := by
  have settled := settle_settled args storage part before outcome
  generalize args.settle storage part before outcome = done at settled ⊢
  cases settled with
  | stays _ _ _ => exact fun _ _ => rfl
  | moves => exact quarantine_keeps_others storage part
  | gate _ => exact release_keeps_others args storage part _

private theorem prune_part_keeps_others :
    storage.KeepsOthers part (args.prunePart storage part).storage := by
  have rebuilt : ∀ before, storage.KeepsOthers part (args.rebuild storage part before).storage :=
    fun before other different =>
      (settle_keeps_others args _ part before _ other different).trans
        (write_keeps_others storage part _ other different)
  unfold PruneArgs.prunePart
  split_ifs
  · split
    · exact release_keeps_others args storage part _
    · exact rebuilt _
  · exact rebuilt _
  · exact remove_keeps_others storage part _
  · exact fun _ _ => rfl

end Frames

/-- A partition that a pass works on: dated before the cutoff. -/
def expiredAt (cutoff : Int) (part : RelPath) : Bool :=
  match fullmatchDate part.name with
  | .ok (some day) => decide ((day : Int) < cutoff)
  | _ => false

/-- A visit is the work on an expired partition, and nothing on any other. -/
theorem visit_cases (args : PruneArgs) (part : RelPath) :
    (expiredAt args.cutoff part = true ∧ ∀ storage, args.visit storage part =
      ⟨(args.prunePart storage part).storage, part, (args.prunePart storage part).events,
        (args.prunePart storage part).stop⟩) ∨
    (expiredAt args.cutoff part = false ∧ ∃ stop, ∀ storage, args.visit storage part =
      ⟨storage, part, [], stop⟩) := by
  unfold expiredAt PruneArgs.visit
  rcases fullmatchDate part.name with err | _ | day
  · exact Or.inr ⟨rfl, some err, fun _ => rfl⟩
  · exact Or.inr ⟨rfl, none, fun _ => rfl⟩
  · by_cases young : args.cutoff ≤ (day : Int)
    · exact Or.inr ⟨by simpa using young, none, fun _ => by simp [young]⟩
    · exact Or.inl ⟨by simpa using young, fun _ => by simp [young]⟩

theorem separate_prune (args : PruneArgs) : Separate args.visit Storage.view where
  framed := by
    intro storage part other different
    rcases visit_cases args part with ⟨_, worked⟩ | ⟨_, _, idle⟩
    · rw [worked]
      exact prune_part_keeps_others args storage part other different
    · rw [idle]
  emits := by
    intro first second part same
    rcases visit_cases args part with ⟨_, worked⟩ | ⟨_, _, idle⟩
    · simpa [worked] using (prune_part_same same args).events
    · simp [idle]
  stops := by
    intro first second part same
    rcases visit_cases args part with ⟨_, worked⟩ | ⟨_, _, idle⟩
    · simpa [worked] using (prune_part_same same args).stop
    · simp [idle]
  writes := by
    intro first second part same
    rcases visit_cases args part with ⟨_, worked⟩ | ⟨_, _, idle⟩
    · simpa [worked] using (prune_part_same same args).view
    · simpa [idle] using same

/-- The partitions a pass gets to before one stops it. -/
def PruneArgs.reached (args : PruneArgs) (storage : Storage) : List RelPath :=
  reach (fun part => (args.visit storage part).stop.isSome) storage.journal.keys

/-- The events of a pass are those of the work on the expired partitions it got to. -/
theorem mem_prune_events :
    event ∈ (pruneOldJournals args storage).emitted ↔
      ∃ part ∈ args.reached storage, expiredAt args.cutoff part = true ∧
        event ∈ (args.prunePart storage part).events := by
  rw [pruneOldJournals, (separate_prune args).emitted storage.journal.keys_nodup, mem_flatMap]
  refine exists_congr fun part => and_congr_right fun _ => ?_
  rcases visit_cases args part with ⟨expired, worked⟩ | ⟨young, _, idle⟩
  · simp [worked, expired]
  · simp [idle, young]

/-- A partition the pass worked on ends as that work left it. -/
theorem prune_view
    (reached : part ∈ args.reached storage) (expired : expiredAt args.cutoff part = true) :
    (pruneOldJournals args storage).state.view part =
      (args.prunePart storage part).storage.view part := by
  rw [pruneOldJournals, (separate_prune args).view_reached storage.journal.keys_nodup storage reached]
  rcases visit_cases args part with ⟨_, worked⟩ | ⟨young, _⟩
  · rw [worked]
  · rw [expired] at young
    cases young

section Gate
variable {args : PruneArgs} {storage : Storage} {part : RelPath} {event : PruneEvent}

theorem consult_events (asked : event ∈ (args.consult part).2) :
    event = .consulted part (args.consult part).1 := by
  unfold PruneArgs.consult at asked ⊢
  cases hold : args.hold with
  | none => simp [hold] at asked
  | some gate => simpa [hold] using asked

theorem release_events :
    event ∈ (args.release storage part before).events ↔
      event ∈ before ∨ event ∈ (args.release storage part []).events := by
  unfold PruneArgs.release
  split_ifs <;> simp [removePart]

theorem release_verified (gate : event ∈ (args.release storage part []).events) :
    args.verified part = true := by
  unfold PruneArgs.release at gate
  split_ifs at gate with unlocked
  · exact unlocked
  · exact unlocked
  · simp at gate

private theorem ungated {quiet : List PruneEvent} (plain : ∀ event ∈ quiet, event.gated = false)
    (gated : event.gated = true) : event ∉ quiet := by
  intro member
  rw [plain event member] at gated
  cases gated

private theorem gated_before {before quiet : List PruneEvent}
    (plain : ∀ event ∈ quiet, event.gated = false) (happened : event ∈ before ++ quiet)
    (gated : event.gated = true) : event ∈ before :=
  (mem_append.mp happened).resolve_right (ungated plain gated)

private theorem settle_gated {before : List PruneEvent}
    (happened : event ∈ (args.settle storage part before outcome).events)
    (gated : event.gated = true) : event ∈ before ∨
      (args.reuseFreshL1 = false ∧ event ∈ (args.release storage part []).events) := by
  have settled := settle_settled args storage part before outcome
  generalize args.settle storage part before outcome = done at settled happened
  cases settled with
  | stays quiet _ plain =>
    exact Or.inl (gated_before plain happened gated)
  | moves => exact Or.inl (gated_before (by simp [PruneEvent.gated]) happened gated)
  | gate any =>
    rcases release_events.mp happened with early | late
    · exact Or.inl (gated_before (by simp [PruneEvent.gated]) early gated)
    · exact Or.inr ⟨any, late⟩

/-- The three ways in which a partition gets past the gate, or is stopped at it. -/
inductive GateOpened (args : PruneArgs) (storage : Storage) (part : RelPath)
    (event : PruneEvent) : Prop where
  | fresh (count : Int)
    (reusable : reusableL1Rows (storage.filesOf part) (storage.l1Of part) = some count)
    (gate : event ∈ (args.release storage part []).events)
  | rebuilt (any : args.reuseFreshL1 = false) (after : Storage)
    (gate : event ∈ (args.release after part []).events)
  | lowDisk (low : args.normalize = false) (found : (storage.l1Of part).isSome)
    (verified : args.verified part = true)
    (gate : event ∈ (removePart storage part (args.consult part).2).events)

theorem gate_opened (happened : event ∈ (args.prunePart storage part).events)
    (gated : event.gated = true) : GateOpened args storage part event := by
  unfold PruneArgs.prunePart at happened
  split_ifs at happened with normalize fresh unlocked
  · split at happened
    · rename_i count reusable
      rcases release_events.mp happened with early | late
      · exact absurd early (ungated (by simp [PruneEvent.gated]) gated)
      · exact .fresh count reusable late
    · rcases settle_gated happened gated with early | ⟨any, gate⟩
      · exact absurd early (ungated (by simp [PruneEvent.gated]) gated)
      · exact .rebuilt any _ gate
  · rcases settle_gated happened gated with early | ⟨any, gate⟩
    · cases early
    · exact .rebuilt any _ gate
  · exact .lowDisk (by simpa using normalize) unlocked.1 unlocked.2 happened
  · cases happened

theorem GateOpened.verified (opened : GateOpened args storage part event) :
    args.verified part = true := by
  cases opened with
  | fresh _ _ gate => exact release_verified gate
  | rebuilt _ _ gate => exact release_verified gate
  | lowDisk _ _ verified _ => exact verified

/-- What the gate lets through is the partition itself. -/
theorem release_removed (gate : .removed removed files l1 ∈ (args.release storage part []).events) :
    removed = part ∧ files = storage.filesOf part ∧ l1 = storage.l1Of part := by
  unfold PruneArgs.release at gate
  split_ifs at gate
  · rcases mem_append.mp gate with asked | held
    · cases consult_events asked
    · simp at held
  · rcases mem_append.mp gate with asked | gone
    · cases consult_events asked
    · simpa using gone
  · cases gate

/-- A partition with a reason to wait is recorded as held. -/
theorem release_held
    (gate : .consulted asked (some reason) ∈ (args.release storage part []).events) :
    asked = part ∧ .held (l1PathOf part) ∈ (args.release storage part []).events := by
  unfold PruneArgs.release at gate ⊢
  split_ifs at gate ⊢ with verified waits
  · rcases mem_append.mp gate with told | held
    · exact ⟨(PruneEvent.consulted.inj (consult_events told)).1, by simp⟩
    · simp at held
  · rcases mem_append.mp gate with told | gone
    · simp [← (PruneEvent.consulted.inj (consult_events told)).2] at waits
    · simp at gone
  · cases gate

end Gate

/-- The partitions that precede a name with a date no calendar has. -/
def datedParts (storage : Storage) : List RelPath :=
  reach (fun part => !(fullmatchDate part.name).isOk) storage.journal.keys

section LowDisk
variable {args : PruneArgs} (low : args.normalize = false) (storage : Storage)
include low

private theorem low_disk_stop (part : RelPath) :
    (args.visit storage part).stop.isSome = !(fullmatchDate part.name).isOk := by
  have unhindered : (args.prunePart storage part).stop = none := by
    simp only [PruneArgs.prunePart, low, Bool.false_eq_true, if_false]
    split_ifs <;> rfl
  unfold PruneArgs.visit
  rcases fullmatchDate part.name with err | _ | day
  · rfl
  · rfl
  · simp only [unhindered]
    split_ifs <;> rfl

theorem low_disk_reached : args.reached storage = datedParts storage :=
  reach_congr fun part _ => low_disk_stop low storage part

theorem low_disk_completes : (pruneOldJournals args storage).stop = none ↔
    ∀ part ∈ storage.journal.keys, (fullmatchDate part.name).isOk := by
  rw [pruneOldJournals, (separate_prune args).stop_none_iff storage.journal.keys_nodup]
  apply forall₂_congr
  intro part _
  rw [← Option.not_isSome_iff_eq_none, low_disk_stop low]
  simp

/-- On a low disk the partitions that go are those with a verified archive file. -/
theorem low_disk_part :
    args.prunePart storage part =
      if (storage.l1Of part).isSome ∧ args.verified part then
        removePart storage part (args.consult part).2
      else { storage } := by
  simp [PruneArgs.prunePart, low]

theorem low_disk_quarantine (part : RelPath) :
    (pruneOldJournals args storage).state.quarantine.get? part = storage.quarantine.get? part := by
  have kept : ∀ storage part, (args.visit storage part).state.quarantine = storage.quarantine := by
    intro storage part
    rcases visit_cases args part with ⟨_, worked⟩ | ⟨_, _, idle⟩
    · rw [worked, low_disk_part low]
      dsimp only
      split_ifs <;> rfl
    · rw [idle]
  have whole : (pruneOldJournals args storage).state.quarantine = storage.quarantine :=
    sweep_invariant (fun now _ _ => now.quarantine = storage.quarantine)
      (fun now _ part _ _ same => (kept now part).trans same) [] storage.journal.keys [] rfl
  rw [whole]

end LowDisk

end KrxAlpha
