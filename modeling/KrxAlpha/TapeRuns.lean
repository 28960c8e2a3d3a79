import KrxAlpha.TapeBackfill
import Mathlib.Data.List.Perm.Basic

/-! One run of the tape backfill, cut off or not, as the list of its durable effects. A run publishes a
symbol's day at most once, whole, and before it records it. -/
namespace KrxAlpha
open List

/-! ### The effects of one run -/

def DayChunk.pair (chunk : DayChunk) : String × Int := (chunk.symbol, chunk.day)

namespace TapeEffect

def chunks : TapeEffect → List DayChunk
  | .publish _ _ chunks => chunks
  | _ => []

/-- The line settles the pair as complete. -/
def Completes (pair : String × Int) : TapeEffect → Prop
  | .record line => line.status = .complete ∧ (line.symbol, line.date) = pair
  | _ => False

/-- A published file has only chunks of its day and label. -/
def Uniform : TapeEffect → Prop
  | .publish day label chunks => ∀ chunk ∈ chunks, chunk.day = day ∧ chunk.label = label
  | _ => True

end TapeEffect

def chunksOf (effects : List TapeEffect) : List DayChunk := effects.flatMap TapeEffect.chunks

theorem chunks_of_append (effects more : List TapeEffect) :
    chunksOf (effects ++ more) = chunksOf effects ++ chunksOf more := flatMap_append

theorem mem_chunks_flatten {histories : List (List TapeEffect)} :
    chunk ∈ chunksOf histories.flatten ↔ ∃ history ∈ histories, chunk ∈ chunksOf history := by
  simp only [chunksOf, mem_flatMap, mem_flatten]
  grind

/-- Every pair completed is known by then or published before. -/
def Backed : List (String × Int) → List TapeEffect → Prop
  | _, [] => True
  | known, effect :: rest => (∀ pair, effect.Completes pair → pair ∈ known) ∧
    Backed (known ++ effect.chunks.map DayChunk.pair) rest

theorem backed_append :
    Backed known (effects ++ more) ↔
      Backed known effects ∧ Backed (known ++ (chunksOf effects).map DayChunk.pair) more := by
  induction effects generalizing known with
  | nil => simp [Backed, chunksOf]
  | cons effect rest step => simp [Backed, step, chunksOf, and_assoc]

theorem Backed.mem (backed : Backed known effects) (listed : effect ∈ effects)
    (completes : effect.Completes pair) : pair ∈ known ++ (chunksOf effects).map DayChunk.pair := by
  obtain ⟨earlier, later, rfl⟩ := append_of_mem listed
  have before := (backed_append.mp backed).2.1 pair completes
  rw [chunks_of_append, map_append, ← append_assoc]
  exact mem_append_left _ before

/-- What the vendor has of a pair some target asks for. -/
structure DayChunk.Good (vendor : String → Int → List TapeTick) (targets : List TickTapeTarget)
    (chunk : DayChunk) : Prop where
  asked : ∃ target ∈ targets, target.symbol = chunk.symbol ∧ chunk.day ∈ target.days
  whole : chunk.ticks = vendor chunk.symbol chunk.day
  nonempty : chunk.ticks ≠ []

/-- The effects of a run, whole or cut off: a pair is published once at most, with all the
vendor has of it, and before it is completed. -/
structure Orderly (vendor : String → Int → List TapeTick) (targets : List TickTapeTarget)
    (effects : List TapeEffect) : Prop where
  good : ∀ chunk ∈ chunksOf effects, chunk.Good vendor targets
  distinct : ((chunksOf effects).map DayChunk.pair).Nodup
  uniform : ∀ effect ∈ effects, effect.Uniform
  backed : Backed [] effects

theorem Orderly.of_prefix {vendor : String → Int → List TapeTick}
    (orderly : Orderly vendor targets effects)
    (start : early <+: effects) : Orderly vendor targets early := by
  obtain ⟨rest, rfl⟩ := start
  have part : (chunksOf early).Sublist (chunksOf (early ++ rest)) := by
    rw [chunks_of_append]
    exact sublist_append_left _ _
  exact ⟨fun chunk listed => orderly.good chunk (part.subset listed),
    orderly.distinct.sublist (part.map _),
    fun effect listed => orderly.uniform effect (mem_append_left _ listed),
    (backed_append.mp orderly.backed).1⟩

namespace BackfillState

def stagedChunks (state : BackfillState) : List DayChunk := state.staged.entries.flatMap Prod.snd

/-- Every chunk a run has published or staged. -/
def allChunks (state : BackfillState) : List DayChunk := chunksOf state.effects ++ state.stagedChunks

/-- The state of a run between two visits. -/
structure Sound (vendor : String → Int → List TapeTick) (targets : List TickTapeTarget)
    (runId : String) (state : BackfillState) : Prop where
  good : ∀ chunk ∈ state.allChunks, chunk.Good vendor targets
  distinct : (state.allChunks.map DayChunk.pair).Nodup
  uniform : ∀ effect ∈ state.effects, effect.Uniform
  keyed : ∀ day chunks, state.staged.get? day = some chunks → ∀ chunk ∈ chunks,
    chunk.day = day ∧ chunk.label = state.label runId
  backed : Backed [] state.effects
  queued : ∀ record ∈ state.queue, record.status = .complete →
    (record.symbol, record.date) ∈ state.stagedChunks.map DayChunk.pair
  pendingDistinct : state.pendingRetry.Nodup
  pendingFresh : ∀ chunk ∈ state.allChunks, chunk.symbol ∉ state.pendingRetry

/-! ### Staging -/

theorem stage_chunk_perm (staged : Dict Int (List DayChunk)) (chunk : DayChunk) :
    ((stageChunk staged chunk).entries.flatMap Prod.snd).Perm
      (chunk :: staged.entries.flatMap Prod.snd) := by
  unfold stageChunk
  cases found : staged.get? chunk.day with
  | none => simp [Dict.entries_set_new found]
  | some chunks =>
    obtain ⟨front, back, shape⟩ := Dict.split_of_get? found
    rw [Dict.entries_set_at shape, shape]
    have moved : (front.flatMap Prod.snd ++ chunks ++ chunk :: back.flatMap Prod.snd).Perm
        (chunk :: (front.flatMap Prod.snd ++ chunks ++ back.flatMap Prod.snd)) :=
      perm_middle
    simpa using moved

theorem stage_chunks_perm (chunks : List DayChunk) (staged : Dict Int (List DayChunk)) :
    ((chunks.foldl stageChunk staged).entries.flatMap Prod.snd).Perm
      (chunks ++ staged.entries.flatMap Prod.snd) := by
  induction chunks generalizing staged with
  | nil => exact .refl _
  | cons chunk rest step =>
    refine (step _).trans ?_
    exact ((stage_chunk_perm staged chunk).append_left rest).trans perm_middle

theorem stage_chunks_keyed {label : String} (chunks : List DayChunk)
    {staged : Dict Int (List DayChunk)} (labelled : ∀ chunk ∈ chunks, chunk.label = label)
    (keyed : ∀ day held, staged.get? day = some held → ∀ chunk ∈ held,
      chunk.day = day ∧ chunk.label = label) :
    ∀ day held, (chunks.foldl stageChunk staged).get? day = some held → ∀ chunk ∈ held,
      chunk.day = day ∧ chunk.label = label := by
  induction chunks generalizing staged with
  | nil => exact keyed
  | cons chunk rest step =>
    obtain ⟨here, later⟩ := forall_mem_cons.mp labelled
    refine step later (Dict.forall_set ?_ keyed)
    intro other member
    rcases mem_append.mp member with before | now
    · cases found : staged.get? chunk.day with
      | none => simp [found] at before
      | some held => exact keyed chunk.day held found other (by simpa [found] using before)
    · obtain rfl := mem_singleton.mp now
      exact ⟨rfl, here⟩

variable {vendor : String → Int → List TapeTick} {targets : List TickTapeTarget} {runId : String}
  {state : BackfillState}

/-! ### The parts of a visit -/

section

variable (sound : state.Sound vendor targets runId)
include sound

theorem Sound.settle_failure (symbol : String) :
    (state.settleFailure symbol).Sound vendor targets runId :=
  { sound with
    pendingDistinct := sound.pendingDistinct.erase symbol
    pendingFresh := fun chunk listed pending =>
      sound.pendingFresh chunk listed (mem_of_mem_erase pending) }

/-- Lines that settle no pair as complete may be queued at any time. -/
theorem Sound.enqueue (incomplete : ∀ record ∈ records, record.status ≠ .complete) :
    Sound vendor targets runId { state with queue := state.queue ++ records } :=
  { sound with
    queued := forall_mem_append.mpr
      ⟨sound.queued, fun record now complete => absurd complete (incomplete record now)⟩ }

theorem Sound.abandon (target : TickTapeTarget)
    (name reason : String) : (state.abandonTierC name target reason).Sound vendor targets runId := by
  refine sound.enqueue fun record now complete => ?_
  obtain ⟨day, -, rfl⟩ := mem_map.mp now
  cases complete

theorem Sound.note_failure
    (fresh : ∀ chunk ∈ state.allChunks, chunk.symbol ≠ symbol) (failure : TapeFailure) :
    (state.noteFailure symbol failure).Sound vendor targets runId := by
  have distinct := sound.pendingDistinct
  refine { sound with pendingDistinct := ?_, pendingFresh := fun chunk listed => ?_ }
  · simp only [noteFailure]
    split
    · split
      · exact distinct
      · rename_i absent
        exact distinct.append (nodup_singleton _) (by simpa using absent)
    · exact distinct.erase symbol
  · have before := sound.pendingFresh chunk listed
    have other := fresh chunk listed
    simp only [noteFailure]
    split
    · split
      · exact before
      · simp [before, other]
    · exact fun pending => before (mem_of_mem_erase pending)

end

/-- The chunks a walk adds to the staged ones. -/
def walkChunks (runId : String) (state : BackfillState) (target : TickTapeTarget)
    (walk : TapeWalk) : List DayChunk :=
  walk.emitted.map fun entry => ⟨target.symbol, entry.1, entry.2, state.label runId⟩

theorem stage_staged_chunks (runId : String) (state : BackfillState) (target : TickTapeTarget)
    (walk : TapeWalk) : (state.stage runId target walk).stagedChunks.Perm
      (state.walkChunks runId target walk ++ state.stagedChunks) :=
  stage_chunks_perm _ state.staged

/-- What a walk stages comes on top of all there was. -/
theorem stage_all_chunks (runId : String) (state : BackfillState) (target : TickTapeTarget)
    (walk : TapeWalk) : (state.stage runId target walk).allChunks.Perm
      (state.walkChunks runId target walk ++ state.allChunks) := by
  refine ((stage_staged_chunks runId state target walk).append_left _).trans ?_
  rw [allChunks, ← append_assoc, ← append_assoc]
  exact perm_append_comm.append_right _

theorem mem_stage_all_chunks :
    chunk ∈ (state.stage runId target walk).allChunks ↔
      chunk ∈ state.walkChunks runId target walk ∨ chunk ∈ state.allChunks :=
  (stage_all_chunks runId state target walk).mem_iff.trans mem_append

/-- The facts about a walk's days that staging relies on. -/
structure Whole (vendor : String → Int → List TapeTick) (target : TickTapeTarget)
    (walk : TapeWalk) : Prop where
  distinct : (walk.emitted.map Prod.fst).Nodup
  days : ∀ entry ∈ walk.emitted, entry.1 ∈ target.days ∧ entry.2 ≠ [] ∧
    entry.2 = vendor target.symbol entry.1

theorem Whole.good (whole : Whole vendor target walk) (listed : target ∈ targets) :
    ∀ chunk ∈ state.walkChunks runId target walk, chunk.Good vendor targets := by
  refine forall_mem_map.mpr fun entry emitted => ?_
  obtain ⟨day, nonempty, ticks⟩ := whole.days entry emitted
  exact ⟨⟨target, listed, rfl, day⟩, ticks, nonempty⟩

theorem walk_chunks_symbol
    (now : chunk ∈ state.walkChunks runId target walk) : chunk.symbol = target.symbol := by
  obtain ⟨entry, -, rfl⟩ := mem_map.mp now
  rfl

theorem Sound.stage_distinct (sound : state.Sound vendor targets runId)
    (whole : Whole vendor target walk)
    (fresh : ∀ chunk ∈ state.allChunks, chunk.symbol ≠ target.symbol) :
    ((state.stage runId target walk).allChunks.map DayChunk.pair).Nodup := by
  rw [((stage_all_chunks runId state target walk).map _).nodup_iff, map_append]
  refine List.Nodup.append ?_ sound.distinct fun pair now before => ?_
  · have pairs := whole.distinct.map (Prod.mk_right_injective target.symbol)
    rw [map_map] at pairs
    rwa [walkChunks, map_map]
  · obtain ⟨added, inside, rfl⟩ := mem_map.mp now
    obtain ⟨chunk, there, same⟩ := mem_map.mp before
    exact fresh chunk there ((congrArg Prod.fst same).trans (walk_chunks_symbol inside))

theorem Sound.stage (sound : state.Sound vendor targets runId)
    (listed : target ∈ targets) (whole : Whole vendor target walk)
    (fresh : ∀ chunk ∈ state.allChunks, chunk.symbol ≠ target.symbol)
    (settled : target.symbol ∉ state.pendingRetry) :
    (state.stage runId target walk).Sound vendor targets runId := by
  refine ⟨fun chunk member => ?_, sound.stage_distinct whole fresh, sound.uniform, ?_,
    sound.backed, ?_, sound.pendingDistinct, fun chunk member => ?_⟩
  · rcases mem_stage_all_chunks.mp member with now | before
    · exact whole.good listed chunk now
    · exact sound.good chunk before
  · refine stage_chunks_keyed _ (fun chunk member => ?_) sound.keyed
    obtain ⟨entry, -, rfl⟩ := mem_map.mp member
    rfl
  · intro record member complete
    refine ((stage_staged_chunks runId state target walk).map DayChunk.pair).mem_iff.mpr ?_
    rw [map_append, mem_append]
    simp only [BackfillState.stage, mem_append] at member
    rcases member with ((before | now) | empty) | edge
    · exact .inr (sound.queued record before complete)
    · obtain ⟨entry, emitted, rfl⟩ := mem_map.mp now
      exact .inl (mem_map_of_mem (mem_map_of_mem emitted))
    · obtain ⟨day, -, rfl⟩ := mem_map.mp empty
      cases complete
    · obtain ⟨day, -, rfl⟩ := mem_map.mp edge
      cases complete
  · rcases mem_stage_all_chunks.mp member with now | before
    · exact walk_chunks_symbol now ▸ settled
    · exact sound.pendingFresh chunk before

/-! ### The checkpoint -/

/-- The files a checkpoint publishes. -/
def files (runId : String) (state : BackfillState) : List TapeEffect :=
  (state.staged.entries.insertionSort (·.1 ≤ ·.1)).map
    fun entry => .publish entry.1 (state.label runId) entry.2

theorem files_chunks (runId : String) (state : BackfillState) :
    (chunksOf (state.files runId)).Perm state.stagedChunks := by
  rw [chunksOf, files, flatMap_map]
  exact (perm_insertionSort _ _).flatMap_right _

theorem chunks_of_records (queue : List TapeRecord) : chunksOf (queue.map .record) = [] := by
  simp [chunksOf, TapeEffect.chunks]

theorem backed_files (known : List (String × Int)) (runId : String) (state : BackfillState) :
    Backed known (state.files runId) := by
  rw [files]
  induction state.staged.entries.insertionSort (·.1 ≤ ·.1) generalizing known with
  | nil => trivial
  | cons entry rest step => exact ⟨fun pair completes => completes.elim, step _⟩

theorem backed_records {queue : List TapeRecord}
    (settled : ∀ record ∈ queue, record.status = .complete → (record.symbol, record.date) ∈ known) :
    Backed known (queue.map .record) := by
  induction queue with
  | nil => trivial
  | cons record rest step =>
    obtain ⟨here, later⟩ := forall_mem_cons.mp settled
    refine ⟨?_, by simpa [TapeEffect.chunks] using step later⟩
    rintro pair ⟨complete, rfl⟩
    exact here complete

section

variable (sound : state.Sound vendor targets runId)
include sound

theorem Sound.checkpoint_uniform :
    ∀ effect ∈ state.effects ++ state.files runId ++ state.queue.map .record, effect.Uniform := by
  refine forall_mem_append.mpr ⟨forall_mem_append.mpr ⟨sound.uniform, forall_mem_map.mpr ?_⟩,
    forall_mem_map.mpr fun _ _ => trivial⟩
  intro entry listed
  exact sound.keyed entry.1 entry.2
    (Dict.mem_entries_iff.mp ((perm_insertionSort _ _).mem_iff.mp listed))

/-- The lines of a checkpoint come behind the files of the pairs they complete. -/
theorem Sound.checkpoint_backed :
    Backed [] (state.effects ++ state.files runId ++ state.queue.map .record) := by
  refine backed_append.mpr ⟨backed_append.mpr ⟨sound.backed, backed_files _ _ _⟩,
    backed_records fun record listed complete => ?_⟩
  have staged := sound.queued record listed complete
  rw [chunks_of_append, map_append]
  exact mem_append_right _ (mem_append_right _
    (((files_chunks runId state).map _).mem_iff.mpr staged))

theorem Sound.checkpoint :
    (state.checkpoint runId).Sound vendor targets runId ∧
      (state.checkpoint runId).allChunks.Perm state.allChunks := by
  unfold BackfillState.checkpoint
  split
  · exact ⟨sound, .refl _⟩
  · generalize settled : BackfillState.mk [] ∅ 0 (state.checkpointNo + 1) state.failures
      state.pendingRetry (state.effects ++ state.files runId ++ state.queue.map .record) = next
    have all : next.allChunks.Perm state.allChunks := by
      have chunks := (files_chunks runId state).append_left (chunksOf state.effects)
      subst settled
      simpa [allChunks, stagedChunks, chunks_of_append, chunks_of_records] using chunks
    have sound : next.Sound vendor targets runId := by
      refine ⟨fun chunk member => sound.good chunk (all.mem_iff.mp member),
        (all.map _).nodup_iff.mpr sound.distinct, ?_, ?_, ?_, ?_, ?_, ?_⟩ <;> subst settled
      · exact sound.checkpoint_uniform
      · exact fun day held found => by cases found
      · exact sound.checkpoint_backed
      · exact fun record listed => absurd listed not_mem_nil
      · exact sound.pendingDistinct
      · exact fun chunk member => sound.pendingFresh chunk (all.mem_iff.mp member)
    subst settled
    exact ⟨sound, all⟩

end

end BackfillState

/-! ### The passes -/

/-- The pages of every visit are the beginning of a tape in order, with what the vendor has
of the days asked for. -/
def TapeRun.Serves (vendor : String → Int → List TapeTick) (run : TapeRun)
    (targets : List TickTapeTarget) : Prop :=
  ∀ target ∈ targets, ∀ pass, ∃ tape, NewestFirst tape ∧
    fetchedTicks (run.visit pass target.symbol).fetches <+: tape ∧
    ∀ day ∈ target.days, (tape.filter (·.day = day)).reverse = vendor target.symbol day

namespace BackfillState

variable {vendor : String → Int → List TapeTick} {targets : List TickTapeTarget} {run : TapeRun}
  {state : BackfillState}

section

variable (serves : run.Serves vendor targets) (days : ∀ target ∈ targets, target.days.Nodup)
include serves days

theorem walk_whole {target : TickTapeTarget}
    (listed : target ∈ targets) {pass : Nat} {walk : TapeWalk}
    (walked : walkSymbolTape target.days run.maxTicks (run.visit pass target.symbol).stageable
      (run.visit pass target.symbol).fetches = .ok walk) : Whole vendor target walk := by
  obtain ⟨tape, ordered, start, same⟩ := serves target listed pass
  obtain ⟨distinct, whole⟩ := walk_emits_whole_days ordered (days target listed) start walked
  refine ⟨distinct, fun entry emitted => ?_⟩
  obtain ⟨asked, nonempty, ticks⟩ := whole entry emitted
  exact ⟨asked, nonempty, ticks.trans (same entry.1 asked)⟩

/-- A visit keeps the run's state sound and adds chunks of its own symbol only. -/
theorem visit_sound (sound : state.Sound vendor targets run.runId) (listed : target ∈ targets)
    (fresh : ∀ chunk ∈ state.allChunks, chunk.symbol ≠ target.symbol) (pass : Nat) :
    (state.visitTarget run pass target).1.Sound vendor targets run.runId ∧
      ∀ chunk ∈ (state.visitTarget run pass target).1.allChunks,
        chunk ∈ state.allChunks ∨ chunk.symbol = target.symbol := by
  have settled := sound.settle_failure target.symbol
  have same (chunk : DayChunk) : chunk ∈ state.allChunks →
      chunk ∈ state.allChunks ∨ chunk.symbol = target.symbol := .inl
  unfold visitTarget
  dsimp only
  split
  · exact ⟨sound, same⟩
  split
  · exact ⟨settled.abandon target _ _, same⟩
  split
  · exact ⟨settled.abandon target _ _, same⟩
  · exact ⟨settled, same⟩
  · exact ⟨settled, same⟩
  · exact ⟨sound.note_failure fresh _, same⟩
  · rename_i walk walked
    have staged := settled.stage listed (walk_whole serves days listed walked) fresh
      sound.pendingDistinct.not_mem_erase
    have within (chunk : DayChunk) (member : chunk ∈
        ((state.settleFailure target.symbol).stage run.runId target walk).allChunks) :
        chunk ∈ state.allChunks ∨ chunk.symbol = target.symbol := by
      rcases mem_stage_all_chunks.mp member with now | before
      · exact .inr (walk_chunks_symbol now)
      · exact .inl before
    split
    · obtain ⟨flushed, chunks⟩ := staged.checkpoint
      exact ⟨flushed, fun chunk member => within chunk (chunks.mem_iff.mp member)⟩
    · exact ⟨staged, within⟩

theorem pass_sound (sound : state.Sound vendor targets run.runId)
    (turn : List TickTapeTarget) (listed : ∀ target ∈ turn, target ∈ targets)
    (distinct : (turn.map TickTapeTarget.symbol).Nodup)
    (fresh : ∀ chunk ∈ state.allChunks, chunk.symbol ∉ turn.map TickTapeTarget.symbol) (pass : Nat) :
    (state.runPass run pass turn).1.Sound vendor targets run.runId := by
  induction turn generalizing state with
  | nil => exact sound
  | cons target rest step =>
    obtain ⟨here, later⟩ := forall_mem_cons.mp listed
    obtain ⟨apart, distinct⟩ := nodup_cons.mp distinct
    have freshHere : ∀ chunk ∈ state.allChunks, chunk.symbol ≠ target.symbol :=
      fun chunk member same => fresh chunk member (same ▸ mem_cons_self)
    obtain ⟨next, within⟩ := visit_sound serves days sound here freshHere pass
    rw [runPass]
    revert next within
    rcases state.visitTarget run pass target with ⟨visited, _ | _ | _ | _⟩
    · intro next within
      refine step next later distinct fun chunk member => ?_
      rcases within chunk member with before | now
      · exact fun listed => fresh chunk before (mem_cons_of_mem _ listed)
      · exact now ▸ apart
    all_goals exact fun next _ => next

theorem retry_sound (distinct : (targets.map TickTapeTarget.symbol).Nodup)
    (sound : state.Sound vendor targets run.runId) (pass count : Nat) :
    (state.retry run targets pass count).1.Sound vendor targets run.runId := by
  induction count generalizing state pass with
  | zero => exact sound
  | succ count step =>
    rw [retry]
    split
    · exact sound
    split
    · exact sound
    · have next := pass_sound serves days sound
        (targets.filter fun target => target.symbol ∈ state.pendingRetry)
        (fun target member => mem_of_mem_filter member)
        (distinct.sublist (filter_sublist.map _)) (fun chunk member listed => by
          obtain ⟨target, inside, same⟩ := mem_map.mp listed
          have pending := (mem_filter.mp inside).2
          exact sound.pendingFresh chunk member (same ▸ by simpa using pending)) pass
      revert next
      rcases state.runPass run pass (targets.filter fun target => target.symbol ∈ state.pendingRetry)
        with ⟨visited, _ | _ | _ | _⟩
      · exact fun next => step next (pass + 1)
      all_goals exact id

end

theorem new_sound (vendor : String → Int → List TapeTick) (targets : List TickTapeTarget)
    (runId : String) : ({} : BackfillState).Sound vendor targets runId := by
  refine ⟨?_, ?_, ?_, ?_, trivial, ?_, nodup_nil, ?_⟩ <;> simp [allChunks, stagedChunks, chunksOf]

theorem passes_sound (serves : run.Serves vendor targets)
    (days : ∀ target ∈ targets, target.days.Nodup)
    (distinct : (targets.map TickTapeTarget.symbol).Nodup) :
    (passes run targets).1.Sound vendor targets run.runId := by
  have first := pass_sound serves days (new_sound vendor targets run.runId) targets
    (fun _ => id) distinct (by simp [allChunks, stagedChunks, chunksOf]) 0
  unfold passes
  revert first
  rcases runPass run 0 {} targets with ⟨visited, _ | _ | _ | _⟩
  · exact fun first => retry_sound serves days distinct first 1 _
  · exact fun first => retry_sound serves days distinct first 1 _
  · exact id
  · exact id

theorem queue_failures_sound (sound : state.Sound vendor targets run.runId)
    (failed : List TickTapeTarget) :
    (state.queueFailures run failed).Sound vendor targets run.runId := by
  unfold queueFailures
  induction failed generalizing state with
  | nil => exact sound
  | cons target rest step =>
    refine step ?_
    dsimp only
    split
    · exact sound
    · split
      · exact sound.abandon target _ _
      · refine sound.enqueue fun record now complete => ?_
        obtain ⟨day, -, rfl⟩ := mem_map.mp now
        cases complete

theorem Sound.orderly (sound : state.Sound vendor targets run.runId) :
    Orderly vendor targets (.marker run.runId :: state.effects) := by
  have part : (chunksOf state.effects).Sublist state.allChunks := sublist_append_left _ _
  refine ⟨fun chunk member => sound.good chunk (part.subset member),
    sound.distinct.sublist (part.map _), ?_, ⟨fun pair completes => completes.elim, ?_⟩⟩
  · exact forall_mem_cons.mpr ⟨trivial, sound.uniform⟩
  · simpa [TapeEffect.chunks] using sound.backed

end BackfillState

/-- Whatever it meets, a run's effects are orderly. -/
theorem run_effects_orderly {vendor : String → Int → List TapeTick}
    (serves : run.Serves vendor targets) (days : ∀ target ∈ targets, target.days.Nodup)
    (distinct : (targets.map TickTapeTarget.symbol).Nodup) :
    Orderly vendor targets (tapeRunEffects run targets) := by
  have sound := BackfillState.passes_sound serves days distinct
  unfold tapeRunEffects
  revert sound
  rcases BackfillState.passes run targets with ⟨state, _ | _ | _ | _⟩
  · exact fun sound => (BackfillState.queue_failures_sound sound targets).checkpoint.1.orderly
  · exact fun sound => (BackfillState.queue_failures_sound sound targets).checkpoint.1.orderly
  · exact fun sound => sound.checkpoint.1.orderly
  · exact fun sound => sound.orderly

end KrxAlpha
