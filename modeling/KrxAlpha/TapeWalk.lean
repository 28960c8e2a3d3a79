import KrxAlpha.Dict
import KrxAlpha.Runs
import Mathlib.Data.List.Infix
import Mathlib.Data.List.Sort

/-! The walk over one symbol's tape at the vendor. Pages come newest trade first; a day is
handed on as soon as an older trade shows that all of it has been read. As the tape is in
order, what is handed on is the whole day. Dates are ordinals. -/
namespace KrxAlpha
open List hiding filter_eq

structure TapeTick where
  day : Int
  tsHms : Int
  price : Int
  volume : Int
  deriving DecidableEq

structure TickPage where
  ticks : List TapeTick
  nextKey : Option String := none

/-- The exceptions a walk may end with; `other` is one that only its type tells apart. -/
inductive TapeFailure where
  | deadline | auth | persistence | transient | throttled | tape
  | other (name : String)
  deriving DecidableEq

/-- What a request for the next page comes to. A boundary is the deadline, the page budget
or a stop. -/
inductive Fetch where
  | page (page : TickPage)
  | boundary
  | failed (failure : TapeFailure)

inductive Termination where
  | crossed | tapeEnd | pageBudget
  | oversize (day : Int)
  deriving DecidableEq

structure WalkState where
  perDay : Dict Int (List TapeTick)
  newest : Option Int := none
  oldest : Option Int := none
  previous : Option (Int × Int) := none
  cursors : List String := []
  emitted : List (Int × List TapeTick) := []

structure TapeWalk where
  complete : List (Int × List TapeTick) := []
  vendorEmpty : List Int := []
  edgePartial : List Int := []
  termination : Termination := .crossed
  emitted : List (Int × List TapeTick) := []

/-! ### The walk -/

namespace WalkState

def rows (walk : WalkState) (day : Int) : List TapeTick := (walk.perDay.get? day).getD []

def takeTick (walk : WalkState) (tick : TapeTick) : Except TapeFailure WalkState :=
  if walk.previous.any fun last =>
      last.1 < tick.day ∨ last.1 = tick.day ∧ last.2 < tick.tsHms then
    .error .tape
  else
    .ok { walk with
      previous := some (tick.day, tick.tsHms)
      newest := some (walk.newest.elim tick.day (max · tick.day))
      oldest := some (walk.oldest.elim tick.day (min · tick.day))
      perDay := match walk.perDay.get? tick.day with
        | some ticks => walk.perDay.set tick.day (ticks ++ [tick])
        | none => walk.perDay }

/-- The days an older trade has shown to be whole, in order. -/
def certified (walk : WalkState) : List Int :=
  ((walk.perDay.entries.filter fun entry =>
    !entry.2.isEmpty && walk.oldest.any (· < entry.1)).map Prod.fst).insertionSort (· ≤ ·)

/-- Hand a day on, oldest trade first; staging fails once `stageable` days are staged. -/
def emitDay (stageable : Option Nat) (walk : WalkState) (day : Int) :
    Except TapeFailure WalkState :=
  if stageable.any (· ≤ walk.emitted.length) then .error .persistence
  else .ok { walk with
    perDay := walk.perDay.set day []
    emitted := walk.emitted ++ [(day, (walk.rows day).reverse)] }

def emitDays (stageable : Option Nat) (walk : WalkState) : Except TapeFailure WalkState :=
  walk.certified.foldlM (emitDay stageable) walk

/-- With a callback the days that are whole are handed on after each page. The callback fails once
it was given as many days as it can stage; without one the days stay. -/
def deliver (callback : Option (Option Nat)) (walk : WalkState) : Except TapeFailure WalkState :=
  match callback with
  | some stageable => walk.emitDays stageable
  | none => .ok walk

def readPage (callback : Option (Option Nat)) (walk : WalkState) (page : TickPage) :
    Except TapeFailure WalkState :=
  page.ticks.foldlM takeTick walk >>= deliver callback

/-- The newest wanted day with more trades than allowed. -/
def oversizeDay (walk : WalkState) (wanted : List Int) (maxTicks : Option Nat) : Option Int :=
  (wanted.filter fun day => maxTicks.any (· < (walk.rows day).length)).max?

/-- How the walk ends after a page, if it does. -/
def endsAfter (walk : WalkState) (wanted : List Int) (maxTicks : Option Nat) (page : TickPage) :
    Option (Except TapeFailure Termination) :=
  match walk.oversizeDay wanted maxTicks with
  | some day => some (.ok (.oversize day))
  | none =>
    if walk.oldest.any fun oldest => wanted.all (oldest < ·) then some (.ok .crossed)
    else
      match page.nextKey with
      | none => some (.ok .tapeEnd)
      | some key => if page.ticks.isEmpty || key ∈ walk.cursors then some (.error .tape) else none

/-- What the pages read so far say of the wanted days that were not handed on. -/
def finish (walk : WalkState) (wanted : List Int) (termination : Termination) : TapeWalk :=
  let left := wanted.filter fun day => !(walk.emitted.map Prod.fst).contains day &&
    match termination with
    | .oversize largest => decide (largest < day)
    | _ => true
  let edge := if termination = .tapeEnd then walk.oldest else none
  let older (day : Int) : Bool := walk.oldest.any (· < day)
  let newer (day : Int) : Bool := walk.newest.any (day < ·)
  { complete := (left.filter fun day => !(walk.rows day).isEmpty && older day && edge != some day).map
      fun day => (day, (walk.rows day).reverse)
    vendorEmpty := (left.filter fun day => (walk.rows day).isEmpty &&
      (newer day && older day && edge != some day || edge.any (day < ·))).insertionSort (· ≤ ·)
    edgePartial := edge.toList
    termination
    emitted := walk.emitted }

end WalkState

/-- The loop over at most `budget` pages; the answers running out is a boundary too. -/
def walkPages (wanted : List Int) (maxTicks : Option Nat) (callback : Option (Option Nat)) :
    Nat → WalkState → List Fetch → Except TapeFailure (WalkState × Termination)
  | 0, walk, _ => .ok (walk, .pageBudget)
  | _ + 1, walk, [] => .ok (walk, .pageBudget)
  | _ + 1, walk, .boundary :: _ => .ok (walk, .pageBudget)
  | _ + 1, _, .failed failure :: _ => .error failure
  | budget + 1, walk, .page page :: rest =>
    match walk.readPage callback page with
    | .error failure => .error failure
    | .ok read =>
      match read.endsAfter wanted maxTicks page with
      | some ended => ended.map (read, ·)
      | none => walkPages wanted maxTicks callback budget
          { read with cursors := page.nextKey.toList ++ read.cursors } rest

def walkSymbolTapeWith (wanted : List Int) (maxPages : Nat) (maxTicks : Option Nat)
    (callback : Option (Option Nat)) (fetches : List Fetch) : Except TapeFailure TapeWalk :=
  if maxPages < 1 then .error (.other "ValueError")
  else if wanted = [] then .ok {}
  else
    (walkPages wanted maxTicks callback maxPages
      { perDay := Dict.ofList (wanted.map fun day => (day, [])) } fetches).map
      fun ended => ended.1.finish wanted ended.2

/-- With a callback, and with answers that end before the budget does. -/
def walkSymbolTape (wanted : List Int) (maxTicks stageable : Option Nat) (fetches : List Fetch) :
    Except TapeFailure TapeWalk :=
  walkSymbolTapeWith wanted (fetches.length + 1) maxTicks (some stageable) fetches

/-- The trades read until a request brings no page. -/
def fetchedTicks : List Fetch → List TapeTick
  | .page page :: rest => page.ticks ++ fetchedTicks rest
  | _ => []

/-- The vendor's answers are cut from the tape: each page is the next part of it, and a page without
a key for the next one is the last. -/
def CutFrom : List TapeTick → List Fetch → Prop
  | tape, .page page :: rest =>
    ∃ remaining, tape = page.ticks ++ remaining ∧ (page.nextKey = none ↔ remaining = []) ∧
      CutFrom remaining rest
  | _, _ => True

/-- The order the vendor keeps: no trade is of a later day than one before it. -/
def NewestFirst (tape : List TapeTick) : Prop := tape.Pairwise fun earlier later => later.day ≤ earlier.day

theorem WalkState.take_tick_ok {walk next : WalkState} (taken : walk.takeTick tick = .ok next) :
    next.emitted = walk.emitted ∧
      next.oldest = some (walk.oldest.elim tick.day (min · tick.day)) ∧
      (∀ day ≠ tick.day, next.perDay.get? day = walk.perDay.get? day) ∧
      next.perDay.get? tick.day = (walk.perDay.get? tick.day).map (· ++ [tick]) := by
  unfold WalkState.takeTick at taken
  split at taken
  · cases taken
  · cases taken
    cases held : walk.perDay.get? tick.day with
    | none => simp [held]
    | some ticks => exact ⟨rfl, rfl, fun day other => Dict.get?_set_of_ne other, by simp⟩

theorem ends_after_tape_end {walk : WalkState}
    (ends : walk.endsAfter wanted maxTicks page = some (.ok .tapeEnd)) : page.nextKey = none := by
  unfold WalkState.endsAfter at ends
  split at ends
  · cases ends
  split at ends
  · cases ends
  split at ends
  · assumption
  · split at ends <;> cases ends

/-- What every page keeps of the trades read and the state holds when the walk ends. It ends with a
first part of the tape read, and with all of it at the end of the tape. -/
theorem walk_pages_keeps {tape read : List TapeTick} {walk next : WalkState} {Holds : List TapeTick → WalkState → Prop}
    (kept : ∀ {read walk page next}, Holds read walk → read ++ page.ticks <+: tape →
      walk.readPage callback page = .ok next → ∀ cursors, Holds (read ++ page.ticks) { next with cursors })
    (holds : Holds read walk) (start : read ++ fetchedTicks fetches <+: tape)
    (walked : walkPages wanted maxTicks callback budget walk fetches = .ok (next, termination)) :
    ∃ all, Holds all next ∧
      (termination = .tapeEnd → ∀ remaining, tape = read ++ remaining → CutFrom remaining fetches → all = tape) := by
  induction budget generalizing read walk fetches with
  | zero =>
    cases walked
    exact ⟨read, holds, by simp⟩
  | succ budget ih =>
    match fetches with
    | [] | .boundary :: _ =>
      cases walked
      exact ⟨read, holds, by simp⟩
    | .failed failure :: _ => cases walked
    | .page page :: rest =>
      rw [fetchedTicks, ← append_assoc] at start
      rw [walkPages] at walked
      cases paged : walk.readPage callback page with
      | error failure =>
        rw [paged] at walked
        cases walked
      | ok middle =>
        have now := kept holds ((prefix_append _ _).trans start) paged
        simp only [paged] at walked
        cases ends : middle.endsAfter wanted maxTicks page with
        | some ended =>
          simp only [ends] at walked
          cases ended with
          | error failure => cases walked
          | ok how =>
            cases walked
            refine ⟨_, now next.cursors, ?_⟩
            rintro rfl remaining left ⟨further, shape, last, -⟩
            rw [left, shape, last.mp (ends_after_tape_end ends), append_nil]
        | none =>
          simp only [ends] at walked
          obtain ⟨all, done, whole⟩ := ih (now _) start walked
          refine ⟨all, done, fun ended remaining left cut => ?_⟩
          obtain ⟨further, shape, -, cut⟩ := cut
          exact whole ended further (by rw [left, shape, append_assoc]) cut

/-! ### What is handed on -/

/-- The state of a walk that has read a part of the tape: a wanted day has all its trades of
that part, or was handed on whole with an older trade already read. -/
structure Reads (tape : List TapeTick) (wanted : List Int) (read : List TapeTick)
    (walk : WalkState) : Prop where
  start : read <+: tape
  oldest : ∀ day ∈ walk.oldest, ∃ tick ∈ read, tick.day = day
  held : ∀ day ∈ wanted, day ∉ walk.emitted.map Prod.fst →
    walk.perDay.get? day = some (read.filter (·.day = day))
  passed : ∀ day ∈ walk.emitted.map Prod.fst,
    walk.perDay.get? day = some [] ∧ ∃ tick ∈ read, tick.day < day
  others : ∀ day ∉ wanted, walk.perDay.get? day = none
  distinct : (walk.emitted.map Prod.fst).Nodup
  whole : ∀ entry ∈ walk.emitted, entry.1 ∈ wanted ∧ entry.2 ≠ [] ∧
    entry.2 = (tape.filter (·.day = entry.1)).reverse

namespace Reads

variable {tape read : List TapeTick} {wanted : List Int} {walk next : WalkState}

/-- Past an older trade there is no trade of a day. -/
theorem no_later (ordered : NewestFirst (read ++ rest))
    (passed : ∃ tick ∈ read, tick.day < day) : ∀ tick ∈ rest, tick.day ≠ day := by
  obtain ⟨older, within, before⟩ := passed
  intro tick later same
  have := (pairwise_append.mp ordered).2.2 older within tick later
  omega

section

variable (ordered : NewestFirst tape)
include ordered

theorem filter_eq (start : read <+: tape) (passed : ∃ tick ∈ read, tick.day < day) :
    tape.filter (·.day = day) = read.filter (·.day = day) := by
  obtain ⟨rest, rfl⟩ := start
  have none : rest.filter (·.day = day) = [] := by
    simpa [filter_eq_nil_iff] using no_later ordered passed
  rw [filter_append, none, append_nil]

section

variable (reads : Reads tape wanted read walk)
include reads

theorem take_tick (start : read ++ [tick] <+: tape) (taken : walk.takeTick tick = .ok next) :
    Reads tape wanted (read ++ [tick]) next := by
  obtain ⟨emitted, oldest, others, own⟩ := WalkState.take_tick_ok taken
  have unemitted : tick.day ∉ walk.emitted.map Prod.fst := by
    intro emitted
    obtain ⟨rest, rfl⟩ := start
    rw [append_assoc] at ordered
    exact no_later ordered (reads.passed _ emitted).2 tick (by simp) rfl
  refine ⟨start, ?_, ?_, ?_, ?_, emitted ▸ reads.distinct, emitted ▸ reads.whole⟩
  · rw [oldest]
    rintro day ⟨⟩
    cases earlier : walk.oldest with
    | none => exact ⟨tick, by simp, rfl⟩
    | some before =>
      obtain ⟨older, within, at_⟩ := reads.oldest before earlier
      rcases min_choice before tick.day with stays | moves
      · exact ⟨older, mem_append_left _ within, at_.trans stays.symm⟩
      · exact ⟨tick, by simp, moves.symm⟩
  · intro day asked later
    rw [emitted] at later
    by_cases same : day = tick.day
    · subst same
      simp [own, reads.held tick.day asked later]
    · rw [others day same, reads.held day asked later]
      simp [Ne.symm same]
  · intro day gone
    rw [emitted] at gone
    obtain ⟨empty, older, within, before⟩ := reads.passed day gone
    have different : day ≠ tick.day := fun same => unemitted (same ▸ gone)
    exact ⟨(others day different).trans empty, older, mem_append_left _ within, before⟩
  · intro day unasked
    by_cases same : day = tick.day
    · subst same
      rw [own, reads.others _ unasked]
      rfl
    · exact (others day same).trans (reads.others day unasked)

theorem take_ticks
    (start : read ++ ticks <+: tape) (taken : ticks.foldlM WalkState.takeTick walk = .ok next) :
    Reads tape wanted (read ++ ticks) next := by
  induction ticks generalizing read walk with
  | nil =>
    cases taken
    simpa using reads
  | cons tick rest step =>
    rw [foldlM_cons] at taken
    obtain ⟨middle, first, later⟩ := bind_ok taken
    rw [← singleton_append, ← append_assoc] at start ⊢
    exact step (reads.take_tick ordered ((prefix_append _ _).trans start) first) start later

theorem emit_day (asked : day ∈ wanted) (unemitted : day ∉ walk.emitted.map Prod.fst)
    (some_ : walk.rows day ≠ []) (older : ∃ tick ∈ read, tick.day < day)
    (handed : walk.emitDay stageable day = .ok next) :
    Reads tape wanted read next ∧ next.oldest = walk.oldest ∧
      next.emitted.map Prod.fst = walk.emitted.map Prod.fst ++ [day] := by
  unfold WalkState.emitDay at handed
  split at handed
  · cases handed
  · cases handed
    have rows : walk.rows day = tape.filter (·.day = day) := by
      rw [filter_eq ordered reads.start older]
      simp [WalkState.rows, reads.held day asked unemitted]
    refine ⟨⟨reads.start, reads.oldest, ?_, ?_, ?_, ?_, ?_⟩, rfl, by simp⟩
    · intro other wanted_ later
      simp only [map_append, map_cons, map_nil, mem_append, mem_singleton,
        not_or] at later
      rw [Dict.get?_set_of_ne later.2]
      exact reads.held other wanted_ later.1
    · intro other emitted
      simp only [map_append, map_cons, map_nil, mem_append,
        mem_singleton] at emitted
      by_cases same : other = day
      · subst same
        exact ⟨Dict.get?_set_self _ _ _, older⟩
      · rw [Dict.get?_set_of_ne same]
        exact reads.passed other (emitted.resolve_right same)
    · intro other unasked
      have different : other ≠ day := fun same => unasked (same ▸ asked)
      rw [Dict.get?_set_of_ne different]
      exact reads.others other unasked
    · rw [map_append]
      exact reads.distinct.append (nodup_singleton _) (by simpa using unemitted)
    · refine forall_mem_append.mpr ⟨reads.whole, forall_mem_singleton.mpr ?_⟩
      exact ⟨asked, by simpa using some_, by rw [rows]⟩

private theorem emit_all {days : List Int} (distinct : days.Nodup)
    (due : ∀ day ∈ days, day ∈ wanted ∧ day ∉ walk.emitted.map Prod.fst ∧ walk.rows day ≠ [] ∧
      ∃ tick ∈ read, tick.day < day)
    (handed : days.foldlM (WalkState.emitDay stageable) walk = .ok next) :
    Reads tape wanted read next := by
  induction days generalizing walk with
  | nil =>
    cases handed
    exact reads
  | cons day rest step =>
    rw [foldlM_cons] at handed
    obtain ⟨middle, first, later⟩ := bind_ok handed
    obtain ⟨fresh, distinct⟩ := nodup_cons.mp distinct
    obtain ⟨asked, unemitted, some_, older⟩ := due day mem_cons_self
    obtain ⟨readsMiddle, -, emitted⟩ := reads.emit_day ordered asked unemitted some_ older first
    refine step readsMiddle distinct (fun other member => ?_) later
    obtain ⟨otherAsked, otherUnemitted, otherSome, otherOlder⟩ :=
      due other (mem_cons_of_mem _ member)
    have different : other ≠ day := fun same => fresh (same ▸ member)
    have stillUnemitted : other ∉ middle.emitted.map Prod.fst := by
      rw [emitted]
      simp [otherUnemitted, different]
    refine ⟨otherAsked, stillUnemitted, ?_, otherOlder⟩
    -- the day's trades are those read, before and after the other day is handed on
    rw [WalkState.rows, reads.held other otherAsked otherUnemitted] at otherSome
    rwa [WalkState.rows, readsMiddle.held other otherAsked stillUnemitted]

theorem emit_days (handed : walk.emitDays stageable = .ok next) : Reads tape wanted read next := by
  refine emit_all ordered reads ?_ (fun day member => ?_) handed
  · refine (perm_insertionSort _ _).nodup_iff.mpr ?_
    exact walk.perDay.distinct.sublist (filter_sublist.map _)
  · obtain ⟨⟨same, ticks⟩, entry, rfl⟩ :=
      mem_map.mp ((perm_insertionSort _ _).mem_iff.mp member)
    simp only [mem_filter, Bool.and_eq_true, Bool.not_eq_true', isEmpty_eq_false_iff] at entry
    obtain ⟨listed, nonempty, older⟩ := entry
    have found := Dict.mem_entries_iff.mp listed
    have asked : same ∈ wanted := by
      by_contra unasked
      rw [reads.others same unasked] at found
      cases found
    refine ⟨asked, fun emitted => ?_, by simpa [WalkState.rows, found] using nonempty, ?_⟩
    · rw [(reads.passed same emitted).1] at found
      cases found
      exact nonempty rfl
    · cases known : walk.oldest with
      | none => simp [known] at older
      | some oldest =>
        obtain ⟨tick, within, at_⟩ := reads.oldest oldest known
        exact ⟨tick, within, at_ ▸ by simpa [known] using older⟩

theorem read_page (start : read ++ page.ticks <+: tape)
    (paged : walk.readPage callback page = .ok next) (cursors : List String) :
    Reads tape wanted (read ++ page.ticks) { next with cursors } := by
  obtain ⟨taken, ticks, handed⟩ := bind_ok paged
  have taking := reads.take_ticks ordered start ticks
  cases callback with
  | none =>
    cases handed
    exact { taking with }
  | some stageable => exact { taking.emit_days ordered handed with }

end

end

theorem initial (tape : List TapeTick) (distinct : wanted.Nodup) :
    Reads tape wanted [] { perDay := Dict.ofList (wanted.map fun day => (day, [])) } := by
  have entries : (Dict.ofList (wanted.map fun day => (day, ([] : List TapeTick)))).entries =
      wanted.map fun day => (day, []) :=
    Dict.entries_ofList (by simpa [Function.comp_def] using distinct)
  refine ⟨ nil_prefix, by simp, fun day asked _ => ?_, by simp, fun day unasked => ?_, by simp,
    by simp⟩
  · refine Dict.mem_entries_iff.mp ?_
    change (day, []) ∈ (Dict.ofList _).entries
    rw [entries]
    exact mem_map_of_mem asked
  · rw [Dict.get?_eq_none, Dict.keys, entries]
    simpa using unasked

end Reads

/-- Each day a walk hands on is a wanted one, handed on once and with all its trades. -/
theorem walk_emits_whole_days (ordered : NewestFirst tape) (distinct : wanted.Nodup)
    (start : fetchedTicks fetches <+: tape)
    (walked : walkSymbolTape wanted maxTicks stageable fetches = .ok walk) :
    (walk.emitted.map Prod.fst).Nodup ∧ ∀ entry ∈ walk.emitted, entry.1 ∈ wanted ∧
      entry.2 ≠ [] ∧ entry.2 = (tape.filter (·.day = entry.1)).reverse := by
  rw [walkSymbolTape, walkSymbolTapeWith, if_neg (by omega)] at walked
  split at walked
  · cases walked
    simp
  obtain ⟨ended, pages, rfl⟩ := map_ok walked
  obtain ⟨_, reads, -⟩ := walk_pages_keeps (fun held => held.read_page ordered)
    (Reads.initial tape distinct) (by simpa using start) pages
  exact ⟨reads.distinct, reads.whole⟩

end KrxAlpha
