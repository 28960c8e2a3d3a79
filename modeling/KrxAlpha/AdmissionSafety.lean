import KrxAlpha.AdmissionSteps

/-! Intraday admission neither over-fills a feed nor takes a symbol in twice, whatever is ranked,
refused, lost or started again during the day. -/
namespace KrxAlpha
open List

/-! ### What the rows of a step add -/

/-- The symbols of the dynamic rows. -/
def dynamicSymbols (rows : List MembershipRow) : List String :=
  (rows.filter (·.source = .dynamic)).map (·.symbol)

theorem mem_dynamic_symbols :
    symbol ∈ dynamicSymbols rows ↔ ∃ row ∈ rows, row.source = .dynamic ∧ row.symbol = symbol := by
  simp [dynamicSymbols, and_assoc]

theorem dynamic_symbols_append (rows more : List MembershipRow) :
    dynamicSymbols (rows ++ more) = dynamicSymbols rows ++ dynamicSymbols more := by
  simp [dynamicSymbols]

theorem Plain.not_holds (plain : Plain row) : ¬ Holds row := by
  rintro (dynamic | ⟨static, _⟩) <;> rcases plain.source with source | source | source <;> simp_all

theorem Plain.not_dynamic (plain : Plain row) : row.source ≠ .dynamic :=
  fun dynamic => plain.not_holds (.inl dynamic)

theorem Plain.formed (plain : Plain row) : Formed row where
  screened screen := plain.screened (by rcases screen with source | source <;> simp [source])
  dynamic source := absurd source plain.not_dynamic

/-- Rows of other sources take no place and no symbol. -/
theorem dynamic_on_none (none : ∀ row ∈ rows, row.source ≠ .dynamic)
    (feed : Feed) : dynamicOn rows feed = 0 := by
  rw [dynamicOn, countP_eq_zero]
  intro row inside
  simp [none row inside]

theorem dynamic_symbols_none (none : ∀ row ∈ rows, row.source ≠ .dynamic) :
    dynamicSymbols rows = [] := by
  rw [dynamicSymbols, map_eq_nil_iff, filter_eq_nil_iff]
  intro row inside
  simp [none row inside]

theorem plain_dynamic_on (plain : ∀ row ∈ rows, Plain row) (feed : Feed) :
    dynamicOn rows feed = 0 :=
  dynamic_on_none (fun row inside => (plain row inside).not_dynamic) feed

theorem plain_dynamic_symbols (plain : ∀ row ∈ rows, Plain row) : dynamicSymbols rows = [] :=
  dynamic_symbols_none fun row inside => (plain row inside).not_dynamic

variable (levels : Dict String String)

theorem feed_of_admitted_row (decided : Int) (admission : Admission) :
    feedOf (admittedRow levels decided admission) = some admission.feed := by
  unfold feedOf admittedRow
  cases admission.feed <;> rfl

theorem admitted_dynamic_on (decided : Int) (admitted : List Admission)
    (feed : Feed) : dynamicOn (admitted.map (admittedRow levels decided)) feed = admittedTo admitted feed := by
  rw [dynamicOn, countP_map, admittedTo]
  refine countP_congr fun admission _ => ?_
  have dynamic : (admittedRow levels decided admission).source = .dynamic := rfl
  simp [feed_of_admitted_row, dynamic]

theorem admitted_dynamic_symbols (decided : Int)
    (admitted : List Admission) :
    dynamicSymbols (admitted.map (admittedRow levels decided)) = admitted.map (·.symbol) := by
  rw [dynamicSymbols, filter_eq_self.mpr, map_map]
  · rfl
  · exact forall_mem_map.mpr fun _ _ => rfl

/-! ### The process and the ledger -/

/-- Rows that take nothing in leave a state that tracks the ledger tracking it. -/
theorem TracksLedger.quiet (tracks : TracksLedger capacity ledger before)
    (same : SameRoom before later) (plain : ∀ row ∈ more, Plain row) :
    TracksLedger capacity (ledger ++ more) later := by
  constructor
  · rw [same.collected]
    exact forall_mem_append.mpr ⟨tracks.collected, fun row last holds => absurd holds (plain row last).not_holds⟩
  · intro feed
    rw [same.left, tracks.left, dynamic_on_append, plain_dynamic_on plain, Nat.add_zero]

/-- A state that takes its admissions in tracks the ledger they are in. -/
theorem TracksLedger.take_in
    (tracks : TracksLedger capacity ledger state) (decides : Decides state admitted)
    (levels : Dict String String) (decided : Int) :
    TracksLedger capacity (ledger ++ admitted.map (admittedRow levels decided)) (state.takeIn admitted) := by
  constructor
  · refine forall_mem_append.mpr ⟨fun row earlier holds => ?_, forall_mem_map.mpr fun admission held _ => ?_⟩
    · exact mem_append_left _ (tracks.collected row earlier holds)
    · exact mem_append_right _ (mem_map_of_mem held)
  · intro feed
    unfold AdmissionState.takeIn
    rw [take_in_left decides.known, tracks.left, dynamic_on_append, admitted_dynamic_on, Option.map_map]
    congr 1
    funext places
    simp only [Function.comp_apply]
    push_cast
    omega

/-- What the decision of a state that tracks the ledger adds to it still fits. -/
theorem TracksLedger.fits
    (tracks : TracksLedger capacity ledger state) (fits : Fits capacity ledger)
    (decides : Decides state admitted) (levels : Dict String String) (decided : Int) :
    Fits capacity (ledger ++ admitted.map (admittedRow levels decided)) := by
  intro feed some_
  rw [dynamic_on_append, admitted_dynamic_on] at some_ ⊢
  by_cases nobody : admittedTo admitted feed = 0
  · rw [nobody, Nat.add_zero] at some_ ⊢
    exact fits feed some_
  · obtain ⟨left, known, enough⟩ := decides.room feed nobody
    rw [tracks.left] at known
    obtain ⟨places, found, rest⟩ := Option.map_eq_some_iff.mp known
    exact ⟨places, found, by push_cast; omega⟩

/-! ### Safety over a day -/

namespace DiscoveryWorld

/-- The invariant of a day: the rows have their shape, no symbol has two dynamic rows, none has one
beside a static row of the first tiers, the feeds have room for all, and a running process knows it. -/
structure Orderly (capacity : Dict Feed Int) (world : DiscoveryWorld) : Prop where
  formed : ∀ row ∈ world.ledger, Formed row
  once : (dynamicSymbols world.ledger).Nodup
  fits : Fits capacity world.ledger
  apart : ∀ row ∈ world.ledger, row.source = .static → row.tier ≠ .c →
    row.symbol ∉ dynamicSymbols world.ledger
  running : ∀ state, world.running = some state → TracksLedger capacity world.ledger state.admission

section

variable (orderly : Orderly capacity world)
include orderly

theorem Orderly.quiet (plain : ∀ row ∈ more, Plain row)
    (ledger : newer.ledger = world.ledger ++ more)
    (running : ∀ state, newer.running = some state → TracksLedger capacity newer.ledger state.admission) :
    Orderly capacity newer := by
  have symbols : dynamicSymbols newer.ledger = dynamicSymbols world.ledger := by
    rw [ledger, dynamic_symbols_append, plain_dynamic_symbols plain, append_nil]
  have split_row : ∀ row ∈ newer.ledger, row ∈ world.ledger ∨ Plain row := by
    intro row inside
    rw [ledger] at inside
    exact (mem_append.mp inside).imp_right (plain row)
  constructor
  · intro row inside
    exact (split_row row inside).elim (orderly.formed row) Plain.formed
  · rw [symbols]
    exact orderly.once
  · intro feed some_
    rw [ledger, dynamic_on_append, plain_dynamic_on plain, Nat.add_zero] at some_ ⊢
    exact orderly.fits feed some_
  · intro row inside static upper
    rw [symbols]
    rcases split_row row inside with earlier | quiet
    · exact orderly.apart row earlier static upper
    · exact absurd (.inr ⟨static, upper⟩) quiet.not_holds
  · exact running

/-- The world once the admissions of a state that tracks its ledger are in the ledger. -/
theorem Orderly.take_in (tracks : TracksLedger capacity world.ledger state)
    (decides : Decides state admitted) (levels : Dict String String) (decided : Int) :
    Orderly capacity {
      ledger := world.ledger ++ admitted.map (admittedRow levels decided), ipc := world.ipc } := by
  have symbols : dynamicSymbols (world.ledger ++ admitted.map (admittedRow levels decided)) =
      dynamicSymbols world.ledger ++ admitted.map (·.symbol) := by
    rw [dynamic_symbols_append, admitted_dynamic_symbols]
  -- What is held is collected, and what is collected is not admitted.
  have new : ∀ row ∈ world.ledger, Holds row → row.symbol ∉ admitted.map (·.symbol) := by
    intro row inside holds listed
    obtain ⟨admission, held, same⟩ := mem_map.mp listed
    exact decides.fresh admission held (same ▸ tracks.collected row inside holds)
  constructor
  · refine forall_mem_append.mpr ⟨orderly.formed, forall_mem_map.mpr fun admission _ => ?_⟩
    refine ⟨fun screen => ?_, fun _ => ⟨rfl, ?_⟩⟩
    · rcases screen with source | source <;> cases source
    · rw [feed_of_admitted_row]
      rfl
  · rw [symbols, nodup_append]
    refine ⟨orderly.once, decides.once, ?_⟩
    rintro symbol earlier other last rfl
    obtain ⟨row, inside, dynamic, rfl⟩ := mem_dynamic_symbols.mp earlier
    exact new row inside (.inl dynamic) last
  · exact tracks.fits orderly.fits decides levels decided
  · intro row inside static upper
    rw [symbols, mem_append, not_or]
    rcases mem_append.mp inside with earlier | last
    · exact ⟨orderly.apart row earlier static upper, new row earlier (.inr ⟨static, upper⟩)⟩
    · obtain ⟨_, _, rfl⟩ := mem_map.mp last
      cases static
  · intro state running
    cases running

theorem Orderly.step (cfg : AdmissionSettings) (input : DiscoveryStep) :
    Orderly capacity (world.step cfg capacity input) := by
  have moves := step_moves cfg capacity world input
  generalize world.step cfg capacity input = next at moves
  cases moves with
  | quiet more plain ledger _ running =>
    refine orderly.quiet plain ledger fun state goes_on => ?_
    obtain ⟨earlier, before, same⟩ := running state goes_on
    rw [ledger]
    exact (orderly.running earlier before).quiet same plain
  | started made =>
    refine ⟨orderly.formed, orderly.once, orderly.fits, orderly.apart, fun state goes_on => ?_⟩
    cases goes_on
    exact state_from_ledger_tracks orderly.formed orderly.fits made
  | admitted levels more running same decides plain ledger _ goes_on =>
    have tracks : TracksLedger capacity (world.ledger ++ []) _ :=
      (orderly.running _ running).quiet same (by simp)
    rw [append_nil] at tracks
    rw [← append_assoc] at ledger
    refine (orderly.take_in tracks decides levels _).quiet plain ledger fun state later => ?_
    rw [goes_on state later, ledger]
    exact (tracks.take_in decides levels _).quiet ⟨rfl, rfl⟩ plain

end

theorem ledger_grows (cfg : AdmissionSettings) (capacity : Dict Feed Int) (world : DiscoveryWorld)
    (inputs : List DiscoveryStep) :
    ∃ more, (inputs.foldl (DiscoveryWorld.step cfg capacity) world).ledger = world.ledger ++ more := by
  induction inputs generalizing world with
  | nil => exact ⟨[], by simp⟩
  | cons input rest ih =>
    obtain ⟨later, onward⟩ := ih (world.step cfg capacity input)
    have moves := step_moves cfg capacity world input
    rw [foldl_cons, onward]
    generalize world.step cfg capacity input = next at moves
    cases moves with
    | quiet more _ ledger => exact ⟨more ++ later, by rw [ledger, append_assoc]⟩
    | started => exact ⟨later, rfl⟩
    | admitted levels more _ _ _ _ ledger => exact ⟨_, by rw [ledger, append_assoc]⟩

end DiscoveryWorld

/-- Intraday admission never over-fills a feed nor admits again. From a ledger without dynamic rows,
over all polls, failed appends and writes, crashes and restarts with one capacity for each feed: no
feed has more dynamic rows than its capacity, no symbol has two, and a symbol that stood as static in
the first two tiers when a process started gets none. -/
theorem intraday_admission_orderly (cfg : AdmissionSettings) (capacity : Dict Feed Int)
    (start : DiscoveryWorld) (idle : start.running = none)
    (morning : ∀ row ∈ start.ledger, Formed row ∧ row.source ≠ .dynamic) (inputs : List DiscoveryStep) :
    let ledger := (inputs.foldl (DiscoveryWorld.step cfg capacity) start).ledger
    (∀ feed, dynamicOn ledger feed ≠ 0 →
      ∃ places, capacity.get? feed = some places ∧ (dynamicOn ledger feed : Int) ≤ places) ∧
    (dynamicSymbols ledger).Nodup ∧
    ∀ earlier ineligible later, inputs = earlier ++ .restart ineligible :: later →
      ∀ symbol row,
        (effectiveTiers (earlier.foldl (DiscoveryWorld.step cfg capacity) start).ledger).get? symbol =
          some row →
        row.source = .static → row.tier ≠ .c → symbol ∉ dynamicSymbols ledger := by
  have quiet : ∀ row ∈ start.ledger, row.source ≠ .dynamic := fun row inside => (morning row inside).2
  have no_symbols := dynamic_symbols_none quiet
  have began : DiscoveryWorld.Orderly capacity start :=
    ⟨fun row inside => (morning row inside).1, by rw [no_symbols]; exact nodup_nil,
      fun feed some_ => absurd (dynamic_on_none quiet feed) some_, by simp [no_symbols], by simp [idle]⟩
  have orderly : DiscoveryWorld.Orderly capacity (inputs.foldl (DiscoveryWorld.step cfg capacity) start) :=
    foldlRecOn inputs _ began fun _ so_far input _ => so_far.step cfg input
  refine ⟨orderly.fits, orderly.once, ?_⟩
  intro earlier ineligible later run symbol row found static upper
  obtain ⟨listed, rfl, _⟩ := (effective_tiers_stands _).listed symbol row found
  obtain ⟨more, grown⟩ := DiscoveryWorld.ledger_grows cfg capacity
    (earlier.foldl (DiscoveryWorld.step cfg capacity) start) (.restart ineligible :: later)
  rw [← foldl_append, ← run] at grown
  exact orderly.apart row (grown ▸ mem_append_left _ listed) static upper

namespace Sample

def movers : AdmissionSettings := { moving := by decide, trading := by decide }

def mover : RankingRow := ⟨"000660", 61 / 10, 30000000000, by decide⟩

def faller : RankingRow := ⟨"035420", -8, 20000000000, by decide⟩

/-- A held symbol that moves as well. -/
def held : RankingRow := ⟨"005930", 7, 90000000000, by decide⟩

def heldRow : MembershipRow := { symbol := "005930", tier := .a, source := .static, decidedAtNs := 0 }

/-- The process dies once it has taken the one place, and the next finds it taken. -/
def diedAndStarted : List DiscoveryStep :=
  [.restart [], .admissionPoll (some [held, faller, mover]) none 10 .diesAfterAppend,
    .restart [], .admissionPoll (some [faller, mover]) none 20 .nothing]

end Sample

open Sample

theorem intraday_admission_orderly_restarted :
    let ledger := (diedAndStarted.foldl
      (DiscoveryWorld.step movers (feedCapacities 1 0 none)) { ledger := [heldRow] }).ledger
    dynamicSymbols ledger = ["000660"] ∧ (dynamicSymbols ledger).Nodup ∧
      "005930" ∉ dynamicSymbols ledger := by
  have morning : ∀ row ∈ [heldRow], Formed row ∧ row.source ≠ .dynamic := by
    intro row inside
    rw [mem_singleton.mp inside]
    exact ⟨⟨by simp [heldRow], by simp [heldRow]⟩, by simp [heldRow]⟩
  obtain ⟨_, once, apart⟩ := intraday_admission_orderly movers (feedCapacities 1 0 none)
    { ledger := [heldRow] } rfl morning diedAndStarted
  exact ⟨by decide +kernel, once, apart [] [] _ rfl "005930" heldRow rfl rfl (by decide)⟩

end KrxAlpha
