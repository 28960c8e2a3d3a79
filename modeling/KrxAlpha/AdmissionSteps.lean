import KrxAlpha.Intraday
import Mathlib.Data.List.Induction
import Mathlib.Data.List.Nodup

/-! What the intraday admission of symbols does in one step. What the ledger says is said again by the
state a new process makes of it: every symbol that is held is collected, and what is left of a feed is
what its rows leave of its capacity. A decision then admits what is not collected, where there is
room, and what a step appends, leaves running and publishes is said once, by cases. -/
namespace KrxAlpha
open List

/-! ### What the ledger says -/

/-- The rows a ledger may hold: those of the screens are of the last tier, and a dynamic row has the
second tier and a feed. -/
structure Formed (row : MembershipRow) : Prop where
  screened : row.source = .intradayCapacity ∨ row.source = .postCloseScreen → row.tier = .c
  dynamic : row.source = .dynamic → row.tier = .b ∧ (feedOf row).isSome

/-- A row by which its symbol is collected. -/
def Holds (row : MembershipRow) : Prop :=
  row.source = .dynamic ∨ row.source = .static ∧ row.tier ≠ .c

/-- The dynamic rows of a feed. -/
def dynamicOn (rows : List MembershipRow) (feed : Feed) : Nat :=
  rows.countP fun row => row.source = .dynamic ∧ feedOf row = some feed

/-- What the rows read so far say of each symbol. -/
structure Stands (rows : List MembershipRow) (current : Dict String MembershipRow) : Prop where
  listed : ∀ symbol row, current.get? symbol = some row →
    row ∈ rows ∧ row.symbol = symbol ∧ row.source ≠ .ack
  highest : ∀ row ∈ rows, row.source ≠ .ack →
    ∃ standing, current.get? row.symbol = some standing ∧ tierRank row.tier ≤ tierRank standing.tier

theorem Stands.take (stands : Stands rows current) (row : MembershipRow) :
    Stands (rows ++ [row]) (takeTier current row) := by
  have before : ∀ symbol other, current.get? symbol = some other →
      other ∈ rows ++ [row] ∧ other.symbol = symbol ∧ other.source ≠ .ack := by
    intro symbol other found
    obtain ⟨inside, same, source⟩ := stands.listed symbol other found
    exact ⟨mem_append_left _ inside, same, source⟩
  unfold takeTier
  split
  · rename_i ack
    exact ⟨before, forall_mem_append.mpr ⟨stands.highest, forall_mem_singleton.mpr (absurd ack)⟩⟩
  rename_i source
  -- The row stands for its symbol from now on.
  have stands_now (higher : ∀ existing, current.get? row.symbol = some existing →
      tierRank existing.tier ≤ tierRank row.tier) :
      Stands (rows ++ [row]) (current.set row.symbol row) := by
    refine ⟨Dict.forall_set ⟨by simp, rfl, source⟩ before, fun other inside unacked => ?_⟩
    rw [Dict.get?_set]
    rcases mem_append.mp inside with earlier | last
    · obtain ⟨standing, found, above⟩ := stands.highest other earlier unacked
      split
      · rename_i same
        rw [same] at found
        exact ⟨row, rfl, above.trans (higher standing found)⟩
      · exact ⟨standing, found, above⟩
    · rw [mem_singleton.mp last, if_pos rfl]
      exact ⟨row, rfl, Nat.le_refl _⟩
  split
  · rename_i absent
    exact stands_now fun existing found => by rw [absent] at found; cases found
  · rename_i existing found
    split
    · rename_i above
      refine stands_now fun other same => ?_
      rw [found] at same
      cases same
      exact above
    · rename_i below
      refine ⟨before, forall_mem_append.mpr ⟨stands.highest, forall_mem_singleton.mpr fun _ => ?_⟩⟩
      exact ⟨existing, found, by omega⟩

theorem effective_tiers_stands (rows : List MembershipRow) : Stands rows (effectiveTiers rows) := by
  induction rows using reverseRecOn with
  | nil => exact ⟨fun _ _ found => by simp [effectiveTiers] at found, by simp⟩
  | append_singleton rows row ih =>
    have onward : effectiveTiers (rows ++ [row]) = takeTier (effectiveTiers rows) row := by
      simp [effectiveTiers]
    rw [onward]
    exact ih.take row

/-- What a held symbol is recorded as is a row by which it is collected. -/
theorem effective_collects (formed : ∀ row ∈ rows, Formed row)
    (inside : row ∈ rows) (holds : Holds row) :
    ∃ standing, (effectiveTiers rows).get? row.symbol = some standing ∧ collects standing = true := by
  have stands := effective_tiers_stands rows
  have unacked : row.source ≠ .ack := by
    rcases holds with dynamic | ⟨static, _⟩ <;> simp [*]
  have ranked : 1 ≤ tierRank row.tier := by
    rcases holds with dynamic | ⟨_, tier⟩
    · rw [((formed row inside).dynamic dynamic).1]
      decide
    · cases shape : row.tier <;> simp_all [tierRank]
  obtain ⟨standing, found, above⟩ := stands.highest row inside unacked
  obtain ⟨listed, _, source⟩ := stands.listed row.symbol standing found
  refine ⟨standing, found, ?_⟩
  have formed_standing := formed standing listed
  have upper : standing.tier ≠ .c := by
    intro lowest
    have bottom : tierRank standing.tier = 0 := by rw [lowest]; rfl
    omega
  unfold collects
  cases shape : standing.tier with
  | c => exact absurd shape upper
  | a | b =>
    cases from_ : standing.source with
    | static | dynamic => simp
    | ack => exact absurd from_ source
    | intradayCapacity => exact absurd (formed_standing.screened (.inl from_)) upper
    | postCloseScreen => exact absurd (formed_standing.screened (.inr from_)) upper

/-! ### The state a process starts with -/

/-- The state knows what the ledger says: what is held is collected, and each feed has left what its
rows leave. -/
structure TracksLedger (capacity : Dict Feed Int) (ledger : List MembershipRow) (state : AdmissionState) :
    Prop where
  collected : ∀ row ∈ ledger, Holds row → row.symbol ∈ state.collected
  left : ∀ feed, state.capacityLeft.get? feed = (capacity.get? feed).map (· - (dynamicOn ledger feed : Int))

theorem dynamic_on_append (rows more : List MembershipRow) (feed : Feed) :
    dynamicOn (rows ++ more) feed = dynamicOn rows feed + dynamicOn more feed :=
  countP_append

/-- No feed has more dynamic rows than its capacity. -/
def Fits (capacity : Dict Feed Int) (rows : List MembershipRow) : Prop :=
  ∀ feed, dynamicOn rows feed ≠ 0 → ∃ places, capacity.get? feed = some places ∧
    (dynamicOn rows feed : Int) ≤ places

/-- The first part of a ledger that fits does so too. -/
theorem Fits.of_append (fits : Fits capacity (rows ++ more)) : Fits capacity rows := by
  intro feed some_
  have total := dynamic_on_append rows more feed
  obtain ⟨places, known, enough⟩ := fits feed (by omega)
  exact ⟨places, known, by omega⟩

/-- Each dynamic row takes one place of its feed. -/
theorem take_places (fits : Fits capacity rows)
    (taken : rows.foldlM takePlace capacity = .ok left) (feed : Feed) :
    left.get? feed = (capacity.get? feed).map (· - (dynamicOn rows feed : Int)) := by
  induction rows using reverseRecOn generalizing left with
  | nil =>
    cases taken
    simp [dynamicOn]
  | append_singleton rows row ih =>
    rw [foldlM_append] at taken
    obtain ⟨middle, before, last⟩ := bind_ok taken
    have so_far := ih fits.of_append before
    rw [foldlM_cons] at last
    obtain ⟨after, took, same⟩ := bind_ok last
    cases same
    have total := dynamic_on_append rows [row] feed
    unfold takePlace at took
    split at took
    · rename_i other
      cases took
      have none_here : dynamicOn [row] feed = 0 := by simp [dynamicOn, other]
      rw [so_far, total, none_here, Nat.add_zero]
    rename_i dynamic
    split at took
    · cases took
    rename_i own fed
    have counted : dynamicOn [row] feed = if own = feed then 1 else 0 := by
      simp only [dynamicOn, countP_singleton, fed, Option.some.injEq]
      simp [not_not.mp dynamic]
    by_cases here : own = feed
    · subst here
      rw [if_pos rfl] at counted
      obtain ⟨places, known, enough⟩ := fits own (by omega)
      rw [known] at so_far
      simp only [so_far, Option.map_some] at took
      cases took
      rw [known, Dict.get?_set_self, Option.map_some, if_neg (by omega), total]
      congr 1
      omega
    · rw [if_neg here] at counted
      rw [total, counted, Nat.add_zero, ← so_far]
      split at took <;> cases took
      · exact Dict.get?_set_of_ne (Ne.symm here)
      · rfl

/-- A new process knows what the ledger says. -/
theorem state_from_ledger_tracks (formed : ∀ row ∈ ledger, Formed row)
    (fits : Fits capacity ledger) (made : stateFromLedger ledger ineligible capacity = .ok state) :
    TracksLedger capacity ledger state := by
  unfold stateFromLedger at made
  cases taken : ledger.foldlM takePlace capacity with
  | error error =>
    rw [taken] at made
    cases made
  | ok left =>
    rw [taken] at made
    cases made
    constructor
    · intro row inside holds
      obtain ⟨standing, found, collected⟩ := effective_collects formed inside holds
      exact mem_map.mpr ⟨(row.symbol, standing),
        mem_filter.mpr ⟨Dict.mem_entries_iff.mpr found, collected⟩, rfl⟩
    · intro feed
      exact take_places fits taken feed

/-! ### What a poll decides -/

/-- The admissions to a feed. -/
def admittedTo (admitted : List Admission) (feed : Feed) : Nat := admitted.countP (·.feed = feed)

/-- The admissions of a poll: ranked symbols that were not collected, each once, and no more for a
feed than it has left. -/
structure Decides (state : AdmissionState) (admitted : List Admission) : Prop where
  once : (admitted.map (·.symbol)).Nodup
  short : ∀ admission ∈ admitted, isKrxShortCode admission.symbol = true
  fresh : ∀ admission ∈ admitted, admission.symbol ∉ state.collected
  room : ∀ feed, admittedTo admitted feed ≠ 0 → ∃ left, state.capacityLeft.get? feed = some left ∧
    (admittedTo admitted feed : Int) ≤ left

/-- The rows that have come through the screen of a poll. -/
structure ScreenedFrom (state : AdmissionState) (screened : Screened) : Prop where
  once : (screened.qualifiers.map (·.symbol)).Nodup
  fresh : ∀ row ∈ screened.qualifiers, row.symbol ∈ screened.seen ∧ row.symbol ∉ state.collected

theorem screen_row (so_far : ScreenedFrom state screened)
    (cfg : AdmissionSettings) (row : RankingRow) :
    ScreenedFrom state (screenRow state cfg screened row) := by
  have seen_still : ∀ other ∈ screened.qualifiers,
      other.symbol ∈ row.symbol :: screened.seen ∧ other.symbol ∉ state.collected :=
    fun other held => ⟨mem_cons_of_mem _ (so_far.fresh other held).1, (so_far.fresh other held).2⟩
  unfold screenRow
  split
  · exact so_far
  rename_i new
  simp only [not_or] at new
  split
  · exact ⟨so_far.once, seen_still⟩
  · constructor
    · rw [map_append, nodup_append]
      refine ⟨so_far.once, nodup_singleton _, ?_⟩
      rintro symbol listed other last rfl
      obtain ⟨earlier, held, same⟩ := mem_map.mp listed
      rw [map_singleton, mem_singleton] at last
      exact new.1 (last ▸ same ▸ (so_far.fresh earlier held).1)
    · exact forall_mem_append.mpr ⟨seen_still, forall_mem_singleton.mpr ⟨mem_cons_self .., new.2.1⟩⟩

/-- The rows placed so far: in their order, at most as many for a feed as it has left. -/
structure PlacedFrom (left : Dict Feed Int) (rows : List RankingRow) (placed : Placed) : Prop where
  order : (placed.admitted.map (·.symbol)).Sublist (rows.map (·.symbol))
  remaining : ∀ feed, placed.remaining.get? feed =
    (left.get? feed).map (· - (admittedTo placed.admitted feed : Int))
  room : ∀ feed, admittedTo placed.admitted feed ≠ 0 → ∃ places, left.get? feed = some places ∧
    (admittedTo placed.admitted feed : Int) ≤ places

theorem place_row (so_far : PlacedFrom left rows placed) (row : RankingRow) :
    PlacedFrom left (rows ++ [row]) (placeRow placed row) := by
  unfold placeRow
  split
  · refine ⟨?_, so_far.remaining, so_far.room⟩
    rw [map_append]
    exact so_far.order.trans (sublist_append_left _ _)
  rename_i feed places chosen
  have found : placed.remaining.get? feed = some places :=
    Dict.mem_entries_iff.mp (mem_of_find?_eq_some chosen)
  have some_left : 0 < places := by simpa using find?_some chosen
  have counted (probe : Feed) : admittedTo (placed.admitted ++ [row.admission feed]) probe =
      admittedTo placed.admitted probe + if feed = probe then 1 else 0 := by
    unfold admittedTo
    rw [countP_append, countP_singleton]
    by_cases here : feed = probe <;> simp [RankingRow.admission, here]
  -- The places the feed began with.
  have began := so_far.remaining feed
  rw [found] at began
  obtain ⟨most, known, rest⟩ := Option.map_eq_some_iff.mp began.symm
  constructor
  · rw [map_append, map_append]
    exact so_far.order.append (List.Sublist.refl _)
  · intro probe
    rw [Dict.get?_set, counted]
    split
    · rename_i here
      subst here
      rw [known, if_pos rfl, Option.map_some]
      congr 1
      push_cast
      omega
    · rename_i other
      rw [so_far.remaining, if_neg (Ne.symm other), Nat.add_zero]
  · intro probe some_
    rw [counted] at some_ ⊢
    by_cases here : feed = probe
    · subst here
      rw [if_pos rfl]
      exact ⟨most, known, by push_cast; omega⟩
    · rw [if_neg here, Nat.add_zero] at some_ ⊢
      exact so_far.room probe some_

theorem place_rows (left : Dict Feed Int) (rejected : List (String × AdmissionRefusal))
    (rows : List RankingRow) :
    PlacedFrom left rows (rows.foldl placeRow { remaining := left, rejected }) := by
  induction rows using reverseRecOn with
  | nil => exact ⟨by simp, by simp [admittedTo], by simp [admittedTo]⟩
  | append_singleton rows row ih =>
    rw [foldl_append]
    exact place_row ih row

theorem decide_admissions_decides (rows : List RankingRow) (state : AdmissionState)
    (cfg : AdmissionSettings) : Decides state (decideAdmissions rows state cfg).admitted := by
  have screened : ScreenedFrom state (rows.foldl (screenRow state cfg) {}) :=
    foldlRecOn rows (screenRow state cfg) ⟨nodup_nil, by simp⟩
      fun _ so_far row _ => screen_row so_far cfg row
  unfold decideAdmissions
  generalize rows.foldl (screenRow state cfg) {} = kept at screened
  have sorted := perm_insertionSort RankingRow.Before kept.qualifiers
  have so_placed := place_rows state.capacityLeft kept.rejected
    (kept.qualifiers.insertionSort RankingRow.Before)
  dsimp only
  generalize (kept.qualifiers.insertionSort RankingRow.Before).foldl placeRow
    { remaining := state.capacityLeft, rejected := kept.rejected } = placed at so_placed
  have ranked : ∀ admission ∈ placed.admitted, ∃ row ∈ kept.qualifiers, row.symbol = admission.symbol := by
    intro admission inside
    obtain ⟨row, held, same⟩ := mem_map.mp (so_placed.order.subset (mem_map_of_mem inside))
    exact ⟨row, sorted.mem_iff.mp held, same⟩
  refine ⟨so_placed.order.nodup ((sorted.map _).nodup_iff.mpr screened.once), ?_, ?_, so_placed.room⟩
  · intro admission inside
    obtain ⟨row, _, same⟩ := ranked admission inside
    exact same ▸ row.short
  · intro admission inside
    obtain ⟨row, held, same⟩ := ranked admission inside
    exact same ▸ (screened.fresh row held).2

/-- What the polls before did to a state does not show in what it collects and has left. -/
structure SameRoom (before after : AdmissionState) : Prop where
  collected : after.collected = before.collected
  left : after.capacityLeft = before.capacityLeft

section

variable (cfg : AdmissionSettings) (statusOf : Option (String → StatusLookup))
include cfg statusOf

theorem fresh_row_same_room (polled : DiscoveryState × List RankingRow) (row : RankingRow) :
    SameRoom polled.1.admission (freshRow cfg statusOf polled row).1.admission := by
  unfold freshRow
  dsimp only
  split
  · exact ⟨rfl, rfl⟩
  split
  · exact ⟨rfl, rfl⟩
  split
  · exact ⟨rfl, rfl⟩
  split
  · split <;> exact ⟨rfl, rfl⟩
  · exact ⟨rfl, rfl⟩

theorem fresh_rows_same_room (state : DiscoveryState) (rows : List RankingRow) :
    SameRoom state.admission (rows.foldl (freshRow cfg statusOf) (state, [])).1.admission :=
  foldlRecOn (motive := fun polled => SameRoom state.admission polled.1.admission) rows
    (freshRow cfg statusOf) ⟨rfl, rfl⟩ fun polled so_far row _ =>
      have next := fresh_row_same_room cfg statusOf polled row
      ⟨next.collected.trans so_far.collected, next.left.trans so_far.left⟩

end

/-- Each admission takes one place of its feed, which has a capacity. -/
theorem take_in_left {left : Dict Feed Int}
    (known : ∀ admission ∈ admitted, (left.get? admission.feed).isSome) (feed : Feed) :
    (admitted.foldl (fun left admission =>
      left.set admission.feed ((left.get? admission.feed).getD 0 - 1)) left).get? feed =
      (left.get? feed).map (· - (admittedTo admitted feed : Int)) := by
  induction admitted generalizing left with
  | nil => simp [admittedTo]
  | cons admission rest ih =>
    obtain ⟨places, found⟩ := Option.isSome_iff_exists.mp (known admission (mem_cons_self ..))
    have onward : ∀ other ∈ rest,
        ((left.set admission.feed ((left.get? admission.feed).getD 0 - 1)).get? other.feed).isSome := by
      intro other inside
      rw [Dict.get?_set]
      split
      · rfl
      · exact known other (mem_cons_of_mem _ inside)
    have counted : admittedTo (admission :: rest) feed =
        admittedTo rest feed + if admission.feed = feed then 1 else 0 := by
      unfold admittedTo
      rw [countP_cons]
      simp
    rw [foldl_cons, ih onward, Dict.get?_set, found, counted]
    by_cases here : feed = admission.feed
    · subst here
      rw [if_pos rfl, if_pos rfl, found, Option.map_some, Option.map_some, Option.getD_some]
      congr 1
      push_cast
      omega
    · rw [if_neg here, if_neg (Ne.symm here), Nat.add_zero]

theorem Decides.known (decides : Decides state admitted) :
    ∀ admission ∈ admitted, (state.capacityLeft.get? admission.feed).isSome := by
  intro admission inside
  have counted : admittedTo admitted admission.feed ≠ 0 := by
    have positive := countP_pos_iff (p := fun other => decide (other.feed = admission.feed))
      |>.mpr ⟨admission, inside, by simp⟩
    exact Nat.pos_iff_ne_zero.mp positive
  obtain ⟨left, known, _⟩ := decides.room admission.feed counted
  rw [known]
  rfl

/-! ### What one step does -/

/-- A row that takes nothing in: an answer to a subscription, or a screened symbol. -/
structure Plain (row : MembershipRow) : Prop where
  source : row.source = .ack ∨ row.source = .intradayCapacity ∨ row.source = .postCloseScreen
  screened : row.source ≠ .ack → row.tier = .c

theorem tier_c_plain
    (screen : source = .intradayCapacity ∨ source = .postCloseScreen) (decided : Int)
    (rows : List RankingRow) : ∀ row ∈ rows.map (tierC source decided), Plain row :=
  forall_mem_map.mpr fun _ _ => ⟨.inr screen, fun _ => rfl⟩

namespace DiscoveryWorld

/-- How the file the collectors watch comes out of a poll with admissions. -/
inductive Published (world : DiscoveryWorld) (admitted : List Admission) (decided : Int)
    (fault : PollFault) : AdmissionsFile → Prop where
  | written {file : AdmissionsFile} (ok : publishIpc world.ipc admitted decided = .ok file) :
    Published world admitted decided fault file
  | refused {error : String} (refusal : publishIpc world.ipc admitted decided = .error error) :
    Published world admitted decided fault world.ipc
  | cut (between : fault = .ipc ∨ fault = .diesAfterAppend) :
    Published world admitted decided fault world.ipc

/-- What one step makes of a world: rows that take nothing in, with the process as it was or gone; a
new process; or the admissions of a poll, with a state that knows them. -/
inductive Moves (capacity : Dict Feed Int) (world : DiscoveryWorld) :
    DiscoveryStep → DiscoveryWorld → Prop where
  | quiet {input : DiscoveryStep} {next : DiscoveryWorld} (more : List MembershipRow)
      (plain : ∀ row ∈ more, Plain row) (ledger : next.ledger = world.ledger ++ more)
      (ipc : next.ipc = world.ipc)
      (running : ∀ state, next.running = some state → ∃ earlier, world.running = some earlier ∧
        SameRoom earlier.admission state.admission) :
    Moves capacity world input next
  | started {ineligible : List String} {admission : AdmissionState}
      (made : stateFromLedger world.ledger ineligible capacity = .ok admission) :
    Moves capacity world (.restart ineligible) { world with running := some { admission } }
  | admitted {rows : Option (List RankingRow)} {statusOf : Option (String → StatusLookup)} {decided : Int}
      {fault : PollFault} {next : DiscoveryWorld} {earlier : DiscoveryState} {admission : AdmissionState}
      {admitted : List Admission} (levels : Dict String String) (more : List MembershipRow)
      (running : world.running = some earlier) (same : SameRoom earlier.admission admission)
      (decides : Decides admission admitted) (plain : ∀ row ∈ more, Plain row)
      (ledger : next.ledger = world.ledger ++ (admitted.map (admittedRow levels decided) ++ more))
      (ipc : Published world admitted decided fault next.ipc)
      (goes_on : ∀ state, next.running = some state → state.admission = admission.takeIn admitted) :
    Moves capacity world (.admissionPoll rows statusOf decided fault) next

/-- A process that goes on has the state it goes on with. -/
theorem go_on_running {world : DiscoveryWorld}
    (running : (world.goOn fault state).running = some left) : left = state := by
  unfold DiscoveryWorld.goOn at running
  split at running
  · cases running
  · cases running
    rfl

theorem admission_poll_moves (cfg : AdmissionSettings) (capacity : Dict Feed Int) {world : DiscoveryWorld}
    (running : world.running = some state) (rows : List RankingRow)
    (statusOf : Option (String → StatusLookup)) (decided : Int) (fault : PollFault) :
    Moves capacity world (.admissionPoll (some rows) statusOf decided fault)
      (world.admissionPoll cfg state rows statusOf decided fault) := by
  unfold DiscoveryWorld.admissionPoll
  have same := fresh_rows_same_room cfg statusOf state rows
  generalize rows.foldl (freshRow cfg statusOf) (state, []) = polled at same
  obtain ⟨polled, fresh⟩ := polled
  dsimp only at same ⊢
  have decides := decide_admissions_decides fresh polled.admission cfg
  generalize decideAdmissions fresh polled.admission cfg = decision at decides
  generalize capacityRows polled fresh decision = turnedAway
  unfold DiscoveryWorld.publish
  dsimp only
  split
  · refine .quiet [] (by simp) (by simp [DiscoveryWorld.goOn]) rfl fun left goes_on => ?_
    rw [go_on_running goes_on]
    exact ⟨state, running, same⟩
  split
  · refine .quiet [] (by simp) (by simp [DiscoveryWorld.goOn]) rfl fun left goes_on => ?_
    rw [go_on_running goes_on]
    exact ⟨state, running, same⟩
  have screens := tier_c_plain (.inl rfl : MembershipSource.intradayCapacity = .intradayCapacity ∨ _)
    decided turnedAway
  split
  · rename_i cut
    rcases cut with nobody | died
    · refine .quiet _ screens (by simp [DiscoveryWorld.goOn, nobody]) rfl fun left goes_on => ?_
      rw [go_on_running goes_on]
      exact ⟨state, running, same⟩
    · subst died
      refine .admitted polled.warningLevels _ running same decides screens
        (by simp [DiscoveryWorld.goOn]) (.cut (.inr rfl)) fun left goes_on => ?_
      cases goes_on
  split
  · exact .admitted polled.warningLevels _ running same decides screens
      (by simp [DiscoveryWorld.goOn]) (.cut (.inl rfl)) fun left goes_on => by rw [go_on_running goes_on]
  · rename_i refusal _ _
    exact .admitted polled.warningLevels _ running same decides screens
      (by simp [DiscoveryWorld.goOn]) (.refused refusal) fun left goes_on => by rw [go_on_running goes_on]
  · rename_i written _ _
    exact .admitted polled.warningLevels _ running same decides screens
      (by simp [DiscoveryWorld.goOn]) (.written written) fun left goes_on => by rw [go_on_running goes_on]

theorem step_moves (cfg : AdmissionSettings) (capacity : Dict Feed Int) (world : DiscoveryWorld)
    (input : DiscoveryStep) : Moves capacity world input (world.step cfg capacity input) := by
  have still : ∀ state, world.running = some state → ∃ earlier, world.running = some earlier ∧
      SameRoom earlier.admission state.admission := fun state running => ⟨state, running, rfl, rfl⟩
  have stay : Moves capacity world input world := .quiet [] (by simp) (by simp) rfl still
  have stops : Moves capacity world input { world with running := none } :=
    .quiet [] (by simp) (by simp) rfl fun _ running => by cases running
  cases input with
  | restart ineligible =>
    cases made : stateFromLedger world.ledger ineligible capacity with
    | ok admission =>
      simp only [DiscoveryWorld.step, made]
      exact .started made
    | error error =>
      simp only [DiscoveryWorld.step, made]
      exact stops
  | crash => exact stops
  | admissionPoll rows statusOf decided fault =>
    cases rows with
    | none =>
      simp only [DiscoveryWorld.step]
      split
      · exact stops
      · exact stay
    | some rows =>
      cases running : world.running with
      | none => simpa only [DiscoveryWorld.step, running] using stay
      | some state =>
        simp only [DiscoveryWorld.step, running]
        exact admission_poll_moves cfg capacity running rows statusOf decided fault
  | postClosePoll rows decided appends =>
    cases rows with
    | none => exact stay
    | some rows =>
      cases running : world.running with
      | none => simpa only [DiscoveryWorld.step, running] using stay
      | some state =>
        simp only [DiscoveryWorld.step, running, DiscoveryWorld.postClosePoll]
        split
        · exact .quiet _ (tier_c_plain (.inr rfl) decided _) rfl rfl
            fun later goes_on => still later (running.trans goes_on)
        · exact stay
  | acked acks decided =>
    refine .quiet _ (fun row inside => ?_) rfl rfl still
    obtain ⟨⟨symbol, feed, reason⟩, _, rfl⟩ := mem_map.mp inside
    exact ⟨.inl rfl, fun source => absurd rfl source⟩

end DiscoveryWorld

end KrxAlpha
