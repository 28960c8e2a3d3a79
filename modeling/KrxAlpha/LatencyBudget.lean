import KrxAlpha.LatencyAudit

/-! The budget of bytes decides which samples are held and which are collected later, and nothing
else. Whatever is held of a key is all its samples so far, a key given up is counted, and another
pass over the same files finds all its samples again. -/
namespace KrxAlpha.LatencyAudit
open List
open LineBytes

section Samples

variable {F : Type}

/-- The samples of a key, in their order. -/
def valuesOf (key : String) (log : List (String × F)) : List F :=
  (log.filter (·.1 = key)).map (·.2)

theorem values_of_other (other : minute ≠ key) (log : List (String × F)) (latency : F) :
    valuesOf key (log ++ [(minute, latency)]) = valuesOf key log := by
  simp [valuesOf, other]

theorem values_of_own (minute : String) (log : List (String × F)) (latency : F) :
    valuesOf minute (log ++ [(minute, latency)]) = valuesOf minute log ++ [latency] := by
  simp [valuesOf]

/-- How the counts stand to the samples added so far. -/
structure Counted (log : List (String × F)) (facts : StreamFacts) : Prop where
  counted : ∀ key, (facts.counts.get? key).getD 0 = (valuesOf key log).length
  known : ∀ key, (facts.counts.get? key).isSome ↔ valuesOf key log ≠ []
  listed : ∀ key, key ∈ facts.order ↔ valuesOf key log ≠ []
  distinct : facts.order.Nodup

/-- How an accumulator stands to the samples added so far: what is held of a key is all of them. -/
structure Holds (budget : Nat) (log : List (String × F)) (acc : StreamAccumulator F) : Prop where
  counted : Counted log acc.toStreamFacts
  held : ∀ key values, acc.samples.get? key = some values →
    values = valuesOf key log ∧ values ≠ [] ∧ key ∉ acc.evicted
  kept : ∀ key, valuesOf key log ≠ [] → key ∉ acc.evicted → (acc.samples.get? key).isSome
  known : ∀ key ∈ acc.evicted, valuesOf key log ≠ []
  fits : acc.storedBytes ≤ budget

theorem holds_nothing (budget : Nat) : Holds budget [] ({} : StreamAccumulator F) where
  counted := ⟨fun _ => rfl, by simp [valuesOf], by simp [valuesOf], nodup_nil⟩
  held := by simp
  kept _ filled := absurd rfl filled
  known := by simp
  fits := Int.natCast_nonneg budget

namespace StreamAccumulator

/-- Each key is given up or left as it was. -/
structure GivesUp (before after : StreamAccumulator F) : Prop where
  facts : after.toStreamFacts = before.toStreamFacts
  each : ∀ key, (key ∈ after.evicted ∧ after.samples.get? key = none ∧ (before.samples.get? key).isSome) ∨
    (after.samples.get? key = before.samples.get? key ∧ (key ∈ after.evicted ↔ key ∈ before.evicted))

theorem GivesUp.refl (acc : StreamAccumulator F) : GivesUp acc acc where
  facts := rfl
  each _ := .inr ⟨rfl, .rfl⟩

theorem GivesUp.trans (before : GivesUp first second)
    (after : GivesUp second third) : GivesUp first third where
  facts := after.facts.trans before.facts
  each key := by
    rcases before.each key with ⟨gone, absent, held⟩ | ⟨same, listed⟩
    · rcases after.each key with ⟨-, -, again⟩ | ⟨same, listed⟩
      · simp [absent] at again
      · exact .inl ⟨listed.mpr gone, same.trans absent, held⟩
    · rw [← same, ← listed]
      exact after.each key

theorem GivesUp.absent {before after : StreamAccumulator F} (gives : GivesUp before after)
    (absent : before.samples.get? key = none) : after.samples.get? key = none := by
  rcases gives.each key with ⟨-, gone, -⟩ | ⟨same, -⟩
  · exact gone
  · rw [same, absent]

theorem give_up_spec
    (found : acc.samples.get? candidate = some held) : GivesUp acc (acc.giveUp candidate held) := by
  refine ⟨rfl, fun key => ?_⟩
  by_cases own : key = candidate
  · exact .inl ⟨by simp [giveUp, own], by simp [giveUp, own, Dict.get?_erase], by simp [own, found]⟩
  · exact .inr ⟨by simp [giveUp, own, Dict.get?_erase], by simp [giveUp, own]⟩

/-- Giving up ends with room for a sample or with nothing held of the candidates. -/
theorem evict_spec (budget : Nat) (acc : StreamAccumulator F) (candidates : List String) :
    GivesUp acc (acc.evict budget candidates) ∧
      (acc.evict budget candidates).storedBytes ≤ acc.storedBytes ∧
      ((acc.evict budget candidates).storedBytes + 8 ≤ budget ∨
        ∀ candidate ∈ candidates, (acc.evict budget candidates).samples.get? candidate = none) := by
  induction candidates generalizing acc with
  | nil => exact ⟨.refl acc, Int.le_refl _, .inr (by simp)⟩
  | cons candidate older ih =>
    rw [evict]
    cases found : acc.samples.get? candidate with
    | none =>
      obtain ⟨gives, lower, done⟩ := ih acc
      exact ⟨gives, lower, done.imp_right fun gone => forall_mem_cons.mpr ⟨gives.absent found, gone⟩⟩
    | some held =>
      dsimp only
      have gives := give_up_spec found
      have lower : (acc.giveUp candidate held).storedBytes ≤ acc.storedBytes := by
        simp only [giveUp]
        omega
      split_ifs with room
      · exact ⟨gives, lower, .inl room⟩
      · obtain ⟨gives', lower', done⟩ := ih (acc.giveUp candidate held)
        refine ⟨gives.trans gives', Int.le_trans lower' lower, done.imp_right fun gone => ?_⟩
        refine forall_mem_cons.mpr ⟨gives'.absent ?_, gone⟩
        simp [giveUp, Dict.get?_erase]

end StreamAccumulator

/-- What `addSample` notes whatever the budget is. -/
def StreamFacts.count (facts : StreamFacts) (minute : String) : StreamFacts :=
  match facts.counts.get? minute with
  | none => { facts with order := facts.order ++ [minute], counts := facts.counts.set minute 1 }
  | some known => { facts with counts := facts.counts.set minute (known + 1) }

theorem add_sample_facts (budget : Nat) (acc : StreamAccumulator F) (minute : String) (latency : F) :
    (acc.addSample budget minute latency).toStreamFacts = acc.toStreamFacts.count minute := by
  rw [StreamAccumulator.addSample, StreamFacts.count]
  cases acc.counts.get? minute with
  | none =>
    dsimp only
    split_ifs <;> rfl
  | some known =>
    dsimp only
    split_ifs
    · rfl
    · rfl
    · exact (StreamAccumulator.evict_spec ..).1.facts
    · exact (StreamAccumulator.evict_spec ..).1.facts

theorem count_get? (facts : StreamFacts) (minute key : String) :
    (facts.count minute).counts.get? key =
      if key = minute then some ((facts.counts.get? minute).getD 0 + 1) else facts.counts.get? key := by
  rw [StreamFacts.count]
  cases facts.counts.get? minute with
  | none => exact Dict.get?_set ..
  | some known => exact Dict.get?_set ..

theorem count_order (facts : StreamFacts) (minute : String) :
    (facts.count minute).order =
      if (facts.counts.get? minute).isSome then facts.order else facts.order ++ [minute] := by
  rw [StreamFacts.count]
  cases facts.counts.get? minute <;> rfl

theorem counted_add (counted : Counted log facts)
    (minute : String) (latency : F) : Counted (log ++ [(minute, latency)]) (facts.count minute) := by
  refine ⟨fun key => ?_, fun key => ?_, fun key => ?_, ?_⟩
  · rw [count_get?]
    split_ifs with own
    · rw [own, values_of_own, length_append, ← counted.counted]
      rfl
    · rw [values_of_other (Ne.symm own), counted.counted]
  · rw [count_get?]
    split_ifs with own
    · rw [own, values_of_own]
      simp
    · rw [values_of_other (Ne.symm own), counted.known]
  · rw [count_order]
    by_cases own : key = minute
    · rw [own, values_of_own]
      split_ifs with seen
      · simp [(counted.listed minute).mpr ((counted.known minute).mp seen)]
      · simp
    · rw [values_of_other (Ne.symm own), ← counted.listed]
      split_ifs <;> simp [own]
  · rw [count_order]
    split_ifs with seen
    · exact counted.distinct
    · refine nodup_append.mpr ⟨counted.distinct, by simp, fun one listed other single same => ?_⟩
      rw [mem_singleton.mp single] at same
      exact seen ((counted.known minute).mpr ((counted.listed minute).mp (same ▸ listed)))

private theorem holds_of {acc after : StreamAccumulator F}
    (holds : Holds budget log acc) {minute : String}
    (facts : after.toStreamFacts = acc.toStreamFacts.count minute) (others : ∀ key, key ≠ minute →
      (key ∈ after.evicted ∧ after.samples.get? key = none ∧ (acc.samples.get? key).isSome) ∨
        (after.samples.get? key = acc.samples.get? key ∧ (key ∈ after.evicted ↔ key ∈ acc.evicted)))
    (own : (minute ∈ after.evicted ∧ after.samples.get? minute = none) ∨
      (minute ∉ after.evicted ∧ after.samples.get? minute = some (valuesOf minute log ++ [latency])))
    (fits : after.storedBytes ≤ budget) : Holds budget (log ++ [(minute, latency)]) after := by
  refine ⟨facts ▸ counted_add holds.counted minute latency, ?_, ?_, ?_, fits⟩
  · intro key values found
    by_cases same : key = minute
    · rw [same] at found ⊢
      rcases own with ⟨-, absent⟩ | ⟨present, held⟩
      · simp [absent] at found
      · rw [held] at found
        cases found
        exact ⟨(values_of_own ..).symm, by simp, present⟩
    · rw [values_of_other (Ne.symm same)]
      rcases others key same with ⟨-, absent, -⟩ | ⟨unchanged, listed⟩
      · simp [absent] at found
      · rw [listed]
        exact holds.held key values (unchanged ▸ found)
  · intro key filled present
    by_cases same : key = minute
    · rw [same] at present ⊢
      rcases own with ⟨gone, -⟩ | ⟨-, held⟩
      · exact absurd gone present
      · rw [held]
        rfl
    · rw [values_of_other (Ne.symm same)] at filled
      rcases others key same with ⟨gone, -⟩ | ⟨unchanged, listed⟩
      · exact absurd gone present
      · rw [unchanged]
        exact holds.kept key filled (listed.not.mp present)
  · intro key gone
    by_cases same : key = minute
    · rw [same, values_of_own]
      simp
    · rw [values_of_other (Ne.symm same)]
      rcases others key same with ⟨-, -, held⟩ | ⟨-, listed⟩
      · obtain ⟨values, found⟩ := Option.isSome_iff_exists.mp held
        obtain ⟨rfl, filled, -⟩ := holds.held key values found
        exact filled
      · exact holds.known key (listed.mp gone)

private theorem held_values
    (holds : Holds budget log acc) {key : String} (filled : valuesOf key log ≠ []) (present : key ∉ acc.evicted) :
    acc.samples.get? key = some (valuesOf key log) := by
  obtain ⟨values, found⟩ := Option.isSome_iff_exists.mp (holds.kept key filled present)
  rw [found, (holds.held key values found).1]

/-- A sample more, and the accumulator stands to the longer log as before. -/
theorem holds_add {acc : StreamAccumulator F}
    (holds : Holds budget log acc) (minute : String) (latency : F) :
    Holds budget (log ++ [(minute, latency)]) (acc.addSample budget minute latency) := by
  have facts := add_sample_facts budget acc minute latency
  rw [StreamAccumulator.addSample] at facts ⊢
  cases seen : acc.counts.get? minute with
  | none =>
    simp only [seen] at facts ⊢
    have fresh : valuesOf minute log = [] := by simpa [seen] using holds.counted.known minute
    have absent : acc.samples.get? minute = none := by
      refine Option.eq_none_iff_forall_ne_some.mpr fun values found => ?_
      obtain ⟨rfl, filled, -⟩ := holds.held minute values found
      exact filled fresh
    split_ifs at facts ⊢ with room
    · refine holds_of holds facts (fun key other => .inr ⟨Dict.get?_set_of_ne other, .rfl⟩) (.inr ?_) room
      exact ⟨fun gone => holds.known minute gone fresh, by rw [fresh]; exact Dict.get?_set_self ..⟩
    · refine holds_of holds facts (fun key other => .inr ⟨rfl, ?_⟩) (.inl ⟨mem_cons_self, absent⟩) holds.fits
      simp [other]
  | some known =>
    simp only [seen, contains_iff_mem] at facts ⊢
    have filled : valuesOf minute log ≠ [] := (holds.counted.known minute).mp (by simp [seen])
    have spec := StreamAccumulator.evict_spec budget
      { acc with counts := acc.counts.set minute (known + 1) } acc.order.reverse
    split_ifs at facts ⊢ with gone room gone'
    · refine holds_of holds facts (fun key other => .inr ⟨rfl, .rfl⟩) (.inl ⟨gone, ?_⟩) holds.fits
      exact Option.eq_none_iff_forall_ne_some.mpr fun values found => (holds.held minute values found).2.2 gone
    · have held := held_values holds filled gone
      refine holds_of holds facts (fun key other => .inr ⟨Dict.get?_set_of_ne other, .rfl⟩) (.inr ⟨gone, ?_⟩) room
      exact (Dict.get?_set_self ..).trans (by rw [held]; rfl)
    · obtain ⟨gives, lower, -⟩ := spec
      refine holds_of holds facts (fun key _ => gives.each key) (.inl ⟨gone', ?_⟩) (Int.le_trans lower holds.fits)
      rcases gives.each minute with ⟨-, absent, -⟩ | ⟨-, listed⟩
      · exact absent
      · exact absurd (listed.mp gone') gone
    · obtain ⟨gives, -, done⟩ := spec
      have same := ((gives.each minute).resolve_left fun given => gone' given.1).1
      have held := same.trans (held_values holds filled gone)
      -- as long as the minute is held, giving up has stopped with room for it
      have room := done.resolve_right fun none => by
        have absent := none minute (mem_reverse.mpr ((holds.counted.listed minute).mpr filled))
        simp [held] at absent
      refine holds_of holds facts (fun key other => ?_) (.inr ⟨gone', ?_⟩) room
      · rw [StreamAccumulator.append, Dict.get?_set_of_ne other]
        exact gives.each key
      · exact (Dict.get?_set_self ..).trans (by rw [held]; rfl)

private theorem Holds.of_facts (holds : Holds budget log acc) (counts : facts.counts = acc.counts)
    (order : facts.order = acc.order) : Holds budget log { acc with toStreamFacts := facts } where
  counted := by
    obtain ⟨counted, known, listed, distinct⟩ := holds.counted
    rw [← counts] at counted known
    rw [← order] at listed distinct
    exact ⟨counted, known, listed, distinct⟩
  held := holds.held
  kept := holds.kept
  known := holds.known
  fits := holds.fits

end Samples

namespace StreamAudit

variable {F δ : Type} (audit : StreamAudit F δ) {budget : Nat}

/-- The samples in lines of records. -/
def samplesIn (lines : List (List UInt8)) : List (String × F) :=
  (lines.filterMap audit.decodeEnvelope).filterMap audit.latencySample

theorem samples_in_append (lines more : List (List UInt8)) :
    audit.samplesIn (lines ++ more) = audit.samplesIn lines ++ audit.samplesIn more := by
  rw [samplesIn, filterMap_append, filterMap_append]
  rfl

/-- The first pass takes the sample of a record that the later passes compute. -/
theorem handle_record_holds
    (holds : Holds budget log acc) (derived : δ) (record : JournalEnvelope) :
    Holds budget (log ++ (audit.latencySample record).toList)
      (audit.handleRecord budget acc derived record).1 := by
  rw [handleRecord, latencySample]
  cases audit.moment record with
  | none =>
    rw [Option.bind_eq_bind, Option.bind_none, Option.toList_none, append_nil]
    exact holds.of_facts rfl rfl
  | some moment =>
    have timed : Holds budget log { acc with toStreamFacts := noteSecond acc.toStreamFacts moment } :=
      holds.of_facts rfl rfl
    rw [Option.bind_eq_bind, Option.bind_some]
    cases audit.latencyKey record with
    | none =>
      rw [Option.bind_eq_bind, Option.bind_none, Option.toList_none, append_nil]
      exact timed
    | some key =>
      rw [Option.bind_eq_bind, Option.bind_some]
      dsimp only
      cases audit.latency record moment with
      | none =>
        rw [Option.bind_eq_bind, Option.bind_none, Option.toList_none, append_nil]
        exact timed.of_facts rfl rfl
      | some latency =>
        have placed : Holds budget log { acc with
            toStreamFacts := noteSpan (noteSecond acc.toStreamFacts moment) key record } :=
          holds.of_facts rfl rfl
        exact holds_add placed key latency

theorem process_line_holds {log : List (String × F)} {pass : FilePass F δ} (holds : Holds budget log pass.acc)
    (line : List UInt8) :
    Holds budget (log ++ audit.samplesIn [line]) (audit.processLine budget pass line).acc := by
  rw [processLine, samplesIn]
  split_ifs with blank
  · simpa [audit.decode_blank line blank] using holds
  · cases read : audit.decodeEnvelope line with
    | none => simpa [read] using holds
    | some record =>
      have handled := audit.handle_record_holds holds pass.derived record
      cases sample : audit.latencySample record <;> simpa [read, sample] using handled

/-- At every line of the first pass. -/
theorem process_lines_holds {log : List (String × F)} {pass : FilePass F δ} (holds : Holds budget log pass.acc)
    (lines : List (List UInt8)) :
    Holds budget (log ++ audit.samplesIn lines) (lines.foldl (audit.processLine budget) pass).acc := by
  induction lines generalizing log pass with
  | nil => simpa [samplesIn] using holds
  | cons line rest ih =>
    have later := ih (audit.process_line_holds holds line)
    rwa [append_assoc, ← samples_in_append] at later

theorem process_file_holds (holds : Holds budget log state.1) (file : JournalFile) :
    Holds budget (log ++ audit.samplesIn (file.blobs.flatMap splitNewlines))
      (audit.processFile budget state file).1 := by
  exact (audit.process_lines_holds holds (file.blobs.flatMap splitNewlines)).of_facts rfl rfl

theorem process_files_holds (holds : Holds budget log state.1) (files : List JournalFile) :
    Holds budget (log ++ audit.samplesIn (files.flatMap (·.blobs.flatMap splitNewlines)))
      (files.foldl (audit.processFile budget) state).1 := by
  induction files generalizing log state with
  | nil => simpa [samplesIn] using holds
  | cons file rest ih =>
    rw [flatMap_cons, samples_in_append, ← append_assoc]
    exact ih (audit.process_file_holds holds file)

/-- After the first pass. -/
theorem read_files_holds (derived : δ) (files : List JournalFile) :
    Holds budget (audit.samplesIn (files.flatMap (·.blobs.flatMap splitNewlines)))
      (audit.readFiles budget derived files).1 := by
  have start : Holds budget [] (({}, derived) : StreamAccumulator F × δ).1 := holds_nothing budget
  exact audit.process_files_holds start files

/-- Without carriage returns another pass finds the samples of the first. -/
theorem rescan_eq (plain : ∀ file ∈ files, ∀ blob ∈ file.blobs, 13 ∉ blob) :
    audit.rescan files = audit.samplesIn (files.flatMap (·.blobs.flatMap splitNewlines)) := by
  rw [rescan]
  congr 1
  rw [filterMap_flatMap, filterMap_flatMap]
  refine flatMap_congr fun file held => ?_
  rw [filterMap_flatMap, filterMap_flatMap]
  refine flatMap_congr fun blob inside => ?_
  exact filterMap_split_lines (audit.decode_blank [] rfl) (plain file held blob inside)

/-! ### What does not depend on the budget -/

section Facts

variable {other : Nat}

private theorem handle_record_facts (same : acc.toStreamFacts = acc'.toStreamFacts)
    (derived : δ) (record : JournalEnvelope) :
    (audit.handleRecord budget acc derived record).1.toStreamFacts =
        (audit.handleRecord other acc' derived record).1.toStreamFacts ∧
      (audit.handleRecord budget acc derived record).2 = (audit.handleRecord other acc' derived record).2 := by
  rw [handleRecord, handleRecord]
  cases audit.moment record with
  | none => exact ⟨by simp only [same], rfl⟩
  | some moment =>
    rw [same]
    cases audit.latencyKey record with
    | none => exact ⟨rfl, rfl⟩
    | some key =>
      dsimp only
      cases audit.latency record moment with
      | none => exact ⟨rfl, rfl⟩
      | some latency => exact ⟨by rw [add_sample_facts, add_sample_facts], rfl⟩

/-- Two passes that agree in all but the samples. -/
private structure Alike (one other : FilePass F δ) : Prop where
  facts : one.acc.toStreamFacts = other.acc.toStreamFacts
  derived : one.derived = other.derived
  rows : one.fileRows = other.fileRows
  truncated : one.truncated = other.truncated

private theorem process_line_alike {pass pass' : FilePass F δ} (alike : Alike pass pass') (line : List UInt8) :
    Alike (audit.processLine budget pass line) (audit.processLine other pass' line) := by
  rw [processLine, processLine]
  split_ifs
  · exact alike
  · cases audit.decodeEnvelope line with
    | none => exact ⟨alike.facts, alike.derived, alike.rows, rfl⟩
    | some record =>
      obtain ⟨facts, rest⟩ := audit.handle_record_facts alike.facts pass.derived record
      refine ⟨?_, ?_, ?_, ?_⟩ <;> dsimp only <;> rw [← alike.derived]
      · exact facts
      · rw [rest]
      · rw [rest, alike.rows]
      · rw [rest, alike.truncated]

private theorem process_file_alike
    (alike : state.1.toStreamFacts = state'.1.toStreamFacts ∧ state.2 = state'.2) (file : JournalFile) :
    (audit.processFile budget state file).1.toStreamFacts =
        (audit.processFile other state' file).1.toStreamFacts ∧
      (audit.processFile budget state file).2 = (audit.processFile other state' file).2 := by
  have lines : Alike (audit.processLines budget state (file.blobs.flatMap splitNewlines))
      (audit.processLines other state' (file.blobs.flatMap splitNewlines)) :=
    foldl_rel ⟨alike.1, alike.2, rfl, rfl⟩ fun line _ _ _ before => audit.process_line_alike before line
  rw [processFile, processFile]
  exact ⟨by simp only [lines.facts, lines.rows, lines.truncated], lines.derived⟩

theorem read_files_facts (derived : δ) (files : List JournalFile) :
    (audit.readFiles budget derived files).1.toStreamFacts =
      (audit.readFiles other derived files).1.toStreamFacts := by
  have alike := foldl_rel (l := files) (f := audit.processFile budget) (g := audit.processFile other)
    (r := fun state state' => state.1.toStreamFacts = state'.1.toStreamFacts ∧ state.2 = state'.2)
    (a := ({}, derived)) (b := ({}, derived)) ⟨rfl, rfl⟩
    fun file _ _ _ before => audit.process_file_alike before file
  exact alike.1

end Facts

/-! ### The statistics of every key -/

section Finals

variable [LinearOrder F] [Zero F]

/-- Samples have a median, a greatest and a least one. -/
theorem finalize_filled (minute : String) {samples : List F} (filled : samples ≠ []) :
    ∃ entry, finalizeMinute minute samples = .ok entry := by
  have sorted : samples.insertionSort (· ≤ ·) ≠ [] := by
    intro empty
    have := length_insertionSort (· ≤ ·) samples
    rw [empty] at this
    exact filled (eq_nil_of_length_eq_zero this.symm)
  have inside : ((samples.insertionSort (· ≤ ·)).length - 1) / 2 < (samples.insertionSort (· ≤ ·)).length := by
    have := length_pos_of_ne_nil sorted
    omega
  rw [finalizeMinute, getElem?_eq_getElem inside, getLast?_eq_some_getLast sorted, head?_eq_some_head sorted]
  exact ⟨_, rfl⟩

/-- These keys, and no others, have the statistics of all their samples. -/
def Settled (log : List (String × F)) (settled : String → Prop) (final : Dict String (LatencyMinute F)) : Prop :=
  ∀ key, (settled key → ∃ entry, finalizeMinute key (valuesOf key log) = .ok entry ∧ final.get? key = some entry) ∧
    (¬ settled key → final.get? key = none)

variable {log : List (String × F)}

theorem settled_congr {one other : String → Prop} (same : ∀ key, one key ↔ other key)
    (settled : Settled log one final) : Settled log other final :=
  fun key => by
    rw [← same]
    exact settled key

theorem settled_unique {done : String → Prop}
    (settled : Settled log done final) (settled' : Settled log done final') (key : String) :
    final.get? key = final'.get? key := by
  by_cases isDone : done key
  · obtain ⟨entry, finalized, found⟩ := (settled key).1 isDone
    obtain ⟨entry', finalized', found'⟩ := (settled' key).1 isDone
    rw [finalized] at finalized'
    cases finalized'
    rw [found, found']
  · rw [(settled key).2 isDone, (settled' key).2 isDone]

theorem settled_set {done : String → Prop} (settled : Settled log done final)
    (finalized : finalizeMinute key (valuesOf key log) = .ok entry) :
    Settled log (fun probe => done probe ∨ probe = key) (final.set key entry) := by
  intro probe
  rw [Dict.get?_set]
  split_ifs with own
  · rw [own]
    exact ⟨fun _ => ⟨entry, finalized, rfl⟩, fun not => absurd (.inr rfl) not⟩
  · simp only [own, or_false]
    exact settled probe

private theorem finalize_entries {entries : List (String × List F)}
    (values : ∀ entry ∈ entries, entry.2 = valuesOf entry.1 log ∧ entry.2 ≠ [])
    {done : String → Prop} (settled : Settled log done final) :
    ∃ after, entries.foldlM (fun final entry => do
        return final.set entry.1 (← finalizeMinute entry.1 entry.2)) final = Except.ok after ∧
      Settled log (fun key => done key ∨ key ∈ entries.map Prod.fst) after := by
  induction entries generalizing done final with
  | nil => exact ⟨final, rfl, settled_congr (by simp) settled⟩
  | cons entry rest ih =>
    obtain ⟨⟨all, filled⟩, later⟩ := forall_mem_cons.mp values
    obtain ⟨stats, finalized⟩ := finalize_filled entry.1 filled
    obtain ⟨after, run, settled⟩ := ih later (settled_set settled (all ▸ finalized))
    refine ⟨after, ?_, settled_congr (by simp [or_assoc]) settled⟩
    rw [foldlM_cons, finalized]
    exact run

omit [LinearOrder F] [Zero F] in
private theorem collected_from (wanted : List String) (scanned : List (String × F))
    (collected : Dict String (List F)) (key : String) :
    ((scanned.foldl (fun collected item =>
        if wanted.contains item.1 then
          collected.set item.1 ((collected.get? item.1).getD [] ++ [item.2])
        else collected) collected).get? key).getD [] =
      (collected.get? key).getD [] ++ if key ∈ wanted then valuesOf key scanned else [] := by
  induction scanned generalizing collected with
  | nil => simp [valuesOf]
  | cons item rest ih =>
    rw [foldl_cons, ih]
    have split : valuesOf key (item :: rest) = (if item.1 = key then [item.2] else []) ++ valuesOf key rest := by
      by_cases own : item.1 = key <;> simp [valuesOf, own]
    rw [split]
    by_cases own : item.1 = key
    · subst own
      by_cases listed : item.1 ∈ wanted <;> simp [listed]
    · by_cases listed : item.1 ∈ wanted
      · simp [listed, own, Dict.get?_set_of_ne (Ne.symm own)]
      · simp [listed, own]

omit [LinearOrder F] [Zero F] in
theorem collect_get? (wanted : List String) (scanned : List (String × F)) (key : String) :
    ((collect wanted scanned).get? key).getD [] = if key ∈ wanted then valuesOf key scanned else [] := by
  rw [collect, collected_from]
  rfl

private theorem settle_batch {counts : Dict String Nat}
    (counted : ∀ key, (counts.get? key).getD 0 = (valuesOf key log).length)
    {batch : List String} (distinct : batch.Nodup) (filled : ∀ key ∈ batch, valuesOf key log ≠ [])
    (found : ∀ key ∈ batch, (collected.get? key).getD [] = valuesOf key log)
    {done : String → Prop} (settled : Settled log done final) :
    ∃ after, batch.foldlM (settle counts) (collected, final) = Except.ok after ∧
      Settled log (fun key => done key ∨ key ∈ batch) after.2 := by
  induction batch generalizing collected done final with
  | nil => exact ⟨(collected, final), rfl, settled_congr (by simp) settled⟩
  | cons minute rest ih =>
    obtain ⟨fresh, distinct⟩ := nodup_cons.mp distinct
    obtain ⟨here, later⟩ := forall_mem_cons.mp found
    obtain ⟨stats, finalized⟩ := finalize_filled minute (forall_mem_cons.mp filled).1
    have left : ∀ key ∈ rest, ((collected.erase minute).get? key).getD [] = valuesOf key log := by
      intro key listed
      have apart : key ≠ minute := fun same => fresh (same ▸ listed)
      rw [Dict.get?_erase, if_neg apart, later key listed]
    obtain ⟨after, run, settled⟩ := ih distinct (forall_mem_cons.mp filled).2 left
      (settled_set settled finalized)
    refine ⟨after, ?_, settled_congr (by simp [or_assoc]) settled⟩
    have step : settle counts (collected, final) minute =
        .ok (collected.erase minute, final.set minute stats) := by
      rw [settle]
      rw [here, counted, if_neg (by simp), finalized]
      rfl
    rw [foldlM_cons, step]
    exact run

private theorem collect_deferred_settles {budget : Nat} {counts : Dict String Nat}
    (counted : ∀ key, (counts.get? key).getD 0 = (valuesOf key log).length)
    {deferred : List String} (distinct : deferred.Nodup) (filled : ∀ key ∈ deferred, valuesOf key log ≠ [])
    {done : String → Prop} {final : Dict String (LatencyMinute F)} (settled : Settled log done final) :
    ∃ after, collectDeferred budget counts log final deferred = .ok after ∧
      Settled log (fun key => done key ∨ key ∈ deferred) after := by
  induction size : deferred.length using Nat.strong_induction_on generalizing deferred done final with
  | h length ih =>
    cases deferred with
    | nil => exact ⟨final, by rw [collectDeferred], settled_congr (by simp) settled⟩
    | cons minute rest =>
      have shrinks := take_batch_shrinks budget counts minute rest
      obtain ⟨taken, front, whole⟩ := take_batch_split budget counts [] 0 (minute :: rest)
      rw [nil_append] at front
      rw [← whole] at distinct filled
      have found : ∀ key ∈ taken, ((collect taken log).get? key).getD [] = valuesOf key log := by
        intro key listed
        rw [collect_get?, if_pos listed]
      obtain ⟨batched, run, settled⟩ := settle_batch counted distinct.of_append_left
        (fun key listed => filled key (mem_append_left _ listed)) found settled
      obtain ⟨after, rerun, settled⟩ := ih _ (size ▸ shrinks) distinct.of_append_right
        (fun key listed => filled key (mem_append_right _ listed)) settled rfl
      refine ⟨after, ?_, settled_congr (fun key => ?_) settled⟩
      · rw [collectDeferred, front, run]
        exact rerun
      · have both : key ∈ minute :: rest ↔
            key ∈ taken ∨ key ∈ (takeBatch budget counts [] 0 (minute :: rest)).2 := by
          rw [← mem_append, whole]
        rw [both, or_assoc]

private theorem finalize_held_settles {acc : StreamAccumulator F} (holds : Holds budget log acc) :
    ∃ final, finalizeHeld acc = .ok final ∧ Settled log (fun key => (acc.samples.get? key).isSome) final := by
  have values : ∀ entry ∈ acc.samples.entries.reverse, entry.2 = valuesOf entry.1 log ∧ entry.2 ≠ [] := by
    intro entry listed
    obtain ⟨all, filled, -⟩ := holds.held entry.1 entry.2 (Dict.mem_entries_iff.mp (mem_reverse.mp listed))
    exact ⟨all, filled⟩
  have nothing : Settled log (fun _ => False) ∅ := fun key => ⟨False.elim, fun _ => rfl⟩
  obtain ⟨final, run, settled⟩ := finalize_entries values nothing
  refine ⟨final, run, settled_congr (fun key => ?_) settled⟩
  rw [false_or, map_reverse, mem_reverse]
  exact Dict.mem_keys_iff

variable (budget) in
/-- Every key that was sampled has the statistics of all its samples. -/
theorem finals_settled (derived : δ) {files : List JournalFile}
    (plain : ∀ file ∈ files, ∀ blob ∈ file.blobs, 13 ∉ blob) :
    ∃ final, audit.finals budget derived files = .ok final ∧
      Settled (audit.rescan files) (· ∈ (audit.readFiles budget derived files).1.order) final := by
  have holds := @read_files_holds F δ audit budget derived files
  rw [← audit.rescan_eq plain] at holds
  rw [finals]
  generalize (audit.readFiles budget derived files).1 = acc at holds
  obtain ⟨held, run, settled⟩ := finalize_held_settles holds
  have given : ∀ key, held.contains key = (acc.samples.get? key).isSome := by
    intro key
    by_cases present : (acc.samples.get? key).isSome
    · obtain ⟨entry, -, found⟩ := (settled key).1 present
      simp [Dict.contains, found, present]
    · simp [Dict.contains, (settled key).2 present, present]
  obtain ⟨final, rerun, settled⟩ := @collect_deferred_settles F _ _ _ budget _ holds.counted.counted _
    (holds.counted.distinct.filter fun minute => !held.contains minute)
    (fun key listed => (holds.counted.listed key).mp (mem_of_mem_filter listed)) _ _ settled
  refine ⟨final, ?_, settled_congr (fun key => ?_) settled⟩
  · simp only [run]
    exact rerun
  · -- what is held was sampled
    have sampled : (acc.samples.get? key).isSome → key ∈ acc.order := by
      intro present
      obtain ⟨values, found⟩ := Option.isSome_iff_exists.mp present
      obtain ⟨rfl, filled, -⟩ := holds.held key values found
      exact (holds.counted.listed key).mpr filled
    rw [mem_filter, given]
    cases present : (acc.samples.get? key).isSome with
    | false => simp
    | true => simpa using sampled present

omit [LinearOrder F] [Zero F] in
/-- Parts are made in the order of the keys, not in that of their settlement. -/
theorem minute_parts_congr {final final' : Dict String (LatencyMinute F)}
    (same : ∀ key, final.get? key = final'.get? key) (facts : StreamFacts) :
    minuteParts facts final = minuteParts facts final' := by
  have keys : final.keys.Perm final'.keys := by
    refine (perm_ext_iff_of_nodup final.keys_nodup final'.keys_nodup).mpr fun key => ?_
    rw [Dict.mem_keys_iff, Dict.mem_keys_iff, same]
  have sorted : final.keys.insertionSort (· ≤ ·) = final'.keys.insertionSort (· ≤ ·) := by
    refine List.Perm.eq_of_pairwise (fun _ _ _ _ => String.le_antisymm) (pairwise_insertionSort _ _)
      (pairwise_insertionSort _ _) ?_
    exact (perm_insertionSort _ _).trans (keys.trans (perm_insertionSort _ _).symm)
  rw [minuteParts, minuteParts, sorted]
  simp only [same]

theorem finish_stream_congr {final final' : Dict String (LatencyMinute F)}
    (same : ∀ key, final.get? key = final'.get? key) (facts : StreamFacts) (status : AuditStatus) (reason : String) :
    audit.finishStream facts final status reason = audit.finishStream facts final' status reason := by
  rw [finishStream, finishStream, minute_parts_congr same]

/-- The report does not depend on the budget: files that do not change, without carriage returns,
give the same statistics for every key and the same report, the samples counted are always found
again, and at every line of the first pass what is held fits into the budget. -/
theorem latency_budget_free (derived : δ) (files : List JournalFile)
    (plain : ∀ file ∈ files, ∀ blob ∈ file.blobs, 13 ∉ blob) (one other : Nat) :
    (∃ final final', audit.finals one derived files = .ok final ∧
      audit.finals other derived files = .ok final' ∧ ∀ key, final.get? key = final'.get? key) ∧
    (∃ report, audit.processStream one derived files = .ok report ∧
      audit.processStream other derived files = .ok report) ∧
    ∀ before file after, files = before ++ file :: after →
      ∀ lines, lines <+: file.blobs.flatMap splitNewlines →
        (audit.processLines one (audit.readFiles one derived before) lines).acc.storedBytes ≤ one := by
  obtain ⟨final, run, settled⟩ := audit.finals_settled one derived plain
  obtain ⟨final', run', settled'⟩ := audit.finals_settled other derived plain
  have facts := @read_files_facts F δ audit one other derived files
  rw [facts] at settled
  have same := settled_unique settled settled'
  refine ⟨⟨final, final', run, run', same⟩, ?_, ?_⟩
  · rw [processStream, processStream, run, run', facts]
    simp only [bind, Except.bind, audit.finish_stream_congr same]
    split_ifs <;> exact ⟨_, rfl, rfl⟩
  · intro before file after _ lines _
    exact (audit.process_lines_holds (audit.read_files_holds derived before) lines).fits

end Finals

end StreamAudit

/-- Latency in nanoseconds, minutes numbered from the epoch, and nothing but latency audited. -/
def quoteAudit : StreamAudit Int Unit where
  stream := "H0STASP0"
  decodeEnvelope := decodeEnvelope fun _ => none
  decode_blank _ := decode_envelope_blank _
  tickChetime _ := none
  eventEpoch moment := moment.hour.val * 3600 + moment.minute.val * 60 + moment.second.val
  kstMinute second := some (String.ofList (Nat.toDigits 10 (second / 60).toNat))
  seconds nanos := some nanos
  acceptTick _ _ := ((), false)
  noteSequence _ _ := ()
  openS := 0
  auctionS := 86400
  eventHoleMinS := 60
  maxEventHoles := 10

def quoteLine (recvWallNs eventTime : String) : List UInt8 :=
  encode ("\x7b\"raw\": \"\", \"recv_wall_ns\": ".toList ++ recvWallNs.toList ++
    ", \"exchange_event_time\": \"".toList ++ eventTime.toList ++ "\"\x7d\n".toList)

/-- Two records of different minutes, with a blank line between them. -/
def quoteFile : JournalFile where
  blobs := [quoteLine "61000000000" "000100" ++ 10 :: quoteLine "122000000000" "000200"]
  truncated := false

theorem StreamAudit.quote_budget_free :
    (∀ file ∈ [quoteFile], ∀ blob ∈ file.blobs, 13 ∉ blob) ∧
      quoteAudit.rescan [quoteFile] = [("1|", 1000000000), ("2|", 2000000000)] ∧
      ∃ report, quoteAudit.processStream 0 () [quoteFile] = .ok report ∧
        quoteAudit.processStream 100 () [quoteFile] = .ok report := by
  have plain : ∀ file ∈ [quoteFile], ∀ blob ∈ file.blobs, 13 ∉ blob := by decide +kernel
  refine ⟨plain, by decide +kernel, ?_⟩
  exact (quoteAudit.latency_budget_free () [quoteFile] plain 0 100).2.1

end KrxAlpha.LatencyAudit
