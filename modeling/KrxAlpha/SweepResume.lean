import KrxAlpha.Sweep

/-! Passes that are cut short. A process may die after any record a pass
emits. A pass can be resumed when a visit that is repeated over its own result
does nothing, and one that is repeated over a half-done visit finishes it. -/
namespace KrxAlpha
open List hiding nil

universe u

variable {σ α ρ ε κ ν : Type u}

/-- The state and the items after the first so many records of a pass that
goes through; `part` is how far a single visit has come by then. -/
def sweepCut (visit : σ → α → Visit σ α ρ ε) (part : σ → α → Nat → σ × α) (state : σ) :
    List α → Nat → σ × List α
  | [], _ => (state, [])
  | item :: rest, records =>
    let visited := visit state item
    if records < visited.emitted.length then
      ((part state item records).1, (part state item records).2 :: rest)
    else
      let cut := sweepCut visit part visited.state rest (records - visited.emitted.length)
      (cut.1, visited.item :: cut.2)

/-- A visit to an item already visited does nothing, and a visit to an item
half done does the rest. -/
structure Resumable (visit : σ → α → Visit σ α ρ ε) (part : σ → α → Nat → σ × α) : Prop where
  settled : ∀ state again item, (visit state item).stop = none →
    visit again (visit state item).item = { state := again, item := (visit state item).item }
  finishes : ∀ state item records, (visit state item).stop = none →
    records < (visit state item).emitted.length →
    (visit (part state item records).1 (part state item records).2).state =
        (visit state item).state ∧
      (visit (part state item records).1 (part state item records).2).item =
        (visit state item).item ∧
      (visit (part state item records).1 (part state item records).2).stop = none

section Cut
variable {visit : σ → α → Visit σ α ρ ε} {part : σ → α → Nat → σ × α} {state : σ} {item : α}
  {records : Nat}

theorem sweep_cut_inside (inside : records < (visit state item).emitted.length) (rest : List α) :
    sweepCut visit part state (item :: rest) records =
      ((part state item records).1, (part state item records).2 :: rest) := by
  simp [sweepCut, inside]

theorem sweep_cut_past (past : ¬ records < (visit state item).emitted.length) (rest : List α) :
    sweepCut visit part state (item :: rest) records =
      ((sweepCut visit part (visit state item).state rest
          (records - (visit state item).emitted.length)).1,
        (visit state item).item :: (sweepCut visit part (visit state item).state rest
          (records - (visit state item).emitted.length)).2) := by
  simp [sweepCut, past]

theorem sweep_cut_projection (project : α → β)
    (kept : ∀ state item, project (visit state item).item = project item)
    (partly : ∀ state item records, project (part state item records).2 = project item)
    (state : σ) (items : List α) (records : Nat) :
    (sweepCut visit part state items records).2.map project = items.map project := by
  induction items generalizing state records with
  | nil => rfl
  | cons item rest ih =>
    by_cases inside : records < (visit state item).emitted.length
    · simp [sweep_cut_inside inside, partly]
    · simp [sweep_cut_past inside, kept, ih]

/-- A pass resumed from where it was cut ends where it would have ended. -/
theorem sweep_resume (resumable : Resumable visit part)
    (items : List α) (state : σ) (records : Nat) (went : (sweep visit state items).stop = none) :
    let cut := sweepCut visit part state items records
    (sweep visit cut.1 cut.2).state = (sweep visit state items).state ∧
      (sweep visit cut.1 cut.2).items = (sweep visit state items).items ∧
      (sweep visit cut.1 cut.2).stop = none := by
  induction items generalizing state records with
  | nil => exact ⟨rfl, rfl, rfl⟩
  | cons item rest ih =>
    cases stopped : (visit state item).stop with
    | some err => simp [sweep_cons_stop stopped] at went
    | none =>
      have later : (sweep visit (visit state item).state rest).stop = none := by
        simpa [sweep_cons_next stopped] using went
      by_cases inside : records < (visit state item).emitted.length
      · obtain ⟨same, ended, through⟩ := resumable.finishes state item records stopped inside
        simp only [sweep_cut_inside inside, sweep_cons_next through, sweep_cons_next stopped, same,
          ended]
        exact ⟨trivial, trivial, later⟩
      · -- The visited item is passed over, with the state of the cut behind it.
        have idle := resumable.settled state (sweepCut visit part (visit state item).state rest
          (records - (visit state item).emitted.length)).1 item stopped
        obtain ⟨same, ended, through⟩ := ih (visit state item).state
          (records - (visit state item).emitted.length) later
        have through_item := congrArg Visit.stop idle
        simp only [sweep_cut_past inside, sweep_cons_next through_item, idle,
          sweep_cons_next stopped]
        exact ⟨same, by rw [ended], through⟩

end Cut

namespace Dict

/-- How far a visit to an entry has come. -/
def partEntry (part : σ → ν → Nat → σ × ν) (state : σ) (entry : κ × ν) (records : Nat) :
    σ × (κ × ν) :=
  ((part state entry.2 records).1, (entry.1, (part state entry.2 records).2))

/-- The state and the dictionary after the first so many records of a pass. -/
def sweepCut (visit : σ → ν → Visit σ ν ρ ε) (part : σ → ν → Nat → σ × ν) (state : σ)
    (dict : Dict κ ν) (records : Nat) : σ × Dict κ ν :=
  let cut := KrxAlpha.sweepCut (visitEntry visit) (partEntry part) state dict.entries records
  (cut.1, ⟨cut.2, by
    have same : cut.2.map Prod.fst = dict.entries.map Prod.fst :=
      sweep_cut_projection Prod.fst (fun _ _ => rfl) (fun _ _ _ => rfl) state dict.entries records
    rw [same]
    exact dict.distinct⟩)

variable {visit : σ → ν → Visit σ ν ρ ε} {part : σ → ν → Nat → σ × ν}

theorem keys_sweep_cut (state : σ) (dict : Dict κ ν) (records : Nat) :
    (dict.sweepCut visit part state records).2.keys = dict.keys :=
  sweep_cut_projection Prod.fst (fun _ _ => rfl) (fun _ _ _ => rfl) state dict.entries records

theorem resumable_entry (resumable : Resumable visit part) :
    Resumable (visitEntry visit : σ → κ × ν → Visit σ (κ × ν) ρ ε) (partEntry part) where
  settled state again entry stopped := by
    simp [visitEntry, resumable.settled state again entry.2 stopped]
  finishes state entry records stopped inside := by
    obtain ⟨same, item, through⟩ := resumable.finishes state entry.2 records stopped inside
    exact ⟨same, congrArg (entry.1, ·) item, through⟩

/-- A pass over a dictionary can be resumed when its visits can. -/
theorem sweep_resume (resumable : Resumable visit part) (dict : Dict κ ν) (state : σ)
    (records : Nat) (went : (dict.sweep visit state).stop = none) :
    let cut := dict.sweepCut visit part state records
    (cut.2.sweep visit cut.1).state = (dict.sweep visit state).state ∧
      (cut.2.sweep visit cut.1).items = (dict.sweep visit state).items ∧
      (cut.2.sweep visit cut.1).stop = none := by
  obtain ⟨same, items, through⟩ :=
    KrxAlpha.sweep_resume (resumable_entry resumable) dict.entries state records went
  exact ⟨same, ext_entries items, through⟩

variable [DecidableEq κ]

/-- The loop rule for a pass that is cut short. -/
theorem sweep_cut_invariant (Inv : σ → Dict κ ν → List ρ → Prop)
    (step : ∀ state (now : Dict κ ν) out key value, dict.get? key = some value →
      now.get? key = some value → Inv state now out →
      Inv (visit state value).state (now.set key (visit state value).item)
        (out ++ (visit state value).emitted))
    (partly : ∀ state (now : Dict κ ν) out key value records, dict.get? key = some value →
      now.get? key = some value → Inv state now out → records < (visit state value).emitted.length →
      Inv (part state value records).1 (now.set key (part state value records).2)
        (out ++ (visit state value).emitted.take records))
    (out : List ρ) (start : Inv state dict out)
    (went : (dict.sweep visit state).stop = none) (records : Nat) :
    Inv (dict.sweepCut visit part state records).1 (dict.sweepCut visit part state records).2
      (out ++ (dict.sweep visit state).emitted.take records) := by
  suffices pass : ∀ (items front original : List (κ × ν)) (state : σ) (out : List ρ)
      (now : Dict κ ν) (records : Nat), dict.entries = original ++ items →
      now.entries = front ++ items → Inv state now out →
      (KrxAlpha.sweep (visitEntry visit) state items).stop = none →
      ∃ final : Dict κ ν, final.entries = front ++
          (KrxAlpha.sweepCut (visitEntry visit) (partEntry part) state items records).2 ∧
        Inv (KrxAlpha.sweepCut (visitEntry visit) (partEntry part) state items records).1 final
          (out ++ (KrxAlpha.sweep (visitEntry visit) state items).emitted.take records) by
    obtain ⟨final, shape, holds⟩ := pass dict.entries [] [] state out dict records rfl rfl start went
    have same : final = (dict.sweepCut visit part state records).2 := ext_entries shape
    rw [same] at holds
    exact holds
  intro items
  induction items with
  | nil =>
    intro front original state out now records _ shape holds _
    exact ⟨now, by simpa [KrxAlpha.sweepCut] using shape, by simpa [KrxAlpha.sweepCut] using holds⟩
  | cons entry rest ih =>
    intro front original state out now records source shape holds went
    obtain ⟨key, value⟩ := entry
    have found : now.get? key = some value := get?_of_split shape
    have original_found : dict.get? key = some value := get?_of_split source
    cases stopped : (visitEntry visit state (key, value)).stop with
    | some err => simp [sweep_cons_stop stopped] at went
    | none =>
      rw [sweep_cons_next stopped] at went ⊢
      by_cases inside : records < (visitEntry visit state (key, value)).emitted.length
      · rw [sweep_cut_inside inside, take_append_of_le_length inside.le]
        exact ⟨_, entries_set_at shape,
          partly state now out key value records original_found found holds inside⟩
      · have visited := step state now out key value original_found found holds
        have written : (now.set key (visit state value).item).entries =
            front ++ (key, (visit state value).item) :: rest := entries_set_at shape
        obtain ⟨final, final_shape, final_holds⟩ :=
          ih (front ++ [(key, (visit state value).item)]) (original ++ [(key, value)]) _ _ _
            (records - (visit state value).emitted.length) (by simp [source]) (by simp [written])
            visited went
        rw [sweep_cut_past inside, take_append, take_of_length_le (not_lt.mp inside)]
        refine ⟨final, by simpa [visitEntry] using final_shape, ?_⟩
        rw [← append_assoc]
        exact final_holds

end Dict

/-! ### Passes over lists that differ in items no visit touches -/

/-- Two lists that pair up, in order, but for items of the first that the
second lacks. -/
inductive Thinned (Same : α → α → Prop) (Idle : α → Prop) : List α → List α → Prop where
  | nil : Thinned Same Idle [] []
  | keep {item copy : α} {items copies : List α} (same : Same item copy)
      (rest : Thinned Same Idle items copies) : Thinned Same Idle (item :: items) (copy :: copies)
  | skip {item : α} {items copies : List α} (idle : Idle item)
      (rest : Thinned Same Idle items copies) : Thinned Same Idle (item :: items) copies

theorem Thinned.partner {Same : α → α → Prop} {Idle : α → Prop}
    (thinned : Thinned Same Idle items copies) (member : copy ∈ copies) :
    ∃ item ∈ items, Same item copy := by
  induction thinned with
  | nil => cases member
  | keep same _ ih =>
    rcases mem_cons.mp member with rfl | later
    · exact ⟨_, mem_cons_self, same⟩
    · obtain ⟨item, inside, paired⟩ := ih later
      exact ⟨item, mem_cons_of_mem _ inside, paired⟩
  | skip _ _ ih =>
    obtain ⟨item, inside, paired⟩ := ih member
    exact ⟨item, mem_cons_of_mem _ inside, paired⟩

/-- Passes over thinned lists run in step. -/
theorem sweep_thinned {visit : σ → α → Visit σ α ρ ε} {States : σ → σ → Prop}
    {Same : α → α → Prop} {Idle : α → Prop}
    (step : ∀ {state other item copy}, States state other → Same item copy →
      States (visit state item).state (visit other copy).state ∧
        Same (visit state item).item (visit other copy).item ∧
        (visit state item).stop = (visit other copy).stop)
    (passes : ∀ state item, Idle item → visit state item = { state, item })
    (thinned : Thinned Same Idle items copies) (start : States state other) :
    States (sweep visit state items).state (sweep visit other copies).state ∧
      Thinned Same Idle (sweep visit state items).items (sweep visit other copies).items ∧
      (sweep visit state items).stop = (sweep visit other copies).stop := by
  induction thinned generalizing state other with
  | nil => exact ⟨start, .nil, rfl⟩
  | @keep item copy items copies same rest ih =>
    obtain ⟨states, paired, stops⟩ := step start same
    cases stopped : (visit state item).stop with
    | some err =>
      rw [stopped] at stops
      rw [sweep_cons_stop stopped, sweep_cons_stop stops.symm]
      exact ⟨states, .keep paired rest, rfl⟩
    | none =>
      rw [stopped] at stops
      rw [sweep_cons_next stopped, sweep_cons_next stops.symm]
      obtain ⟨states, thinned, stops⟩ := ih states
      exact ⟨states, .keep paired thinned, stops⟩
  | @skip item items copies idle rest ih =>
    have passed := passes state item idle
    rw [sweep_cons_next (by rw [passed])]
    simp only [passed]
    obtain ⟨states, thinned, stops⟩ := ih start
    exact ⟨states, .skip idle thinned, stops⟩

namespace Dict
variable {Same : ν → ν → Prop} {Idle : ν → Prop}

/-- Entries that pair up by key. -/
abbrev ThinnedEntries (Same : ν → ν → Prop) (Idle : ν → Prop) :
    List (κ × ν) → List (κ × ν) → Prop :=
  Thinned (fun entry copy => copy.1 = entry.1 ∧ Same entry.2 copy.2) (fun entry => Idle entry.2)

private theorem thinned_entries {entries copies : List (κ × ν)}
    (order : (copies.map Prod.fst).Sublist (entries.map Prod.fst))
    (distinct : (entries.map Prod.fst).Nodup)
    (paired : ∀ copy ∈ copies, ∃ value, (copy.1, value) ∈ entries ∧ Same value copy.2)
    (idle : ∀ entry ∈ entries, entry.1 ∉ copies.map Prod.fst → Idle entry.2) :
    ThinnedEntries Same Idle entries copies := by
  induction entries generalizing copies with
  | nil =>
    cases map_eq_nil_iff.mp (sublist_nil.mp order)
    exact .nil
  | cons entry rest ih =>
    obtain ⟨absent, rest_distinct⟩ := nodup_cons.mp distinct
    -- A partner found under another key than the first entry's lies behind it.
    have behind : ∀ {key value}, key ≠ entry.1 → (key, value) ∈ entry :: rest →
        (key, value) ∈ rest := by
      rintro key value different member
      rcases mem_cons.mp member with same | later
      · exact absurd (congrArg Prod.fst same) different
      · exact later
    rcases sublist_cons_iff.mp order with skipped | ⟨keys, shape, later_order⟩
    · have missing : entry.1 ∉ copies.map Prod.fst := fun member => absent (skipped.subset member)
      refine .skip (idle entry mem_cons_self missing) (ih skipped rest_distinct ?_ ?_)
      · intro copy member
        obtain ⟨value, held, same⟩ := paired copy member
        have different : copy.1 ≠ entry.1 := fun equal =>
          missing (equal ▸ mem_map_of_mem member)
        exact ⟨value, behind different held, same⟩
      · exact fun other member => idle other (mem_cons_of_mem _ member)
    · cases copies with
      | nil => cases shape
      | cons copy others =>
        obtain ⟨head, tail⟩ := cons.inj shape
        have missing : entry.1 ∉ others.map Prod.fst := fun member =>
          absent (later_order.subset (tail ▸ member))
        have same : Same entry.2 copy.2 := by
          obtain ⟨value, held, same⟩ := paired copy mem_cons_self
          rcases mem_cons.mp held with equal | later
          · rw [← equal]
            exact same
          · have inside : copy.1 ∈ rest.map Prod.fst := mem_map.mpr ⟨_, later, rfl⟩
            exact absurd (head ▸ inside) absent
        refine .keep ⟨head, same⟩ (ih (tail ▸ later_order) rest_distinct ?_ ?_)
        · intro other member
          obtain ⟨value, held, same⟩ := paired other (mem_cons_of_mem _ member)
          have different : other.1 ≠ entry.1 := fun equal =>
            missing (equal ▸ mem_map_of_mem member)
          exact ⟨value, behind different held, same⟩
        · intro other member unpaired
          apply idle other (mem_cons_of_mem _ member)
          intro inside
          rcases mem_cons.mp inside with equal | later
          · exact absent (head ▸ equal ▸ mem_map_of_mem member)
          · exact unpaired later

variable {dict copies : Dict κ ν}

/-- Passes over two dictionaries whose entries pair up run in step. -/
theorem sweep_thinned {visit : σ → ν → Visit σ ν ρ ε} (States : σ → σ → Prop)
    (step : ∀ {state other value copy}, States state other → Same value copy →
      States (visit state value).state (visit other copy).state ∧
        Same (visit state value).item (visit other copy).item ∧
        (visit state value).stop = (visit other copy).stop)
    (passes : ∀ state value, Idle value → visit state value = { state, item := value })
    (thinned : ThinnedEntries Same Idle dict.entries copies.entries)
    (start : States state other) :
    States (dict.sweep visit state).state (copies.sweep visit other).state ∧
      ThinnedEntries Same Idle (dict.sweep visit state).items.entries
        (copies.sweep visit other).items.entries ∧
      (dict.sweep visit state).stop = (copies.sweep visit other).stop := by
  refine KrxAlpha.sweep_thinned ?_ ?_ thinned start
  · rintro state other entry copy states ⟨key, same⟩
    obtain ⟨states, same, stops⟩ := step states same
    exact ⟨states, ⟨key, same⟩, stops⟩
  · intro state entry idle
    simp [visitEntry, passes state entry.2 idle]

variable [DecidableEq κ]

theorem thinned (order : copies.keys.Sublist dict.keys)
    (paired : ∀ key copy, copies.get? key = some copy →
      ∃ value, dict.get? key = some value ∧ Same value copy)
    (idle : ∀ key value, dict.get? key = some value → copies.get? key = none → Idle value) :
    ThinnedEntries Same Idle dict.entries copies.entries := by
  refine thinned_entries order dict.distinct ?_ ?_
  · intro copy member
    obtain ⟨value, found, same⟩ := paired copy.1 copy.2 (mem_entries_iff.mp member)
    exact ⟨value, mem_entries_iff.mpr found, same⟩
  · exact fun entry member missing =>
      idle entry.1 entry.2 (mem_entries_iff.mp member) (get?_eq_none.mpr missing)

theorem thinned_partner
    (thinned : ThinnedEntries Same Idle dict.entries copies.entries)
    (found : copies.get? key = some copy) : ∃ value, dict.get? key = some value ∧ Same value copy := by
  obtain ⟨entry, member, same_key, same⟩ := thinned.partner (mem_entries_iff.mpr found)
  subst same_key
  exact ⟨entry.2, mem_entries_iff.mp member, same⟩

end Dict
end KrxAlpha
