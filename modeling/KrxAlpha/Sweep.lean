import KrxAlpha.Dict

/-! One pass over a container that threads a state, may rewrite every item in
place, emits records and may stop. A stop keeps the item it happened at, as
far as it was rewritten, and leaves every later item as it was: the behaviour
of an imperative loop that mutates its items and raises midway. -/
namespace KrxAlpha

universe u

/-- What visiting one item did. -/
structure Visit (σ α ρ ε : Type u) where
  state : σ
  item : α
  emitted : List ρ := []
  stop : Option ε := none

/-- What a whole pass did, over a container `χ` of items. -/
structure Swept (σ χ ρ ε : Type u) where
  state : σ
  items : χ
  emitted : List ρ
  stop : Option ε

variable {σ α ρ ε κ ν : Type u}

def sweep (visit : σ → α → Visit σ α ρ ε) (state : σ) : List α → Swept σ (List α) ρ ε
  | [] => ⟨state, [], [], none⟩
  | item :: rest =>
    let visited := visit state item
    match visited.stop with
    | some err => ⟨visited.state, visited.item :: rest, visited.emitted, some err⟩
    | none =>
      let swept := sweep visit visited.state rest
      ⟨swept.state, visited.item :: swept.items, visited.emitted ++ swept.emitted, swept.stop⟩

@[simp] theorem sweep_nil (visit : σ → α → Visit σ α ρ ε) (state : σ) :
    sweep visit state [] = ⟨state, [], [], none⟩ := rfl

variable {visit : σ → α → Visit σ α ρ ε}

theorem sweep_cons_stop
    (stopped : (visit state item).stop = some err) (rest : List α) :
    sweep visit state (item :: rest) =
      ⟨(visit state item).state, (visit state item).item :: rest, (visit state item).emitted,
        some err⟩ := by
  simp [sweep, stopped]

theorem sweep_cons_next
    (went : (visit state item).stop = none) (rest : List α) :
    sweep visit state (item :: rest) =
      ⟨(sweep visit (visit state item).state rest).state,
        (visit state item).item :: (sweep visit (visit state item).state rest).items,
        (visit state item).emitted ++ (sweep visit (visit state item).state rest).emitted,
        (sweep visit (visit state item).state rest).stop⟩ := by
  simp [sweep, went]

/-- The loop rule: what one visit preserves, with the items already visited in
front and the untouched ones behind, a whole pass preserves, stopped or not. -/
theorem sweep_invariant (Inv : σ → List α → List ρ → Prop)
    (step : ∀ state front item back out, Inv state (front ++ item :: back) out →
      Inv (visit state item).state (front ++ (visit state item).item :: back)
        (out ++ (visit state item).emitted))
    (front items : List α) (out : List ρ) (start : Inv state (front ++ items) out) :
    Inv (sweep visit state items).state (front ++ (sweep visit state items).items)
      (out ++ (sweep visit state items).emitted) := by
  induction items generalizing state front out with
  | nil => simpa using start
  | cons item rest ih =>
    have visited := step state front item rest out start
    cases stopped : (visit state item).stop with
    | some err => simpa [sweep_cons_stop stopped] using visited
    | none =>
      rw [List.append_cons] at visited
      simpa [sweep_cons_next stopped] using ih _ _ visited

/-- A pass never adds, drops or reorders items. -/
theorem sweep_projection (project : α → β)
    (kept : ∀ state item, project (visit state item).item = project item) (state : σ)
    (items : List α) : (sweep visit state items).items.map project = items.map project := by
  let Inv := fun (_ : σ) (all : List α) (_ : List ρ) => all.map project = items.map project
  have step : ∀ state front item back out, Inv state (front ++ item :: back) out →
      Inv (visit state item).state (front ++ (visit state item).item :: back)
        (out ++ (visit state item).emitted) := by
    intro state front item back out same
    simpa [Inv, kept state item] using same
  have start : Inv state ([] ++ items) [] := rfl
  exact sweep_invariant Inv step [] items [] start

/-- A pass that went through got through every visit. -/
theorem sweep_went (went : (sweep visit state items).stop = none)
    (member : after ∈ (sweep visit state items).items) :
    ∃ item ∈ items, ∃ state, (visit state item).stop = none ∧ (visit state item).item = after := by
  induction items generalizing state with
  | nil => cases member
  | cons item rest ih =>
    cases stopped : (visit state item).stop with
    | some err => simp [sweep_cons_stop stopped] at went
    | none =>
      rw [sweep_cons_next stopped] at went member
      rcases List.mem_cons.mp member with rfl | later
      · exact ⟨item, List.mem_cons_self, state, stopped, rfl⟩
      · obtain ⟨source, inside, visited⟩ := ih went later
        exact ⟨source, List.mem_cons_of_mem _ inside, visited⟩

namespace Dict

/-- A visit to a value, as a visit to its entry. -/
def visitEntry (visit : σ → ν → Visit σ ν ρ ε) (state : σ) (entry : κ × ν) :
    Visit σ (κ × ν) ρ ε :=
  ⟨(visit state entry.2).state, (entry.1, (visit state entry.2).item),
    (visit state entry.2).emitted, (visit state entry.2).stop⟩

/-- The pass over a dictionary's values, in its iteration order. -/
def sweep (visit : σ → ν → Visit σ ν ρ ε) (state : σ) (dict : Dict κ ν) :
    Swept σ (Dict κ ν) ρ ε :=
  let swept := KrxAlpha.sweep (visitEntry visit) state dict.entries
  ⟨swept.state, ⟨swept.items, by
    have same : swept.items.map Prod.fst = dict.entries.map Prod.fst :=
      sweep_projection Prod.fst (fun _ _ => rfl) state dict.entries
    rw [same]
    exact dict.distinct⟩, swept.emitted, swept.stop⟩

theorem keys_sweep (visit : σ → ν → Visit σ ν ρ ε) (state : σ) (dict : Dict κ ν) :
    (dict.sweep visit state).items.keys = dict.keys :=
  sweep_projection Prod.fst (fun _ _ => rfl) state dict.entries

variable [DecidableEq κ]

section Rules
variable {visit : σ → ν → Visit σ ν ρ ε} (Inv : σ → Dict κ ν → List ρ → Prop) {dict : Dict κ ν}

section Ends
variable (Left : ε → σ → Dict κ ν → List ρ → Prop)
  (step : ∀ state (now : Dict κ ν) out key value, dict.get? key = some value →
    now.get? key = some value → Inv state now out → (visit state value).stop = none →
    Inv (visit state value).state (now.set key (visit state value).item)
      (out ++ (visit state value).emitted))
  (stops : ∀ state (now : Dict κ ν) out key value err, dict.get? key = some value →
    now.get? key = some value → Inv state now out → (visit state value).stop = some err →
    Left err (visit state value).state (now.set key (visit state value).item)
      (out ++ (visit state value).emitted))
include step stops

-- The entries in front have been visited, those behind are a suffix of the original ones.
private theorem sweep_pass (items : List (κ × ν)) : ∀ (front original : List (κ × ν)) (state : σ)
    (out : List ρ) (now : Dict κ ν), dict.entries = original ++ items →
    now.entries = front ++ items → Inv state now out →
    let swept := KrxAlpha.sweep (visitEntry visit) state items
    (∃ final : Dict κ ν, final.entries = front ++ swept.items ∧
      swept.stop.elim (Inv swept.state final (out ++ swept.emitted))
        (Left · swept.state final (out ++ swept.emitted))) ∧
    (swept.stop = none → ∀ entry ∈ swept.items,
      ∃ state now out value, dict.get? entry.1 = some value ∧ now.get? entry.1 = some value ∧
        Inv state now out ∧ (visit state value).item = entry.2) := by
  induction items with
  | nil =>
    intro front original state out now _ shape holds
    exact ⟨⟨now, by simpa using shape, by simpa using holds⟩, by simp⟩
  | cons entry rest ih =>
    intro front original state out now source shape holds
    obtain ⟨key, value⟩ := entry
    have found : now.get? key = some value := get?_of_split shape
    have original_found : dict.get? key = some value := get?_of_split source
    have written : (now.set key (visit state value).item).entries =
        front ++ (key, (visit state value).item) :: rest := entries_set_at shape
    cases stopped : (visitEntry visit state (key, value)).stop with
    | some err =>
      rw [sweep_cons_stop stopped]
      exact ⟨⟨_, written, stops state now out key value err original_found found holds stopped⟩,
        fun went => by cases went⟩
    | none =>
      rw [sweep_cons_next stopped]
      obtain ⟨⟨final, final_shape, final_holds⟩, each⟩ :=
        ih (front ++ [(key, (visit state value).item)]) (original ++ [(key, value)]) _ _ _
          (by simp [source]) (by simp [written])
          (step state now out key value original_found found holds stopped)
      refine ⟨⟨final, by simpa [visitEntry] using final_shape, ?_⟩, fun went => ?_⟩
      · rw [← List.append_assoc]
        exact final_holds
      · exact List.forall_mem_cons.mpr
          ⟨⟨state, now, out, value, original_found, found, holds, rfl⟩, each went⟩

/-- The loop rule for a pass whose visits keep an invariant only until one of them stops it:
either the pass went through and the invariant holds, or what its last visit left holds. A visit
overwrites one present key, whose value is still the one the pass started with. -/
theorem sweep_ends (out : List ρ) (start : Inv state dict out) :
    (dict.sweep visit state).stop.elim
      (Inv (dict.sweep visit state).state (dict.sweep visit state).items
        (out ++ (dict.sweep visit state).emitted))
      (Left · (dict.sweep visit state).state (dict.sweep visit state).items
        (out ++ (dict.sweep visit state).emitted)) := by
  obtain ⟨⟨final, shape, holds⟩, -⟩ :=
    sweep_pass Inv Left step stops dict.entries [] [] state out dict rfl rfl start
  have same : final = (dict.sweep visit state).items := ext_entries shape
  rw [same] at holds
  exact holds

end Ends

variable (step : ∀ state (now : Dict κ ν) out key value, dict.get? key = some value →
    now.get? key = some value → Inv state now out →
    Inv (visit state value).state (now.set key (visit state value).item)
      (out ++ (visit state value).emitted))
include step

/-- The loop rule over a dictionary, stopped or not. -/
theorem sweep_invariant (out : List ρ) (start : Inv state dict out) :
    Inv (dict.sweep visit state).state (dict.sweep visit state).items
      (out ++ (dict.sweep visit state).emitted) := by
  have ended := sweep_ends Inv (fun _ => Inv)
    (fun state now out key value source found holds _ => step state now out key value source found holds)
    (fun state now out key value _ source found holds _ => step state now out key value source found holds)
    out start
  cases stopped : (dict.sweep visit state).stop with
  | none => rwa [stopped] at ended
  | some err => rwa [stopped] at ended

/-- A stopped pass was stopped by a visit, in a state the invariant allows. -/
theorem sweep_stop (out : List ρ) (start : Inv state dict out)
    (stopped : (dict.sweep visit state).stop = some err) :
    ∃ state now out key value, dict.get? key = some value ∧ now.get? key = some value ∧
      Inv state now out ∧ (visit state value).stop = some err := by
  have ended := sweep_ends Inv
    (fun err _ _ _ => ∃ state now out key value, dict.get? key = some value ∧
      now.get? key = some value ∧ Inv state now out ∧ (visit state value).stop = some err)
    (fun state now out key value source found holds _ => step state now out key value source found holds)
    (fun state now out key value err source found holds halted =>
      ⟨state, now, out, key, value, source, found, holds, halted⟩) out start
  rwa [stopped] at ended

/-- A pass that went through visited every item, each in a state the invariant
allows. -/
theorem sweep_visited (out : List ρ) (start : Inv state dict out)
    (went : (dict.sweep visit state).stop = none)
    (held : (dict.sweep visit state).items.get? key = some after) :
    ∃ state now out value, dict.get? key = some value ∧ now.get? key = some value ∧
      Inv state now out ∧ (visit state value).item = after :=
  (sweep_pass Inv (fun _ _ _ _ => True)
    (fun state now out key value source found holds _ => step state now out key value source found holds)
    (fun _ _ _ _ _ _ _ _ _ _ => trivial) dict.entries [] [] state out dict rfl rfl start).2 went
      (key, after) (mem_entries_iff.mpr held)

end Rules

variable {visit : σ → ν → Visit σ ν ρ ε}

/-- What a visit may do to its own item, from any state the pass can be in, is
what the whole pass did to each item it holds afterwards. -/
theorem sweep_relation {Reach : σ → Prop} {Rel : ν → ν → Prop}
    (refl : ∀ value, Rel value value)
    (reach : ∀ state value, Reach state → Reach (visit state value).state)
    (step : ∀ state value, Reach state → Rel value (visit state value).item)
    {dict : Dict κ ν} (start : Reach state)
    (found : (dict.sweep visit state).items.get? key = some after) :
    ∃ value, dict.get? key = some value ∧ Rel value after := by
  let Inv := fun (state : σ) (now : Dict κ ν) (_ : List ρ) => Reach state ∧
    ∀ key after, now.get? key = some after → ∃ value, dict.get? key = some value ∧ Rel value after
  have visited : ∀ state (now : Dict κ ν) out key value, dict.get? key = some value →
      now.get? key = some value → Inv state now out →
      Inv (visit state value).state (now.set key (visit state value).item)
        (out ++ (visit state value).emitted) := by
    rintro state now out visited current source present ⟨reached, related⟩
    refine ⟨reach state current reached, fun probe after held => ?_⟩
    by_cases same : probe = visited
    · subst same
      rw [get?_set_self] at held
      cases held
      exact ⟨current, source, step state current reached⟩
    · rw [get?_set_of_ne same] at held
      exact related probe after held
  have begun : Inv state dict [] := ⟨start, fun key value held => ⟨value, held, refl value⟩⟩
  exact (sweep_invariant Inv visited [] begun).2 key after found

theorem sweep_went {dict : Dict κ ν}
    (went : (dict.sweep visit state).stop = none)
    (found : (dict.sweep visit state).items.get? key = some after) :
    ∃ value, dict.get? key = some value ∧
      ∃ state, (visit state value).stop = none ∧ (visit state value).item = after := by
  obtain ⟨⟨source, value⟩, inside, state, through, same⟩ :=
    KrxAlpha.sweep_went went (mem_entries_iff.mpr found)
  cases same
  exact ⟨value, mem_entries_iff.mp inside, state, through, rfl⟩

end Dict
end KrxAlpha
