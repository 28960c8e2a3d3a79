import KrxAlpha.HandoverLeases

/-! A handover gives back the slots of the connections it abandons. Every token it was granted is
held for one of its connections or gone from the ledger, but for a bring-up that loses its lease to
another process: its entry is left to expire. -/
namespace KrxAlpha
open List hiding after

/-! ### The ledger between two calls -/

namespace LeaseWorld

def calls (world : LeaseWorld) : List LeaseCall := world.log.map Prod.fst

/-- No token was drawn twice. -/
def Fresh (world : LeaseWorld) : Prop := (draws world.calls).Nodup

instance decidableFresh (world : LeaseWorld) : Decidable world.Fresh :=
  inferInstanceAs (Decidable (List.Nodup _))

/-- No entry has the token. -/
def Absent (world : LeaseWorld) (token : String) : Prop :=
  ∀ entry ∈ world.file.leases, entry.token ≠ token

/-- The token's entry is a primary one, if it is there. -/
def AsPrimary (world : LeaseWorld) (token : String) : Prop :=
  ∀ entry ∈ world.file.leases, entry.token = token → entry.role = .primary

/-- The ledger began with a missing file. -/
def Reached (ledger : WsLeaseLedger) (world : LeaseWorld) : Prop := world = ledger.run world.calls

end LeaseWorld

section Ledger

variable {ledger : WsLeaseLedger}

theorem step_calls (world : LeaseWorld) (call : LeaseCall) :
    (ledger.step world call).calls = world.calls ++ [call] :=
  map_append

theorem Reached.safe {world : LeaseWorld} (reached : world.Reached ledger) (fresh : world.Fresh) :
    LeasesSafe ledger (draws world.calls) world.file.leases := by
  have leases := (run_safe ledger fresh).leases
  rwa [← reached] at leases

/-- A stored entry was there before, and not as a primary one if it is none, or is new. -/
theorem served_source
    (served : LeaseServed ledger call before after reply) (listed : entry ∈ after) :
    (∃ old ∈ before, old.token = entry.token ∧ (old.role = .primary → entry.role = .primary)) ∨
      (∃ owner role, call.op = .acquire owner role) ∧ entry.token = call.drawn := by
  have kept (old : LeaseEntry) (live : old ∈ WsLeaseLedger.dropExpired before call.now) :
      ∃ old' ∈ before, old'.token = old.token ∧ (old'.role = .primary → old.role = .primary) :=
    ⟨old, (mem_drop_expired.mp live).1, rfl, id⟩
  cases served with
  | failed reason => exact .inl ⟨entry, listed, rfl, id⟩
  | stored change =>
    cases change with
    | denied | lost | absent => exact .inl (kept entry listed)
    | granted new owner op room token =>
      rcases List.mem_append.mp listed with live | added
      · exact .inl (kept entry live)
      · cases List.mem_singleton.mp added
        exact .inr ⟨⟨owner, _, op⟩, token⟩
    | marked front victim back owner op shape =>
      rcases mem_replaced listed with rfl | live
      · exact .inl (kept victim (shape ▸ by simp))
      · exact .inl (kept entry (shape ▸ live))
    | renewed front found back op shape =>
      rcases mem_replaced listed with rfl | live
      · exact .inl (kept found (shape ▸ by simp))
      · exact .inl (kept entry (shape ▸ live))
    | released front found back op shape =>
      refine .inl (kept entry (shape ▸ ?_))
      rcases List.mem_append.mp listed with early | late
      · exact List.mem_append_left _ early
      · exact List.mem_append_right _ (List.mem_cons_of_mem _ late)
    | promoted front found back op shape =>
      rcases mem_replaced listed with rfl | live
      · obtain ⟨old, listed, token, -⟩ := kept found (shape ▸ by simp)
        exact .inl ⟨old, listed, token, fun _ => rfl⟩
      · exact .inl (kept entry (shape ▸ live))

/-- What later calls cannot undo: a token that is gone stays gone, and a primary entry stays one. -/
structure Later (ledger : WsLeaseLedger) (before after : LeaseWorld) : Prop where
  grows : before.calls <+: after.calls
  reached : before.Reached ledger → after.Reached ledger
  absent : after.Fresh → ∀ token ∈ draws before.calls, before.Absent token → after.Absent token
  primary : after.Fresh → ∀ token ∈ draws before.calls, before.AsPrimary token → after.AsPrimary token

namespace Later

variable (world : LeaseWorld)

theorem refl : Later ledger world world :=
  ⟨prefix_rfl, id, fun _ _ _ => id, fun _ _ _ => id⟩

variable {first second third : LeaseWorld}

theorem fresh (later : Later ledger first second) (fresh : second.Fresh) : first.Fresh :=
  fresh.sublist (later.grows.filterMap _).sublist

theorem drawn (later : Later ledger first second) (drawn : token ∈ draws first.calls) :
    token ∈ draws second.calls :=
  (later.grows.filterMap _).subset drawn

theorem trans (before : Later ledger first second) (after : Later ledger second third) :
    Later ledger first third where
  grows := before.grows.trans after.grows
  reached := after.reached ∘ before.reached
  absent fresh token drawn gone :=
    after.absent fresh token (before.drawn drawn) (before.absent (after.fresh fresh) token drawn gone)
  primary fresh token drawn is :=
    after.primary fresh token (before.drawn drawn) (before.primary (after.fresh fresh) token drawn is)

theorem step (call : LeaseCall) : Later ledger world (ledger.step world call) := by
  have old (fresh : (ledger.step world call).Fresh) {token : String} (drawn : token ∈ draws world.calls)
      {entry : LeaseEntry} (listed : entry ∈ (ledger.step world call).file.leases) (here : entry.token = token) :
      ∃ old ∈ world.file.leases, old.token = token ∧ (old.role = .primary → entry.role = .primary) := by
    rcases served_source (serve_cases ledger world.file call) listed with
      ⟨old, was, same, role⟩ | ⟨⟨owner, role, op⟩, new⟩
    · exact ⟨old, was, same.trans here, role⟩
    · rw [LeaseWorld.Fresh, step_calls] at fresh
      exact absurd (new ▸ here ▸ drawn) (undrawn fresh op)
  refine ⟨⟨[call], (step_calls world call).symm⟩, fun reached => ?_, fun fresh token drawn gone entry listed here => ?_,
    fun fresh token drawn primary entry listed here => ?_⟩
  · rw [LeaseWorld.Reached, step_calls, run_snoc, ← reached]
  · obtain ⟨old, was, same, -⟩ := old fresh drawn listed here
    exact gone old was same
  · obtain ⟨old, was, same, role⟩ := old fresh drawn listed here
    exact role (primary old was same)

theorem steps (calls : List LeaseCall) :
    Later ledger world (calls.foldl ledger.step world) := by
  induction calls generalizing world with
  | nil => exact refl world
  | cons call rest ih => exact (step world call).trans (ih _)

end Later

theorem LeasesSafe.unique (safe : LeasesSafe ledger drawn leases) (listed : entry ∈ leases)
    (also : other ∈ leases) (same : entry.token = other.token) : entry = other :=
  inj_on_of_nodup_map safe.distinct listed also same

/-! ### What an answer says -/

namespace LeaseServed

variable {call : LeaseCall} {before after : List LeaseEntry} {token : String} {lease : Lease}

theorem gone (served : LeaseServed ledger call before after .released)
    (op : call.op = .release token) (safe : LeasesSafe ledger drawn before) :
    ∀ entry ∈ after, entry.token ≠ token := by
  cases served with
  | stored change =>
    cases change with
    | absent other released gone =>
      cases LeaseOp.release.inj (op.symm.trans released)
      exact gone
    | released front found back released shape =>
      cases LeaseOp.release.inj (op.symm.trans released)
      have distinct : ((front ++ found :: back).map (·.token)).Nodup :=
        shape ▸ safe.distinct.sublist (filter_sublist.map _)
      intro entry listed same
      rw [map_append, map_cons, nodup_middle, nodup_cons, ← map_append] at distinct
      exact distinct.1 (same ▸ mem_map_of_mem listed)

theorem refused (served : LeaseServed ledger call before after (.renewed false))
    (op : call.op = .renew token) :
    (∀ entry ∈ after, entry.token ≠ token) ∨ ∃ entry ∈ after, entry.token = token ∧ entry.preempt = true := by
  cases served with
  | stored change =>
    cases change with
    | lost other renewed gone =>
      cases LeaseOp.renew.inj (op.symm.trans renewed)
      cases found : (WsLeaseLedger.dropExpired before call.now).find? (·.token = token) with
      | none => exact .inl fun entry listed => by simpa using find?_eq_none.mp found entry listed
      | some entry =>
        exact .inr ⟨entry, mem_of_find?_eq_some found, by simpa using find?_some found,
          gone entry found⟩

section

variable (served : LeaseServed ledger call before after (.granted lease))
include served

theorem acquired (op : call.op = .acquire owner role) :
    lease.token = call.drawn ∧ ∃ entry ∈ after, entry.token = lease.token ∧ entry.role = role := by
  cases served with
  | stored change =>
    cases change with
    | granted entry owner' acquired room token =>
      cases op.symm.trans acquired
      exact ⟨token, entry, mem_append_right _ (mem_singleton_self _), rfl, rfl⟩
    | promoted front entry back promoted => cases op.symm.trans promoted

theorem raised (op : call.op = .promote token) :
    lease.token = token ∧ ∃ entry ∈ after, entry.token = token ∧ entry.role = .primary := by
  cases served with
  | stored change =>
    cases change with
    | granted entry owner acquired => cases op.symm.trans acquired
    | promoted front entry back promoted =>
      cases LeaseOp.promote.inj (op.symm.trans promoted)
      exact ⟨rfl, _, mem_append_right _ mem_cons_self, rfl, rfl⟩

end

end LeaseServed
end Ledger

namespace LeaseHolder

/-- The ledger can be read and written. -/
def Usable (holder : LeaseHolder) : Prop :=
  ∀ turn, (holder.turns turn).readable = true ∧ (holder.turns turn).writable = true

section Calls

variable {holder : LeaseHolder} {state : LeasedHandover} {op : LeaseOp}

/-- The ledger as a call finds it. -/
def found (holder : LeaseHolder) (state : LeasedHandover) : LeaseWorld :=
  (holder.turns state.turn).others.foldl holder.ledger.step state.world

theorem call_later : Later holder.ledger state.world (holder.call state op).1.world :=
  (Later.steps _ _).trans (Later.step _ _)

theorem call_served :
    LeaseServed holder.ledger ((holder.turns state.turn).call op) (holder.found state).file.leases
      (holder.call state op).1.world.file.leases (holder.call state op).2 :=
  serve_cases _ _ _

private theorem primary_only (reached : state.world.Reached holder.ledger)
    (fresh : (holder.call state op).1.world.Fresh)
    (stored : entry ∈ (holder.call state op).1.world.file.leases) (here : entry.token = token)
    (role : entry.role = .primary) : (holder.call state op).1.world.AsPrimary token := by
  intro other listed same
  rwa [(Reached.safe (call_later.reached reached) fresh).unique listed stored (same.trans here.symm)]

theorem release_absent (usable : holder.Usable) (reached : state.world.Reached holder.ledger)
    (fresh : (holder.call state (.release token)).1.world.Fresh) :
    (holder.call state (.release token)).1.world.Absent token := by
  have reply : (holder.call state (.release token)).2 = .released := by
    simp [call, WsLeaseLedger.serve, LedgerTurn.call, usable state.turn, WsLeaseLedger.apply,
      WsLeaseLedger.release]
  have safe := Reached.safe ((Later.steps _ (holder.turns state.turn).others).reached reached)
    ((Later.step _ ((holder.turns state.turn).call (.release token))).fresh fresh)
  exact (reply ▸ call_served).gone rfl safe

theorem renew_refused (refused : (holder.renew state lease).2 = false) :
    (holder.renew state lease).1.world.Absent lease.token ∨
      (holder.renew state lease).1.marked lease.token = true := by
  have reply : (holder.call state (.renew lease.token)).2 = .renewed false := by
    simpa [renew] using refused
  rcases (reply ▸ call_served).refused rfl with gone | ⟨entry, listed, same, preempt⟩
  · exact .inl gone
  · exact .inr (any_eq_true.mpr ⟨entry, listed, by simp [same, preempt]⟩)

theorem acquire_state (role : LeaseRole) :
    (holder.acquire state role).1 = (holder.call state (.acquire holder.owner role)).1 := by
  dsimp only [acquire]
  split <;> rfl

theorem acquire_reply (granted : (holder.acquire state role).2 = some lease) :
    (holder.call state (.acquire holder.owner role)).2 = .granted lease := by
  dsimp only [acquire] at granted
  split at granted
  · cases granted
    assumption
  · cases granted

theorem acquire_granted (granted : (holder.acquire state role).2 = some lease) :
    lease.token ∈ draws (holder.acquire state role).1.world.calls := by
  obtain ⟨token, -⟩ := (acquire_reply granted ▸ call_served).acquired rfl
  have calls : (holder.acquire state role).1.world.calls = (holder.found state).calls ++
      [(holder.turns state.turn).call (.acquire holder.owner role)] := by
    rw [acquire_state]
    exact step_calls _ _
  rw [calls, draws_snoc, token]
  exact mem_append_right _ (mem_singleton_self _)

theorem acquire_primary (granted : (holder.acquire state .primary).2 = some lease)
    (reached : state.world.Reached holder.ledger) (fresh : (holder.acquire state .primary).1.world.Fresh) :
    (holder.acquire state .primary).1.world.AsPrimary lease.token := by
  obtain ⟨-, entry, stored, here, role⟩ := (acquire_reply granted ▸ call_served).acquired rfl
  rw [acquire_state] at fresh ⊢
  exact primary_only reached fresh stored here role

theorem promote_granted {lease raised : Lease}
    (granted : (holder.call state (.promote lease.token)).2 = .granted raised) :
    raised.token = lease.token ∧ (state.world.Reached holder.ledger →
      (holder.call state (.promote lease.token)).1.world.Fresh →
      (holder.call state (.promote lease.token)).1.world.AsPrimary lease.token) := by
  obtain ⟨token, entry, stored, here, role⟩ := (granted ▸ call_served).raised rfl
  exact ⟨token, fun reached fresh => primary_only reached fresh stored here role⟩

end Calls

/-! ### Who holds what -/

/-- Every token granted is held or owed, gone from the ledger, or left there by one of the two ways
in which the handover forgets a bring-up. `owed` are the tokens that have left their field and are
yet to be released. -/
structure Accounted (ledger : WsLeaseLedger) (owed : List String) (state : LeasedHandover) : Prop where
  reached : state.world.Reached ledger
  drawn : ∀ token ∈ state.granted, token ∈ draws state.world.calls
  known : ∀ token, token ∈ state.held ∨ token ∈ owed → token ∈ state.granted
  returned : ∀ token ∈ state.granted, (token ∈ state.held ∨ token ∈ owed) ∨ state.world.Absent token ∨
    token ∈ state.preempted ∨ token ∈ state.replaced
  primary : ∀ lease, state.primaryLease = some lease → state.world.AsPrimary lease.token

theorem mem_held {state : LeasedHandover} :
    token ∈ state.held ↔ state.openingLease.map (·.token) = some token ∨
      state.standbyLease.map (·.token) = some token ∨ state.primaryLease.map (·.token) = some token := by
  simp only [LeasedHandover.held, mem_filterMap, mem_cons, not_mem_nil, or_false,
    exists_eq_or_imp, exists_eq_left]

namespace Accounted

variable {ledger : WsLeaseLedger} {owed left : List String} {state next : LeasedHandover}

section

variable (accounted : Accounted ledger owed state)
include accounted

/-- Calls leave it as it is. -/
theorem later {world : LeaseWorld} (later : Later ledger state.world world)
    (fresh : world.Fresh) (turn : Nat) : Accounted ledger owed { state with world, turn } where
  reached := later.reached accounted.reached
  drawn token granted := later.drawn (accounted.drawn token granted)
  known := accounted.known
  returned token granted := by
    refine (accounted.returned token granted).imp_right (Or.imp_left fun gone => ?_)
    exact later.absent fresh token (accounted.drawn token granted) gone
  primary lease held := by
    have granted := accounted.known lease.token (.inl (mem_held.mpr (.inr (.inr (by rw [held]; rfl)))))
    exact later.primary fresh _ (accounted.drawn _ granted) (accounted.primary lease held)

/-- Leases change hands. -/
theorem moved (world : next.world = state.world)
    (granted : next.granted = state.granted) (preempted : state.preempted ⊆ next.preempted)
    (replaced : state.replaced ⊆ next.replaced)
    (fewer : ∀ token, token ∈ next.held ∨ token ∈ left → token ∈ state.held ∨ token ∈ owed)
    (kept : ∀ token, token ∈ state.held ∨ token ∈ owed → (token ∈ next.held ∨ token ∈ left) ∨
      state.world.Absent token ∨ token ∈ next.preempted ∨ token ∈ next.replaced)
    (primary : ∀ lease, next.primaryLease = some lease → state.world.AsPrimary lease.token) :
    Accounted ledger left next where
  reached := world ▸ accounted.reached
  drawn token given := world ▸ accounted.drawn token (granted ▸ given)
  known token has := granted ▸ accounted.known token (fewer token has)
  returned token given := by
    rw [world]
    rcases accounted.returned token (granted ▸ given) with has | gone | left | left
    · exact kept token has
    · exact .inr (.inl gone)
    · exact .inr (.inr (.inl (preempted left)))
    · exact .inr (.inr (.inr (replaced left)))
  primary lease held := world ▸ primary lease held

theorem handed (handover : Handover) : Accounted ledger owed { state with handover } :=
  ⟨accounted.reached, accounted.drawn, accounted.known, accounted.returned, accounted.primary⟩

/-- A new token is owed a place. -/
theorem grant (drawn : token ∈ draws state.world.calls) :
    Accounted ledger (token :: owed) { state with granted := state.granted ++ [token] } where
  reached := accounted.reached
  drawn := forall_mem_append.mpr ⟨accounted.drawn, by simpa using drawn⟩
  known other has := by
    rcases has with held | owed
    · exact mem_append_left _ (accounted.known other (.inl held))
    · rcases mem_cons.mp owed with rfl | owed
      · exact mem_append_right _ (mem_singleton_self _)
      · exact mem_append_left _ (accounted.known other (.inr owed))
  returned := by
    refine forall_mem_append.mpr ⟨fun other given => ?_, fun other new => ?_⟩
    · exact (accounted.returned other given).imp_left (Or.imp_right (mem_cons_of_mem _))
    · exact .inl (.inr (mem_singleton.mp new ▸ mem_cons_self))
  primary := accounted.primary

/-- The primary lease is changed for another, where it is gone. -/
theorem primary_kept (answer : Option Lease)
    (gone : ∀ token, state.primaryLease.map (·.token) = some token → state.world.Absent token)
    (given : ∀ lease, answer = some lease →
      lease.token ∈ draws state.world.calls ∧ state.world.AsPrimary lease.token) :
    Accounted ledger owed { state with
      primaryLease := answer
      granted := state.granted ++ (answer.map (·.token)).toList } := by
  cases answer with
  | none =>
    refine accounted.moved rfl (append_nil _) (List.Subset.refl _) (List.Subset.refl _) ?_ ?_ (by simp)
    · simp only [mem_held]
      tauto
    · simp only [mem_held]
      intro token
      tauto
  | some lease =>
    obtain ⟨drawn, primary⟩ := given lease rfl
    refine (accounted.grant drawn).moved rfl rfl (List.Subset.refl _) (List.Subset.refl _) ?_ ?_ ?_
    · simp only [mem_held, mem_cons, Option.map_some, Option.some.injEq]
      tauto
    · simp only [mem_held, mem_cons, Option.map_some, Option.some.injEq]
      intro token
      tauto
    · rintro _ ⟨⟩
      exact primary

end

end Accounted

/-- Calls are added, and with fresh tokens what was accounted for still is. -/
def Leads (ledger : WsLeaseLedger) (owed left : List String) (state after : LeasedHandover) : Prop :=
  state.world.calls <+: after.world.calls ∧
    (after.world.Fresh → Accounted ledger owed state → Accounted ledger left after)

namespace Leads

variable {ledger : WsLeaseLedger} {owed left rest : List String} {first second third : LeasedHandover}

theorem trans (before : Leads ledger owed left first second) (after : Leads ledger left rest second third) :
    Leads ledger owed rest first third :=
  ⟨before.1.trans after.1, fun fresh accounted =>
    after.2 fresh (before.2 (fresh.sublist (after.1.filterMap _).sublist) accounted)⟩

theorem refl (state : LeasedHandover) : Leads ledger owed owed state state :=
  ⟨prefix_rfl, fun _ => id⟩

/-- Leases change hands after the calls. -/
theorem moved (before : Leads ledger owed left first second) (world : third.world = second.world)
    (moved : Accounted ledger left second → Accounted ledger rest third) : Leads ledger owed rest first third :=
  ⟨world ▸ before.1, fun fresh accounted => moved (before.2 (world ▸ fresh) accounted)⟩

/-- Tokens go from field to field, or are owed; nothing is called. -/
theorem handed (world : second.world = first.world) (granted : second.granted = first.granted)
    (preempted : second.preempted = first.preempted) (replaced : second.replaced = first.replaced)
    (tokens : ∀ token, token ∈ second.held ∨ token ∈ left ↔ token ∈ first.held ∨ token ∈ owed)
    (primary : second.primaryLease = first.primaryLease ∨ second.primaryLease = none) :
    Leads ledger owed left first second := by
  refine (refl first).moved world fun accounted => ?_
  refine accounted.moved world granted (preempted ▸ List.Subset.refl _) (replaced ▸ List.Subset.refl _)
    (fun token => (tokens token).mp) (fun token has => .inl ((tokens token).mpr has)) fun lease held => ?_
  rcases primary with same | none
  · exact accounted.primary lease (same ▸ held)
  · cases none.symm.trans held

end Leads

section Steps

variable {holder : LeaseHolder} {owed : List String} {state : LeasedHandover}

theorem call_leads : Leads holder.ledger owed owed state (holder.call state op).1 :=
  ⟨call_later.grows, fun fresh accounted => accounted.later call_later fresh _⟩

theorem acquire_leads : Leads holder.ledger owed owed state (holder.acquire state role).1 := by
  rw [acquire_state]
  exact call_leads

theorem release_leads (usable : holder.Usable) (lease : Option Lease) :
    Leads holder.ledger ((lease.map (·.token)).toList ++ owed) owed state (holder.releaseLease state lease) := by
  cases lease with
  | none => exact .refl state
  | some lease =>
    refine ⟨call_later.grows, fun fresh accounted => ?_⟩
    have gone := release_absent usable accounted.reached fresh
    refine (call_leads.2 fresh accounted).moved rfl rfl (List.Subset.refl _) (List.Subset.refl _)
      (fun token has => has.imp_right (mem_append_right _)) (fun token has => ?_)
      (call_leads.2 fresh accounted).primary
    rcases has with held | owed
    · exact .inl (.inl held)
    · rcases mem_append.mp owed with own | owed
      · cases mem_singleton.mp own
        exact .inr (.inl gone)
      · exact .inl (.inr owed)

/-- A new primary lease is kept where the one before it is gone. -/
theorem Accounted.primary_acquired (accounted : Accounted holder.ledger owed state)
    (fresh : (holder.acquirePrimary state).world.Fresh)
    (gone : ∀ token, state.primaryLease.map (·.token) = some token → state.world.Absent token) :
    Accounted holder.ledger owed (holder.acquirePrimary state) := by
  refine (acquire_leads.2 fresh accounted).primary_kept _ ?_ fun lease granted =>
    ⟨acquire_granted granted, acquire_primary granted accounted.reached fresh⟩
  rw [acquirePrimary, acquire_state] at fresh
  rw [acquire_state]
  intro token held
  have granted := accounted.known token (.inl (mem_held.mpr (.inr (.inr held))))
  exact call_later.absent fresh _ (accounted.drawn _ granted) (gone token held)

theorem acquire_primary_leads (none : state.primaryLease = none) :
    Leads holder.ledger owed owed state (holder.acquirePrimary state) := by
  refine ⟨(@acquire_leads holder owed state .primary).1, fun fresh accounted =>
    accounted.primary_acquired fresh fun token held => ?_⟩
  rw [none] at held
  cases held

theorem start_opening_leads (start : Bool → Handover) :
    Leads holder.ledger [] [] state (holder.startOpening state start) := by
  have kept : (holder.acquire state .standby).1.openingLease = state.openingLease := by rw [acquire_state]; rfl
  have asked := @acquire_leads holder [] state .standby
  dsimp only [startOpening]
  split
  · exact asked.moved rfl (·.handed _)
  · rename_i lease granted
    refine asked.moved rfl fun accounted => ?_
    have accounted := accounted.grant (acquire_granted granted)
    refine accounted.moved rfl rfl (List.Subset.refl _) (subset_append_left _ _) ?_ ?_ accounted.primary
    · simp only [mem_held, Option.map_some, Option.some.injEq, mem_cons]
      tauto
    · simp only [mem_held, Option.map_some, Option.some.injEq, mem_cons, mem_append,
        Option.mem_toList, kept]
      tauto

theorem drop_standby_leads (usable : holder.Usable) :
    Leads holder.ledger owed owed state (holder.dropStandby state) := by
  have cleared : Leads holder.ledger owed ((state.standbyLease.map (·.token)).toList ++ owed) state
      { state with handover := state.handover.dropStandby, standbyLease := none } := by
    refine .handed rfl rfl rfl rfl (fun token => ?_) (.inl rfl)
    simp only [mem_held, mem_append, Option.mem_toList]
    tauto
  exact cleared.trans (release_leads usable _)

theorem renew_leads (lease : Lease) : Leads holder.ledger owed owed state (holder.renew state lease).1 :=
  call_leads

theorem renew_standby_leads : Leads holder.ledger owed owed state (holder.renewStandby state).1 := by
  unfold renewStandby
  split
  · exact .refl state
  · exact renew_leads _

theorem tend_opening_leads : Leads holder.ledger owed owed state (holder.tendOpening state).1 := by
  unfold tendOpening
  split
  · exact .refl state
  · rename_i lease held
    split
    · dsimp only
      split
      · exact renew_leads lease
      · rename_i refused
        refine (renew_leads lease).moved rfl fun accounted => ?_
        refine accounted.moved rfl rfl (subset_append_left _ _) (List.Subset.refl _) ?_ ?_ accounted.primary
        · simp only [mem_held]
          tauto
        · rintro token (owns | owed)
          · rcases mem_held.mp owns with opening | standby | primary
            · rw [show (holder.renew state lease).1.openingLease = some lease from held] at opening
              cases opening
              rcases renew_refused (by simpa using refused) with gone | marked
              · exact .inr (.inl gone)
              · exact .inr (.inr (.inl (mem_append_right _ (by rw [if_pos marked]; exact mem_singleton_self _))))
            · exact .inl (.inl (mem_held.mpr (.inr (.inl standby))))
            · exact .inl (.inl (mem_held.mpr (.inr (.inr primary))))
          · exact .inl (.inr owed)
    · exact .refl state

theorem tend_standby_leads (usable : holder.Usable) :
    Leads holder.ledger owed owed state (holder.tendStandby state).1 := by
  dsimp only [tendStandby]
  split_ifs
  · exact renew_standby_leads
  · exact renew_standby_leads.trans (drop_standby_leads usable)

private theorem primary_unmarked
    (safe : LeasesSafe holder.ledger drawn state.world.file.leases) (primary : state.world.AsPrimary token) :
    state.marked token = false := by
  refine any_eq_false.mpr fun entry listed marked => ?_
  simp only [Bool.and_eq_true, decide_eq_true_eq] at marked
  cases (safe.standby entry listed marked.2).symm.trans (primary entry listed marked.1)

theorem tend_primary_leads : Leads holder.ledger owed owed state (holder.tendPrimary state) := by
  unfold tendPrimary
  split
  · rename_i none
    exact acquire_primary_leads none
  · rename_i lease held
    dsimp only
    split_ifs with renewed
    · exact renew_leads lease
    · refine (renew_leads lease).trans ⟨(@acquire_leads holder owed _ .primary).1, fun fresh accounted =>
        accounted.primary_acquired fresh fun token own => ?_⟩
      rw [show (holder.renew state lease).1.primaryLease = some lease from held] at own
      cases own
      refine (renew_refused (by simpa using renewed)).resolve_right fun marked => ?_
      have safe := Reached.safe accounted.reached
        (fresh.sublist ((@acquire_leads holder owed _ .primary).1.filterMap _).sublist)
      rw [primary_unmarked safe (accounted.primary lease held)] at marked
      cases marked

section

variable (usable : holder.Usable)
include usable

theorem tend_leases_leads (answers : StepAnswers) :
    Leads holder.ledger [] [] state (holder.tendLeases state answers) := by
  dsimp only [tendLeases]
  split_ifs
  · exact .refl state
  · refine .trans (tend_opening_leads.trans (tend_standby_leads usable)) (.trans ?_ tend_primary_leads)
    exact ⟨prefix_rfl, fun _ accounted => accounted.handed _⟩

theorem promote_standby_leads (none : state.primaryLease = none) (lease : Option Lease) :
    Leads holder.ledger ((lease.map (·.token)).toList ++ owed) owed state (holder.promoteStandby state lease) := by
  cases lease with
  | none => exact acquire_primary_leads none
  | some lease =>
    dsimp only [promoteStandby]
    split
    · rename_i raised granted
      obtain ⟨token, primary⟩ := promote_granted granted
      refine ⟨call_later.grows, fun fresh accounted => ?_⟩
      refine (call_leads.2 fresh accounted).moved rfl rfl (List.Subset.refl _) (List.Subset.refl _) ?_ ?_ ?_
      · simp only [mem_held, mem_append, Option.mem_toList, Option.map_some, token]
        tauto
      · simp only [mem_held, mem_append, Option.mem_toList, Option.map_some, token]
        rintro token ((opening | standby | own) | promoted | owed)
        · tauto
        · tauto
        · rw [show (holder.call state (.promote lease.token)).1.primaryLease = Option.none from none] at own
          cases own
        · tauto
        · tauto
      · rintro _ ⟨⟩
        rw [token]
        exact primary accounted.reached fresh
    · exact (call_leads.trans (release_leads usable (some lease))).trans (acquire_primary_leads none)

theorem take_over_leads (lease : Option Lease) :
    Leads holder.ledger (lease.map (·.token)).toList [] state (holder.takeOverPrimaryLease state lease) := by
  have cleared : Leads holder.ledger (lease.map (·.token)).toList
      ((lease.map (·.token)).toList ++ ((state.primaryLease.map (·.token)).toList ++ [])) state
      { state with primaryLease := none } := by
    refine .handed rfl rfl rfl rfl (fun token => ?_) (.inr rfl)
    simp only [mem_held, mem_append, Option.mem_toList]
    tauto
  exact (cleared.trans (promote_standby_leads usable rfl lease)).trans (release_leads usable _)

theorem cut_over_leads : Leads holder.ledger [] [] state (holder.cutOver state) := by
  have cleared : Leads holder.ledger [] (state.standbyLease.map (·.token)).toList state
      { state with handover := state.handover.cutOver, standbyLease := none } := by
    refine .handed rfl rfl rfl rfl (fun token => ?_) (.inl rfl)
    simp only [mem_held, Option.mem_toList]
    tauto
  exact cleared.trans (take_over_leads usable _)

theorem cut_when_due_leads (standbyFailed : Bool) (answers : StepAnswers) :
    Leads holder.ledger [] [] state (holder.cutWhenDue state standbyFailed answers).1 := by
  unfold cutWhenDue
  split
  · exact .refl state
  split
  · exact drop_standby_leads usable
  split
  · exact .refl state
  dsimp only
  split
  · exact .refl state
  split
  · exact renew_standby_leads.trans (cut_over_leads usable)
  · exact renew_standby_leads.trans (drop_standby_leads usable)

theorem release_primary_leads :
    Leads holder.ledger [] [] state (holder.releasePrimaryLease state) := by
  have cleared : Leads holder.ledger [] ((state.primaryLease.map (·.token)).toList ++ []) state
      { state with primaryLease := none } := by
    refine .handed rfl rfl rfl rfl (fun token => ?_) (.inr rfl)
    simp only [mem_held, mem_append, Option.mem_toList]
    tauto
  exact cleared.trans (release_leads usable _)

private theorem opening_cleared (handover : Handover) :
    Leads holder.ledger [] [] state
      (holder.releaseLease { state with handover, openingLease := none } state.openingLease) := by
  have cleared : Leads holder.ledger [] ((state.openingLease.map (·.token)).toList ++ []) state
      { state with handover, openingLease := none } := by
    refine .handed rfl rfl rfl rfl (fun token => ?_) (.inl rfl)
    simp only [mem_held, mem_append, Option.mem_toList]
    tauto
  exact cleared.trans (release_leads usable _)

theorem close_leads : Leads holder.ledger [] [] state (holder.close state) := by
  unfold close
  split
  · exact ((opening_cleared usable _).trans (drop_standby_leads usable)).moved rfl (·.handed _)
  · exact (drop_standby_leads usable).moved rfl (·.handed _)

theorem adopt_leads (answers : StepAnswers) :
    Leads holder.ledger [] [] state (holder.adopt state answers) := by
  dsimp only [adopt]
  split
  · split
    · exact .refl state
    · exact opening_cleared usable _
    · refine (Leads.refl state).moved rfl fun accounted => ?_
      refine accounted.moved rfl rfl (List.Subset.refl _) (subset_append_left _ _) ?_ ?_ accounted.primary
      all_goals
        simp only [mem_held, mem_append, Option.mem_toList]
        tauto
  · exact .refl state

end

end Steps

/-! ### Whole runs -/

section Runs

variable {holder : LeaseHolder} {state : LeasedHandover}

theorem refresh_leads (usable : holder.Usable) : Leads holder.ledger [] [] state (holder.refresh state) :=
  (drop_standby_leads usable).trans (start_opening_leads _)

theorem step_leads (usable : holder.Usable) (standbyFailed : Bool) (answers : StepAnswers) :
    Leads holder.ledger [] [] state (holder.step state standbyFailed answers).1 := by
  unfold step
  split
  · exact refresh_leads usable
  · exact ((adopt_leads usable answers).trans (tend_leases_leads usable answers)).trans
      (cut_when_due_leads usable standbyFailed answers)

theorem maybe_start_leads (eligible : Bool) (liveConnections : Int) (answers : StartAnswers) :
    Leads holder.ledger [] [] state (holder.maybeStart state eligible liveConnections answers) := by
  dsimp only [maybeStart]
  split
  · exact start_opening_leads _
  · exact (Leads.refl state).moved rfl (·.handed _)

theorem apply_leads (usable : holder.Usable) (op : LeasedOp) :
    Leads holder.ledger [] [] state (holder.apply state op) := by
  cases op with
  | request => exact (Leads.refl state).moved rfl (·.handed _)
  | receive frame fromStandby => exact (Leads.refl state).moved rfl (·.handed _)
  | maybeStart eligible liveConnections answers => exact maybe_start_leads eligible liveConnections answers
  | step standbyFailed answers => exact step_leads usable standbyFailed answers
  | onPrimaryFailure =>
    dsimp only [apply, onPrimaryFailure]
    split
    · exact .refl state
    · exact cut_over_leads usable
  | close => exact close_leads usable
  | releasePrimaryLease => exact release_primary_leads usable
  | others calls =>
    exact ⟨(Later.steps _ _).grows, fun fresh accounted => accounted.later (Later.steps _ _) fresh _⟩

theorem run_leads (usable : holder.Usable) (ops : List LeasedOp) :
    Leads holder.ledger [] [] state (ops.foldl holder.apply state) := by
  induction ops generalizing state with
  | nil => exact .refl state
  | cons op rest ih => exact (apply_leads usable op).trans ih

theorem start_accounted (leased : Bool) (tendedAt : Int)
    (fresh : (holder.start leased tendedAt).world.Fresh) :
    Accounted holder.ledger [] (holder.start leased tendedAt) := by
  have begun : Accounted holder.ledger [] { handover := { leaseTendedAt := some tendedAt } } :=
    ⟨rfl, nofun, by simp [mem_held], nofun, nofun⟩
  dsimp only [start] at fresh ⊢
  split at fresh
  · rename_i asked
    rw [if_pos asked]
    exact (acquire_primary_leads rfl).2 fresh begun
  · rename_i asked
    rw [if_neg asked]
    exact begun

end Runs

/-- Whatever happens to a handover whose ledger can be read and written, and whatever other processes
do to the ledger: once a connection is abandoned, no entry has its token. This holds for every token
the handover was granted and no longer holds, but for those of a bring-up that was marked for another
process when it was to be renewed, and of a connection whose place was given to another one. -/
theorem abandoned_slots_returned (holder : LeaseHolder) (leased : Bool) (tendedAt : Int) (ops : List LeasedOp)
    (usable : holder.Usable) (fresh : (holder.run leased tendedAt ops).world.Fresh) :
    let after := holder.run leased tendedAt ops
    ∀ token ∈ after.granted, token ∉ after.held → token ∉ after.preempted → token ∉ after.replaced →
      ∀ entry ∈ after.world.file.leases, entry.token ≠ token := by
  intro after token granted unheld unmarked kept
  obtain ⟨grows, accounted⟩ := @run_leads holder (holder.start leased tendedAt) usable ops
  have started := start_accounted leased tendedAt (fresh.sublist (grows.filterMap _).sublist)
  rcases (accounted fresh started).returned token granted with (held | owed) | gone | marked | replaced
  · exact absurd held unheld
  · cases owed
  · exact gone
  · exact absurd marked unmarked
  · exact absurd replaced kept

/-! ### A bring-up that is preempted -/

/-- A process that shares two slots. Another one may ask for a primary slot before its third call. -/
def shard (rival : Bool) : LeaseHolder where
  ledger := ⟨"ls", "main", 2, 30, by decide, by decide⟩
  owner := "shard0"
  settings := { maxS := 75, cooldownS := 15, ledgered := true, leaseRenewS := 10, lasting := by decide }
  ledgered := rfl
  turns turn :=
    { others := if rival && turn == 2 then [⟨.acquire "shard1" .primary, 2, 2, "rival", true, true⟩] else []
      now := turn
      storedAt := turn
      drawn := ["primary", "standby"].getD turn "" }

/-- A standby is brought up and fails. -/
def failing : List LeasedOp :=
  [.request, .maybeStart true 1 {}, .step false { opening := .failed }]

theorem failed_opening_returned :
    "standby" ∈ ((shard false).run true 0 failing).granted ∧
      ∀ entry ∈ ((shard false).run true 0 failing).world.file.leases, entry.token ≠ "standby" := by
  have given : "standby" ∈ ((shard false).run true 0 failing).granted := by decide +kernel
  exact ⟨given, abandoned_slots_returned (shard false) true 0 failing (fun _ => ⟨rfl, rfl⟩)
    (by decide +kernel) "standby" given (by decide +kernel) (by decide +kernel) (by decide +kernel)⟩

/-- The leases are tended while the standby is brought up, then the cancelled bring-up is collected. -/
def cancelled : List LeasedOp :=
  [.request, .maybeStart true 1 {}, .step false { tendedAt := 10 }, .step false { opening := .failed, tendedAt := 11 }]

/-- The bring-up has lost its lease and is gone, but its slot is taken for as long as the lease
would have lasted. -/
theorem preempted_slot_taken :
    (shard true).Usable ∧ ((shard true).run true 0 cancelled).world.Fresh ∧
      "standby" ∈ ((shard true).run true 0 cancelled).granted ∧
      "standby" ∉ ((shard true).run true 0 cancelled).held ∧
      ((shard true).run true 0 cancelled).handover.opening = false ∧
      ((shard true).run true 0 cancelled).turn = 4 ∧
      ∃ entry ∈ ((shard true).run true 0 cancelled).world.file.leases,
        entry.token = "standby" ∧ entry.expiresNs = 31 := by
  refine ⟨fun _ => ⟨rfl, rfl⟩, ?_⟩
  decide +kernel

end LeaseHolder
end KrxAlpha
