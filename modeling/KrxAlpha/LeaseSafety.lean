import KrxAlpha.WsLease
import Mathlib.Data.List.Induction
import Mathlib.Data.List.Nodup
import Mathlib.Data.List.Perm.Subperm
import Mathlib.Order.Nat

/-! Safety of the connection-slot ledger over every order of calls. What one call can do
to the stored leases is said once, by cases; the cap, the single mark and the standing of
the holders follow from it by induction over the calls. -/
namespace KrxAlpha
open List hiding after

theorem change_first_cases (test : LeaseEntry → Bool) (change : LeaseEntry → LeaseEntry)
    (entries : List LeaseEntry) :
    ((∀ entry ∈ entries, test entry = false) ∧ changeFirst test change entries = entries) ∨
      ∃ front found back, entries = front ++ found :: back ∧ test found = true ∧
        entries.find? test = some found ∧
        changeFirst test change entries = front ++ change found :: back := by
  induction entries with
  | nil => exact .inl ⟨by simp, rfl⟩
  | cons entry rest ih =>
    cases passes : test entry with
    | true => exact .inr ⟨[], entry, rest, rfl, passes, by simp [passes], by simp [changeFirst, passes]⟩
    | false =>
      rcases ih with ⟨none, same⟩ | ⟨front, found, back, shape, hit, first, changed⟩
      · exact .inl ⟨by simpa [passes] using none, by simp [changeFirst, passes, same]⟩
      · exact .inr ⟨entry :: front, found, back, by simp [shape], hit, by simp [passes, first],
          by simp [changeFirst, passes, changed]⟩

theorem mem_drop_expired :
    entry ∈ WsLeaseLedger.dropExpired entries now ↔ entry ∈ entries ∧ now < entry.expiresNs := by
  simp [WsLeaseLedger.dropExpired]

/-- The lease a call is about; for a new lease the token drawn for it. -/
def LeaseCall.subject (call : LeaseCall) : String :=
  match call.op with
  | .acquire _ _ => call.drawn
  | .renew token => token
  | .release token => token
  | .promote token => token

section Cases

variable (ledger : WsLeaseLedger)

/-- What a call makes of the unexpired entries, and the answer that goes with it. -/
inductive LeaseChange (call : LeaseCall) (live : List LeaseEntry) :
    List LeaseEntry → LeaseReply → Prop where
  | denied (reason : LeaseDenial) : LeaseChange call live live (.unavailable reason)
  | lost (token : String) (op : call.op = .renew token)
      (gone : ∀ entry, live.find? (·.token = token) = some entry → entry.preempt = true) :
      LeaseChange call live live (.renewed false)
  | absent (token : String) (op : call.op = .release token)
      (gone : ∀ entry ∈ live, entry.token ≠ token) : LeaseChange call live live .released
  | granted (entry : LeaseEntry) (owner : String) (op : call.op = .acquire owner entry.role)
      (room : live.length < ledger.cap) (token : entry.token = call.drawn)
      (unmarked : entry.preempt = false) (expires : entry.expiresNs = call.now + ledger.ttlNs) :
      LeaseChange call live (live ++ [entry]) (.granted (ledger.lease entry))
  | marked (front : List LeaseEntry) (victim : LeaseEntry) (back : List LeaseEntry) (owner : String)
      (op : call.op = .acquire owner .primary) (shape : live = front ++ victim :: back)
      (standby : victim.role = .standby)
      (unmarked : ∀ entry ∈ live, entry.role = .standby → entry.preempt = false) :
      LeaseChange call live (front ++ { victim with preempt := true } :: back)
        (.unavailable .preemptPending)
  | renewed (front : List LeaseEntry) (entry : LeaseEntry) (back : List LeaseEntry)
      (op : call.op = .renew entry.token) (shape : live = front ++ entry :: back)
      (unmarked : entry.preempt = false) :
      LeaseChange call live
        (front ++ { entry with expiresNs := call.now + ledger.ttlNs } :: back) (.renewed true)
  | released (front : List LeaseEntry) (entry : LeaseEntry) (back : List LeaseEntry)
      (op : call.op = .release entry.token) (shape : live = front ++ entry :: back) :
      LeaseChange call live (front ++ back) .released
  | promoted (front : List LeaseEntry) (entry : LeaseEntry) (back : List LeaseEntry)
      (op : call.op = .promote entry.token) (shape : live = front ++ entry :: back)
      (unmarked : entry.preempt = false) :
      LeaseChange call live
        (front ++ { entry with role := .primary, expiresNs := call.now + ledger.ttlNs } :: back)
        (.granted (ledger.lease
          { entry with role := .primary, expiresNs := call.now + ledger.ttlNs }))

variable {ledger} {call : LeaseCall} {live : List LeaseEntry}

theorem acquire_change (op : call.op = .acquire owner role) (blockedUntilNs : Int) :
    LeaseChange ledger call live (ledger.acquire call owner role blockedUntilNs live).1
      (ledger.acquire call owner role blockedUntilNs live).2 := by
  unfold WsLeaseLedger.acquire
  split_ifs with blocked room pending
  · exact .denied _
  · exact .granted _ owner op room rfl rfl rfl
  · split <;> exact .denied _
  · have unmarked : ∀ entry ∈ live, entry.role = .standby → entry.preempt = false := by
      intro entry listed standby
      by_contra marked
      exact pending (any_eq_true.mpr ⟨entry, listed, by simpa [standby] using marked⟩)
    split
    · rename_i victim oldest
      rcases change_first_cases
          (fun entry => decide (entry.role = .standby ∧ entry.grantedNs = victim.grantedNs))
          ({ · with preempt := true }) live with ⟨-, same⟩ | ⟨front, found, back, shape, hit, -, changed⟩
      · rw [same]
        exact .denied _
      · rw [changed]
        exact .marked front found back owner op shape (of_decide_eq_true hit).1 unmarked
    · exact .denied _

/-- A found entry that is changed stands between the entries around it. -/
theorem change_found
    (found : WsLeaseLedger.find live token = some entry) (change : LeaseEntry → LeaseEntry) :
    entry.token = token ∧ ∃ front back, live = front ++ entry :: back ∧
      changeFirst (·.token = token) change live = front ++ change entry :: back := by
  rcases change_first_cases (·.token = token) change live with
    ⟨none, -⟩ | ⟨front, other, back, shape, hit, first, changed⟩
  · have listed := mem_of_find?_eq_some found
    exact absurd (find?_some found) (by simp [none entry listed])
  · cases Option.some.inj (first.symm.trans found)
    exact ⟨of_decide_eq_true hit, front, back, shape, changed⟩

theorem renew_change (op : call.op = .renew token) :
    LeaseChange ledger call live (ledger.renew call token live).1 (ledger.renew call token live).2 := by
  unfold WsLeaseLedger.renew
  split
  · rename_i missing
    refine .lost token op fun entry found => ?_
    cases missing.symm.trans found
  · rename_i entry found
    split_ifs with marked
    · refine .lost token op fun other same => ?_
      cases Option.some.inj (found.symm.trans same)
      exact marked
    · obtain ⟨rfl, front, back, shape, changed⟩ := change_found found
        ({ · with expiresNs := call.now + ledger.ttlNs })
      rw [changed]
      exact .renewed front entry back op shape (by simpa using marked)

theorem release_change (op : call.op = .release token) :
    LeaseChange ledger call live (WsLeaseLedger.release token live).1 (WsLeaseLedger.release token live).2 := by
  unfold WsLeaseLedger.release
  rcases exists_or_eq_self_of_eraseP (·.token = token) live with
    same | ⟨entry, front, back, others, hit, shape, erased⟩
  · rw [same]
    refine .absent token op fun entry listed matched => ?_
    have shorter := length_eraseP_of_mem (p := fun entry => decide (entry.token = token)) listed
      (by simpa using matched)
    have positive := length_pos_of_mem listed
    rw [same] at shorter
    omega
  · rw [erased]
    cases of_decide_eq_true hit
    exact .released front entry back op shape

theorem promote_change (op : call.op = .promote token) :
    LeaseChange ledger call live (ledger.promote call token live).1
      (ledger.promote call token live).2 := by
  unfold WsLeaseLedger.promote
  split
  · exact .denied _
  · rename_i entry found
    split_ifs with refused
    · exact .denied _
    · obtain ⟨rfl, front, back, shape, changed⟩ := change_found found
        ({ · with role := .primary, expiresNs := call.now + ledger.ttlNs })
      rw [changed]
      exact .promoted front entry back op shape (by simpa using (not_or.mp refused).1)

end Cases

/-- What a call does to the stored leases: nothing when the file could not be read or
replaced, else the change of the unexpired ones. -/
inductive LeaseServed (ledger : WsLeaseLedger) (call : LeaseCall) (before : List LeaseEntry) :
    List LeaseEntry → LeaseReply → Prop where
  | failed (reason : LeaseDenial) : LeaseServed ledger call before before (.unavailable reason)
  | stored {after : List LeaseEntry} {reply : LeaseReply}
      (change : LeaseChange ledger call (WsLeaseLedger.dropExpired before call.now) after reply) :
      LeaseServed ledger call before after reply

theorem serve_cases (ledger : WsLeaseLedger) (file : LeaseFile) (call : LeaseCall) :
    LeaseServed ledger call file.leases (ledger.serve file call).1.leases (ledger.serve file call).2 := by
  have change : LeaseChange ledger call (WsLeaseLedger.dropExpired file.leases call.now)
      (ledger.apply call file.standbyBlockedUntilNs (WsLeaseLedger.dropExpired file.leases call.now)).1
      (ledger.apply call file.standbyBlockedUntilNs
        (WsLeaseLedger.dropExpired file.leases call.now)).2 := by
    unfold WsLeaseLedger.apply
    split
    · rename_i op
      exact acquire_change op _
    · rename_i op
      exact renew_change op
    · rename_i op
      exact release_change op
    · rename_i op
      exact promote_change op
  unfold WsLeaseLedger.serve
  by_cases readable : call.readable
  · by_cases writable : call.writable
    · simpa [readable, writable] using LeaseServed.stored change
    · simpa [readable, writable] using LeaseServed.failed _
  · simpa [readable] using LeaseServed.failed _

/-- The expiry an answer tells the holder of a token. -/
def WsLeaseLedger.tells (ledger : WsLeaseLedger) (token : String) :
    LeaseCall × LeaseReply → Option Int
  | (_, .granted lease) => if lease.token = token then some lease.expiresNs else none
  | (call, .renewed true) => if call.op = .renew token then some (call.now + ledger.ttlNs) else none
  | _ => none

section Served

variable {ledger : WsLeaseLedger} {call : LeaseCall} {before after : List LeaseEntry}
  {reply : LeaseReply}

theorem mem_replaced :
    entry ∈ front ++ old :: back → entry = old ∨ entry ∈ front ++ new :: back := by
  simp only [mem_append, mem_cons]
  rintro (early | rfl | late)
  · exact .inr (.inl early)
  · exact .inl rfl
  · exact .inr (.inr (.inr late))

section

variable (served : LeaseServed ledger call before after reply)
include served

/-- A lease the call does not belong to is left as it was, marked by a primary request, or
removed as expired. -/
theorem served_frame (listed : old ∈ before) (other : old.token ≠ call.subject) :
    old ∈ after ∨
      (∃ owner, call.op = .acquire owner .primary ∧ { old with preempt := true } ∈ after) ∨
      old.expiresNs ≤ call.now := by
  cases served with
  | failed reason => exact .inl listed
  | stored change =>
    by_cases expired : old.expiresNs ≤ call.now
    · exact .inr (.inr expired)
    have live := mem_drop_expired.mpr ⟨listed, Int.not_le.mp expired⟩
    cases change with
    | denied | lost | absent => exact .inl live
    | granted => exact .inl (mem_append_left _ live)
    | marked front victim back owner op shape =>
      rcases mem_replaced (shape ▸ live) with rfl | kept
      · exact .inr (.inl ⟨owner, op, by simp⟩)
      · exact .inl kept
    | renewed front entry back op shape =>
      rcases mem_replaced (shape ▸ live) with rfl | kept
      · exact absurd (by simp [LeaseCall.subject, op]) other
      · exact .inl kept
    | released front entry back op shape =>
      rw [shape] at live
      rcases mem_append.mp live with early | late
      · exact .inl (mem_append_left _ early)
      · rcases mem_cons.mp late with rfl | late
        · exact absurd (by simp [LeaseCall.subject, op]) other
        · exact .inl (mem_append_right _ late)
    | promoted front entry back op shape =>
      rcases mem_replaced (shape ▸ live) with rfl | kept
      · exact absurd (by simp [LeaseCall.subject, op]) other
      · exact .inl kept

/-- A stored lease the call does not belong to was there before, at most unmarked. -/
theorem served_origin (listed : entry ∈ after) (other : entry.token ≠ call.subject) :
    entry ∈ before ∨ ∃ owner, ∃ old ∈ before, call.op = .acquire owner .primary ∧
      old.role = .standby ∧ entry = { old with preempt := true } := by
  cases served with
  | failed reason => exact .inl listed
  | stored change =>
    have earlier {entry : LeaseEntry} (live : entry ∈ WsLeaseLedger.dropExpired before call.now) :
        entry ∈ before := (mem_drop_expired.mp live).1
    cases change with
    | denied | lost | absent => exact .inl (earlier listed)
    | granted new owner op room token =>
      rcases mem_append.mp listed with live | added
      · exact .inl (earlier live)
      · cases mem_singleton.mp added
        exact absurd (by simp [LeaseCall.subject, op, token]) other
    | marked front victim back owner op shape standby =>
      rcases mem_replaced listed with rfl | live
      · exact .inr ⟨owner, victim, earlier (shape ▸ by simp), op, standby, rfl⟩
      · exact .inl (earlier (shape ▸ live))
    | renewed front found back op shape =>
      rcases mem_replaced listed with rfl | live
      · exact absurd (by simp [LeaseCall.subject, op]) other
      · exact .inl (earlier (shape ▸ live))
    | released front found back op shape =>
      refine .inl (earlier (shape ▸ ?_))
      rcases mem_append.mp listed with early | late
      · exact mem_append_left _ early
      · exact mem_append_right _ (mem_cons_of_mem _ late)
    | promoted front found back op shape =>
      rcases mem_replaced listed with rfl | live
      · exact absurd (by simp [LeaseCall.subject, op]) other
      · exact .inl (earlier (shape ▸ live))

/-- An expiry once told stands in the file until it passes, another is told or the lease is
released. -/
theorem served_keeps (listed : old ∈ before) (silent : ledger.tells old.token (call, reply) = none)
    (unreleased : ¬ (call.op = .release old.token ∧ reply = .released)) :
    (∃ entry ∈ after, entry.token = old.token ∧ entry.expiresNs = old.expiresNs) ∨
      old.expiresNs ≤ call.now := by
  by_cases other : old.token = call.subject
  · cases served with
    | failed reason => exact .inl ⟨old, listed, rfl, rfl⟩
    | stored change =>
      by_cases expired : old.expiresNs ≤ call.now
      · exact .inr expired
      have live := mem_drop_expired.mpr ⟨listed, Int.not_le.mp expired⟩
      cases change with
      | denied | lost | absent => exact .inl ⟨old, live, rfl, rfl⟩
      | granted new owner op room token =>
        simp [WsLeaseLedger.tells, WsLeaseLedger.lease, token, other, LeaseCall.subject, op] at silent
      | marked front victim back owner op shape =>
        rcases mem_replaced (shape ▸ live) with rfl | kept
        · exact .inl ⟨_, mem_append_right _ mem_cons_self, rfl, rfl⟩
        · exact .inl ⟨old, kept, rfl, rfl⟩
      | renewed front entry back op shape =>
        simp [WsLeaseLedger.tells, other, LeaseCall.subject, op] at silent
      | released front entry back op shape =>
        exact absurd ⟨by simp [other, LeaseCall.subject, op], rfl⟩ unreleased
      | promoted front entry back op shape =>
        simp [WsLeaseLedger.tells, WsLeaseLedger.lease, other, LeaseCall.subject, op] at silent
  · rcases served_frame served listed other with kept | ⟨-, -, marked⟩ | expired
    · exact .inl ⟨old, kept, rfl, rfl⟩
    · exact .inl ⟨_, marked, rfl, rfl⟩
    · exact .inr expired

/-- An expiry the call tells is the one it stored. -/
theorem served_tells (told : ledger.tells token (call, reply) = some expires) :
    token = call.subject ∧ ∃ entry ∈ after, entry.token = token ∧ entry.expiresNs = expires := by
  cases served with
  | failed reason => cases told
  | stored change =>
    cases change with
    | denied | lost | absent | marked | released => cases told
    | granted new owner op room drawn =>
      simp only [WsLeaseLedger.tells, Option.ite_none_right_eq_some, Option.some.injEq] at told
      obtain ⟨same, rfl⟩ := told
      exact ⟨by rw [← same]; simp [WsLeaseLedger.lease, drawn, LeaseCall.subject, op], new, by simp, same, rfl⟩
    | renewed front entry back op =>
      simp only [WsLeaseLedger.tells, Option.ite_none_right_eq_some, Option.some.injEq] at told
      obtain ⟨same, rfl⟩ := told
      cases LeaseOp.renew.inj (op.symm.trans same)
      exact ⟨by simp [LeaseCall.subject, op], _, mem_append_right _ mem_cons_self, rfl, rfl⟩
    | promoted front entry back op =>
      simp only [WsLeaseLedger.tells, Option.ite_none_right_eq_some, Option.some.injEq] at told
      obtain ⟨rfl, rfl⟩ := told
      exact ⟨by simp [WsLeaseLedger.lease, LeaseCall.subject, op], _,
        mem_append_right _ mem_cons_self, rfl, rfl⟩

end

/-- A renewal is refused to an unexpired lease only under a mark. -/
theorem served_refusal (served : LeaseServed ledger call before after (.renewed false))
    (op : call.op = .renew old.token) (listed : old ∈ before) (early : call.now < old.expiresNs) :
    ∃ entry ∈ before, entry.token = old.token ∧ entry.preempt = true := by
  cases served with
  | stored change =>
    cases change with
    | lost token renewed gone =>
      cases LeaseOp.renew.inj (op.symm.trans renewed)
      have live := mem_drop_expired.mpr ⟨listed, early⟩
      cases found : (WsLeaseLedger.dropExpired before call.now).find? (·.token = old.token) with
      | none => exact absurd (find?_eq_none.mp found old live) (by simp)
      | some entry =>
        exact ⟨entry, (mem_drop_expired.mp (mem_of_find?_eq_some found)).1,
          by simpa using find?_some found, gone entry found⟩

end Served

/-- What holds of the stored leases, given the tokens drawn so far. -/
structure LeasesSafe (ledger : WsLeaseLedger) (drawn : List String) (leases : List LeaseEntry) :
    Prop where
  capped : leases.length ≤ ledger.cap
  standby : ∀ entry ∈ leases, entry.preempt = true → entry.role = .standby
  single : (leases.filter (·.preempt)).length ≤ 1
  distinct : (leases.map (·.token)).Nodup
  known : ∀ entry ∈ leases, entry.token ∈ drawn

namespace LeasesSafe

variable {ledger : WsLeaseLedger} {drawn more : List String} {leases fewer : List LeaseEntry}

theorem sublist (safe : LeasesSafe ledger drawn leases) (part : fewer.Sublist leases)
    (grown : drawn ⊆ more) : LeasesSafe ledger more fewer where
  capped := part.length_le.trans safe.capped
  standby entry listed := safe.standby entry (part.subset listed)
  single := (part.filter _).length_le.trans safe.single
  distinct := safe.distinct.sublist (part.map _)
  known entry listed := grown (safe.known entry (part.subset listed))

/-- An entry replaced by another of its token and mark. -/
theorem replaced
    (safe : LeasesSafe ledger drawn (front ++ old :: back)) (token : new.token = old.token)
    (unmarked : new.preempt = false) :
    LeasesSafe ledger drawn (front ++ new :: back) where
  capped := by simpa using safe.capped
  standby entry listed marked := by
    rcases mem_replaced listed with rfl | kept
    · simp [unmarked] at marked
    · exact safe.standby entry kept marked
  single := by
    refine le_trans ?_ safe.single
    simp only [filter_append, filter_cons, unmarked, Bool.false_eq_true, ↓reduceIte]
    split <;> simp
  distinct := by simpa [token] using safe.distinct
  known entry listed := by
    rcases mem_replaced listed with rfl | kept
    · exact token ▸ safe.known old (by simp)
    · exact safe.known entry kept

theorem granted (safe : LeasesSafe ledger drawn leases)
    (room : leases.length < ledger.cap) (unmarked : entry.preempt = false)
    (fresh : ∀ other ∈ leases, other.token ≠ entry.token) (token : entry.token ∈ drawn) :
    LeasesSafe ledger drawn (leases ++ [entry]) where
  capped := by simpa using Nat.succ_le_of_lt room
  standby := forall_mem_append.mpr ⟨safe.standby, by simp [unmarked]⟩
  single := by
    simpa [unmarked] using safe.single
  distinct := by
    rw [map_append, nodup_append]
    exact ⟨safe.distinct, by simp, by simpa using fresh⟩
  known := forall_mem_append.mpr ⟨safe.known, by simpa using token⟩

theorem marked
    (safe : LeasesSafe ledger drawn (front ++ victim :: back)) (standby : victim.role = .standby)
    (unmarked : ∀ entry ∈ front ++ victim :: back, entry.role = .standby → entry.preempt = false) :
    LeasesSafe ledger drawn (front ++ { victim with preempt := true } :: back) := by
  have clear : ∀ entry ∈ front ++ victim :: back, entry.preempt = false := by
    intro entry listed
    by_contra set
    have marked : entry.preempt = true := by simpa using set
    exact set (unmarked entry listed (safe.standby entry listed marked))
  simp only [forall_mem_append, forall_mem_cons] at clear
  obtain ⟨front_clear, -, back_clear⟩ := clear
  constructor
  · simpa using safe.capped
  · intro entry listed set
    rcases mem_replaced listed with rfl | kept
    · exact standby
    · exact safe.standby entry kept set
  · have none {entries : List LeaseEntry} (clear : ∀ entry ∈ entries, entry.preempt = false) :
        entries.filter (·.preempt) = [] := filter_eq_nil_iff.mpr (by simpa using clear)
    simp [none front_clear, none back_clear]
  · simpa using safe.distinct
  · intro entry listed
    rcases mem_replaced listed with rfl | kept
    · exact safe.known victim (by simp)
    · exact safe.known entry kept

end LeasesSafe

/-- The tokens drawn for new leases. -/
def draws (calls : List LeaseCall) : List String :=
  calls.filterMap fun call =>
    match call.op with
    | .acquire _ _ => some call.drawn
    | _ => none

theorem draws_snoc (calls : List LeaseCall) (call : LeaseCall) :
    draws (calls ++ [call]) = draws calls ++ draws [call] := filterMap_append

theorem draws_acquire (op : call.op = .acquire owner role) : draws [call] = [call.drawn] := by
  simp [draws, op]

/-- The clock never runs backwards and no token is drawn twice. -/
structure LeaseSchedule (calls : List LeaseCall) : Prop where
  ordered : calls.Pairwise (·.now ≤ ·.now)
  fresh : (draws calls).Nodup

theorem fresh_before (fresh : (draws (calls ++ [call])).Nodup) : (draws calls).Nodup := by
  rw [draws_snoc] at fresh
  exact fresh.sublist (sublist_append_left _ _)

theorem undrawn (fresh : (draws (calls ++ [call])).Nodup)
    (op : call.op = .acquire owner role) : call.drawn ∉ draws calls := by
  rw [draws_snoc, draws_acquire op, nodup_append] at fresh
  exact fun drawn => fresh.2.2 _ drawn _ (by simp) rfl

theorem LeaseServed.safe
    (served : LeaseServed ledger call before after reply) (fresh : (draws (calls ++ [call])).Nodup)
    (safe : LeasesSafe ledger (draws calls) before) :
    LeasesSafe ledger (draws (calls ++ [call])) after := by
  have grown : draws calls ⊆ draws (calls ++ [call]) := draws_snoc calls call ▸ List.subset_append_left _ _
  cases served with
  | failed reason => exact safe.sublist (.refl _) grown
  | stored change =>
    have live : LeasesSafe ledger (draws (calls ++ [call]))
        (WsLeaseLedger.dropExpired before call.now) := safe.sublist List.filter_sublist grown
    cases change with
    | denied | lost | absent => exact live
    | granted entry owner op room token unmarked =>
      refine live.granted room unmarked ?_ ?_
      · intro other listed same
        exact undrawn fresh op
          (token ▸ same ▸ safe.known other (mem_drop_expired.mp listed).1)
      · rw [draws_snoc, draws_acquire op, token]
        exact List.mem_append_right _ (List.mem_singleton.mpr rfl)
    | marked front victim back owner op shape standby unmarked =>
      exact (shape ▸ live).marked standby (shape ▸ unmarked)
    | renewed front entry back op shape unmarked => exact (shape ▸ live).replaced rfl unmarked
    | released front entry back op shape =>
      exact (shape ▸ live).sublist ((List.sublist_cons_self _ _).append_left _) (List.Subset.refl _)
    | promoted front entry back op shape unmarked => exact (shape ▸ live).replaced rfl unmarked

/-- The file, and every call so far with its answer. -/
structure LeaseWorld where
  file : LeaseFile := {}
  log : List (LeaseCall × LeaseReply) := []

namespace WsLeaseLedger

variable (ledger : WsLeaseLedger)

def step (world : LeaseWorld) (call : LeaseCall) : LeaseWorld :=
  let served := ledger.serve world.file call
  ⟨served.1, world.log ++ [(call, served.2)]⟩

/-- The ledger's life from a missing file. -/
def run (calls : List LeaseCall) : LeaseWorld := calls.foldl ledger.step {}

/-- The expiry a token's holder was told last. -/
def told (log : List (LeaseCall × LeaseReply)) (token : String) : Option Int :=
  (log.filterMap (ledger.tells token)).getLast?

end WsLeaseLedger

/-- The token's lease was released, and the release was stored. -/
def Released (log : List (LeaseCall × LeaseReply)) (token : String) : Prop :=
  ∃ event ∈ log, event.1.op = .release token ∧ event.2 = .released

section Runs

variable {ledger : WsLeaseLedger}

theorem run_snoc (calls : List LeaseCall) (call : LeaseCall) :
    ledger.run (calls ++ [call]) = ledger.step (ledger.run calls) call := by
  simp [WsLeaseLedger.run]

theorem told_snoc (log : List (LeaseCall × LeaseReply)) (event : LeaseCall × LeaseReply)
    (token : String) :
    ledger.told (log ++ [event]) token = (ledger.tells token event).or (ledger.told log token) := by
  unfold WsLeaseLedger.told
  cases tells : ledger.tells token event with
  | none => simp [filterMap_append, tells]
  | some expires => simp [filterMap_append, tells]

/-- The stored leases are safe, and no holder loses a lease unnoticed. -/
structure LeaseSafe (ledger : WsLeaseLedger) (calls : List LeaseCall) : Prop where
  leases : LeasesSafe ledger (draws calls) (ledger.run calls).file.leases
  drawn : ∀ token expires, ledger.told (ledger.run calls).log token = some expires →
    token ∈ draws calls
  kept : ∀ token expires, ledger.told (ledger.run calls).log token = some expires →
    ¬ Released (ledger.run calls).log token →
    (∃ entry ∈ (ledger.run calls).file.leases, entry.token = token ∧ entry.expiresNs = expires) ∨
      ∃ call ∈ calls, expires ≤ call.now

variable {calls : List LeaseCall} {call : LeaseCall}

theorem LeaseSafe.step (safe : LeaseSafe ledger calls) (fresh : (draws (calls ++ [call])).Nodup) :
    LeaseSafe ledger (calls ++ [call]) := by
  have served := serve_cases ledger (ledger.run calls).file call
  have leases := served.safe fresh safe.leases
  constructor
  · rw [run_snoc]
    exact leases
  · intro token expires told
    rw [run_snoc, WsLeaseLedger.step, told_snoc] at told
    cases tells : ledger.tells token (call, (ledger.serve (ledger.run calls).file call).2) with
    | some stated =>
      obtain ⟨-, entry, listed, rfl, -⟩ := served_tells served tells
      exact leases.known entry listed
    | none =>
      rw [tells] at told
      rw [draws_snoc]
      exact List.mem_append_left _ (safe.drawn token expires told)
  · intro token expires told unreleased
    rw [run_snoc, WsLeaseLedger.step] at told unreleased ⊢
    rw [told_snoc] at told
    have standing : ¬ Released (ledger.run calls).log token := fun ⟨event, listed, released⟩ =>
      unreleased ⟨event, List.mem_append_left _ listed, released⟩
    cases tells : ledger.tells token (call, (ledger.serve (ledger.run calls).file call).2) with
    | some stated =>
      rw [tells] at told
      cases told
      exact .inl (served_tells served tells).2
    | none =>
      rw [tells] at told
      rcases safe.kept token expires told standing with
        ⟨entry, listed, rfl, rfl⟩ | ⟨earlier, made, passed⟩
      · rcases served_keeps served listed tells fun released =>
            unreleased ⟨_, List.mem_append_right _ (List.mem_singleton.mpr rfl), released⟩
          with kept | passed
        · exact .inl kept
        · exact .inr ⟨call, by simp, passed⟩
      · exact .inr ⟨earlier, List.mem_append_left _ made, passed⟩

theorem run_safe (ledger : WsLeaseLedger) (fresh : (draws calls).Nodup) :
    LeaseSafe ledger calls := by
  induction calls using reverseRecOn with
  | nil =>
    refine ⟨⟨Nat.zero_le _, ?_, Nat.zero_le _, nodup_nil, ?_⟩, ?_, ?_⟩ <;>
      simp [WsLeaseLedger.run, WsLeaseLedger.told]
  | append_singleton calls call ih => exact (ih (fresh_before fresh)).step fresh

/-- Holders that may think their lease unexpired all have an entry of the file. -/
theorem LeaseSafe.standing_le_cap (safe : LeaseSafe ledger calls)
    {tokens : List String} (distinct : tokens.Nodup) (past : ∀ earlier ∈ calls, earlier.now ≤ time)
    (standing : ∀ token ∈ tokens, ¬ Released (ledger.run calls).log token ∧
      ∃ expires, ledger.told (ledger.run calls).log token = some expires ∧ time < expires) :
    tokens.length ≤ ledger.cap := by
  have listed : tokens ⊆ (ledger.run calls).file.leases.map (·.token) := by
    intro token member
    obtain ⟨unreleased, expires, told, early⟩ := standing token member
    rcases safe.kept token expires told unreleased with
      ⟨entry, inside, same, -⟩ | ⟨earlier, made, passed⟩
    · exact mem_map.mpr ⟨entry, inside, same⟩
    · exact absurd (past earlier made) (by omega)
  have fits := (subperm_of_subset distinct listed).length_le
  rw [length_map] at fits
  exact fits.trans safe.leases.capped

/-- A renewal in time is refused after a release or under a mark only. -/
theorem LeaseSafe.refusal (safe : LeaseSafe ledger calls)
    (schedule : LeaseSchedule (calls ++ [call])) (op : call.op = .renew token)
    (told : ledger.told (ledger.run calls).log token = some expires) (early : call.now < expires)
    (refused : (ledger.serve (ledger.run calls).file call).2 = .renewed false) :
    Released (ledger.run calls).log token ∨
      ∃ entry ∈ (ledger.run calls).file.leases, entry.token = token ∧ entry.preempt = true := by
  by_cases released : Released (ledger.run calls).log token
  · exact .inl released
  · rcases safe.kept token expires told released with
      ⟨entry, listed, rfl, rfl⟩ | ⟨earlier, made, passed⟩
    · have served := serve_cases ledger (ledger.run calls).file call
      exact .inr (served_refusal (refused ▸ served) op listed early)
    · have ordered := (pairwise_append.mp schedule.ordered).2.2 earlier made call (by simp)
      omega

end Runs

/-- The leases of a list that have not expired at a time. -/
def unexpired (time : Int) (leases : List LeaseEntry) : List LeaseEntry :=
  leases.filter (time < ·.expiresNs)

/-- Over every order of calls, with a clock that never runs backwards and fresh tokens:
never more leases than the cap are unexpired, neither in the file nor among those whose
holders were told so; marks are on standby leases only and on one unexpired lease at most;
a holder that renews in time is refused only after a release or under a mark; and a call
leaves every other lease as it was, but for the mark of a primary request and the removal
of what expired. -/
theorem connection_slots_never_oversold (ledger : WsLeaseLedger) (calls : List LeaseCall)
    (call : LeaseCall) (schedule : LeaseSchedule (calls ++ [call])) :
    let before := ledger.run calls
    let after := ledger.run (calls ++ [call])
    (∀ time, (unexpired time before.file.leases).length ≤ ledger.cap) ∧
    (∀ (time : Int) (tokens : List String), tokens.Nodup → (∀ earlier ∈ calls, earlier.now ≤ time) →
      (∀ token ∈ tokens, ¬ Released before.log token ∧
        ∃ expires, ledger.told before.log token = some expires ∧ time < expires) →
      tokens.length ≤ ledger.cap) ∧
    (∀ entry ∈ before.file.leases, entry.preempt = true → entry.role = .standby) ∧
    (∀ time, ((unexpired time before.file.leases).filter (·.preempt)).length ≤ 1) ∧
    (∀ token expires, call.op = .renew token → ledger.told before.log token = some expires →
      call.now < expires → (ledger.serve before.file call).2 = .renewed false →
      Released before.log token ∨
        ∃ entry ∈ before.file.leases, entry.token = token ∧ entry.preempt = true) ∧
    (∀ entry ∈ before.file.leases, entry.token ≠ call.subject →
      entry ∈ after.file.leases ∨
      (∃ owner, call.op = .acquire owner .primary ∧
        { entry with preempt := true } ∈ after.file.leases) ∨
      entry.expiresNs ≤ call.now) ∧
    (∀ entry ∈ after.file.leases, entry.token ≠ call.subject →
      entry ∈ before.file.leases ∨
      ∃ owner, ∃ old ∈ before.file.leases, call.op = .acquire owner .primary ∧
        old.role = .standby ∧ entry = { old with preempt := true }) := by
  intro before after
  have safe := run_safe ledger (fresh_before schedule.fresh)
  have served := serve_cases ledger before.file call
  have stepped : after.file = (ledger.serve before.file call).1 := by
    simp only [after, run_snoc, WsLeaseLedger.step, before]
  have part (time : Int) : (unexpired time before.file.leases).Sublist before.file.leases :=
    filter_sublist
  refine ⟨fun time => (part time).length_le.trans safe.leases.capped,
    fun time tokens distinct past standing => safe.standing_le_cap distinct past standing,
    safe.leases.standby, fun time => ((part time).filter _).length_le.trans safe.leases.single,
    fun token expires op told early refused => safe.refusal schedule op told early refused, ?_, ?_⟩
  · intro entry listed other
    rw [stepped]
    exact served_frame served listed other
  · intro entry listed other
    rw [stepped] at listed
    exact served_origin served listed other

namespace Sample

/-- A single slot, held by a standby connection when a primary one asks for it. -/
def slotLedger : WsLeaseLedger := ⟨"ls", "main", 1, 10, by decide, by decide⟩

def standbyCall : LeaseCall := ⟨.acquire "recorder" .standby, 0, 0, "first", true, true⟩

def primaryCall : LeaseCall := ⟨.acquire "collector" .primary, 1, 1, "second", true, true⟩

end Sample

open Sample

/-- The primary request on the full ledger marks the standby lease and is given no slot. -/
theorem connection_slots_never_oversold_full_ledger :
    ((slotLedger.run [standbyCall, primaryCall]).file.leases.map fun entry =>
      (entry.token, entry.preempt)) = [("first", true)] ∧
    ∀ time, (unexpired time (slotLedger.run [standbyCall]).file.leases).length ≤
      slotLedger.cap :=
  ⟨by decide, (connection_slots_never_oversold slotLedger [standbyCall]
    primaryCall ⟨by decide, by decide⟩).1⟩

end KrxAlpha
