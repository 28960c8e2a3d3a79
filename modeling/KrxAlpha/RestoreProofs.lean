import KrxAlpha.Replay

/-! What a restore returns, on any journal it accepts, and that the reader's
three passes amount to one replay of orders and ledger together. -/
namespace KrxAlpha

/-! ### The second pass -/

def Event.refusal : Event → Bool
  | .riskReject .. => true
  | _ => false

/-- The replayed books after one accepted record. -/
inductive ReplayStep (orders : Dict String Order) (record : Record) : Dict String Order → Prop where
  | skipped (apart : record.event.clientId? = none ∨ record.event.refusal) :
      ReplayStep orders record orders
  | opened (id : String) (intent : OrderIntent) (ref : Int)
      (event : record.event = .intent id intent ref) (fresh : orders.get? id = none) :
      ReplayStep orders record (orders.set id
        { clientId := id, intent, status := .pendingSubmit, createdAt := record.ts })
  | applied (id : String) (order next : Order) (named : record.event.clientId? = some id)
      (found : orders.get? id = some order) (read : replayEvent order record.event = .ok next) :
      ReplayStep orders record (orders.set id next)

theorem replay_record_ok
    (accepted : replayRecord orders record = .ok next) : ReplayStep orders record next := by
  unfold replayRecord at accepted
  split at accepted
  · rename_i id intent ref event
    split at accepted
    · cases accepted
    · rename_i absent
      obtain ⟨_, -, done⟩ := bind_ok accepted
      cases done
      refine .opened id intent ref event ?_
      simpa [Dict.contains] using absent
  · rename_i refused
    cases accepted
    exact .skipped (.inr (by rw [refused]; rfl))
  · split at accepted
    · rename_i unnamed
      cases accepted
      exact .skipped (.inl unnamed)
    · rename_i id named
      obtain ⟨_, -, accepted⟩ := bind_ok accepted
      split at accepted
      · cases accepted
      · rename_i order found
        obtain ⟨next, read, done⟩ := bind_ok accepted
        cases done
        exact .applied id order next named found read

/-- A record never changes whose order it is or what was ordered. -/
theorem replay_event_identity (read : replayEvent order event = .ok next) :
    next.clientId = order.clientId ∧ next.intent = order.intent := by
  unfold replayEvent at read
  repeat' split at read
  all_goals first
    | cases read; exact ⟨rfl, rfl⟩
    | cases read

/-- The same orders, as far as fills are concerned. -/
def SameIntents (orders final : Dict String Order) : Prop :=
  ∀ id order, orders.get? id = some order →
    ∃ later, final.get? id = some later ∧ later.intent = order.intent

theorem SameIntents.refl (orders : Dict String Order) : SameIntents orders orders :=
  fun _ order found => ⟨order, found, rfl⟩

theorem SameIntents.trans {first second third : Dict String Order} (same : SameIntents first second)
    (again : SameIntents second third) : SameIntents first third := by
  intro id order found
  obtain ⟨kept, held, equal⟩ := same id order found
  obtain ⟨last, present, equal'⟩ := again id kept held
  exact ⟨last, present, equal'.trans equal⟩

theorem replay_record_keeps (accepted : replayRecord orders record = .ok next) :
    SameIntents orders next := by
  intro id order found
  cases replay_record_ok accepted with
  | skipped => exact ⟨order, found, rfl⟩
  | opened key intent ref event fresh =>
    have different : id ≠ key := by
      rintro rfl
      rw [fresh] at found
      cases found
    exact ⟨order, by rwa [Dict.get?_set_of_ne different], rfl⟩
  | applied key before after named held read =>
    by_cases same : id = key
    · subst same
      rw [found] at held
      cases held
      exact ⟨after, Dict.get?_set_self _ _ _, (replay_event_identity read).2⟩
    · exact ⟨order, by rwa [Dict.get?_set_of_ne same], rfl⟩

/-- The order of the record, unless it is of a refused intent, is on the books. -/
def RecordedOn (orders : Dict String Order) (record : Record) : Prop :=
  ∀ id, record.event.clientId? = some id → record.event.refusal = false → ∃ order, orders.get? id = some order

theorem replay_record_recorded (accepted : replayRecord orders record = .ok next) :
    RecordedOn next record := by
  intro id named sent
  cases replay_record_ok accepted with
  | skipped apart =>
    rcases apart with unnamed | refused
    · cases unnamed.symm.trans named
    · cases sent.symm.trans refused
  | opened key intent ref event fresh =>
    rw [event] at named
    cases named
    exact ⟨_, Dict.get?_set_self _ _ _⟩
  | applied key before after own held read =>
    cases own.symm.trans named
    exact ⟨_, Dict.get?_set_self _ _ _⟩

variable {id : String} {records : List Record}

section

variable (accepted : records.foldlM replayRecord orders = .ok next)
include accepted

/-- Every order keeps its intent, and every recorded one is on the replayed books. -/
theorem replay_keeps : SameIntents orders next ∧ ∀ record ∈ records, RecordedOn next record := by
  refine foldlM_done SameIntents.refl (fun _ _ _ => .trans)
    (fun state record ended (read : replayRecord state record = .ok ended) =>
      ⟨replay_record_keeps read, replay_record_recorded read⟩)
    (fun _ _ _ same recorded id named sent => ?_) accepted
  obtain ⟨order, found⟩ := recorded id named sent
  obtain ⟨later, held, -⟩ := same id order found
  exact ⟨later, held⟩

/-- An order of the replayed books was there before or has its intent on record. -/
theorem replay_origin (found : next.get? id = some order) :
    (∃ before, orders.get? id = some before) ∨
      ∃ record ∈ records, ∃ intent ref, record.event = .intent id intent ref := by
  let Origin (books : Dict String Order) : Prop := ∀ order, books.get? id = some order →
    (∃ before, orders.get? id = some before) ∨
      ∃ record ∈ records, ∃ intent ref, record.event = .intent id intent ref
  refine foldlM_keeps (fun books record ended member (origin : Origin books) read order found => ?_)
    (fun order found => .inl ⟨order, found⟩) accepted order found
  cases replay_record_ok read with
  | skipped => exact origin order found
  | opened key intent ref event fresh =>
    rw [Dict.get?_set] at found
    split at found
    · rename_i same
      exact .inr ⟨record, member, intent, ref, same ▸ event⟩
    · exact origin order found
  | applied key before after named present read =>
    rw [Dict.get?_set] at found
    split at found
    · rename_i same
      exact origin before (same ▸ present)
    · exact origin order found

end

/-! ### The first pass -/

/-- Ids the first pass reads a number from. -/
def Event.numberedId? : Event → Option String
  | .intent clientId .. => some clientId
  | .riskReject clientId .. => some clientId
  | _ => none

theorem refusal_numbered {event : Event} (refused : event.refusal = true) :
    event.numberedId? = event.clientId? := by
  cases event with
  | riskReject => rfl
  | _ => cases refused

theorem scan_record_numbered (accepted : scanRecord scan record = .ok next) :
    scan.1 ≤ next.1 ∧
      ∀ id, record.event.numberedId? = some id → ∃ seq ≤ next.1, seqOf id = .ok seq := by
  obtain ⟨ts, mode, event⟩ := record
  cases event <;> simp only [scanRecord, Event.numberedId?] at accepted ⊢
  case intent clientId intent ref =>
    obtain ⟨seq, read, done⟩ := bind_ok accepted
    cases done
    exact ⟨Nat.le_max_left _ _, fun id same => by cases same; exact ⟨seq, Nat.le_max_right _ _, read⟩⟩
  case riskReject clientId intent code detail =>
    obtain ⟨seq, read, done⟩ := bind_ok accepted
    cases done
    exact ⟨Nat.le_max_left _ _, fun id same => by cases same; exact ⟨seq, Nat.le_max_right _ _, read⟩⟩
  all_goals
    cases accepted
    exact ⟨Nat.le_refl _, by simp⟩

/-- The restored counter is at least every number on record. -/
theorem scan_numbered
    (accepted : records.foldlM scanRecord scan = .ok last) :
    scan.1 ≤ last.1 ∧ ∀ record ∈ records, ∀ id, record.event.numberedId? = some id →
      ∃ seq ≤ last.1, seqOf id = .ok seq := by
  induction records generalizing scan with
  | nil =>
    cases accepted
    exact ⟨Nat.le_refl _, by simp⟩
  | cons record rest ih =>
    rw [List.foldlM_cons] at accepted
    obtain ⟨middle, first, later⟩ := bind_ok accepted
    obtain ⟨grows, here⟩ := scan_record_numbered first
    obtain ⟨more, there⟩ := ih later
    refine ⟨Nat.le_trans grows more, List.forall_mem_cons.mpr ⟨fun id numbered => ?_, there⟩⟩
    obtain ⟨seq, bound, read⟩ := here id numbered
    exact ⟨seq, Nat.le_trans bound more, read⟩

/-- The first pass accepts a journal whose ids all end in a number. -/
theorem scan_accepts (scan : Nat × List Timestamp)
    (readable : ∀ record ∈ records, ∀ id, record.event.numberedId? = some id →
      ∃ seq, seqOf id = .ok seq) : ∃ last, records.foldlM scanRecord scan = .ok last := by
  induction records generalizing scan with
  | nil => exact ⟨scan, rfl⟩
  | cons record rest ih =>
    have first : ∃ middle, scanRecord scan record = .ok middle := by
      have here := readable record List.mem_cons_self
      obtain ⟨ts, mode, event⟩ := record
      cases event with
      | intent clientId intent ref =>
        obtain ⟨seq, read⟩ := here clientId rfl
        exact ⟨(max scan.1 seq, scan.2 ++ [ts]), by simp only [scanRecord, read]; rfl⟩
      | riskReject clientId intent code detail =>
        obtain ⟨seq, read⟩ := here clientId rfl
        exact ⟨(max scan.1 seq, scan.2), by simp only [scanRecord, read]; rfl⟩
      | _ => exact ⟨scan, rfl⟩
    obtain ⟨middle, read⟩ := first
    obtain ⟨last, done⟩ := ih middle fun other member =>
      readable other (List.mem_cons_of_mem _ member)
    exact ⟨last, by rw [List.foldlM_cons, read]; exact done⟩

/-! ### The ledger pass -/

theorem replay_fill_final
    (same : SameIntents orders final) (accepted : replayFill orders ledger record = .ok paid) :
    replayFill final ledger record = .ok paid := by
  unfold replayFill at accepted ⊢
  split at accepted
  · rename_i id quantity amount total cumulative event
    split at accepted
    · cases accepted
    · rename_i order found
      obtain ⟨later, held, intent⟩ := same id order found
      simp only [held, intent]
      exact accepted
  · exact accepted

/-- The joint replay is the order pass, and then the ledger pass over the
books that pass ended with. -/
theorem replay_step_split
    (accepted : records.foldlM replayStep (orders, ledger) = .ok (next, paid))
    (same : SameIntents next final) :
    records.foldlM replayRecord orders = .ok next ∧
      records.foldlM (replayFill final) ledger = .ok paid := by
  induction records generalizing orders ledger with
  | nil =>
    cases accepted
    exact ⟨rfl, rfl⟩
  | cons record rest ih =>
    rw [List.foldlM_cons] at accepted
    obtain ⟨⟨middle, spent⟩, first, later⟩ := bind_ok accepted
    obtain ⟨_, read, first⟩ := bind_ok first
    obtain ⟨_, pays, done⟩ := bind_ok first
    cases done
    obtain ⟨orders_done, ledger_done⟩ := ih later
    have whole : (record :: rest).foldlM replayRecord orders = .ok next := by
      rw [List.foldlM_cons, read]
      exact orders_done
    refine ⟨whole, ?_⟩
    rw [List.foldlM_cons, replay_fill_final ((replay_keeps whole).1.trans same) pays]
    exact ledger_done

theorem same_intents_pending (orders : Dict String Order) :
    SameIntents orders (orders.mapValues readPending) := by
  intro id order found
  exact ⟨readPending order, by rw [Dict.get?_mapValues, found]; rfl, rfl⟩

/-- A snapshot the reader accepts: each symbol once, nothing negative. -/
structure ValidSnapshot (holdings : List Holding) : Prop where
  distinct : (holdings.map Holding.symbol).Nodup
  nonneg : ∀ holding ∈ holdings, 0 ≤ holding.qty ∧ 0 ≤ holding.costKrw

private theorem snapshot_fold (valid : ValidSnapshot holdings)
    (apart : ∀ holding ∈ holdings, positions.get? holding.symbol = none) :
    holdings.foldlM snapshotRow positions =
      .ok ((holdings.map fun h => (h.symbol, ({ qty := h.qty, costKrw := h.costKrw } : Position))).foldl
        (fun dict pair => dict.set pair.1 pair.2) positions) := by
  induction holdings generalizing positions with
  | nil => rfl
  | cons holding rest ih =>
    obtain ⟨distinct, nonneg⟩ := valid
    rw [List.map_cons, List.nodup_cons] at distinct
    have figures := nonneg holding List.mem_cons_self
    have row : snapshotRow positions holding =
        .ok (positions.set holding.symbol { qty := holding.qty, costKrw := holding.costKrw }) := by
      have fresh := apart holding List.mem_cons_self
      unfold snapshotRow
      rw [if_neg]
      simp [Dict.contains, fresh]
      omega
    rw [List.foldlM_cons, row]
    refine ih ⟨distinct.2, fun other member => nonneg other (List.mem_cons_of_mem _ member)⟩ ?_
    intro other member
    have different : other.symbol ≠ holding.symbol :=
      fun same => distinct.1 (same ▸ List.mem_map_of_mem member)
    rw [Dict.get?_set_of_ne different]
    exact apart other (List.mem_cons_of_mem _ member)

/-- A valid snapshot is read back as the ledger the session opened with. -/
theorem snapshot_ledger (valid : ValidSnapshot holdings) (costs : CostModel) :
    holdings.foldlM snapshotRow ∅ = .ok (Ledger.ofHoldings costs holdings).positions :=
  snapshot_fold valid (fun _ _ => Dict.get?_empty _)

/-- The three passes put together, for a mode that restores its orders. -/
theorem restore_session_ok
    (broker : mode ≠ .paper) (scanned : records.foldlM scanRecord (0, []) = .ok scan)
    (replayed : records.foldlM replayRecord ∅ = .ok orders)
    (paid : replayLedger records (orders.mapValues readPending) costs = .ok ledger) :
    restoreSession records mode costs = .ok {
      orders := orders.mapValues readPending, nextSeq := scan.1, submitTimes := scan.2, ledger } := by
  unfold restoreSession
  rw [scanned]
  simp only [Except.bind, bind, broker, ↓reduceIte, replayed, paid]
  rfl

/-- What an accepted restore consisted of. -/
theorem restore_session_parts (broker : mode ≠ .paper)
    (restored : restoreSession records mode costs = .ok session) :
    ∃ orders, records.foldlM replayRecord ∅ = .ok orders ∧
      session.orders = orders.mapValues readPending ∧
      records.foldlM scanRecord (0, []) = .ok (session.nextSeq, session.submitTimes) ∧
      replayLedger records session.orders costs = .ok session.ledger := by
  unfold restoreSession at restored
  obtain ⟨scan, scanned, restored⟩ := bind_ok restored
  simp only [broker, ↓reduceIte] at restored
  obtain ⟨orders, replayed, restored⟩ := bind_ok restored
  obtain ⟨ledger, paid, done⟩ := bind_ok restored
  cases done
  exact ⟨orders, replayed, rfl, scanned, paid⟩

end KrxAlpha
