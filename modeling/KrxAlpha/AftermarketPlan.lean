import KrxAlpha.MarketPhases

/-! The connections after the market has closed. The symbols of each venue are cut into blocks of one
size and each block takes the next credential. With fewer credentials than blocks, both venues are
first cut down to one common rank. Blocks put together again are the list they were cut from, so a
plan is known by how many symbols it keeps. -/
namespace KrxAlpha
open List

inductive PlanError where
  | krxAlpha (text : String)
  | slotBudget (text : String)
  | popFromEmpty

/-- What the plan reads of a credential. -/
structure KisDataCredential where
  slot : String
  keyId : String

structure AftermarketShard where
  venue : MarketVenue
  shardIndex : Nat
  symbols : List String
  streams : String × String
  credentialSlot : String
  credentialKeyId : String

def AftermarketShard.credential (shard : AftermarketShard) : KisDataCredential :=
  ⟨shard.credentialSlot, shard.credentialKeyId⟩

/-- The connections so many symbols need. -/
def shardCount (size symbols : Nat) : Nat :=
  if symbols = 0 then 0 else (symbols + size - 1) / size

/-- `ordered[index * size : (index + 1) * size]` -/
def shardBlock (size : Nat) (ordered : List String) (index : Nat) : List String :=
  (ordered.take ((index + 1) * size)).drop (index * size)

structure AftermarketCall where
  krxSymbols : List String
  nxtSymbols : List String
  credentials : List KisDataCredential
  pairCapacity : Int
  krxStreams : String × String
  nxtStreams : String × String

namespace AftermarketCall

/-- Both venues have two streams a symbol. -/
def perShard (call : AftermarketCall) : Int := call.pairCapacity / 2

/-- The connections needed when both venues keep so many symbols at most. -/
def shardsFor (call : AftermarketCall) (cap : Nat) : Nat :=
  shardCount call.perShard.toNat (min cap call.nxtSymbols.length) +
    shardCount call.perShard.toNat (min cap call.krxSymbols.length)

/-- The loop that looks for the largest common rank, downwards. -/
def commonCap (call : AftermarketCall) : Nat → Nat
  | 0 => 0
  | cap + 1 =>
    if call.shardsFor (cap + 1) ≤ call.credentials.length then cap + 1 else call.commonCap cap

/-- Give each block the next credential. -/
def assign (venue : MarketVenue) (streams : String × String) (blockOf : Nat → List String) :
    List Nat → List KisDataCredential → Except PlanError (List AftermarketShard × List KisDataCredential)
  | [], keys => .ok ([], keys)
  | _ :: _, [] => .error .popFromEmpty
  | index :: rest, credential :: keys => do
    let later ← assign venue streams blockOf rest keys
    .ok (⟨venue, index, blockOf index, streams, credential.slot, credential.keyId⟩ :: later.1, later.2)

/-- The blocks of one venue. -/
def assignVenue (call : AftermarketCall) (venue : MarketVenue) (streams : String × String)
    (ordered : List String) (keys : List KisDataCredential) :
    Except PlanError (List AftermarketShard × List KisDataCredential) :=
  assign venue streams (shardBlock call.perShard.toNat ordered)
    (range (shardCount call.perShard.toNat ordered.length)) keys

/-- The shards of the symbols that are kept. -/
def shards (call : AftermarketCall) (nxt krx : List String) : Except PlanError (List AftermarketShard) := do
  let first ← call.assignVenue .nxt call.nxtStreams nxt call.credentials
  let second ← call.assignVenue .krx call.krxStreams krx first.2
  .ok (first.1 ++ second.1)

def planAftermarketShards (call : AftermarketCall) : Except PlanError (List AftermarketShard) :=
  let longest := max call.nxtSymbols.length call.krxSymbols.length
  let required := call.shardsFor longest
  let available := call.credentials.length
  if call.nxtSymbols = [] ∧ call.krxSymbols = [] then .error (.krxAlpha "empty aftermarket symbols")
  else if ¬ call.nxtSymbols.Nodup ∨ ¬ call.krxSymbols.Nodup then
    .error (.krxAlpha "duplicate aftermarket symbols")
  else if call.perShard < 1 then
    .error (.slotBudget s!"aftermarket pair capacity {call.pairCapacity} cannot hold one symbol")
  else if available < required then
    let cap := call.commonCap longest
    if cap < 1 then
      .error (.slotBudget s!"aftermarket shards required={required} available={available}")
    else call.shards (call.nxtSymbols.take cap) (call.krxSymbols.take cap)
  else call.shards call.nxtSymbols call.krxSymbols

/-! ### Blocks -/

theorem shard_blocks_flatten (size count : Nat) (ordered : List String) :
    (range count).flatMap (shardBlock size ordered) = ordered.take (count * size) := by
  induction count with
  | zero => simp
  | succ count ih =>
    have cut := take_append_drop (count * size) (ordered.take ((count + 1) * size))
    rw [take_take, Nat.min_eq_left (Nat.mul_le_mul_right size (by omega))] at cut
    rw [range_succ, flatMap_append, ih, flatMap_singleton, shardBlock, cut]

theorem length_le_shard_count (positive : 0 < size) (symbols : Nat) :
    symbols ≤ shardCount size symbols * size := by
  rw [shardCount]
  split_ifs with none
  · omega
  · have whole := Nat.div_add_mod (symbols + size - 1) size
    have part := Nat.mod_lt (symbols + size - 1) positive
    rw [Nat.mul_comm]
    omega

variable (call : AftermarketCall) {keys : List KisDataCredential}

/-- What the shards of a venue take: its symbols in their order, within the capacity, and these
credentials in turn. -/
structure Serves (venue : MarketVenue) (symbols : List String) (keys : List KisDataCredential)
    (shards : List AftermarketShard) : Prop where
  venue : ∀ shard ∈ shards, shard.venue = venue
  symbols : shards.flatMap (·.symbols) = symbols
  sized : ∀ shard ∈ shards, (shard.symbols.length : Int) * 2 ≤ call.pairCapacity
  keys : shards.map (·.credential) = keys

theorem assign_serves (venue : MarketVenue) (streams : String × String) {blockOf : Nat → List String}
    (sized : ∀ index, ((blockOf index).length : Int) * 2 ≤ call.pairCapacity)
    (enough : indices.length ≤ keys.length) :
    ∃ shards, assign venue streams blockOf indices keys = .ok (shards, keys.drop indices.length) ∧
      call.Serves venue (indices.flatMap blockOf) (keys.take indices.length) shards := by
  induction indices generalizing keys with
  | nil => exact ⟨[], rfl, by constructor <;> simp⟩
  | cons index rest ih =>
    cases keys with
    | nil => simp at enough
    | cons key keys =>
      obtain ⟨shards, later, serves⟩ := ih (Nat.le_of_succ_le_succ enough)
      refine ⟨⟨venue, index, blockOf index, streams, key.slot, key.keyId⟩ :: shards, ?_,
        forall_mem_cons.mpr ⟨rfl, serves.venue⟩, ?_, forall_mem_cons.mpr ⟨sized index, serves.sized⟩, ?_⟩
      · rw [assign, later]
        rfl
      · rw [flatMap_cons, flatMap_cons, serves.symbols]
      · rw [map_cons, serves.keys]
        rfl

theorem assign_venue_serves (roomy : 1 ≤ call.perShard) (venue : MarketVenue) (streams : String × String)
    (ordered : List String) (enough : shardCount call.perShard.toNat ordered.length ≤ keys.length) :
    ∃ count shards, count = shardCount call.perShard.toNat ordered.length ∧
      call.assignVenue venue streams ordered keys = .ok (shards, keys.drop count) ∧
      call.Serves venue ordered (keys.take count) shards := by
  have sized (index : Nat) :
      ((shardBlock call.perShard.toNat ordered index).length : Int) * 2 ≤ call.pairCapacity := by
    rw [shardBlock, length_drop, length_take, Nat.succ_mul]
    unfold perShard at roomy ⊢
    omega
  rw [← length_range (n := shardCount _ _)] at enough
  obtain ⟨shards, done, serves⟩ := call.assign_serves venue streams sized enough
  rw [shard_blocks_flatten, take_of_length_le (length_le_shard_count (by omega) _)] at serves
  exact ⟨_, shards, length_range, done, serves⟩

/-! ### The common rank -/

theorem common_cap_spec (start : Nat) :
    (0 < call.commonCap start → call.shardsFor (call.commonCap start) ≤ call.credentials.length) ∧
      ∀ cap, call.commonCap start < cap → cap ≤ start → call.credentials.length < call.shardsFor cap := by
  induction start with
  | zero => exact ⟨fun positive => absurd positive (Nat.lt_irrefl 0), fun cap => by rw [commonCap]; omega⟩
  | succ start ih =>
    rw [commonCap]
    split_ifs with fits
    · exact ⟨fun _ => fits, fun cap above within => by omega⟩
    · refine ⟨ih.1, fun cap above within => ?_⟩
      rcases Nat.lt_or_eq_of_le within with smaller | rfl
      · exact ih.2 cap above (by omega)
      · omega

/-- Whatever the search skips needs too many connections; past the longer list nothing changes. -/
theorem skipped (short : call.credentials.length <
      call.shardsFor (max call.nxtSymbols.length call.krxSymbols.length))
    (above : call.commonCap (max call.nxtSymbols.length call.krxSymbols.length) < cap) :
    call.credentials.length < call.shardsFor cap := by
  rcases Nat.le_total cap (max call.nxtSymbols.length call.krxSymbols.length) with within | past
  · exact (call.common_cap_spec _).2 cap above within
  · obtain ⟨nxt, krx⟩ := Nat.max_le.mp past
    simpa only [shardsFor, Nat.min_eq_right nxt, Nat.min_eq_right krx,
      Nat.min_eq_right (Nat.le_max_left _ _), Nat.min_eq_right (Nat.le_max_right _ _)] using short

/-- The symbols of both venues up to a rank. -/
def kept (cap : Nat) : Nat := min cap call.nxtSymbols.length + min cap call.krxSymbols.length

/-- A plan up to a rank: the shards of one venue, then those of the other, with the credentials in
turn. No rank that keeps more symbols needs only the credentials there are. -/
def Fair (plan : List AftermarketShard) : Prop :=
  ∃ cap nxt krx keys others, plan = nxt ++ krx ∧ keys ++ others <+: call.credentials ∧
    call.Serves .nxt (call.nxtSymbols.take cap) keys nxt ∧
    call.Serves .krx (call.krxSymbols.take cap) others krx ∧
    ∀ larger, call.kept cap < call.kept larger → call.credentials.length < call.shardsFor larger

theorem shards_fair (roomy : 1 ≤ call.perShard) (fits : call.shardsFor cap ≤ call.credentials.length)
    (best : ∀ larger, call.kept cap < call.kept larger → call.credentials.length < call.shardsFor larger) :
    ∃ plan, call.shards (call.nxtSymbols.take cap) (call.krxSymbols.take cap) = .ok plan ∧
      call.Fair plan := by
  rw [shardsFor, ← length_take, ← length_take] at fits
  obtain ⟨count, first, same, firstDone, nxt⟩ := call.assign_venue_serves roomy .nxt call.nxtStreams
    (call.nxtSymbols.take cap) (Nat.le_of_add_right_le fits)
  obtain ⟨more, second, -, secondDone, krx⟩ := call.assign_venue_serves roomy .krx call.krxStreams
    (call.krxSymbols.take cap) (show _ ≤ (call.credentials.drop count).length by rw [length_drop]; omega)
  refine ⟨first ++ second, ?_, cap, first, second, _, _, rfl, ?_, nxt, krx, best⟩
  · rw [shards, firstDone]
    change (call.assignVenue .krx _ _ (call.credentials.drop count) >>= _) = _
    rw [secondDone]
    rfl
  · rw [← take_add]
    exact take_prefix _ _

/-- The plan keeps both venues up to one rank that cannot be raised. It is refused for its symbols, or
because a connection has no room for a symbol or no rank fits; it never runs out of credentials. -/
theorem aftermarket_plan_fair :
    match call.planAftermarketShards with
    | .ok plan => call.Fair plan
    | .error (.krxAlpha _) => call.nxtSymbols = [] ∧ call.krxSymbols = [] ∨
        ¬ call.nxtSymbols.Nodup ∨ ¬ call.krxSymbols.Nodup
    | .error (.slotBudget _) => call.pairCapacity < 2 ∨
        ∀ cap, 1 ≤ cap → call.credentials.length < call.shardsFor cap
    | .error .popFromEmpty => False := by
  unfold planAftermarketShards
  dsimp only
  split_ifs with empty repeated small short nothing
  · exact .inl empty
  · exact .inr repeated
  · exact .inl (by rw [perShard] at small; omega)
  · exact .inr fun cap positive => call.skipped short (by omega)
  · obtain ⟨plan, made, fair⟩ := call.shards_fair (Int.not_lt.mp small)
      ((call.common_cap_spec _).1 (Nat.le_of_not_lt nothing)) fun larger more =>
        call.skipped short (Nat.lt_of_not_le fun below => by unfold kept at more; omega)
    rw [made]
    exact fair
  · obtain ⟨plan, made, fair⟩ := call.shards_fair (Int.not_lt.mp small) (Nat.le_of_not_lt short)
      fun larger more => by unfold kept at more; omega
    rw [take_of_length_le (Nat.le_max_left _ _), take_of_length_le (Nat.le_max_right _ _)] at made
    rw [made]
    exact fair

end AftermarketCall
end KrxAlpha
