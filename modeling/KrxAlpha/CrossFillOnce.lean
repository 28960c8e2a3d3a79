import KrxAlpha.RepairedLoss

/-! Trades of the peers. Every audited interval is matched by itself against the peers'
cumulative volumes. It is never given more quantity than its span holds, but what one interval
accepts another may accept again: after a counter reset the auditor opens intervals over volumes
it has passed before. -/
namespace KrxAlpha
open List

/-- The symbol's trades in the span, as the peers tell them. -/
def toldIn (peers : List Peer) (symbol : String) (lo hi : Int) : List PeerTrade :=
  (peers.flatMap (·.trades symbol)).filter fun trade => lo < trade.acml ∧ trade.acml ≤ hi

/-- The trades whose cumulative volume is told for the first time. -/
def firstTold : List PeerTrade → List PeerTrade
  | [] => []
  | trade :: rest => trade :: (firstTold rest).filter (·.acml ≠ trade.acml)

/-- The symbol's trades in the span that the plain peers tell first. -/
def toldPlain (peers : List Peer) (symbol : String) (lo hi : Int) : List PeerTrade :=
  firstTold (toldIn (peers.filter (!·.conflating)) symbol lo hi)

/-- The peer's trades in the span are as many as are missing and add up to it. -/
def Peer.Matches (symbol : String) (lo hi missing : Int) (peer : Peer) : Prop :=
  ((toldIn [peer] symbol lo hi).length : Int) = missing ∧
    ((toldIn [peer] symbol lo hi).map (·.qty)).sum = hi - lo

instance : DecidablePred (Peer.Matches symbol lo hi missing) :=
  fun _ => inferInstanceAs (Decidable (_ ∧ _))

/-- The interval is left to the conflating peer: no plain peer tells a volume of its span, and
the peer is the first of its kind whose trades match. -/
structure AuditItem.LeftTo (peers : List Peer) (item : AuditItem) (lo hi : Int) (peer : Peer) :
    Prop where
  first : item.interval.acmlPrev = some lo
  last : item.interval.acmlNextBefore = some hi
  untold : toldPlain peers item.symbol lo hi = []
  matched : (peers.filter (·.conflating)).find?
    (Peer.Matches item.symbol lo hi item.interval.missingTrades) = some peer

/-- The plain peers tell volumes of the interval's span, no more than are missing and with no
more quantity than the span has. -/
structure AuditItem.Suits (peers : List Peer) (item : AuditItem) (lo hi : Int) : Prop where
  first : item.interval.acmlPrev = some lo
  last : item.interval.acmlNextBefore = some hi
  few : ((toldPlain peers item.symbol lo hi).length : Int) ≤ item.interval.missingTrades
  small : ((toldPlain peers item.symbol lo hi).map (·.qty)).sum ≤ hi - lo

/-- The interval accepts the peers' trade of this cumulative volume. -/
inductive AuditItem.Accepts (peers : List Peer) (item : AuditItem) (acml : Int) : Prop
  | plain (suits : item.Suits peers lo hi)
      (told : acml ∈ (toldPlain peers item.symbol lo hi).map (·.acml))
  | conflated (left : item.LeftTo peers lo hi peer)
      (told : acml ∈ (toldIn [peer] item.symbol lo hi).map (·.acml))

section Picks

theorem first_told_nodup (trades : List PeerTrade) : ((firstTold trades).map (·.acml)).Nodup := by
  induction trades with
  | nil => exact nodup_nil
  | cons trade rest ih =>
    rw [firstTold, map_cons, nodup_cons]
    refine ⟨fun member => ?_, ih.sublist (filter_sublist.map _)⟩
    obtain ⟨told, kept, same⟩ := mem_map.mp member
    exact of_decide_eq_true (mem_filter.mp kept).2 same

theorem told_in_within (told : trade ∈ toldIn peers symbol lo hi) :
    lo < trade.acml ∧ trade.acml ≤ hi := by
  simpa using (mem_filter.mp told).2

/-- One trade of the loop over the plain peers, told by the peer of the given name. -/
def seeTrade (lo hi : Int) (seen : Dict Int (PeerTrade × String)) (told : PeerTrade × String) :
    Dict Int (PeerTrade × String) :=
  if lo < told.1.acml ∧ told.1.acml ≤ hi ∧ ¬ seen.contains told.1.acml then
    seen.set told.1.acml told
  else seen

theorem see_trades (lo hi : Int) (told : List (PeerTrade × String))
    (seen : Dict Int (PeerTrade × String)) :
    (told.foldl (seeTrade lo hi) seen).values.map (·.1) = seen.values.map (·.1) ++
      (firstTold ((told.map (·.1)).filter fun trade => lo < trade.acml ∧ trade.acml ≤ hi)).filter
        fun trade => trade.acml ∉ seen.keys := by
  induction told generalizing seen with
  | nil => simp [firstTold]
  | cons pick rest ih =>
    rw [foldl_cons, ih, map_cons, filter_cons]
    by_cases inside : lo < pick.1.acml ∧ pick.1.acml ≤ hi
    · rw [if_pos (by simpa using inside), firstTold, filter_cons, filter_filter]
      by_cases known : pick.1.acml ∈ seen.keys
      · have kept : seeTrade lo hi seen pick = seen :=
          if_neg fun fits => fits.2.2 (Dict.mem_keys_iff.mp known)
        rw [kept, if_neg (by simpa using known)]
        congr 1
        apply filter_congr
        intro trade _
        by_cases same : trade.acml = pick.1.acml <;> simp [same, known]
      · have absent : seen.get? pick.1.acml = none := Dict.get?_eq_none.mpr known
        have taken : seeTrade lo hi seen pick = seen.set pick.1.acml pick :=
          if_pos ⟨inside.1, inside.2, by simp [Dict.contains, absent]⟩
        rw [taken, if_pos (by simpa using known), Dict.keys_set_new absent, Dict.values,
          Dict.entries_set_new absent]
        simp only [Dict.values, map_append, map_cons, map_nil, append_assoc, mem_append, mem_singleton,
          not_or, Bool.decide_and, cons_append, nil_append, ne_eq]
    · have kept : seeTrade lo hi seen pick = seen :=
        if_neg fun fits => inside ⟨fits.1, fits.2.1⟩
      rw [kept, if_neg (by simpa using inside)]

theorem plain_trades_seen (peers : List Peer) (symbol : String) (lo hi : Int) :
    plainTrades peers symbol lo hi = ((peers.filter (!·.conflating)).flatMap fun peer =>
      (peer.trades symbol).map fun trade => (trade, peer.peerId)).foldl (seeTrade lo hi) ∅ := by
  rw [foldl_flatMap]
  simp only [foldl_map]
  rfl

/-- In order of the cumulative volumes, the plain peers' trades. -/
def plainOrdered (peers : List Peer) (symbol : String) (lo hi : Int) : List (PeerTrade × String) :=
  ((plainTrades peers symbol lo hi).keys.insertionSort (· ≤ ·)).filterMap
    (plainTrades peers symbol lo hi).get?

theorem plain_trades_told (peers : List Peer) (symbol : String) (lo hi : Int) :
    (plainTrades peers symbol lo hi).values.map (·.1) = toldPlain peers symbol lo hi := by
  rw [plain_trades_seen, see_trades, toldPlain, toldIn]
  simp [Dict.values, Dict.keys, map_flatMap, Function.comp_def]

theorem plain_trades_none : (plainTrades peers symbol lo hi).keys = [] ↔
    toldPlain peers symbol lo hi = [] := by
  rw [← plain_trades_told, Dict.values, Dict.keys, map_eq_nil_iff, map_eq_nil_iff, map_eq_nil_iff]

theorem plain_ordered_told :
    ((plainOrdered peers symbol lo hi).map (·.1)).Perm (toldPlain peers symbol lo hi) := by
  rw [← plain_trades_told]
  refine .map _ (((perm_insertionSort _ _).filterMap _).trans (.of_eq ?_))
  rw [Dict.keys, filterMap_map, Dict.values]
  conv_rhs => rw [← filterMap_eq_map]
  apply filterMap_congr
  intro entry listed
  exact Dict.mem_entries_iff.mp listed

theorem told_one (peer : Peer) : toldIn [peer] symbol lo hi =
    (peer.trades symbol).filter fun trade => lo < trade.acml ∧ trade.acml ≤ hi := by
  simp [toldIn]

theorem conflated_trades_cases (peers : List Peer) (symbol : String) (lo hi missing : Int) :
    (conflatedTrades peers symbol lo hi missing).map (·.map (·.1)) =
      ((peers.filter (·.conflating)).find? (Peer.Matches symbol lo hi missing)).map
        fun peer => (toldIn [peer] symbol lo hi).insertionSort (·.acml ≤ ·.acml) := by
  simp only [conflatedTrades, ← told_one]
  generalize peers.filter (·.conflating) = conflating
  induction conflating with
  | nil => rfl
  | cons peer rest ih =>
    have sorted := perm_insertionSort (fun first second : PeerTrade => first.acml ≤ second.acml)
      (toldIn [peer] symbol lo hi)
    have fits : Peer.Matches symbol lo hi missing peer ↔
        (((toldIn [peer] symbol lo hi).insertionSort (·.acml ≤ ·.acml)).length : Int) = missing ∧
          (((toldIn [peer] symbol lo hi).insertionSort (·.acml ≤ ·.acml)).map (·.qty)).sum =
            hi - lo := by
      rw [Peer.Matches, sorted.length_eq, (sorted.map _).sum_eq]
    rw [findSome?_cons, find?_cons]
    simp only [← fits]
    by_cases matched : Peer.Matches symbol lo hi missing peer
    · simp [matched, Function.comp_def]
    · simpa [matched] using ih

/-- The trades of the peers that the loop picks for an interval. -/
def AuditItem.picked (peers : List Peer) (item : AuditItem) : List PeerTrade :=
  ((pickTrades peers item).trades?.getD []).map (·.1)

theorem conflated_picked (peers : List Peer) (symbol : String) (lo hi missing : Int) :
    (((conflatedTrades peers symbol lo hi missing).getD []).map (·.1)).Perm
      (((peers.filter (·.conflating)).find? (Peer.Matches symbol lo hi missing)).elim []
        fun peer => toldIn [peer] symbol lo hi) := by
  have cases := conflated_trades_cases peers symbol lo hi missing
  cases matched : (peers.filter (·.conflating)).find? (Peer.Matches symbol lo hi missing) with
  | none => simp_all
  | some peer =>
    rw [matched] at cases
    obtain ⟨trades, found, same⟩ := Option.map_eq_some_iff.mp cases
    simpa [found, same] using perm_insertionSort _ _

section

variable (peers : List Peer) {item : AuditItem} (audited : item.interval.Audited)
include audited

/-- What is picked, told by the span of the interval and the trades of the peers. -/
theorem picked_perm (first : item.interval.acmlPrev = some lo)
    (last : item.interval.acmlNextBefore = some hi) :
    (item.picked peers).Perm
      (if toldPlain peers item.symbol lo hi = [] then
        ((peers.filter (·.conflating)).find?
          (Peer.Matches item.symbol lo hi item.interval.missingTrades)).elim []
            fun peer => toldIn [peer] item.symbol lo hi
      else if ((toldPlain peers item.symbol lo hi).length : Int) ≤ item.interval.missingTrades ∧
          ((toldPlain peers item.symbol lo hi).map (·.qty)).sum ≤ hi - lo then
        toldPlain peers item.symbol lo hi
      else []) := by
  have missing : ¬ item.interval.missingTrades ≤ 0 := not_le.mpr audited.1
  have ordered : ((plainOrdered peers item.symbol lo hi).map (·.1)).Perm
      (toldPlain peers item.symbol lo hi) := plain_ordered_told
  rw [AuditItem.picked, pickTrades]
  simp only [first, last, missing, false_or]
  by_cases empty : hi ≤ lo
  · have none_told (some_peers : List Peer) : toldIn some_peers item.symbol lo hi = [] := by
      refine eq_nil_iff_forall_not_mem.mpr fun trade told => ?_
      have := told_in_within told
      omega
    cases matched : (peers.filter (·.conflating)).find?
      (Peer.Matches item.symbol lo hi item.interval.missingTrades) <;>
      simp [empty, toldPlain, none_told, firstTold, Pick.trades?]
  rw [if_neg empty]
  by_cases untold : toldPlain peers item.symbol lo hi = []
  · rw [if_pos (plain_trades_none.mpr untold), if_pos untold]
    refine .trans (.of_eq ?_) (conflated_picked ..)
    cases conflatedTrades peers item.symbol lo hi item.interval.missingTrades <;> rfl
  · rw [if_neg (mt plain_trades_none.mp untold), if_neg untold]
    change ((Pick.trades? (if hi - lo < ((plainOrdered peers item.symbol lo hi).map (·.1.qty)).sum ∨
      item.interval.missingTrades < (plainOrdered peers item.symbol lo hi).length then .rejected
      else .filled (plainOrdered peers item.symbol lo hi))).getD [] |>.map (·.1)).Perm _
    have count : (plainOrdered peers item.symbol lo hi).length =
        (toldPlain peers item.symbol lo hi).length := by simpa using ordered.length_eq
    have total : ((plainOrdered peers item.symbol lo hi).map (·.1.qty)).sum =
        ((toldPlain peers item.symbol lo hi).map (·.qty)).sum := by
      simpa [map_map, Function.comp_def] using (ordered.map (·.qty)).sum_eq
    rw [count, total]
    by_cases fits : ((toldPlain peers item.symbol lo hi).length : Int) ≤
        item.interval.missingTrades ∧ ((toldPlain peers item.symbol lo hi).map (·.qty)).sum ≤ hi - lo
    · rw [if_pos fits, if_neg (by omega)]
      exact ordered
    · rw [if_neg fits, if_pos (by omega)]
      rfl

/-- Each way an interval comes to its trades. -/
theorem picked_cases : item.picked peers = [] ∨
    (∃ lo hi, item.Suits peers lo hi ∧
      (item.picked peers).Perm (toldPlain peers item.symbol lo hi)) ∨
    ∃ lo hi peer, item.LeftTo peers lo hi peer ∧
      (item.picked peers).Perm (toldIn [peer] item.symbol lo hi) := by
  cases first : item.interval.acmlPrev with
  | none => exact .inl (by simp [AuditItem.picked, pickTrades, first, Pick.trades?])
  | some lo =>
  cases last : item.interval.acmlNextBefore with
  | none => exact .inl (by simp [AuditItem.picked, pickTrades, first, last, Pick.trades?])
  | some hi =>
  have perm := picked_perm peers audited first last
  split_ifs at perm with untold fits
  · cases matched : (peers.filter (·.conflating)).find?
        (Peer.Matches item.symbol lo hi item.interval.missingTrades) with
    | none => exact .inl (by simpa [matched] using perm)
    | some peer =>
      refine .inr (.inr ⟨lo, hi, peer, ⟨first, last, untold, matched⟩, ?_⟩)
      simpa [matched] using perm
  · exact .inr (.inl ⟨lo, hi, ⟨first, last, fits.1, fits.2⟩, perm⟩)
  · exact .inl perm.eq_nil

end

section

variable {peers : List Peer} {item : AuditItem} (audited : item.interval.Audited)
include audited

theorem AuditItem.LeftTo.picked (left : item.LeftTo peers lo hi peer) :
    (item.picked peers).Perm (toldIn [peer] item.symbol lo hi) := by
  simpa [left.untold, left.matched] using picked_perm peers audited left.first left.last

theorem mem_picked_iff :
    acml ∈ (item.picked peers).map (·.acml) ↔ item.Accepts peers acml := by
  constructor
  · intro member
    rcases picked_cases peers audited with
      none | ⟨lo, hi, suits, perm⟩ | ⟨lo, hi, peer, left, perm⟩
    · simp [none] at member
    · exact .plain suits ((perm.map _).mem_iff.mp member)
    · exact .conflated left ((perm.map _).mem_iff.mp member)
  · rintro (⟨suits, told⟩ | ⟨left, told⟩)
    · have perm := picked_perm peers audited suits.first suits.last
      rw [if_neg (by rintro none; simp [none] at told), if_pos ⟨suits.few, suits.small⟩] at perm
      exact (perm.map _).mem_iff.mpr told
    · exact ((left.picked audited).map _).mem_iff.mpr told

theorem picked_nodup_iff :
    ((item.picked peers).map (·.acml)).Nodup ↔ ∀ lo hi peer, item.LeftTo peers lo hi peer →
      ((toldIn [peer] item.symbol lo hi).map (·.acml)).Nodup := by
  constructor
  · intro once lo hi peer left
    exact ((left.picked audited).map _).nodup_iff.mp once
  · intro once
    rcases picked_cases peers audited with
      none | ⟨lo, hi, -, perm⟩ | ⟨lo, hi, peer, left, perm⟩
    · simp [none]
    · exact (perm.map _).nodup_iff.mpr (first_told_nodup _)
    · exact (perm.map _).nodup_iff.mpr (once lo hi peer left)

/-- What an interval is given does not exceed its span. -/
theorem picked_within (given : item.picked peers ≠ []) :
    ∃ lo hi, item.interval.acmlPrev = some lo ∧ item.interval.acmlNextBefore = some hi ∧
      ((item.picked peers).map (·.qty)).sum ≤ hi - lo := by
  rcases picked_cases peers audited with
      none | ⟨lo, hi, suits, perm⟩ | ⟨lo, hi, peer, left, perm⟩
  · exact absurd none given
  · exact ⟨lo, hi, suits.first, suits.last, (perm.map _).sum_eq.trans_le suits.small⟩
  · have matched : Peer.Matches item.symbol lo hi item.interval.missingTrades peer := by
      simpa using find?_some left.matched
    exact ⟨lo, hi, left.first, left.last, ((perm.map _).sum_eq.trans matched.2).le⟩

end

end Picks

/-- What names a trade of the peers in a row. -/
def FillRow.peerKey (row : FillRow) : String × Int := (row.symbol, row.tapeSeq)

section Rows

variable {audit : AuditDocument} {peers : List Peer} {item : AuditItem}

theorem rows_from_keys (item : AuditItem) : (item.rowsFrom peers).map (·.peerKey) =
    ((item.picked peers).map (·.acml)).map (Prod.mk item.symbol) := by
  simp [AuditItem.rowsFrom, AuditItem.picked, crossRow, FillRow.peerKey, Function.comp_def]

/-- The rows under an interval's id are the rows of the interval. -/
theorem rows_from_own {items : List AuditItem} (distinct : (items.map (·.id)).Nodup)
    (listed : item ∈ items) :
    (items.flatMap (·.rowsFrom peers)).filter (·.intervalId = item.id) = item.rowsFrom peers := by
  refine filter_flatMap_own distinct listed fun other row member => ?_
  obtain ⟨pick, -, rfl⟩ := mem_map.mp member
  rfl

theorem cross_rows_own (listed : item ∈ indexedAuditIntervals audit.symbols) :
    ((deriveCrossVendorFill audit peers).rows.filter (·.intervalId = item.id)).Perm
      (item.rowsFrom peers) := by
  rw [← rows_from_own (indexed_nodup audit.symbols) listed]
  exact (cross_rows_perm audit peers).filter _

/-- No trade of the peers is used twice if and only if no cumulative volume of a symbol is accepted
by two audited intervals. -/
theorem peer_keys_nodup_iff : ((deriveCrossVendorFill audit peers).rows.map (·.peerKey)).Nodup ↔
    ((indexedAuditIntervals audit.symbols).Pairwise fun first second =>
      first.symbol = second.symbol → ∀ acml, first.Accepts peers acml →
        ¬ second.Accepts peers acml) ∧
    ∀ item ∈ indexedAuditIntervals audit.symbols, ∀ lo hi peer, item.LeftTo peers lo hi peer →
      ((toldIn [peer] item.symbol lo hi).map (·.acml)).Nodup := by
  rw [((cross_rows_perm audit peers).map _).nodup_iff, map_flatMap, nodup_flatMap, and_comm]
  refine and_congr ?_ (forall₂_congr fun item listed => ?_)
  · refine Pairwise.iff_of_mem fun early late => ?_
    simp only [Function.onFun, List.Disjoint, rows_from_keys]
    constructor
    · intro apart same acml here there
      refine apart (mem_map_of_mem ((mem_picked_iff (indexed_audited early)).mpr here)) ?_
      rw [same]
      exact mem_map_of_mem ((mem_picked_iff (indexed_audited late)).mpr there)
    · intro apart key first second
      obtain ⟨acml, here, rfl⟩ := mem_map.mp first
      obtain ⟨twin, there, same⟩ := mem_map.mp second
      obtain ⟨symbols, rfl⟩ := Prod.mk.inj same
      exact apart symbols.symm twin ((mem_picked_iff (indexed_audited early)).mp here)
        ((mem_picked_iff (indexed_audited late)).mp there)
  · rw [rows_from_keys, nodup_map_iff (Prod.mk_right_injective _)]
    exact picked_nodup_iff (indexed_audited listed)

theorem cross_rows_within (listed : item ∈ indexedAuditIntervals audit.symbols)
    (member : row ∈ (deriveCrossVendorFill audit peers).rows) (same : row.intervalId = item.id) :
    ∃ lo hi, item.interval.acmlPrev = some lo ∧ item.interval.acmlNextBefore = some hi ∧
      (((deriveCrossVendorFill audit peers).rows.filter (·.intervalId = item.id)).map
        (·.volume)).sum ≤ hi - lo := by
  have own : ((deriveCrossVendorFill audit peers).rows.filter (·.intervalId = item.id)).Perm
      (item.rowsFrom peers) := cross_rows_own listed
  have inside : row ∈ item.rowsFrom peers :=
    own.mem_iff.mp (mem_filter.mpr ⟨member, decide_eq_true same⟩)
  have volumes : (item.rowsFrom peers).map (·.volume) = (item.picked peers).map (·.qty) := by
    simp [AuditItem.rowsFrom, AuditItem.picked, crossRow, Function.comp_def]
  rw [(own.map _).sum_eq, volumes]
  refine picked_within (indexed_audited listed) fun none => ?_
  simp [AuditItem.rowsFrom, map_eq_nil_iff.mp none] at inside

end Rows

/-- No trade of the peers is used twice, and no interval is given more quantity than its span,
if and only if no cumulative volume of a symbol is accepted by two audited intervals and the
conflating peer an interval is left to lists each volume of the span once. -/
theorem peer_trades_once_iff (audit : AuditDocument) (peers : List Peer) :
    ((((deriveCrossVendorFill audit peers).rows.map (·.peerKey)).Nodup) ∧
      ∀ item ∈ indexedAuditIntervals audit.symbols,
        ∀ row ∈ (deriveCrossVendorFill audit peers).rows, row.intervalId = item.id →
          ∃ lo hi, item.interval.acmlPrev = some lo ∧ item.interval.acmlNextBefore = some hi ∧
            (((deriveCrossVendorFill audit peers).rows.filter (·.intervalId = item.id)).map
              (·.volume)).sum ≤ hi - lo) ↔
    ((indexedAuditIntervals audit.symbols).Pairwise fun first second =>
      first.symbol = second.symbol → ∀ acml, first.Accepts peers acml →
        ¬ second.Accepts peers acml) ∧
    ∀ item ∈ indexedAuditIntervals audit.symbols, ∀ lo hi peer, item.LeftTo peers lo hi peer →
      ((toldIn [peer] item.symbol lo hi).map (·.acml)).Nodup := by
  rw [peer_keys_nodup_iff, and_iff_left_iff_imp]
  intro _ item listed row member same
  exact cross_rows_within listed member same

namespace Sample

/-- A peer with one trade of one share. -/
def lonePeer (symbol : String) (acml : Int) : Peer :=
  { peerId := "", perSymbol := (∅ : Dict String (List PeerTrade)).set symbol [⟨acml, 0, 0, 1⟩] }

/-- A trade of one share in the given hour, with the session's counter and the day's
volume. -/
def counted (hour cum acml : Nat) : Envelope × TickBody :=
  ((hourly hour cum).1, { (hourly hour cum).2 with volume := some acml })

/-- The counter jumps from 10 to 12 and begins again at 1; the volumes 10 to 12 are told a
second time. -/
def resetDay : AuditDocument :=
  phasedAuditor.document [counted 9 10 10, counted 9 12 12, counted 10 1 10, counted 10 3 12,
    counted 10 4 13]

end Sample

/-- After a confirmed reset two intervals span the volume 11, and both are given the one
trade the peer holds. -/
theorem peer_trade_used_twice :
    ((deriveCrossVendorFill Sample.resetDay [Sample.lonePeer "005930" 11]).rows.map
      fun row => (row.peerKey, row.intervalId)) =
      [(("005930", 11), 0), (("005930", 11), 1)] := by
  decide +kernel

end KrxAlpha
