import KrxAlpha.ClientIds
import KrxAlpha.LossSegment
import KrxAlpha.TextOrder

/-! The market phase of an event, by its exchange time. A scalar classifier walks the windows;
L1 files are classified by a column expression that compares texts and must see the nulls of its
columns. Both give one answer. -/
namespace KrxAlpha
open List

inductive MarketVenue where
  | krx | nxt | unknown
  deriving DecidableEq

def MarketVenue.value : MarketVenue → String
  | .krx => "krx"
  | .nxt => "nxt"
  | .unknown => "unknown"

inductive EventKind where
  | trade | quote
  deriving DecidableEq

/-- Bounds are whole seconds. -/
structure PhaseWindow where
  venue : MarketVenue
  kind : Option EventKind
  start : Chetime
  stop : Chetime
  phase : MarketPhase

/-- A whole minute of the day. -/
def Chetime.atMinute (hour minute : Nat) : Chetime :=
  ⟨⟨hour % 24, Nat.mod_lt _ (by decide)⟩, ⟨minute % 60, Nat.mod_lt _ (by decide)⟩, ⟨0, by decide⟩⟩

/-- The table of an ordinary day. -/
def marketPhaseWindows : List PhaseWindow :=
  [⟨.krx, some .trade, .atMinute 8 30, .atMinute 8 40, .preClosingPrice⟩,
    ⟨.krx, none, .atMinute 8 30, .atMinute 9 0, .openingAuction⟩,
    ⟨.krx, none, .atMinute 9 0, .atMinute 15 20, .regular⟩,
    ⟨.krx, none, .atMinute 15 20, .atMinute 15 40, .closingAuction⟩,
    ⟨.krx, none, .atMinute 15 40, .atMinute 16 0, .postClosingPrice⟩,
    ⟨.krx, none, .atMinute 16 0, .atMinute 20 0, .aftermarket⟩,
    ⟨.nxt, none, .atMinute 8 0, .atMinute 8 50, .premarket⟩,
    ⟨.nxt, none, .atMinute 15 40, .atMinute 20 0, .aftermarket⟩]

def streamEventKind : List (String × EventKind) :=
  [("H0STCNT0", .trade), ("H0NXCNT0", .trade), ("H0STASP0", .quote), ("H0NXASP0", .quote)]

/-- The streams of a kind, in the table's order. -/
def streamsOf (kind : EventKind) : List String :=
  (streamEventKind.filter (·.2 = kind)).map (·.1)

/-- `STREAM_EVENT_KIND.get(stream)`. -/
def eventKindOf (stream : String) : Option EventKind :=
  (streamEventKind.find? (·.1 = stream)).map (·.2)

/-! ### The scalar classifier -/

/-- A text of one or more digits as its number. -/
def digitsValue (digits : List Char) : Nat := Nat.ofDigitChars 10 digits 0

def parseEventTime (eventTime : String) : Option Chetime :=
  match eventTime.toList with
  | [a, b, c, d, e, f] =>
    if [a, b, c, d, e, f].all Char.isDigit then
      if bounds : digitsValue [a, b] < 24 ∧ digitsValue [c, d] < 60 ∧ digitsValue [e, f] < 60 then
        some ⟨⟨digitsValue [a, b], bounds.1⟩, ⟨digitsValue [c, d], bounds.2.1⟩,
          ⟨digitsValue [e, f], bounds.2.2⟩⟩
      else none
    else none
  | _ => none

namespace PhaseWindow

/-- The test of the loop in `classify_market_phase`. -/
def holds (window : PhaseWindow) (venue : Option String) (kind : EventKind) (moment : Chetime) : Bool :=
  venue = some window.venue.value ∧ (window.kind = none ∨ window.kind = some kind) ∧
    window.start.number ≤ moment.number ∧ moment.number < window.stop.number

end PhaseWindow

def classifyMarketPhase (windows : List PhaseWindow) (venue : Option String) (eventTime : String)
    (kind : EventKind) : MarketPhase :=
  match parseEventTime eventTime with
  | none => .unclassified
  | some moment =>
    ((windows.find? fun window => window.holds venue kind moment).map (·.phase)).getD .unclassified

/-! ### Column expressions

A null is `none`. A conjunction is false as soon as one side is, and a condition that is null
counts as not met. -/

def nullAnd : Option Bool → Option Bool → Option Bool
  | some true, some true => some true
  | some false, _ => some false
  | _, some false => some false
  | _, _ => none

def whenThen {α : Type} (condition : Option Bool) (yes no : α) : α :=
  if condition = some true then yes else no

def isIn (column : Option String) (values : List String) : Option Bool :=
  column.map values.contains

/-- The columns of an L1 row that the expressions read. -/
structure PhaseRow where
  venue : Option String
  stream : Option String
  exchangeEventTime : Option String
  raw : Option String

/-- What `\s` matches. -/
def isWhiteSpace (char : Char) : Bool :=
  let code := char.toNat
  (9 ≤ code && code ≤ 13) || code == 32 || code == 133 || code == 160 || code == 5760 ||
    (8192 ≤ code && code ≤ 8202) || code == 8232 || code == 8233 || code == 8239 || code == 8287 ||
    code == 12288

/-- Strip the first characters, if they are these. -/
def stripFront (front text : List Char) : Option (List Char) :=
  if front.isPrefixOf text then some (text.drop front.length) else none

/-- A match of `"field"\s*:\s*"([^"]*)"` at the beginning of the text, with its group. -/
def matchField (field : String) (text : List Char) : Option (List Char) := do
  let rest ← stripFront ('"' :: field.toList ++ ['"']) text
  let rest ← stripFront [':'] (rest.dropWhile isWhiteSpace)
  let rest ← stripFront ['"'] (rest.dropWhile isWhiteSpace)
  let _ ← stripFront ['"'] (rest.dropWhile (· ≠ '"'))
  return rest.takeWhile (· ≠ '"')

/-- `str.extract`: the group of the first match. -/
def extractField (field : String) (raw : String) : Option String :=
  (raw.toList.tails.findSome? (matchField field)).map String.ofList

/-- `_event_time_value`, which is `event_time_expr` under another name. -/
def eventTimeExpr (row : PhaseRow) : String :=
  let rawTime := whenThen (isIn row.stream (streamsOf .trade)) (row.raw.bind (extractField "chetime"))
    (whenThen (isIn row.stream (streamsOf .quote)) (row.raw.bind (extractField "hotime")) (some ""))
  (if row.exchangeEventTime.getD "" ≠ "" then row.exchangeEventTime else rawTime).getD ""

/-- `strftime("%H%M%S")`. -/
def Chetime.text (chetime : Chetime) : String :=
  String.ofList (zeroPad 2 chetime.hour.val ++ zeroPad 2 chetime.minute.val ++ zeroPad 2 chetime.second.val)

/-- `[01][0-9]|2[0-3]`, twice `[0-5][0-9]`, and nothing else. -/
def matchesHhmmss (eventTime : String) : Bool :=
  match eventTime.toList with
  | [a, b, c, d, e, f] =>
    ((a == '0' || a == '1') && b.isDigit || a == '2' && ('0' ≤ b && b ≤ '3')) &&
      ('0' ≤ c && c ≤ '5') && d.isDigit && ('0' ≤ e && e ≤ '5') && f.isDigit
  | _ => false

namespace PhaseWindow

def condition (window : PhaseWindow) (row : PhaseRow) : Option Bool :=
  let event := eventTimeExpr row
  let within := nullAnd (nullAnd (row.venue.map (· = window.venue.value)) (some (window.start.text ≤ event)))
    (some (event < window.stop.text))
  match window.kind with
  | none => within
  | some kind => nullAnd within (isIn row.stream (streamsOf kind))

end PhaseWindow

/-- The rows that can be classified at all. -/
def phaseValid (windows : List PhaseWindow) (row : PhaseRow) : Option Bool :=
  nullAnd (nullAnd (some (matchesHhmmss (eventTimeExpr row)))
    (isIn row.stream (streamEventKind.map (·.1)))) (isIn row.venue (windows.map (·.venue.value)))

def marketPhaseExpr (windows : List PhaseWindow) (row : PhaseRow) : MarketPhase :=
  windows.reverse.foldl (fun result window =>
    whenThen (nullAnd (phaseValid windows row) (window.condition row)) window.phase result) .unclassified

theorem null_and_eq_true :
    nullAnd first second = some true ↔ first = some true ∧ second = some true := by
  rcases first with - | - | - <;> rcases second with - | - | - <;> simp [nullAnd]

theorem is_in_eq_true : isIn column values = some true ↔ ∃ value ∈ values, column = some value := by
  cases column <;> simp [isIn]

/-- The streams of a kind are the streams with it. -/
theorem stream_listed (known : eventKindOf stream = some kind)
    (other : EventKind) : isIn (some stream) (streamsOf other) = some true ↔ kind = other := by
  obtain ⟨entry, found, rfl⟩ := Option.map_eq_some_iff.mp known
  have same := find?_some found
  simp only [decide_eq_true_eq] at same
  subst same
  have listed := mem_of_find?_eq_some found
  simp only [streamEventKind, mem_cons, not_mem_nil, or_false] at listed
  rcases listed with rfl | rfl | rfl | rfl <;> cases other <;> decide

/-! ### Texts of times -/

private theorem char_eq_iff {other : Char} : char = other ↔ char.toNat = other.toNat :=
  ⟨congrArg _, Char.toNat_inj.mp⟩

private theorem char_le_iff {char other : Char} : char ≤ other ↔ char.toNat ≤ other.toNat := Iff.rfl

theorem two_digits_value (a b : Char) :
    digitsValue [a, b] = (a.toNat - 48) * 10 + (b.toNat - 48) := by
  simp only [digitsValue, Nat.ofDigitChars_cons, Nat.ofDigitChars_nil]
  change 10 * (10 * 0 + (a.toNat - 48)) + (b.toNat - 48) = _
  omega

/-- The expression's pattern takes the texts the classifier parses. -/
theorem matches_iff_parsed (eventTime : String) :
    matchesHhmmss eventTime = true ↔ (parseEventTime eventTime).isSome := by
  unfold matchesHhmmss parseEventTime
  split
  · rename_i a b c d e f shape
    simp only [all_cons, all_nil, Bool.and_true, two_digits_value]
    simp only [Bool.and_eq_true, Bool.or_eq_true, beq_iff_eq, decide_eq_true_eq, TextOrder.digit_iff,
      char_eq_iff, char_le_iff]
    have zero : '0'.toNat = 48 := rfl
    have one : '1'.toNat = 49 := rfl
    have two : '2'.toNat = 50 := rfl
    have three : '3'.toNat = 51 := rfl
    have five : '5'.toNat = 53 := rfl
    split_ifs with digits bounds <;> simp <;> omega
  · simp_all

theorem six_digits_value (a b c d e f : Char) :
    digitsValue [a, b, c, d, e, f] =
      digitsValue [a, b] * 10000 + digitsValue [c, d] * 100 + digitsValue [e, f] := by
  simp only [digitsValue, Nat.ofDigitChars_cons, Nat.ofDigitChars_nil]
  omega

theorem parsed_digits (parsed : parseEventTime eventTime = some moment) :
    eventTime.toList.length = 6 ∧ (∀ char ∈ eventTime.toList, char.isDigit = true) ∧
      (digitsValue eventTime.toList : Int) = moment.number := by
  unfold parseEventTime at parsed
  split at parsed
  · rename_i a b c d e f shape
    rw [shape]
    split_ifs at parsed with digits bounds
    cases parsed
    refine ⟨rfl, all_eq_true.mp digits, ?_⟩
    rw [six_digits_value]
    rfl
  · cases parsed

theorem text_digits (moment : Chetime) :
    moment.text.toList.length = 6 ∧ (∀ char ∈ moment.text.toList, char.isDigit = true) ∧
      (digitsValue moment.text.toList : Int) = moment.number := by
  have hour : (zeroPad 2 moment.hour.val).length = 2 :=
    zero_pad_length (by decide) (moment.hour.isLt.trans (by decide))
  have minute : (zeroPad 2 moment.minute.val).length = 2 :=
    zero_pad_length (by decide) (moment.minute.isLt.trans (by decide))
  have second : (zeroPad 2 moment.second.val).length = 2 :=
    zero_pad_length (by decide) (moment.second.isLt.trans (by decide))
  simp only [Chetime.text, String.toList_ofList, length_append, hour, minute, second, true_and]
  constructor
  · intro char member
    simp only [mem_append] at member
    rcases member with (digit | digit) | digit <;> exact zero_pad_digits digit
  · simp only [digitsValue, Nat.ofDigitChars_append, of_digits_zero_pad]
    rw [Nat.ofDigitChars_eq_ofDigitChars_zero]
    rw [Nat.ofDigitChars_eq_ofDigitChars_zero (l := zeroPad 2 moment.minute.val)]
    simp only [of_digits_zero_pad, minute, second, Chetime.number]
    omega

/-- A parsed text stands to the text of a bound as the times do. -/
theorem text_order (parsed : parseEventTime eventTime = some moment) (bound : Chetime) :
    (bound.text ≤ eventTime ↔ bound.number ≤ moment.number) ∧
      (eventTime < bound.text ↔ moment.number < bound.number) := by
  obtain ⟨length, digits, value⟩ := parsed_digits parsed
  obtain ⟨otherLength, otherDigits, otherValue⟩ := text_digits bound
  have size : eventTime.toList.length = bound.text.toList.length := length.trans otherLength.symm
  have before : eventTime < bound.text ↔ moment.number < bound.number := by
    rw [String.lt_iff, TextOrder.digits_lt_iff size digits otherDigits, ← value, ← otherValue]
    exact Int.ofNat_lt.symm
  refine ⟨?_, before⟩
  rw [← String.not_lt, before]
  omega

/-! ### Agreement -/

theorem condition_eq_true {window : PhaseWindow} :
    window.condition row = some true ↔
      row.venue = some window.venue.value ∧ window.start.text ≤ eventTimeExpr row ∧
        eventTimeExpr row < window.stop.text ∧
        ∀ kind ∈ window.kind, isIn row.stream (streamsOf kind) = some true := by
  have venue : row.venue.map (fun venue => decide (venue = window.venue.value)) = some true ↔
      row.venue = some window.venue.value := by
    cases row.venue <;> simp
  unfold PhaseWindow.condition
  cases window.kind with
  | none => simp [null_and_eq_true, venue, and_assoc]
  | some kind => simp [null_and_eq_true, venue, and_assoc]

/-- On a row with a valid time the expression's test of a window is the classifier's. -/
theorem condition_iff_holds (streamed : row.stream = some stream)
    (known : eventKindOf stream = some kind) (parsed : parseEventTime (eventTimeExpr row) = some moment)
    (listed : window ∈ windows) :
    nullAnd (phaseValid windows row) (window.condition row) = some true ↔
      window.holds row.venue kind moment = true := by
  have shaped : matchesHhmmss (eventTimeExpr row) = true := by
    rw [matches_iff_parsed, parsed]
    rfl
  have streams : isIn row.stream (streamEventKind.map (·.1)) = some true := by
    obtain ⟨entry, found, -⟩ := Option.map_eq_some_iff.mp known
    have same := find?_some found
    simp only [decide_eq_true_eq] at same
    refine is_in_eq_true.mpr ⟨entry.1, mem_map_of_mem (mem_of_find?_eq_some found), ?_⟩
    rw [streamed, same]
  have venues (own : row.venue = some window.venue.value) :
      isIn row.venue (windows.map (·.venue.value)) = some true :=
    is_in_eq_true.mpr ⟨_, mem_map_of_mem listed, own⟩
  have kinds : (∀ other ∈ window.kind, isIn row.stream (streamsOf other) = some true) ↔
      (window.kind = none ∨ window.kind = some kind) := by
    cases window.kind with
    | none => simp
    | some other => simp [streamed, stream_listed known, eq_comm]
  rw [null_and_eq_true, phaseValid, null_and_eq_true, null_and_eq_true, shaped, condition_eq_true, kinds,
    (text_order parsed window.start).1, (text_order parsed window.stop).2, PhaseWindow.holds,
    decide_eq_true_eq]
  constructor
  · rintro ⟨-, own, starts, ends, kind⟩
    exact ⟨own, kind, starts, ends⟩
  · rintro ⟨own, kind, starts, ends⟩
    exact ⟨⟨⟨rfl, streams⟩, venues own⟩, own, starts, ends, kind⟩

/-- The nested conditions pick the first window that meets its condition. -/
theorem nested_when (windows : List PhaseWindow) {condition : PhaseWindow → Option Bool}
    {test : PhaseWindow → Bool} (agree : ∀ window ∈ windows, condition window = some true ↔ test window = true) :
    windows.foldr (fun window result => whenThen (condition window) window.phase result) .unclassified =
      ((windows.find? test).map (·.phase)).getD .unclassified := by
  induction windows with
  | nil => rfl
  | cons first rest ih =>
    obtain ⟨own, others⟩ := forall_mem_cons.mp agree
    rw [foldr_cons, ih others, whenThen, find?_cons]
    cases met : test first with
    | true => rw [if_pos (own.mpr met)]; rfl
    | false => rw [if_neg fun holds => by simp [own.mp holds] at met]

/-- The column expression gives every row of a known stream the phase that the classifier gives
its venue, its event time and its stream's kind. -/
theorem phase_expr_agrees (windows : List PhaseWindow) (row : PhaseRow) {stream : String}
    {kind : EventKind} (streamed : row.stream = some stream) (known : eventKindOf stream = some kind) :
    marketPhaseExpr windows row = classifyMarketPhase windows row.venue (eventTimeExpr row) kind := by
  rw [marketPhaseExpr, foldl_reverse, classifyMarketPhase]
  cases parsed : parseEventTime (eventTimeExpr row) with
  | none =>
    -- An invalid time meets no window's condition.
    have invalid (window : PhaseWindow) :
        nullAnd (phaseValid windows row) (window.condition row) = some true ↔ false = true := by
      rw [phaseValid, null_and_eq_true, null_and_eq_true, null_and_eq_true, Option.some_inj,
        matches_iff_parsed, parsed]
      simp
    rw [nested_when windows fun window _ => invalid window, find?_eq_none.mpr (by simp)]
    rfl
  | some moment =>
    exact nested_when windows fun window listed => condition_iff_holds streamed known parsed listed

def Sample.quoteRow : PhaseRow where
  venue := some "krx"
  stream := some "H0STASP0"
  exchangeEventTime := none
  raw := some "\x7b\"hotime\" : \"083512\"\x7d"

/-- A quote while closing-price trades are made; its time is the body's. -/
theorem quote_phase_agrees :
    eventTimeExpr Sample.quoteRow = "083512" ∧
      marketPhaseExpr marketPhaseWindows Sample.quoteRow = .openingAuction ∧
      marketPhaseExpr marketPhaseWindows Sample.quoteRow =
        classifyMarketPhase marketPhaseWindows (some "krx") (eventTimeExpr Sample.quoteRow) .quote := by
  refine ⟨by decide +kernel, by decide +kernel, ?_⟩
  exact phase_expr_agrees marketPhaseWindows Sample.quoteRow rfl (by decide +kernel)

end KrxAlpha
