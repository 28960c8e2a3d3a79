import KrxAlpha.Contracts
import Mathlib.Data.Rat.Defs

/-! The trading client of the broker's REST interface: the decoding of a row of the daily
order list, and the loop that sends an order or a cancellation. A POST is repeated only
when the broker cannot have executed it; the loop spends a retry or its one token refresh
on every repetition, so it ends. -/
namespace KrxAlpha

/-- A decoded JSON value as far as the client looks into it. Of a boolean, a number or an
array it asks for no more than the truth value and the text. -/
inductive Json where
  | null
  | string (text : String)
  | plain (truthy : Bool) (text : String)
  | object (fields : List (String × Json)) (text : String)

namespace Json

def truthy : Json → Bool
  | .null => false
  | .string text => text ≠ ""
  | .plain truthy _ => truthy
  | .object fields _ => !fields.isEmpty

/-- `str`. -/
def text : Json → String
  | .null => "None"
  | .string text => text
  | .plain _ text => text
  | .object _ text => text

end Json

/-- `str(data.get(key, ""))`. -/
def textAt (fields : List (String × Json)) (key : String) : String :=
  (fields.lookup key).elim "" Json.text

/-- The characters `str.strip` takes for white space. -/
def isSpace (char : Char) : Bool :=
  let code := char.toNat
  (9 ≤ code ∧ code ≤ 13) ∨ (28 ≤ code ∧ code ≤ 32) ∨ code = 0x85 ∨ code = 0xA0 ∨ code = 0x1680 ∨
    (0x2000 ≤ code ∧ code ≤ 0x200A) ∨ code = 0x2028 ∨ code = 0x2029 ∨ code = 0x202F ∨
    code = 0x205F ∨ code = 0x3000

def strip (text : String) : String :=
  String.ofList ((text.toList.dropWhile isSpace).reverse.dropWhile isSpace).reverse

/-! ### Rows of the daily order list -/

section Rows

-- `Decimal`: the finite number a text denotes, if it denotes one.
variable (decimal : String → Option ℚ)

def schemaError (endpoint field : String) : Error :=
  .kisApi "SCHEMA" s!"{endpoint} missing/invalid {field}"

/-- A required field of a row; an explicit null counts as missing. -/
def requiredField (row : List (String × Json)) (field endpoint : String) : Except Error Json :=
  match row.lookup field with
  | none => .error (schemaError endpoint field)
  | some .null => .error (schemaError endpoint field)
  | some value => .ok value

/-- A whole number. A blank text reads as zero. -/
def strictInt (row : List (String × Json)) (field endpoint : String) : Except Error Int := do
  let raw ← requiredField row field endpoint
  match raw with
  | .string text =>
    if strip text = "" then return 0
  | _ => pure ()
  match decimal (strip raw.text) with
  | none => .error (schemaError endpoint field)
  | some value => if value.den = 1 then return value.num else .error (schemaError endpoint field)

/-- The parent of a child row; a text of zeros only names none. -/
def originalOrderNo (row : List (String × Json)) : String :=
  let raw := strip (textAt row "orgn_odno")
  if raw.toList.all (· = '0') then "" else raw

def dailyOrderFields : List String :=
  ["odno", "orgn_odno", "ord_gno_brno", "pdno", "sll_buy_dvsn_cd", "ord_qty", "ord_unpr",
    "tot_ccld_qty", "tot_ccld_amt", "rmn_qty", "rjct_qty", "cncl_yn", "ord_tmd"]

/-- One turn of the loop in `get_daily_orders`. -/
def dailyOrderRow (row : List (String × Json)) : Except Error BrokerOrderStatus := do
  let endpoint := "inquire-daily-ccld"
  dailyOrderFields.forM fun field => do
    let _ ← requiredField row field endpoint
  if strip (textAt row "odno") = "" then .error (schemaError endpoint "odno")
  let dvsn := textAt row "sll_buy_dvsn_cd"
  if dvsn ≠ "01" ∧ dvsn ≠ "02" then .error (schemaError endpoint "sll_buy_dvsn_cd")
  return {
    brokerOrderNo := textAt row "odno"
    originalOrderNo := originalOrderNo row
    orgNo := textAt row "ord_gno_brno"
    symbol := textAt row "pdno"
    side := if dvsn = "01" then .sell else .buy
    orderedQty := ← strictInt decimal row "ord_qty" endpoint
    price := ← strictInt decimal row "ord_unpr" endpoint
    filledQty := ← strictInt decimal row "tot_ccld_qty" endpoint
    filledAmountKrw := ← strictInt decimal row "tot_ccld_amt" endpoint
    remainingQty := ← strictInt decimal row "rmn_qty" endpoint
    rejectedQty := ← strictInt decimal row "rjct_qty" endpoint
    cancelled := textAt row "cncl_yn" = "Y"
    orderTime := textAt row "ord_tmd" }

def getDailyOrders (rows : List (List (String × Json))) : Except Error (List BrokerOrderStatus) :=
  rows.mapM (dailyOrderRow decimal)

end Rows

/-! ### Sending an order -/

inductive KisVenue where
  | live | mock
  deriving DecidableEq

def trCancel : String := "TTTC0013U"

/-- The id sent on the wire; the mock venue has its own for the trading requests. -/
def wireTrId (venue : KisVenue) (canonical : String) : Except Error String :=
  match venue with
  | .live => .ok canonical
  | .mock =>
    if "TTTC".toList.isPrefixOf canonical.toList then
      .ok (String.ofList ('V' :: canonical.toList.drop 1))
    else .error (.valueError s!"unmappable TR id for mock venue: '{canonical}'")

inductive KisRetryDecision where
  | retryRateLimited | retryAfterTokenRefresh | final
  deriving DecidableEq

def rateLimitCodes : List String := ["EGW00201", "EGW00215"]

def expiredTokenCodes : List String := ["EGW00121", "EGW00123"]

def maxSafeRetries : Nat := 2

def classifyKisRetry (msgCd : String) (retries : Nat) (refreshed : Bool) : KisRetryDecision :=
  if msgCd ∈ rateLimitCodes ∧ retries < maxSafeRetries then .retryRateLimited
  else if msgCd ∈ expiredTokenCodes ∧ ¬ refreshed then .retryAfterTokenRefresh
  else .final

/-- What one POST came to. A `transport` exception is any request exception but a connect
timeout; `raised` is any other one. -/
inductive PostAnswer where
  | connectTimeout
  | transport (name : String)
  | raised (err : Error)
  | undecodable (status : Nat)
  | decoded (body : Json)

/-- One turn of the loop: the token that waiting for the slot and building the headers
ended with, the answer to the POST, and what a token refresh comes to if one is asked for. -/
structure PostTurn where
  token : Except Error String
  answer : PostAnswer
  refresh : Except Error Unit := .ok ()

structure PostRequest where
  path : String
  trId : String
  body : List (String × String)

/-- A POST that was made. -/
structure Post where
  request : PostRequest
  token : String
  answer : PostAnswer

inductive PostVerdict where
  | finished (result : Except Error BrokerOutcome)
  | resend
  | resendRefreshed

/-- `data.get("output") or {}`; any other value has no `get`. -/
def outputOf (fields : List (String × Json)) : Except Error (List (String × Json)) :=
  match fields.lookup "output" with
  | none => .ok []
  | some output =>
    if output.truthy then
      match output with
      | .object inner _ => .ok inner
      | _ => .error (.foreign "AttributeError")
    else .ok []

/-- The body says that the order was taken. -/
def confirmed (fields : List (String × Json)) : Bool :=
  match fields.lookup "rt_cd" with
  | some (.string code) => code = "0"
  | _ => false

def finalOutcome (fields : List (String × Json)) : Except Error BrokerOutcome :=
  let code := textAt fields "msg_cd"
  let message := strip (textAt fields "msg1")
  if ¬ confirmed fields then .ok { kind := .rejected, code, message }
  else match outputOf fields with
    | .error err => .error err
    | .ok output =>
      if (output.lookup "ODNO").any Json.truthy then
        .ok {
          kind := .accepted
          brokerOrderNo := some (textAt output "ODNO")
          brokerOrgNo := some (textAt output "KRX_FWDG_ORD_ORGNO")
          orderTime := some (textAt output "ORD_TMD")
          code, message }
      else .ok { kind := .unknown, code := "no_odno", message }

def judge (turn : PostTurn) (retries : Nat) (refreshed : Bool) : PostVerdict :=
  match turn.answer with
  | .connectTimeout =>
    if retries < maxSafeRetries then .resend
    else .finished (.ok {
      kind := .rejected, code := "connect_timeout"
      message := "not sent: connect timeout retries exhausted" })
  | .transport name => .finished (.ok { kind := .unknown, code := "transport", message := name })
  | .raised err => .finished (.error err)
  | .undecodable status =>
    .finished (.ok { kind := .unknown, code := s!"http_{status}", message := "non_json_response" })
  | .decoded (.object fields _) =>
    match classifyKisRetry (textAt fields "msg_cd") retries refreshed with
    | .retryRateLimited => .resend
    | .retryAfterTokenRefresh =>
      match turn.refresh with
      | .error err => .finished (.error err)
      | .ok () => .resendRefreshed
    | .final => .finished (finalOutcome fields)
  | .decoded _ => .finished (.error (.foreign "AttributeError"))

/-- Answers after which the same order may be sent again: the broker cannot have taken it. -/
def PostAnswer.Resendable : PostAnswer → Prop
  | .connectTimeout => True
  | .decoded (.object fields _) =>
    textAt fields "msg_cd" ∈ rateLimitCodes ∨ textAt fields "msg_cd" ∈ expiredTokenCodes
  | _ => False

theorem classify_rate_limited
    (again : classifyKisRetry msgCd retries refreshed = .retryRateLimited) :
    msgCd ∈ rateLimitCodes ∧ retries < maxSafeRetries := by
  unfold classifyKisRetry at again
  split at again
  · assumption
  · split at again <;> cases again

theorem classify_expired
    (again : classifyKisRetry msgCd retries refreshed = .retryAfterTokenRefresh) :
    msgCd ∈ expiredTokenCodes ∧ refreshed = false := by
  unfold classifyKisRetry at again
  split at again
  · cases again
  · split at again
    · rename_i expired
      exact ⟨expired.1, by simpa using expired.2⟩
    · cases again

/-- A counted repetition still has a retry to spend. -/
theorem judge_resend (again : judge turn retries refreshed = .resend) :
    retries < maxSafeRetries ∧ turn.answer.Resendable := by
  unfold judge at again
  split at again
  case h_1 timeout =>
    split at again
    · rename_i left
      exact ⟨left, by simp [timeout, PostAnswer.Resendable]⟩
    · cases again
  case h_5 fields text decoded =>
    split at again
    · rename_i limited
      obtain ⟨code, left⟩ := classify_rate_limited limited
      exact ⟨left, by simp [decoded, PostAnswer.Resendable, code]⟩
    · split at again <;> cases again
    · cases again
  all_goals cases again

/-- A repetition under a new token is the first of its kind. -/
theorem judge_resend_refreshed (again : judge turn retries refreshed = .resendRefreshed) :
    refreshed = false ∧ turn.answer.Resendable := by
  unfold judge at again
  split at again
  case h_1 timeout => split at again <;> cases again
  case h_5 fields text decoded =>
    split at again
    · cases again
    · rename_i expired
      obtain ⟨code, first⟩ := classify_expired expired
      exact ⟨first, by simp [decoded, PostAnswer.Resendable, code]⟩
    · cases again
  all_goals cases again

/-- The loop of `post_order` from a turn on: the POSTs made and the result. -/
def postLoop (request : PostRequest) (turns : Nat → PostTurn) (turn retries : Nat)
    (refreshed : Bool) : List Post × Except Error BrokerOutcome :=
  match (turns turn).token with
  | .error err => ([], .error err)
  | .ok token =>
    let post : Post := ⟨request, token, (turns turn).answer⟩
    match verdict : judge (turns turn) retries refreshed with
    | .finished result => ([post], result)
    | .resend =>
      let later := postLoop request turns (turn + 1) (retries + 1) refreshed
      (post :: later.1, later.2)
    | .resendRefreshed =>
      let later := postLoop request turns (turn + 1) retries true
      (post :: later.1, later.2)
termination_by maxSafeRetries - retries + if refreshed then 0 else 1
decreasing_by
  · have left := (judge_resend verdict).1
    omega
  · simp [(judge_resend_refreshed verdict).1]

def orderPath (trId : String) : String :=
  if trId = trCancel then "/uapi/domestic-stock/v1/trading/order-rvsecncl"
  else "/uapi/domestic-stock/v1/trading/order-cash"

/-- `post_order`: the POSTs it makes and what it returns or raises. -/
def postOrder (venue : KisVenue) (trId : String) (body : List (String × String))
    (turns : Nat → PostTurn) : List Post × Except Error BrokerOutcome :=
  match wireTrId venue trId with
  | .error err => ([], .error err)
  | .ok wireId => postLoop ⟨orderPath trId, wireId, body⟩ turns 0 0 false

end KrxAlpha
