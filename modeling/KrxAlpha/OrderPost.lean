import KrxAlpha.KisTrading

/-! What the sending loop may do with an order. It makes a bounded number of POSTs and
repeats one only after an answer that rules out an execution. What it makes of the last
answer depends on the answer's shape: a body without a result code reads as a rejection, and
a body or an output of another type ends in an exception. -/
namespace KrxAlpha
open List

/-! ### The loop -/

/-- A turn the loop comes to, with the retries spent and whether the token was renewed: before it
attempts were lost to connect timeouts, turned away for their rate or sent with an old token. -/
inductive Reached (turns : Nat → PostTurn) : Nat → Nat → Bool → Prop where
  | first : Reached turns 0 0 false
  | timedOut (before : Reached turns turn retries refreshed) (sent : (turns turn).token = .ok token)
      (lost : (turns turn).answer = .connectTimeout) (left : retries < maxSafeRetries) :
      Reached turns (turn + 1) (retries + 1) refreshed
  | limited (before : Reached turns turn retries refreshed) (sent : (turns turn).token = .ok token)
      (told : (turns turn).answer = .decoded (.object fields text))
      (again : classifyKisRetry (textAt fields "msg_cd") retries refreshed = .retryRateLimited) :
      Reached turns (turn + 1) (retries + 1) refreshed
  | expired (before : Reached turns turn retries refreshed) (sent : (turns turn).token = .ok token)
      (told : (turns turn).answer = .decoded (.object fields text))
      (again : classifyKisRetry (textAt fields "msg_cd") retries refreshed = .retryAfterTokenRefresh)
      (renewed : (turns turn).refresh = .ok ()) : Reached turns (turn + 1) retries true

section Loop

variable {request : PostRequest} {turns : Nat → PostTurn} {turn retries : Nat} {refreshed : Bool}
  {token : String}

theorem post_loop_unsent (missing : (turns turn).token = .error err) :
    postLoop request turns turn retries refreshed = ([], .error err) := by
  rw [postLoop, missing]

section

variable (sent : (turns turn).token = .ok token)
include sent

theorem post_loop_finished (verdict : judge (turns turn) retries refreshed = .finished result) :
    postLoop request turns turn retries refreshed =
      ([⟨request, token, (turns turn).answer⟩], result) := by
  rw [postLoop, sent]
  simp only
  split <;> simp_all

theorem post_loop_resend (verdict : judge (turns turn) retries refreshed = .resend) :
    postLoop request turns turn retries refreshed =
      (⟨request, token, (turns turn).answer⟩ ::
          (postLoop request turns (turn + 1) (retries + 1) refreshed).1,
        (postLoop request turns (turn + 1) (retries + 1) refreshed).2) := by
  rw [postLoop, sent]
  simp only
  split <;> simp_all

theorem post_loop_refreshed (verdict : judge (turns turn) retries refreshed = .resendRefreshed) :
    postLoop request turns turn retries refreshed =
      (⟨request, token, (turns turn).answer⟩ :: (postLoop request turns (turn + 1) retries true).1,
        (postLoop request turns (turn + 1) retries true).2) := by
  rw [postLoop, sent]
  simp only
  split <;> simp_all

end

/-- The loop's measure, the retries and the refresh left, bounds the POSTs it still makes. -/
theorem post_loop_length (turn retries : Nat) (refreshed : Bool) :
    (postLoop request turns turn retries refreshed).1.length ≤
      maxSafeRetries - retries + (if refreshed then 0 else 1) + 1 := by
  induction turn, retries, refreshed using postLoop.induct request turns with
  | case1 turn retries refreshed err missing => simp [post_loop_unsent missing]
  | case2 turn retries refreshed token sent result finished =>
    simp [post_loop_finished sent finished]
  | case3 turn retries refreshed token sent again step =>
    rw [post_loop_resend sent again, length_cons]
    have left := (judge_resend again).1
    omega
  | case4 turn retries refreshed token sent again step =>
    rw [post_loop_refreshed sent again, length_cons]
    simp only [(judge_resend_refreshed again).1, Bool.false_eq_true, ↓reduceIte] at step ⊢
    omega

private theorem resendable_before {later : List Post}
    (first : post.answer.Resendable) (rest : ∀ other ∈ later.dropLast, other.answer.Resendable) :
    ∀ other ∈ (post :: later).dropLast, other.answer.Resendable := by
  intro other member
  cases later with
  | nil => cases member
  | cons next others =>
    rcases mem_cons.mp member with rfl | inside
    · exact first
    · exact rest other inside

/-- Every POST but the last was answered in a way that allows another. -/
theorem post_loop_resends (turn retries : Nat) (refreshed : Bool) :
    ∀ post ∈ (postLoop request turns turn retries refreshed).1.dropLast, post.answer.Resendable := by
  induction turn, retries, refreshed using postLoop.induct request turns with
  | case1 turn retries refreshed err missing => simp [post_loop_unsent missing]
  | case2 turn retries refreshed token sent result finished =>
    simp [post_loop_finished sent finished]
  | case3 turn retries refreshed token sent again step =>
    rw [post_loop_resend sent again]
    exact resendable_before (judge_resend again).2 step
  | case4 turn retries refreshed token sent again step =>
    rw [post_loop_refreshed sent again]
    exact resendable_before (judge_resend_refreshed again).2 step

/-- The answers of the POSTs made before a turn, and what the loop does from it on. -/
structure LoopFrom (request : PostRequest) (turns : Nat → PostTurn) (turn : Nat) (front : List Post)
    (later : List Post × Except Error BrokerOutcome) : Prop where
  whole : postLoop request turns 0 0 false = (front ++ later.1, later.2)
  answers : front.map (·.answer) = (range turn).map fun earlier => (turns earlier).answer

private theorem LoopFrom.next
    (reached : LoopFrom request turns turn front (⟨request, token, (turns turn).answer⟩ :: later.1, later.2)) :
    LoopFrom request turns (turn + 1) (front ++ [⟨request, token, (turns turn).answer⟩]) later where
  whole := by rw [reached.whole, append_assoc, singleton_append]
  answers := by rw [map_append, reached.answers, range_succ, map_append, map_singleton, map_singleton]

theorem reached_loop (request : PostRequest) (reached : Reached turns turn retries refreshed) :
    ∃ front, LoopFrom request turns turn front (postLoop request turns turn retries refreshed) := by
  induction reached with
  | first => exact ⟨[], rfl, rfl⟩
  | timedOut before sent lost left ih =>
    obtain ⟨front, run⟩ := ih
    rw [post_loop_resend sent (by simp [judge, lost, left])] at run
    exact ⟨_, run.next⟩
  | limited before sent told again ih =>
    obtain ⟨front, run⟩ := ih
    rw [post_loop_resend sent (by simp [judge, told, again])] at run
    exact ⟨_, run.next⟩
  | expired before sent told again renewed ih =>
    obtain ⟨front, run⟩ := ih
    rw [post_loop_refreshed sent (by simp [judge, told, again, renewed])] at run
    exact ⟨_, run.next⟩

private theorem reached_resend (before : Reached turns turn retries refreshed)
    (sent : (turns turn).token = .ok token) (again : judge (turns turn) retries refreshed = .resend) :
    Reached turns (turn + 1) (retries + 1) refreshed := by
  have left := (judge_resend again).1
  unfold judge at again
  split at again
  case h_1 lost => exact .timedOut before sent lost left
  case h_5 told =>
    split at again
    · rename_i limited
      exact .limited before sent told limited
    · split at again <;> cases again
    · cases again
  all_goals cases again

private theorem reached_refreshed (before : Reached turns turn retries refreshed)
    (sent : (turns turn).token = .ok token)
    (again : judge (turns turn) retries refreshed = .resendRefreshed) :
    Reached turns (turn + 1) retries true := by
  unfold judge at again
  split at again
  case h_1 => split at again <;> cases again
  case h_5 told =>
    split at again
    · cases again
    · rename_i expired
      split at again
      · cases again
      · rename_i renewed
        exact .expired before sent told expired renewed
    · cases again
  all_goals cases again

/-- The loop comes to a turn at which it has no token or the verdict is final. -/
theorem loop_halts (request : PostRequest) (turn retries : Nat) (refreshed : Bool) (reached : Reached turns turn retries refreshed) :
    ∃ last spent renewed, Reached turns last spent renewed ∧
      ((∃ err, (turns last).token = .error err) ∨ ∃ token result, (turns last).token = .ok token ∧
        judge (turns last) spent renewed = .finished result) := by
  induction turn, retries, refreshed using postLoop.induct request turns with
  | case1 turn retries refreshed err missing => exact ⟨_, _, _, reached, .inl ⟨err, missing⟩⟩
  | case2 turn retries refreshed token sent result finished =>
    exact ⟨_, _, _, reached, .inr ⟨token, result, sent, finished⟩⟩
  | case3 turn retries refreshed token sent again step => exact step (reached_resend reached sent again)
  | case4 turn retries refreshed token sent again step =>
    exact step (reached_refreshed reached sent again)

end Loop

/-- Re-sending is bounded and safe: whatever the transport and the broker answer, the loop
ends after at most two POSTs more than there are safe retries, and a POST that another
follows ended in a connect timeout, a rate limit or an expired token. -/
theorem post_order_resends_safely (venue : KisVenue) (trId : String)
    (body : List (String × String)) (turns : Nat → PostTurn) :
    (postOrder venue trId body turns).1.length ≤ maxSafeRetries + 2 ∧
      ∀ earlier post next later,
        (postOrder venue trId body turns).1 = earlier ++ post :: next :: later →
        post.answer.Resendable := by
  unfold postOrder
  cases wireTrId venue trId with
  | error err => simp
  | ok wireId =>
    constructor
    · have bound := @post_loop_length ⟨orderPath trId, wireId, body⟩ turns 0 0 false
      simpa using bound
    · intro earlier post next later shape
      apply @post_loop_resends ⟨orderPath trId, wireId, body⟩ turns 0 0 false
      simp only [shape]
      simp

/-! ### The verdict on an answer -/

/-- The body carries a result code, and it is not that of success. -/
def ProvesRejection (answer : PostAnswer) : Prop :=
  ∃ fields text code, answer = .decoded (.object fields text) ∧
    fields.lookup "rt_cd" = some code ∧ code ≠ .string "0"

/-- An object with a result code; that of success comes with an output that is an object, or with
an empty one or none. -/
structure Shaped (fields : List (String × Json)) : Prop where
  coded : ∃ code, fields.lookup "rt_cd" = some code
  output : confirmed fields = true → ∀ output, fields.lookup "output" = some output →
    output.truthy = true → ∃ inner text, output = .object inner text

private theorem output_of_ok_iff : (∃ inner, outputOf fields = .ok inner) ↔
    ∀ output, fields.lookup "output" = some output → output.truthy = true →
      ∃ inner text, output = .object inner text := by
  unfold outputOf
  cases fields.lookup "output" with
  | none => simp
  | some output =>
    cases full : output.truthy with
    | false => simp [full]
    | true => cases output <;> simp [full]

theorem final_outcome_safe_iff (fields : List (String × Json)) (text : String) :
    (∃ outcome, finalOutcome fields = .ok outcome ∧
      (outcome.kind = .rejected → ProvesRejection (.decoded (.object fields text)))) ↔ Shaped fields := by
  unfold finalOutcome
  cases success : confirmed fields with
  | false =>
    simp only [Bool.false_eq_true, not_false_eq_true, ↓reduceIte]
    constructor
    · rintro ⟨outcome, same, proves⟩
      cases same
      obtain ⟨_, _, code, same, coded, -⟩ := proves rfl
      cases same
      exact ⟨⟨code, coded⟩, fun other => by simp [success] at other⟩
    · rintro ⟨⟨code, coded⟩, -⟩
      refine ⟨_, rfl, fun _ => ⟨fields, text, code, rfl, coded, ?_⟩⟩
      rintro rfl
      simp [confirmed, coded] at success
  | true =>
    have coded : ∃ code, fields.lookup "rt_cd" = some code := by
      unfold confirmed at success
      cases held : fields.lookup "rt_cd" with
      | none => simp [held] at success
      | some code => exact ⟨code, rfl⟩
    have shaped : Shaped fields ↔ ∃ inner, outputOf fields = .ok inner :=
      ⟨fun shaped => output_of_ok_iff.mpr (shaped.output success),
        fun output => ⟨coded, fun _ => output_of_ok_iff.mp output⟩⟩
    rw [shaped]
    simp only [not_true_eq_false, ↓reduceIte]
    cases outputOf fields with
    | error err => simp
    | ok inner =>
      refine ⟨fun _ => ⟨inner, rfl⟩, fun _ => ?_⟩
      simp only
      split
      · exact ⟨_, rfl, by simp⟩
      · exact ⟨_, rfl, by simp⟩

/-- The answer of a turn ends the loop well: with a final body in shape, with no body that can be
read, or with the last of the connect timeouts if there was nothing else before. -/
def SafeEnd (turns : Nat → PostTurn) (turn retries : Nat) (refreshed : Bool) : Prop :=
  (∃ token, (turns turn).token = .ok token) ∧
  match (turns turn).answer with
  | .connectTimeout => maxSafeRetries ≤ retries ∧ ∀ earlier < turn, (turns earlier).answer = .connectTimeout
  | .transport _ => True
  | .undecodable _ => True
  | .decoded (.object fields _) =>
    classifyKisRetry (textAt fields "msg_cd") retries refreshed = .final ∧ Shaped fields
  | _ => False

theorem SafeEnd.final (safe : SafeEnd turns turn retries refreshed) :
    ∃ result, judge (turns turn) retries refreshed = .finished result := by
  obtain ⟨-, safe⟩ := safe
  unfold judge
  cases answer : (turns turn).answer with
  | connectTimeout =>
    rw [answer] at safe
    exact ⟨_, if_neg (Nat.not_lt.mpr safe.1)⟩
  | decoded body =>
    rw [answer] at safe
    cases body with
    | object fields text => exact ⟨finalOutcome fields, by simp only [safe.1]⟩
    | _ => cases safe
  | _ => exact ⟨_, rfl⟩

/-- What is asked of the result of a loop whose last POST was that of the turn. -/
private def FailSafe (turns : Nat → PostTurn) (turn : Nat) (result : Except Error BrokerOutcome) : Prop :=
  ∃ outcome, result = .ok outcome ∧ (outcome.kind = .rejected →
    ProvesRejection (turns turn).answer ∨ ∀ earlier ≤ turn, (turns earlier).answer = .connectTimeout)

private theorem fail_safe_iff {turns : Nat → PostTurn} (sent : (turns turn).token = .ok token)
    (final : judge (turns turn) retries refreshed = .finished result) :
    FailSafe turns turn result ↔ SafeEnd turns turn retries refreshed := by
  have had : ∃ token, (turns turn).token = .ok token := ⟨token, sent⟩
  unfold judge at final
  unfold FailSafe SafeEnd
  rw [and_iff_right had]
  cases answer : (turns turn).answer with
  | connectTimeout =>
    simp only [answer] at final ⊢
    split at final
    · cases final
    · rename_i spent
      cases final
      simp only [Except.ok.injEq, exists_eq_left', true_imp_iff, and_iff_right (Nat.le_of_not_lt spent)]
      refine ⟨fun safe earlier before => ?_, fun lost => .inr fun earlier until_ => ?_⟩
      · rcases safe with ⟨_, _, _, same, _⟩ | lost
        · cases same
        · exact lost earlier (Nat.le_of_lt before)
      · rcases Nat.lt_or_eq_of_le until_ with before | rfl
        · exact lost earlier before
        · exact answer
  | transport name =>
    simp only [answer] at final
    cases final
    simp
  | raised err =>
    simp only [answer] at final
    cases final
    simp
  | undecodable status =>
    simp only [answer] at final
    cases final
    simp
  | decoded body =>
    -- A turn that was answered is no connect timeout.
    have answered : ¬ ∀ earlier ≤ turn, (turns earlier).answer = .connectTimeout := by
      intro lost
      cases answer.symm.trans (lost turn (Nat.le_refl _))
    cases body with
    | object fields text =>
      simp only [answer, or_iff_left answered] at final ⊢
      rw [← final_outcome_safe_iff fields text]
      split at final
      · cases final
      · rename_i expired
        split at final
        · cases final
          simp [expired]
        · cases final
      · rename_i last
        cases final
        simp [last]
    | _ =>
      simp only [answer] at final
      cases final
      simp

private theorem lost_posts_iff {turns : Nat → PostTurn} {front : List Post} {post : Post}
    (answers : front.map (·.answer) = (range turn).map fun earlier => (turns earlier).answer)
    (last : post.answer = (turns turn).answer) :
    (∀ other ∈ front ++ [post], other.answer = .connectTimeout) ↔
      ∀ earlier ≤ turn, (turns earlier).answer = .connectTimeout := by
  have every : (front ++ [post]).map (·.answer) =
      (range (turn + 1)).map fun earlier => (turns earlier).answer := by
    rw [map_append, answers, range_succ, map_append, map_singleton, map_singleton, last]
  have posts := @forall_mem_map _ _ Post.answer (front ++ [post]) (· = .connectTimeout)
  rw [← posts, every, forall_mem_map]
  simp only [mem_range, Nat.lt_succ_iff]

/-- What a final verdict on a turn that was reached means for the whole loop. -/
private theorem loop_fail_safe_iff (request : PostRequest) (reached : Reached turns turn retries refreshed)
    (sent : (turns turn).token = .ok token)
    (final : judge (turns turn) retries refreshed = .finished result) :
    (∃ outcome, (postLoop request turns 0 0 false).2 = .ok outcome ∧ (outcome.kind = .rejected →
      (∃ earlier post, (postLoop request turns 0 0 false).1 = earlier ++ [post] ∧
        ProvesRejection post.answer) ∨
      ∀ post ∈ (postLoop request turns 0 0 false).1, post.answer = .connectTimeout)) ↔
    FailSafe turns turn result := by
  obtain ⟨front, run⟩ := reached_loop request reached
  rw [post_loop_finished sent final] at run
  have last : ∀ post, (∃ earlier other, front ++ [post] = earlier ++ [other] ∧
      ProvesRejection other.answer) ↔ ProvesRejection post.answer := by
    refine fun post => ⟨?_, fun proves => ⟨front, _, rfl, proves⟩⟩
    rintro ⟨earlier, other, same, proves⟩
    cases (append_inj' same rfl).2
    exact proves
  rw [run.whole]
  dsimp only
  rw [lost_posts_iff run.answers rfl]
  simp only [last]
  rfl

/-- An outcome is returned, and a rejection only if the last body carries a code that says so or
no attempt got through to the broker, exactly if the transaction has an id at the venue and a
turn that the loop comes to ends it well. -/
theorem post_order_fail_safe_iff (venue : KisVenue) (trId : String) (body : List (String × String))
    (turns : Nat → PostTurn) :
    (∃ outcome, (postOrder venue trId body turns).2 = .ok outcome ∧ (outcome.kind = .rejected →
      (∃ earlier post, (postOrder venue trId body turns).1 = earlier ++ [post] ∧
        ProvesRejection post.answer) ∨
      ∀ post ∈ (postOrder venue trId body turns).1, post.answer = .connectTimeout)) ↔
    (∃ wireId, wireTrId venue trId = .ok wireId) ∧
      ∃ turn retries refreshed, Reached turns turn retries refreshed ∧
        SafeEnd turns turn retries refreshed := by
  unfold postOrder
  cases wireTrId venue trId with
  | error err => simp
  | ok wireId =>
    simp only [Except.ok.injEq, exists_eq', true_and]
    let request : PostRequest := ⟨orderPath trId, wireId, body⟩
    constructor
    · intro safe
      obtain ⟨turn, retries, refreshed, reached, ⟨err, missing⟩ | ⟨token, result, sent, final⟩⟩ :=
        loop_halts request 0 0 false .first
      · obtain ⟨outcome, returned, _⟩ := safe
        obtain ⟨front, run⟩ := reached_loop request reached
        rw [run.whole, post_loop_unsent missing] at returned
        cases returned
      · exact ⟨turn, retries, refreshed, reached,
          (fail_safe_iff sent final).mp ((loop_fail_safe_iff request reached sent final).mp safe)⟩
    · rintro ⟨turn, retries, refreshed, reached, safe⟩
      obtain ⟨token, sent⟩ := safe.1
      obtain ⟨result, final⟩ := safe.final
      exact (loop_fail_safe_iff request reached sent final).mpr ((fail_safe_iff sent final).mpr safe)

namespace Sample

/-- Every turn gets the same answer. -/
def answers (answer : PostAnswer) (_ : Nat) : PostTurn := { token := .ok "token", answer }

def throttled : Json := .object [("rt_cd", .string "1"), ("msg_cd", .string "EGW00201")] ""

/-- Two attempts the broker turned away for their rate, then none that reaches it. -/
def throttledThenLost (turn : Nat) : PostTurn :=
  { token := .ok "token", answer := if turn < 2 then .decoded throttled else .connectTimeout }

end Sample

open Sample

theorem post_order_first_final {turns : Nat → PostTurn}
    (mapped : wireTrId venue trId = .ok wireId) (sent : (turns 0).token = .ok token)
    (final : judge (turns 0) 0 false = .finished result) :
    (postOrder venue trId body turns).2 = result := by
  simp only [postOrder, mapped, post_loop_finished sent final]

/-- A body without a result code is taken for a rejection, a list raises, and so does an output
that is a text; and two answered attempts may stand before the connect timeout that is
reported as never sent. -/
theorem odd_answers_not_fail_safe :
    (∃ outcome, (postOrder .live "TTTC0012U" [] (answers (.decoded (.object [] "")))).2 =
      .ok outcome ∧ outcome.kind = .rejected ∧ ¬ ProvesRejection (.decoded (.object [] ""))) ∧
    (postOrder .live "TTTC0012U" [] (answers (.decoded (.plain false "[]")))).2 =
      .error (.foreign "AttributeError") ∧
    (postOrder .live "TTTC0012U" [] (answers (.decoded
      (.object [("rt_cd", .string "0"), ("output", .string "0001")] "")))).2 =
        .error (.foreign "AttributeError") ∧
    ∃ outcome, (postOrder .live "TTTC0012U" [] throttledThenLost).2 = .ok outcome ∧
      outcome.kind = .rejected ∧
      ∃ post ∈ (postOrder .live "TTTC0012U" [] throttledThenLost).1,
        post.answer ≠ .connectTimeout := by
  refine ⟨⟨_, post_order_first_final rfl rfl rfl, rfl, ?_⟩, post_order_first_final rfl rfl rfl,
    post_order_first_final rfl rfl rfl, ?_⟩
  · rintro ⟨fields, text, code, same, coded, -⟩
    cases same
    cases coded
  · have first : judge (throttledThenLost 0) 0 false = .resend := rfl
    have second : judge (throttledThenLost 1) 1 false = .resend := rfl
    have third : judge (throttledThenLost 2) 2 false = .finished (.ok {
        kind := .rejected, code := "connect_timeout"
        message := "not sent: connect timeout retries exhausted" }) := rfl
    simp only [postOrder, wireTrId]
    rw [post_loop_resend rfl first, post_loop_resend rfl second, post_loop_finished rfl third]
    exact ⟨_, rfl, rfl, _, mem_cons_self, by simp [throttledThenLost]⟩

end KrxAlpha
