import KrxAlpha.TokenStore
import Mathlib.Data.List.Basic

/-! One issuer at a time for the token a host shares. What a step can do is said once, by cases.
The books of a run say which token was put in place of which, and that follows from two facts
about the caller that has the lock: the record it found is still the stored one, and it had a
reason to refuse it. -/
namespace KrxAlpha
open List

namespace TokenHost

/-! ### What a step can do -/

/-- What the caller that has the lock can come to next. -/
inductive Goes (host : TokenHost) (holder : TokenHolder) : TokenStep → LockedStage → Prop where
  | failed (input : TokenStep) (error : TokenError) : Goes host holder input (.leaving (.error error))
  | adopted (now : ℚ) (cached : TokenRecord) (read : host.file.read = .ok (some cached))
      (accepted : holder.call.accepts now cached = true) :
      Goes host holder (.look now) (.leaving (.ok cached))
  | refused (now : ℚ) (cached : Option TokenRecord) (read : host.file.read = .ok cached)
      (refused : ∀ record ∈ cached, holder.call.accepts now record = false) :
      Goes host holder (.look now) (.guarding now cached)
  | passed (input : TokenStep) (lookedAt : ℚ) (cached : Option TokenRecord)
      (stage : holder.stage = .guarding lookedAt cached) :
      Goes host holder input (.issuing lookedAt cached)
  | answered (lookedAt : ℚ) (cached : Option TokenRecord) (issued : IssuedToken) (now : ℚ)
      (stage : holder.stage = .issuing lookedAt cached) :
      Goes host holder (.issue (.ok issued) now)
        (.publishing lookedAt cached (buildRecord issued cached now))

inductive Moves (host : TokenHost) : TokenStep → TokenHost → Prop where
  | still (input : TokenStep) : Moves host input host
  | queued (input : TokenStep) (caller : Nat) (call : TokenCall) :
      Moves host input
        { host with
          calls := host.calls ++ [call]
          waiting := Function.update host.waiting caller (some call) }
  | served (input : TokenStep) (call : TokenCall) (outcome : Except TokenError TokenRecord)
      (asked : call.request = .getOrIssue) :
      Moves host input
        { host with
          calls := host.calls ++ [call]
          outcomes := host.outcomes ++ [(call, outcome)] }
  | locked (input : TokenStep) (caller : Nat) (call : TokenCall)
      (waits : host.waiting caller = some call) :
      Moves host input
        { host with
          waiting := Function.update host.waiting caller none
          holder := some { caller, call, stage := .reading } }
  | gaveUp (input : TokenStep) (caller : Nat) (call : TokenCall) (error : TokenError)
      (waits : host.waiting caller = some call) :
      Moves host input
        { host with
          waiting := Function.update host.waiting caller none
          outcomes := host.outcomes ++ [(call, .error error)] }
  | died (input : TokenStep) (caller : Nat) :
      Moves host input
        { host with
          waiting := Function.update host.waiting caller none
          holder := host.holder.filter (·.caller ≠ caller) }
  | moved (input : TokenStep) (holder : TokenHolder) (stage : LockedStage) (guardFile : GuardFile)
      (held : host.holder = some holder) (goes : Goes host holder input stage) :
      Moves host input { host with holder := some { holder with stage }, guardFile }
  | published (holder : TokenHolder) (lookedAt : ℚ) (cached : Option TokenRecord)
      (record : TokenRecord) (held : host.holder = some holder)
      (stage : holder.stage = .publishing lookedAt cached record) :
      Moves host (.publish true)
        { host with
          holder := some { holder with stage := .leaving (.ok record) }
          file := .written record
          issued := host.issued ++ [{ call := holder.call, lookedAt, previous := cached, record }] }
  | left (holder : TokenHolder) (outcome : Except TokenError TokenRecord)
      (held : host.holder = some holder) (stage : holder.stage = .leaving outcome) :
      Moves host .leave
        { host with holder := none, outcomes := host.outcomes ++ [(holder.call, outcome)] }

private theorem look_unlocked_moves (host : TokenHost) (input : TokenStep) (caller : Nat)
    (call : TokenCall) (now : ℚ) (asked : call.request = .getOrIssue) :
    Moves host input (lookUnlocked { host with calls := host.calls ++ [call] } caller call now) := by
  unfold lookUnlocked
  split
  · exact .served input call _ asked
  · split
    · exact .served input call _ asked
    · exact .queued input caller call
  · exact .queued input caller call

variable {holder : TokenHolder}

private theorem look_moves (now : ℚ)
    (held : host.holder = some holder) : Moves host (.look now) (host.look holder now) := by
  unfold look
  split
  · exact .moved _ holder _ host.guardFile held (.failed _ _)
  · rename_i cached read
    split
    · rename_i accepted
      exact .moved _ holder _ host.guardFile held (.adopted now cached read accepted)
    · rename_i refused
      exact .moved _ holder _ host.guardFile held (.refused now _ read (by simpa using refused))
  · rename_i read
    exact .moved _ holder _ host.guardFile held (.refused now none read (by simp))

private theorem pass_guard_moves (input : TokenStep) (now later : ℚ)
    (held : host.holder = some holder) (stage : holder.stage = .guarding lookedAt cached) :
    Moves host input (host.passGuard holder lookedAt cached now later) := by
  unfold passGuard
  split
  · exact .moved _ holder _ host.guardFile held (.failed _ _)
  · rename_i guardFile _
    exact .moved _ holder _ guardFile held (.passed _ lookedAt cached stage)

private theorem issue_moves
    (answer : Except TokenError IssuedToken) (now : ℚ)
    (held : host.holder = some holder) (stage : holder.stage = .issuing lookedAt cached) :
    Moves host (.issue answer now) (host.issue holder lookedAt cached answer now) := by
  unfold issue
  split
  · exact .moved _ holder _ host.guardFile held (.failed _ _)
  · rename_i issued
    exact .moved _ holder _ host.guardFile held (.answered lookedAt cached issued now stage)

private theorem publish_moves (written : Bool)
    (held : host.holder = some holder) (stage : holder.stage = .publishing lookedAt cached record) :
    Moves host (.publish written) (host.publish holder lookedAt cached record written) := by
  cases written with
  | true => exact .published holder lookedAt cached record held stage
  | false => exact .moved _ holder _ host.guardFile held (.failed _ _)

private theorem step_holder_moves (input : TokenStep)
    (held : host.holder = some holder) : Moves host input (host.stepHolder holder input) := by
  unfold stepHolder
  cases input with
  | look now =>
    simp only
    split
    · exact look_moves now held
    · exact .still _
  | guardBeforeIssue now later =>
    simp only
    split
    · exact pass_guard_moves _ now later held ‹_›
    · exact .still _
  | issue answer now =>
    simp only
    split
    · exact issue_moves answer now held ‹_›
    · exact .still _
  | publish written =>
    simp only
    split
    · exact publish_moves written held ‹_›
    · exact .still _
  | leave =>
    simp only
    split
    · exact .left holder _ held ‹_›
    · exact .still _
  | getOrIssue | replaceRejected | lock | lockTimeout | die => exact .still _

theorem step_moves (host : TokenHost) (input : TokenStep) : Moves host input (host.step input) := by
  unfold step
  cases input with
  | getOrIssue caller store now =>
    simp only
    split
    · exact .still _
    · exact look_unlocked_moves host _ caller _ now rfl
  | replaceRejected caller store rejectedToken =>
    simp only
    split
    · exact .still _
    · exact .queued _ caller _
  | lock caller =>
    simp only
    split
    · exact .locked _ caller _ ‹_›
    · exact .still _
  | lockTimeout caller =>
    simp only
    split
    · exact .gaveUp _ caller _ _ ‹_›
    · exact .still _
  | die caller => exact .died _ caller
  | look | guardBeforeIssue | issue | publish | leave =>
    simp only
    split
    · exact step_holder_moves _ ‹_›
    · exact .still _

end TokenHost

/-! ### The books of a run -/

def TokenRequest.rejected? : TokenRequest → Option String
  | .getOrIssue => none
  | .replaceRejected rejectedToken => some rejectedToken

def TokenFile.token? : TokenFile → Option String
  | .written record => some record.accessToken
  | _ => none

def Issuance.replaces (issuance : Issuance) (token : String) : Bool :=
  issuance.previous.any (·.accessToken = token)

/-- The tokens stored or reported so far, in a run that began with the file `start`. -/
def TokenHost.tokens (start : TokenFile) (host : TokenHost) : List String :=
  start.token?.toList ++ host.issued.map (·.record.accessToken) ++
    host.calls.filterMap (·.request.rejected?)

/-- The records held to be usable for the whole run: those issued in it, and the trusted ones, with
which it began. -/
def lastingRecords (trusted : List TokenRecord) (issued : List Issuance) : List TokenRecord :=
  trusted ++ issued.map (·.record)

/-- A lasting record is usable whenever a caller looks, and the vendor never hands out a token that
was stored or reported before. -/
def LastingTokens (start : TokenFile) (trusted : List TokenRecord) (host : TokenHost) :
    TokenStep → Prop
  | .getOrIssue _ store now =>
    ∀ record ∈ lastingRecords trusted host.issued, store.usable record now = true
  | .look now =>
    ∀ holder ∈ host.holder, ∀ record ∈ lastingRecords trusted host.issued,
      holder.call.store.usable record now = true
  | .issue (.ok issued) _ => issued.accessToken ∉ host.tokens start
  | _ => True

instance (start : TokenFile) (trusted : List TokenRecord) (host : TokenHost) :
    (input : TokenStep) → Decidable (LastingTokens start trusted host input)
  | .getOrIssue _ store now => inferInstanceAs (Decidable
      (∀ record ∈ lastingRecords trusted host.issued, store.usable record now = true))
  | .look now => inferInstanceAs (Decidable (∀ holder ∈ host.holder,
      ∀ record ∈ lastingRecords trusted host.issued, holder.call.store.usable record now = true))
  | .issue (.ok issued) _ => inferInstanceAs (Decidable (issued.accessToken ∉ host.tokens start))
  | .issue (.error _) _ | .replaceRejected .. | .lock _ | .lockTimeout _ | .guardBeforeIssue ..
  | .publish _ | .leave | .die _ => inferInstanceAs (Decidable True)

section Books

variable {start : TokenFile} {trusted : List TokenRecord} {file : TokenFile}
  {issued : List Issuance} {outcomes : List (TokenCall × Except TokenError TokenRecord)}

/-- What the answer to a caller that reported a token comes with. -/
def Answered (trusted : List TokenRecord) (issued : List Issuance) (call : TokenCall)
    (record : TokenRecord) : Prop :=
  ∀ token, call.request = .replaceRejected token → record.accessToken ≠ token ∧
    (token ∈ (lastingRecords trusted issued).map (·.accessToken) →
      ∃ issuance ∈ issued, issuance.replaces token = true)

structure TokenBooks (start : TokenFile) (trusted : List TokenRecord) (file : TokenFile)
    (issued : List Issuance) (outcomes : List (TokenCall × Except TokenError TokenRecord)) : Prop where
  stored : file = issued.getLast?.elim start fun issuance => .written issuance.record
  followed : ∀ token ∈ (lastingRecords trusted issued).map (·.accessToken),
    file.token? = some token ∨ ∃ issuance ∈ issued, issuance.replaces token = true
  once : ∀ token, issued.countP (·.replaces token) ≤ 1
  gone : ∀ issuance ∈ issued, ∀ token, issuance.replaces token = true → file.token? ≠ some token
  past : ∀ issuance ∈ issued, ∀ token, issuance.replaces token = true →
    token ∈ start.token?.toList ++ issued.map (·.record.accessToken)
  reporters : ∀ token ∈ (lastingRecords trusted issued).map (·.accessToken), ∀ issuance ∈ issued,
    (issuance.call.request = .replaceRejected token ↔ issuance.replaces token = true)
  answered : ∀ call record, (call, .ok record) ∈ outcomes → Answered trusted issued call record

/-- The caller that has the lock found the stored record and had to refuse it. -/
structure Found (trusted : List TokenRecord) (file : TokenFile) (issued : List Issuance)
    (call : TokenCall) (lookedAt : ℚ) (cached : Option TokenRecord) : Prop where
  read : file.read = .ok cached
  refused : ∀ record ∈ cached, call.accepts lookedAt record = false
  lasting : ∀ record ∈ lastingRecords trusted issued, call.store.usable record lookedAt = true

/-- A token that no one has seen who issued or was answered so far. -/
structure NewToken (start : TokenFile) (issued : List Issuance)
    (outcomes : List (TokenCall × Except TokenError TokenRecord)) (call : TokenCall)
    (token : String) : Prop where
  unstored : token ∉ start.token?.toList ++ issued.map (·.record.accessToken)
  unreported : call.request ≠ .replaceRejected token
  issuers : ∀ issuance ∈ issued, issuance.call.request ≠ .replaceRejected token
  answers : ∀ call record, (call, Except.ok record) ∈ outcomes →
    call.request ≠ .replaceRejected token

theorem TokenFile.read_written
    (read : (TokenFile.written record).read = .ok cached) : cached = some record := by
  simp only [TokenFile.read] at read
  split at read
  · cases read
  · cases read
    rfl

theorem TokenFile.read_token (read : file.read = .ok cached) :
    cached.map (·.accessToken) = file.token? := by
  cases file with
  | missing =>
    cases read
    rfl
  | broken text => cases read
  | written record =>
    rw [TokenFile.read_written read]
    rfl

theorem Issuance.replaces_iff {issuance : Issuance} :
    issuance.replaces token = true ↔ issuance.previous.map (·.accessToken) = some token := by
  unfold Issuance.replaces
  cases issuance.previous with
  | none => simp
  | some record => simp

section

variable (books : TokenBooks start trusted file issued outcomes)
  (began : ∀ record ∈ trusted, start = .written record)
include books began

/-- Once there is a lasting record, the stored one is lasting. -/
theorem TokenBooks.stored_lasting (some_lasting : lastingRecords trusted issued ≠ []) :
    ∃ record ∈ lastingRecords trusted issued, file = .written record := by
  cases last : issued.getLast? with
  | none =>
    have empty : issued = [] := getLast?_eq_none_iff.mp last
    obtain ⟨record, held⟩ := exists_mem_of_ne_nil _ some_lasting
    have kept : record ∈ trusted := by simpa [lastingRecords, empty] using held
    refine ⟨record, held, ?_⟩
    rw [books.stored, last]
    exact began record kept
  | some issuance =>
    refine ⟨issuance.record, ?_, by rw [books.stored, last]; rfl⟩
    have held := mem_of_getLast? last
    exact mem_append_right _ (mem_map_of_mem held)

/-- The caller reported the very token it found, and no other. -/
theorem TokenBooks.reports_stored (found : Found trusted file issued call lookedAt cached)
    (some_lasting : lastingRecords trusted issued ≠ []) :
    ∃ record, cached = some record ∧ call.request = .replaceRejected record.accessToken := by
  obtain ⟨record, held, same⟩ := books.stored_lasting began some_lasting
  have read := found.read
  rw [same] at read
  have known := TokenFile.read_written read
  refine ⟨record, known, ?_⟩
  have refused := found.refused record known
  unfold TokenCall.accepts at refused
  cases request : call.request with
  | getOrIssue => simp [request, found.lasting record held] at refused
  | replaceRejected rejectedToken =>
    simp only [request, found.lasting record held, Bool.and_true, decide_eq_false_iff_not,
      not_not] at refused
    rw [refused]

end

/-- A lasting token other than the last one issued was one before. -/
theorem lasting_before
    (known : token ∈ (lastingRecords trusted (issued ++ [issuance])).map (·.accessToken))
    (old : token ≠ issuance.record.accessToken) :
    token ∈ (lastingRecords trusted issued).map (·.accessToken) := by
  simpa [lastingRecords, old] using known

/-- The record issued is no longer found by those who are answered before it is stored. -/
theorem Answered.later (answered : Answered trusted issued call record)
    (unreported : call.request ≠ .replaceRejected issuance.record.accessToken) :
    Answered trusted (issued ++ [issuance]) call record := by
  intro token reported
  obtain ⟨differs, replaced⟩ := answered token reported
  refine ⟨differs, fun known => ?_⟩
  have old : token ≠ issuance.record.accessToken := by
    rintro rfl
    exact unreported reported
  obtain ⟨earlier, held, replaces⟩ := replaced (lasting_before known old)
  exact ⟨earlier, mem_append_left _ held, replaces⟩

section

variable (books : TokenBooks start trusted file issued outcomes)
include books

/-- The token in the file is the first one or one that was issued. -/
theorem TokenBooks.stored_known (kept : file.token? = some token) :
    token ∈ start.token?.toList ++ issued.map (·.record.accessToken) := by
  rw [books.stored] at kept
  cases last : issued.getLast? with
  | none =>
    rw [last] at kept
    exact mem_append_left _ (by simpa using kept)
  | some issuance =>
    rw [last] at kept
    refine mem_append_right _ (mem_map.mpr ⟨issuance, mem_of_getLast? last, ?_⟩)
    simpa [TokenFile.token?] using kept

/-- And so is every token that an issuance replaces, the one at hand included. -/
theorem TokenBooks.replaced_known (found : Found trusted file issued call lookedAt cached)
    (held : issuance ∈ issued ++ [{ call, lookedAt, previous := cached, record }])
    (replaces : issuance.replaces token = true) :
    token ∈ start.token?.toList ++ issued.map (·.record.accessToken) := by
  rcases mem_append.mp held with before | last
  · exact books.past issuance before token replaces
  · rw [mem_singleton.mp last] at replaces
    exact books.stored_known
      ((TokenFile.read_token found.read).symm.trans (Issuance.replaces_iff.mp replaces))

/-- The books after the record of a new token is put in place of the one that was found. -/
theorem TokenBooks.publish (began : ∀ record ∈ trusted, start = .written record)
    (found : Found trusted file issued call lookedAt cached)
    (new : NewToken start issued outcomes call record.accessToken) :
    TokenBooks start trusted (.written record)
      (issued ++ [{ call, lookedAt, previous := cached, record }]) outcomes := by
  have previous := TokenFile.read_token found.read
  constructor
  case stored => simp
  case followed =>
    intro token known
    by_cases same : token = record.accessToken
    · exact .inl (by rw [same]; rfl)
    refine .inr ?_
    rcases books.followed token (lasting_before known same) with kept | ⟨earlier, held, replaces⟩
    · exact ⟨_, mem_append_right _ (mem_singleton_self _),
        Issuance.replaces_iff.mpr (previous.trans kept)⟩
    · exact ⟨earlier, mem_append_left _ held, replaces⟩
  case once =>
    intro token
    rw [countP_append, countP_singleton]
    split
    · rename_i replaces
      have kept : file.token? = some token := previous.symm.trans (Issuance.replaces_iff.mp replaces)
      have none_before : issued.countP (·.replaces token) = 0 :=
        countP_eq_zero.mpr fun earlier held replaced => books.gone earlier held token replaced kept
      omega
    · exact books.once token
  case gone =>
    intro issuance held token replaces same
    have stored := books.replaced_known found held replaces
    cases same
    exact new.unstored stored
  case past =>
    intro issuance held token replaces
    rw [map_append, ← append_assoc]
    exact mem_append_left _ (books.replaced_known found held replaces)
  case reporters =>
    intro token known issuance held
    by_cases same : token = record.accessToken
    · subst same
      have unreported : issuance.call.request ≠ .replaceRejected record.accessToken :=
        forall_mem_append.mpr ⟨new.issuers, forall_mem_singleton.mpr new.unreported⟩ issuance held
      have unreplaced : issuance.replaces record.accessToken ≠ true :=
        fun replaces => new.unstored (books.replaced_known found held replaces)
      exact iff_of_false unreported unreplaced
    have before := lasting_before known same
    rcases mem_append.mp held with earlier | last
    · exact books.reporters token before issuance earlier
    · rw [mem_singleton.mp last]
      obtain ⟨stored, shape, reported⟩ := books.reports_stored began found
        (fun empty => by simp [empty] at before)
      rw [Issuance.replaces_iff, shape, reported]
      simp
  case answered =>
    intro caller answer held
    exact (books.answered caller answer held).later (new.answers caller answer held)

theorem TokenBooks.finish
    (answered : ∀ record, outcome = .ok record → Answered trusted issued call record) :
    TokenBooks start trusted file issued (outcomes ++ [(call, outcome)]) :=
  { books with
    answered := fun caller record held => by
      rcases mem_append.mp held with before | last
      · exact books.answered caller record before
      · cases mem_singleton.mp last
        exact answered record rfl }

end

theorem NewToken.finish (new : NewToken start issued outcomes call token)
    (unreported : ∀ record, outcome = .ok record → caller.request = .getOrIssue) :
    NewToken start issued (outcomes ++ [(caller, outcome)]) call token :=
  { new with
    answers := fun asked record held => by
      rcases mem_append.mp held with before | last
      · exact new.answers asked record before
      · cases mem_singleton.mp last
        simp [unreported record rfl] }

end Books

theorem build_record_generation (issued : IssuedToken) (cached : Option TokenRecord) (now : ℚ) :
    (buildRecord issued cached now).generation = (cached.map (·.generation)).getD 0 + 1 := by
  cases cached with
  | none => rfl
  | some previous => rfl

/-! ### What every run keeps -/

namespace TokenHost

/-- What the caller that has the lock knows at each stage. -/
def Staged (start : TokenFile) (trusted : List TokenRecord) (file : TokenFile)
    (issued : List Issuance) (outcomes : List (TokenCall × Except TokenError TokenRecord))
    (call : TokenCall) : LockedStage → Prop
  | .reading => True
  | .guarding lookedAt cached => Found trusted file issued call lookedAt cached
  | .issuing lookedAt cached => Found trusted file issued call lookedAt cached
  | .publishing lookedAt cached record =>
    Found trusted file issued call lookedAt cached ∧
      record.generation = (cached.map (·.generation)).getD 0 + 1 ∧
      NewToken start issued outcomes call record.accessToken
  | .leaving (.ok record) => Answered trusted issued call record
  | .leaving (.error _) => True

structure Sound (start : TokenFile) (trusted : List TokenRecord) (host : TokenHost) : Prop where
  books : TokenBooks start trusted host.file host.issued host.outcomes
  staged : ∀ holder ∈ host.holder,
    Staged start trusted host.file host.issued host.outcomes holder.call holder.stage

/-- Whoever is served was heard. -/
structure Heard (host : TokenHost) : Prop where
  lined : ∀ caller, ∀ call ∈ host.waiting caller, call ∈ host.calls
  inside : ∀ holder ∈ host.holder, holder.call ∈ host.calls
  issuers : ∀ issuance ∈ host.issued, issuance.call ∈ host.calls
  ended : ∀ ending ∈ host.outcomes, ending.1 ∈ host.calls

variable {start : TokenFile} {trusted : List TokenRecord} {host : TokenHost}

theorem Staged.finish {file : TokenFile} {issued : List Issuance}
    {outcomes : List (TokenCall × Except TokenError TokenRecord)}
    (staged : Staged start trusted file issued outcomes call stage)
    (unreported : ∀ record, outcome = .ok record → caller.request = .getOrIssue) :
    Staged start trusted file issued (outcomes ++ [(caller, outcome)]) call stage := by
  cases stage with
  | reading => trivial
  | guarding => exact staged
  | issuing => exact staged
  | publishing => exact ⟨staged.1, staged.2.1, staged.2.2.finish unreported⟩
  | leaving ended =>
    cases ended with
    | ok record => exact staged
    | error error => trivial

/-- The token handed out differs from every one that was stored or reported. -/
theorem Heard.new_token (heard : Heard host) {holder : TokenHolder}
    (held : host.holder = some holder) (fresh : token ∉ host.tokens start) :
    NewToken start host.issued host.outcomes holder.call token := by
  have reported : ∀ call ∈ host.calls, call.request ≠ .replaceRejected token := by
    intro call asked same
    apply fresh
    exact mem_append_right _ (mem_filterMap.mpr ⟨call, asked, by rw [same]; rfl⟩)
  constructor
  · intro stored
    apply fresh
    exact mem_append_left _ stored
  · exact reported _ (heard.inside holder held)
  · exact fun issuance made => reported _ (heard.issuers issuance made)
  · exact fun call record answered => reported _ (heard.ended _ answered)

private theorem update_waiting {waiting : Nat → Option TokenCall}
    (found : call ∈ Function.update waiting caller value other) :
    call ∈ value ∨ call ∈ waiting other := by
  by_cases same : other = caller
  · subst same
    rw [Function.update_self] at found
    exact .inl found
  · rw [Function.update_of_ne same] at found
    exact .inr found

private theorem waiting_still {waiting : Nat → Option TokenCall}
    (found : call ∈ Function.update waiting caller none other) : call ∈ waiting other :=
  (update_waiting found).resolve_left (by simp)

theorem Heard.step (heard : Heard host) (input : TokenStep) : Heard (host.step input) := by
  have moves := step_moves host input
  generalize host.step input = after at moves
  cases moves with
  | still => exact heard
  | queued _ caller call =>
    constructor
    · intro other asked found
      rcases update_waiting found with new | before
      · cases new
        simp
      · exact mem_append_left _ (heard.lined other asked before)
    · exact fun holder held => mem_append_left _ (heard.inside holder held)
    · exact fun issuance made => mem_append_left _ (heard.issuers issuance made)
    · exact fun ending listed => mem_append_left _ (heard.ended ending listed)
  | served _ call outcome asked =>
    constructor
    · exact fun other asked found => mem_append_left _ (heard.lined other asked found)
    · exact fun holder held => mem_append_left _ (heard.inside holder held)
    · exact fun issuance made => mem_append_left _ (heard.issuers issuance made)
    · exact forall_mem_append.mpr ⟨fun ending before => mem_append_left _ (heard.ended ending before), by simp⟩
  | locked _ caller call waits =>
    refine { heard with lined := fun other asked found => ?_, inside := fun holder held => ?_ }
    · exact heard.lined other asked (waiting_still found)
    · cases held
      exact heard.lined caller call waits
  | gaveUp _ caller call error waits =>
    refine { heard with lined := fun other asked found => ?_, ended := forall_mem_append.mpr ?_ }
    · exact heard.lined other asked (waiting_still found)
    · exact ⟨heard.ended, forall_mem_singleton.mpr (heard.lined caller call waits)⟩
  | died _ caller =>
    refine { heard with lined := fun other asked found => ?_, inside := fun holder held => ?_ }
    · exact heard.lined other asked (waiting_still found)
    · exact heard.inside holder (Option.mem_filter_iff.mp held).1
  | moved _ holder stage guardFile held goes =>
    refine { heard with inside := fun other same => ?_ }
    cases same
    exact heard.inside holder held
  | published holder lookedAt cached record held stage =>
    refine { heard with inside := fun other same => ?_, issuers := forall_mem_append.mpr ?_ }
    · cases same
      exact heard.inside holder held
    · exact ⟨heard.issuers, forall_mem_singleton.mpr (heard.inside holder held)⟩
  | left holder outcome held stage =>
    refine { heard with inside := fun other same => ?_, ended := forall_mem_append.mpr ?_ }
    · cases same
    · exact ⟨heard.ended, forall_mem_singleton.mpr (heard.inside holder held)⟩

theorem Sound.goes (sound : Sound start trusted host) (heard : Heard host) {holder : TokenHolder}
    (held : host.holder = some holder)
    (goes : Goes host holder input stage) (lasting : LastingTokens start trusted host input) :
    Staged start trusted host.file host.issued host.outcomes holder.call stage := by
  cases goes with
  | failed => trivial
  | adopted now cached read accepted =>
    intro token reported
    simp only [TokenCall.accepts, reported, Bool.and_eq_true, decide_eq_true_eq] at accepted
    refine ⟨accepted.1, fun known => ?_⟩
    -- The stored token is another one, so the reported one was replaced.
    refine (sound.books.followed token known).resolve_left fun stored => accepted.1 ?_
    rw [← TokenFile.read_token read] at stored
    exact Option.some.inj stored
  | refused now cached read refused => exact ⟨read, refused, lasting holder held⟩
  | passed _ lookedAt cached stage =>
    have found := sound.staged holder held
    rw [stage] at found
    exact found
  | answered lookedAt cached issued now stage =>
    have found := sound.staged holder held
    rw [stage] at found
    exact ⟨found, build_record_generation issued cached now, heard.new_token held lasting⟩

theorem Sound.step (sound : Sound start trusted host) (heard : Heard host)
    (began : ∀ record ∈ trusted, start = .written record) (input : TokenStep)
    (lasting : LastingTokens start trusted host input) : Sound start trusted (host.step input) := by
  have moves := step_moves host input
  generalize host.step input = after at moves
  cases moves with
  | still => exact sound
  | queued => exact ⟨sound.books, sound.staged⟩
  | served _ call outcome asked =>
    refine ⟨sound.books.finish ?_, fun holder held => (sound.staged holder held).finish fun _ _ => asked⟩
    intro record _ token reported
    rw [asked] at reported
    cases reported
  | locked _ caller call waits =>
    refine ⟨sound.books, fun holder held => ?_⟩
    cases held
    trivial
  | gaveUp _ caller call error waits =>
    refine ⟨sound.books.finish ?_, fun holder held => (sound.staged holder held).finish ?_⟩
    · intro record failed
      cases failed
    · intro record failed
      cases failed
  | died _ caller =>
    exact ⟨sound.books, fun holder held => sound.staged holder (Option.mem_filter_iff.mp held).1⟩
  | moved _ holder stage guardFile held goes =>
    have staged := sound.goes heard held goes lasting
    refine ⟨sound.books, fun other same => ?_⟩
    cases same
    exact staged
  | published holder lookedAt cached record held stage =>
    have staged := sound.staged holder held
    rw [stage] at staged
    obtain ⟨found, _, new⟩ := staged
    have books := sound.books.publish began found new
    refine ⟨books, fun other same => ?_⟩
    cases same
    -- Its own report was replaced too, by this issuance or by an earlier one.
    intro token reported
    have differs : record.accessToken ≠ token := by
      rintro rfl
      exact new.unreported reported
    refine ⟨differs, fun known => ?_⟩
    refine (books.followed token known).resolve_left fun stored => differs ?_
    exact Option.some.inj stored
  | left holder outcome held stage =>
    have staged := sound.staged holder held
    rw [stage] at staged
    refine ⟨sound.books.finish ?_, fun other same => ?_⟩
    · rintro record rfl
      exact staged
    · cases same

theorem sound_run {file : TokenFile} {guardFile : GuardFile}
    (began : ∀ record ∈ trusted, file = .written record)
    (lasting : Along step (LastingTokens file trusted) { file, guardFile } steps) :
    Sound file trusted (steps.foldl step { file, guardFile }) := by
  have first : Sound file trusted { file, guardFile } ∧ Heard { file, guardFile } := by
    refine ⟨⟨⟨rfl, ?_, by simp, by simp, by simp, by simp, by simp⟩, by simp⟩,
      ⟨by simp, by simp, by simp, by simp⟩⟩
    intro token known
    obtain ⟨record, held, same⟩ := mem_map.mp known
    rw [began record (by simpa [lastingRecords] using held), ← same]
    exact .inl rfl
  exact (foldl_preserves (fun host => Sound file trusted host ∧ Heard host)
    (fun host input lasts ⟨sound, heard⟩ => ⟨sound.step heard began input lasts, heard.step input⟩)
    lasting first).1

/-- What a step does to the stored record. -/
theorem Sound.reissues (sound : Sound start trusted host) (input : TokenStep) :
    ((host.step input).file = host.file ∧ (host.step input).issued = host.issued) ∨
      ∃ issuance, (host.step input).issued = host.issued ++ [issuance] ∧
        host.file.read = .ok issuance.previous ∧
        (host.step input).file = .written issuance.record ∧
        issuance.record.generation = (issuance.previous.map (·.generation)).getD 0 + 1 ∧
        (issuance.call.request = .getOrIssue → ∀ record ∈ issuance.previous,
          issuance.call.store.usable record issuance.lookedAt = false) := by
  have moves := step_moves host input
  generalize host.step input = after at moves
  cases moves with
  | published holder lookedAt cached record held stage =>
    have staged := sound.staged holder held
    rw [stage] at staged
    obtain ⟨found, generation, _⟩ := staged
    refine .inr ⟨_, rfl, found.read, rfl, generation, fun asked stored kept => ?_⟩
    have refused := found.refused stored kept
    have request : holder.call.request = .getOrIssue := asked
    unfold TokenCall.accepts at refused
    rw [request] at refused
    exact refused
  | still | queued | served | locked | gaveUp | died | moved | left => exact .inl ⟨rfl, rfl⟩

/-- In every order of calls each issuance follows the record it replaces by one generation, and
`get_or_issue` asks for a token only when it holds the lock and finds no usable one. However many
callers report a token that was stored, once one of them has returned exactly one of them has
replaced it, and none of them got it back. -/
theorem single_issuer (file : TokenFile) (guardFile : GuardFile) (trusted : List TokenRecord)
    (began : ∀ record ∈ trusted, file = .written record) (steps : List TokenStep)
    (lasting : Along step (LastingTokens file trusted) { file, guardFile } steps) :
    let host := steps.foldl step { file, guardFile }
    (∀ input, ((host.step input).file = host.file ∧ (host.step input).issued = host.issued) ∨
      ∃ issuance, (host.step input).issued = host.issued ++ [issuance] ∧
        host.file.read = .ok issuance.previous ∧
        (host.step input).file = .written issuance.record ∧
        issuance.record.generation = (issuance.previous.map (·.generation)).getD 0 + 1 ∧
        (issuance.call.request = .getOrIssue → ∀ record ∈ issuance.previous,
          issuance.call.store.usable record issuance.lookedAt = false)) ∧
    ∀ token ∈ (lastingRecords trusted host.issued).map (·.accessToken), ∀ call record,
      (call, .ok record) ∈ host.outcomes → call.request = .replaceRejected token →
      record.accessToken ≠ token ∧
        host.issued.countP (·.call.request = .replaceRejected token) = 1 := by
  have sound := sound_run began lasting
  refine ⟨sound.reissues, fun token known call record ended reported => ?_⟩
  obtain ⟨differs, replaced⟩ := sound.books.answered call record ended token reported
  refine ⟨differs, ?_⟩
  obtain ⟨issuance, made, replaces⟩ := replaced known
  have same := countP_congr fun issuance made =>
    (decide_eq_true_iff.trans (sound.books.reporters token known issuance made))
  rw [same]
  refine le_antisymm (sound.books.once token) ?_
  exact countP_pos_iff.mpr ⟨issuance, made, replaces⟩

end TokenHost

namespace Sample

def tokenStore : TokenStore where
  path := "token.json"
  vendor := .ls
  lockTimeoutSeconds := 15
  expiryMarginSeconds := 60
  issueThrottlePolicy := .wait
  waits := by decide
  margin := by decide
  aged := by decide

def oldToken : TokenRecord := { accessToken := "old", issuedAt := 0, expiresAt := none, generation := 3 }

/-- Two callers report the stored token; one replaces it, the other finds the new one. -/
def twoReports : List TokenStep :=
  [.replaceRejected 1 tokenStore "old", .replaceRejected 2 tokenStore "old", .lock 1, .look 10,
    .guardBeforeIssue 10 10, .issue (.ok { accessToken := "new", expiresInSeconds := some 3600 }) 11,
    .publish true, .leave, .lock 2, .look 20, .leave]

end Sample

open Sample

theorem single_issuer_two_reports :
    let host := twoReports.foldl TokenHost.step { file := .written oldToken }
    host.outcomes.length = 2 ∧
      host.issued.countP (·.call.request = .replaceRejected "old") = 1 := by
  refine ⟨by decide +kernel, ?_⟩
  have lasting : Along TokenHost.step (LastingTokens (.written oldToken) [oldToken])
      { file := .written oldToken } twoReports := by decide +kernel
  exact ((TokenHost.single_issuer (.written oldToken) .missing [oldToken]
    (by simp) twoReports lasting).2 "old" (by decide +kernel)
    { store := tokenStore, request := .replaceRejected "old" }
    (buildRecord { accessToken := "new", expiresInSeconds := some 3600 } (some oldToken) 11)
    (by decide +kernel) rfl).2

end KrxAlpha
