import Lasr.Requests
import Lasr.ReplyTable

/-!
# The replies of the scheduler

`TaskScheduler` as a server with a table of reply ports (`ReplyTable`) : the ports are kept by
transaction hash, and each of the messages it gets is an event of such a server
(`table_handle`). Of the messages about the end of a transaction it hears all but
`RegistrationFailure`, which has no arm of its own in `TaskScheduler::handle`.

So the requests of a sequence of messages are answered once each if and only if no registration
fails first and no two requests with one transaction are open together
(`requests_answered_iff`).
-/

set_option linter.unusedSectionVars false

namespace Lasr

/-- A message to the scheduler. -/
inductive SchedulerMail where
  | message (m : SchedulerMessage)
  /-- `GetAccount`, with the account that is found. -/
  | getAccount (rpcReply : ℕ) (account : Option Account)
  /-- `ValidatorComplete`, `EngineComplete`, `BlobRetrieved`, `BlobIndexAcquired` or `EoEvent`,
  which fall through. -/
  | ignored

/-- The scheduler, with what it answered to `GetAccount`. -/
structure SchedulerDesk where
  state : SchedulerState
  accounts : List (ℕ × Option Account)

namespace SchedulerDesk

/-- The desk the scheduler starts with. -/
def new : SchedulerDesk := ⟨.new, []⟩

/-- `TaskScheduler::handle`, for every message. -/
def handle (env : Env) (desk : SchedulerDesk) : SchedulerMail → SchedulerDesk
  | .message m => { desk with state := (desk.state.handle env m).1 }
  | .getAccount port account => { desk with accounts := desk.accounts ++ [(port, account)] }
  | .ignored => desk

/-- Message after message. -/
def run (env : Env) (mails : List SchedulerMail) : SchedulerDesk :=
  mails.foldl (handle env) new

/-- How often a port was answered. -/
def answers (desk : SchedulerDesk) (port : ℕ) : ℕ :=
  (desk.state.responses.map Prod.fst).count port + (desk.accounts.map Prod.fst).count port

end SchedulerDesk

namespace SchedulerMail

variable (env : Env)

/-- The transaction hash and the reply port of a request. -/
def request : SchedulerMail → Option (String × ℕ)
  | .message (.call tx port) => some (env.hashString tx, port)
  | .message (.send tx port) => some (env.hashString tx, port)
  | .message (.registerProgram tx port) => some (env.hashString tx, port)
  | _ => none

/-- The transaction hash of an outcome. -/
def outcome : SchedulerMail → Option String
  | .message (.transactionApplied hash _) => some hash
  | .message (.sendTransactionFailure hash _) => some hash
  | .message (.registrationSuccess tx _) => some (env.hashString tx)
  | .message (.registrationFailure hash _) => some hash
  | .message (.callTransactionAsyncPending hash) => some hash
  | .message (.callTransactionApplied hash _) => some hash
  | .message (.callTransactionFailure hash _ _) => some hash
  | _ => none

/-- The message is a `RegistrationFailure`. -/
def isRegistrationFailure : SchedulerMail → Bool
  | .message (.registrationFailure _ _) => true
  | _ => false

/-- The reply port a message carries. -/
def port : SchedulerMail → Option ℕ
  | .message (.call _ port) => some port
  | .message (.send _ port) => some port
  | .message (.registerProgram _ port) => some port
  | .getAccount port _ => some port
  | _ => none

/-- The message as an event of a table of reply ports. -/
def event (mail : SchedulerMail) : ReplyTable.Event String ℕ :=
  match mail.request env, mail.outcome env, mail.port with
  | some (hash, port), _, _ => .ask hash port
  | none, some hash, _ => .outcome hash !mail.isRegistrationFailure
  | none, none, some port => .direct port
  | none, none, none => .skip

end SchedulerMail

/-! ## The table -/

namespace SchedulerDesk

variable {env : Env} {desk : SchedulerDesk} {mail : SchedulerMail} {mails : List SchedulerMail}

/-- The desk as a table of reply ports. -/
def table (desk : SchedulerDesk) : ReplyTable String ℕ where
  waiting hash := desk.state.ports.lookup hash
  answers := desk.answers

/-- One more answer on a port. -/
theorem answers_respond {port : ℕ} {ports : HashMap String ℕ} (response : RpcResponse) :
    SchedulerDesk.answers ⟨⟨ports, desk.state.responses ++ [(port, response)]⟩, desk.accounts⟩ =
      Function.update desk.answers port (desk.answers port + 1) := by
  funext q
  unfold answers
  rw [List.map_append, List.count_append]
  rcases eq_or_ne q port with rfl | hne
  · simp
    omega
  · simp [hne, hne.symm]

theorem table_respond (hash : String) (response : RpcResponse) :
    ({ desk with state := desk.state.respond hash response } : SchedulerDesk).table =
      desk.table.step (.outcome hash true) := by
  unfold SchedulerState.respond
  simp only [ReplyTable.step]
  cases hport : desk.state.ports.lookup hash with
  | none =>
    have hwaiting : desk.table.waiting hash = none := hport
    rw [hwaiting]
  | some port =>
    have hwaiting : desk.table.waiting hash = some port := hport
    rw [hwaiting]
    refine ReplyTable.ext (funext fun k => ?_) (answers_respond response)
    rcases eq_or_ne k hash with rfl | hne
    · simp [table]
    · simp [table, AList.lookup_erase_ne hne, hne]

theorem table_forward (hash : String) (port : ℕ) :
    ({ desk with state := { desk.state with ports := desk.state.ports.insert hash port } } :
      SchedulerDesk).table = desk.table.step (.ask hash port) := by
  refine ReplyTable.ext (funext fun k => ?_) rfl
  rcases eq_or_ne k hash with rfl | hne
  · simp [table, ReplyTable.step]
  · simp [table, ReplyTable.step, AList.lookup_insert_ne hne, hne]

theorem table_getAccount (port : ℕ) (account : Option Account) :
    ({ desk with accounts := desk.accounts ++ [(port, account)] } : SchedulerDesk).table =
      desk.table.step (.direct port) := by
  refine ReplyTable.ext rfl (funext fun q => ?_)
  change _ = Function.update desk.answers port (desk.answers port + 1) q
  simp only [table, answers, List.map_append, List.count_append]
  rcases eq_or_ne q port with rfl | hne
  · simp
    omega
  · simp [answers, hne, hne.symm]

theorem table_handle : (desk.handle env mail).table = desk.table.step (mail.event env) := by
  cases mail with
  | message m =>
    cases m with
    | call tx port => exact table_forward _ port
    | send tx port => exact table_forward _ port
    | registerProgram tx port => exact table_forward _ port
    | transactionApplied hash token => exact table_respond hash _
    | sendTransactionFailure hash error => exact table_respond hash _
    | callTransactionApplied hash account => exact table_respond hash _
    | callTransactionFailure hash outputs error => exact table_respond hash _
    | callTransactionAsyncPending hash => exact table_respond hash _
    | registrationSuccess tx programId => exact table_respond _ _
    | registrationFailure hash error => rfl
  | getAccount port account => exact table_getAccount port account
  | ignored => rfl

theorem table_run :
    (run env mails).table = ReplyTable.empty.run (mails.map (SchedulerMail.event env)) := by
  unfold run ReplyTable.run
  rw [List.foldl_map]
  exact (List.foldl_hom table fun desk mail => table_handle.symm).symm

theorem answers_run {port : ℕ} : (run env mails).answers port =
    (ReplyTable.empty.run (mails.map (SchedulerMail.event env))).answers port :=
  congrFun (congrArg ReplyTable.answers table_run) port

end SchedulerDesk

namespace SchedulerMail

variable {env : Env} {mail : SchedulerMail} {hash : String} {port' : ℕ}

theorem event_eq_ask_iff : mail.event env = .ask hash port' ↔
    mail.request env = some (hash, port') := by
  cases mail with
  | message m => cases m <;> simp [event, request, outcome]
  | getAccount => simp [event, request, outcome, port]
  | ignored => simp [event, request, outcome, port]

theorem event_eq_outcome_iff {heard : Bool} : mail.event env = .outcome hash heard ↔
    mail.outcome env = some hash ∧ mail.isRegistrationFailure = !heard := by
  cases mail with
  | message m => cases m <;> simp [event, request, outcome, isRegistrationFailure]
  | getAccount => simp [event, request, outcome, port]
  | ignored => simp [event, request, outcome, port]

theorem port?_event : (mail.event env).port? = mail.port := by
  cases mail with
  | message m => cases m <;> rfl
  | getAccount => rfl
  | ignored => rfl

/-- There is an outcome for a hash among the messages. -/
theorem outcome_mem_map_iff {mails : List SchedulerMail} :
    (∃ heard, .outcome hash heard ∈ mails.map (event env)) ↔
      ∃ out ∈ mails, out.outcome env = some hash := by
  constructor
  · rintro ⟨heard, hmem⟩
    obtain ⟨out, hout, heq⟩ := List.mem_map.1 hmem
    exact ⟨out, hout, (event_eq_outcome_iff.1 heq).1⟩
  · rintro ⟨out, hout, heq⟩
    refine ⟨!out.isRegistrationFailure, List.mem_map.2 ⟨out, hout, ?_⟩⟩
    exact event_eq_outcome_iff.2 ⟨heq, (Bool.not_not _).symm⟩

/-- There is a request with a hash among the messages. -/
theorem ask_mem_map_iff {mails : List SchedulerMail} :
    .ask hash port' ∈ mails.map (event env) ↔ ∃ m ∈ mails, m.request env = some (hash, port') := by
  simp only [List.mem_map, event_eq_ask_iff]

end SchedulerMail

/-! ## The requests -/

/-- After each message from a request on, its port was answered at most once, and exactly once
if an outcome for its transaction came since. -/
def RequestsAnswered (env : Env) (mails : List SchedulerMail) : Prop :=
  ∀ pre m mid post hash port, mails = pre ++ m :: (mid ++ post) →
    m.request env = some (hash, port) →
    (SchedulerDesk.run env (pre ++ m :: mid)).answers port ≤ 1 ∧
    ((∃ out ∈ mid, out.outcome env = some hash) →
      (SchedulerDesk.run env (pre ++ m :: mid)).answers port = 1)

/-- The first outcome for the transaction of a request is not a `RegistrationFailure`, and
comes before another request with that transaction. -/
def RequestsInOrder (env : Env) (mails : List SchedulerMail) : Prop :=
  ∀ pre m mid out post hash port, mails = pre ++ m :: (mid ++ out :: post) →
    m.request env = some (hash, port) → out.outcome env = some hash →
    (∀ m' ∈ mid, m'.outcome env ≠ some hash) →
    out.isRegistrationFailure = false ∧ ∀ m' ∈ mid, ∀ port', m'.request env ≠ some (hash, port')

section Requests

open SchedulerMail

variable {env : Env} {mails : List SchedulerMail}

theorem requestsAnswered_iff_prompt :
    RequestsAnswered env mails ↔ ReplyTable.Prompt (mails.map (event env)) := by
  constructor
  · intro h pre' hash port mid' post' hsplit
    obtain ⟨pre, _, rfl, rfl, hrest⟩ := List.map_eq_append_iff.1 hsplit
    obtain ⟨m, _, rfl, hm, hrest⟩ := List.map_eq_cons_iff.1 hrest
    obtain ⟨mid, post, rfl, rfl, rfl⟩ := List.map_eq_append_iff.1 hrest
    have hanswered := h pre m mid post hash port rfl (event_eq_ask_iff.1 hm)
    rw [SchedulerDesk.answers_run, List.map_append, List.map_cons, hm,
      ← outcome_mem_map_iff] at hanswered
    exact hanswered
  · rintro h pre m mid post hash port rfl hm
    have hevent := event_eq_ask_iff.2 hm
    have hprompt := h (pre.map (event env)) hash port (mid.map (event env))
      (post.map (event env)) (by rw [List.map_append, List.map_cons, List.map_append, hevent])
    rw [SchedulerDesk.answers_run, List.map_append, List.map_cons, hevent, ← outcome_mem_map_iff]
    exact hprompt

theorem requestsInOrder_iff_orderly :
    RequestsInOrder env mails ↔ ReplyTable.Orderly (mails.map (event env)) := by
  constructor
  · intro h pre' hash port mid' heard post' hsplit hmid
    obtain ⟨pre, _, rfl, rfl, hrest⟩ := List.map_eq_append_iff.1 hsplit
    obtain ⟨m, _, rfl, hm, hrest⟩ := List.map_eq_cons_iff.1 hrest
    obtain ⟨mid, _, rfl, rfl, hlast⟩ := List.map_eq_append_iff.1 hrest
    obtain ⟨out, post, rfl, hout, rfl⟩ := List.map_eq_cons_iff.1 hlast
    obtain ⟨houtcome, hheard⟩ := event_eq_outcome_iff.1 hout
    have hnone : ∀ m' ∈ mid, m'.outcome env ≠ some hash := fun m' hm' heq =>
      (outcome_mem_map_iff.2 ⟨m', hm', heq⟩).elim hmid
    obtain ⟨hfailure, hasks⟩ := h pre m mid out post hash port rfl (event_eq_ask_iff.1 hm)
      houtcome hnone
    refine ⟨?_, fun q hq => ?_⟩
    · rw [hfailure] at hheard
      simpa using hheard
    · obtain ⟨m', hm', heq⟩ := ask_mem_map_iff.1 hq
      exact hasks m' hm' q heq
  · rintro h pre m mid out post hash port rfl hm hout hmid
    have hevent := event_eq_ask_iff.2 hm
    have hevent' : out.event env = .outcome hash !out.isRegistrationFailure :=
      event_eq_outcome_iff.2 ⟨hout, (Bool.not_not _).symm⟩
    obtain ⟨hheard, hasks⟩ := h (pre.map (event env)) hash port (mid.map (event env)) _
      (post.map (event env))
      (by rw [List.map_append, List.map_cons, List.map_append, List.map_cons, hevent, hevent'])
      (fun b hb => by
        obtain ⟨m', hm', heq⟩ := outcome_mem_map_iff.1 ⟨b, hb⟩
        exact hmid m' hm' heq)
    refine ⟨by simpa using hheard, fun m' hm' port' heq => ?_⟩
    exact hasks port' (ask_mem_map_iff.2 ⟨m', hm', heq⟩)

/-- With ports that are not copied, the requests are answered once each if and only if the first
outcome after a request is one the scheduler hears, and no other request with the same
transaction comes before it. -/
theorem requests_answered_iff (hports : (mails.filterMap SchedulerMail.port).Nodup) :
    RequestsAnswered env mails ↔ RequestsInOrder env mails := by
  rw [requestsAnswered_iff_prompt, requestsInOrder_iff_orderly]
  refine ReplyTable.prompt_iff_orderly ?_
  have hcomp : ReplyTable.Event.port? ∘ event env = SchedulerMail.port :=
    funext fun mail => port?_event
  rw [List.filterMap_map, hcomp]
  exact hports

instance (env : Env) (mails : List SchedulerMail) : Decidable (RequestsInOrder env mails) :=
  decidable_of_iff _ requestsInOrder_iff_orderly.symm

/-- A transfer of 5 from 0x01 to 0x02. -/
def smallTransfer : Transaction where
  transactionType := .send 0
  «from» := 1#160
  «to» := 2#160
  programId := 9#160
  op := ""
  inputs := ""
  value := 5#256
  nonce := 0#256
  v := 0
  r := 0#256
  s := 0#256

/-- A send is refused and sent again, while a call and a registration are under way, and
somebody asks for an account. -/
def mixedMails : List SchedulerMail :=
  let call := { smallTransfer with transactionType := .call 0, «from» := 3#160 }
  let registration := { smallTransfer with transactionType := .registerProgram 0, «from» := 4#160 }
  [.message (.send smallTransfer 0), .message (.call call 1), .getAccount 2 none,
    .message (.sendTransactionFailure (Env.small.hashString smallTransfer) "invalid"),
    .message (.callTransactionAsyncPending (Env.small.hashString call)), .ignored,
    .message (.send smallTransfer 3), .message (.registerProgram registration 4),
    .message (.callTransactionApplied (Env.small.hashString call) (Account.build .user 3#160)),
    .message (.transactionApplied (Env.small.hashString smallTransfer)
      ⟨9#160, 1#160, 5#256, fun _ => none, [], fun _ => none, fun _ => none, fun _ => none, .free⟩),
    .message (.registrationSuccess registration 8#160)]

theorem requests_answered_of_mixed_mails : RequestsAnswered Env.small mixedMails :=
  (requests_answered_iff (by decide)).2 (by decide)

/-- Nobody answers a registration that fails. -/
theorem registration_failure_unanswered :
    ¬RequestsAnswered Env.small [.message (.registerProgram smallTransfer 0),
      .message (.registrationFailure (Env.small.hashString smallTransfer) "unable to pin")] := by
  intro h
  have hone := (h [] _ [_] [] _ _ rfl rfl).2 ⟨_, List.mem_cons_self, rfl⟩
  have hzero : (SchedulerDesk.run Env.small [.message (.registerProgram smallTransfer 0),
      .message (.registrationFailure (Env.small.hashString smallTransfer)
        "unable to pin")]).answers 0 = 0 := rfl
  exact absurd (hzero.symm.trans hone) (by decide)

end Requests

end Lasr
