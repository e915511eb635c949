import Lasr.PendingGraph
import Lasr.Sends

/-!
# Scheduling over whole runs

Runs of `PendingTransactionActor` from its initial state, over any messages and readings.
The graph is idle in every state reached (`idle_track`), so a run schedules exactly what it
accepts, in the order of arrival. Each accepted transaction therefore goes to the validator
once (`scheduled_exactly_once`).

For the same reason nothing keeps two transactions on one account apart. The transactions
at the validator touch disjoint accounts in every state of a run exactly when the messages
bring each transaction in after the earlier ones on its accounts are resolved (`exclusive_iff`).
-/

set_option linter.unusedSectionVars false

namespace Lasr

/-- A message to the actor, with what its handling reads. -/
structure PendingEvent where
  reading : Reading
  message : PendingTransactionMessage

/-- The transaction of a request to the validator. -/
def ValidatorMessage.transaction : ValidatorMessage → Transaction
  | .pendingTransaction tx => tx
  | .pendingCall _ tx => tx
  | .pendingRegistration tx => tx

variable (env : Env)

/-! ## Exactly once -/

/-- A run of the actor, and all it scheduled. -/
def runPending : List PendingEvent → PendingState → PendingState × List Scheduled
  | [], state => (state, [])
  | e :: events, state =>
    let step := state.handle env e.reading e.message
    let rest := runPending events step.state
    (rest.1, step.scheduled ++ rest.2)

/-- How often a run casts `tx` to the validator. -/
def castsOf (events : List PendingEvent) (state : PendingState) (tx : Transaction) : ℕ :=
  ((runPending env events state).2.filterMap scheduleWithValidator).countP
    fun m => m.transaction = tx

/-- Whether an event is a `New` for `tx`. -/
def PendingEvent.isNew (tx : Transaction) (e : PendingEvent) : Bool :=
  match e.message with
  | .new t _ => t = tx
  | _ => false

/-- How many of `n` `New` messages for `tx` are accepted : a bridge-in only once, and not if
it was seen before. -/
def acceptedNews (tx : Transaction) (seen : Bool) (n : ℕ) : ℕ :=
  if tx.transactionType.isBridgeIn then if seen then 0 else min 1 n else n

/-- The types the validator is asked about. -/
def TransactionType.isValidated (t : TransactionType) : Bool :=
  t.isSend || t.isCall || t.isBridgeIn

theorem scheduleWithValidator_eq (s : Scheduled) (tx : Transaction) :
    ([s].filterMap scheduleWithValidator).countP (fun m => m.transaction = tx) =
      if s.1 = tx ∧ tx.transactionType.isValidated then 1 else 0 := by
  obtain ⟨t, outputs⟩ := s
  by_cases heq : t = tx
  · subst heq
    cases htype : t.transactionType <;>
      simp [scheduleWithValidator, htype, TransactionType.isValidated, TransactionType.isSend,
        TransactionType.isCall, TransactionType.isBridgeIn, ValidatorMessage.transaction]
  · cases htype : t.transactionType <;>
      simp [scheduleWithValidator, htype, heq, ValidatorMessage.transaction]

variable {env}

theorem castsOf_cons (e : PendingEvent) (events : List PendingEvent) (state : PendingState)
    (tx : Transaction) :
    castsOf env (e :: events) state tx =
      ((state.handle env e.reading e.message).scheduled.filterMap scheduleWithValidator).countP
          (fun m => m.transaction = tx) +
        castsOf env events (state.handle env e.reading e.message).state tx := by
  simp only [castsOf, runPending, List.filterMap_append, List.countP_append]

/-- A bridge-in has been seen after a step when it was before, or the step is its `New`. -/
theorem seen_handle {tx : Transaction} (hb : tx.transactionType.isBridgeIn = true)
    (e : PendingEvent) (state : PendingState) :
    (state.handle env e.reading e.message).state.bridgeInTransactions.contains tx =
      (state.bridgeInTransactions.contains tx || e.isNew tx) := by
  obtain ⟨reading, message⟩ := e
  cases message with
  | new t outputs =>
    simp only [PendingState.handle, PendingEvent.isNew]
    by_cases heq : t = tx
    · subst heq
      by_cases hs : t ∈ state.bridgeInTransactions <;> simp [hb, hs]
    · by_cases hb' : t.transactionType.isBridgeIn
      · by_cases hs : t ∈ state.bridgeInTransactions <;> simp [hb', hs, heq, Ne.symm heq]
      · simp [hb', heq]
  | _ => simp [PendingState.handle, PendingState.handleValid, PendingEvent.isNew]

/-- What one step casts for a transaction. -/
theorem casts_handle {state : PendingState} (hidle : state.pending.Idle) (e : PendingEvent)
    (tx : Transaction) :
    ((state.handle env e.reading e.message).scheduled.filterMap scheduleWithValidator).countP
        (fun m => m.transaction = tx) =
      if tx.transactionType.isValidated ∧ e.isNew tx ∧
        ¬(tx.transactionType.isBridgeIn ∧ state.bridgeInTransactions.contains tx)
      then 1 else 0 := by
  rw [PendingState.scheduled_handle hidle]
  obtain ⟨reading, message⟩ := e
  cases message with
  | new t outputs =>
    simp only [PendingState.accepts, PendingEvent.isNew]
    by_cases hskip : t.transactionType.isBridgeIn ∧ state.bridgeInTransactions.contains t
    · rw [if_pos hskip, List.filterMap_nil, List.countP_nil]
      refine (if_neg ?_).symm
      rintro ⟨-, heq, hnot⟩
      rw [decide_eq_true_eq] at heq
      subst heq
      exact hnot hskip
    · rw [if_neg hskip, scheduleWithValidator_eq]
      by_cases heq : t = tx
      · subst heq
        simp only [true_and, decide_true, hskip, not_false_eq_true, and_true]
      · simp [heq]
  | _ => simp [PendingState.accepts, PendingEvent.isNew]

/-- From any idle state, a run casts a transaction as often as it accepts it. -/
theorem castsOf_eq (tx : Transaction) :
    ∀ (events : List PendingEvent) (state : PendingState), state.pending.Idle →
      castsOf env events state tx = if tx.transactionType.isValidated
        then acceptedNews tx (state.bridgeInTransactions.contains tx)
          (events.countP (PendingEvent.isNew tx))
        else 0
  | [], state, _ => by
    simp [castsOf, runPending, acceptedNews]
  | e :: events, state, hidle => by
    rw [castsOf_cons, casts_handle hidle, castsOf_eq tx events _ (state.idle_handle hidle _),
      List.countP_cons]
    by_cases hv : tx.transactionType.isValidated
    · by_cases hb : tx.transactionType.isBridgeIn
      · -- A bridge-in counts once : before this step, in it, or later.
        rw [seen_handle hb e state]
        cases hs : state.bridgeInTransactions.contains tx <;> cases hn : e.isNew tx <;>
          simp [hv, hb, acceptedNews]
      · simp only [acceptedNews, hv, hb, true_and, and_true, if_true, Bool.false_eq_true,
          if_false, false_and, not_false_eq_true]
        omega
    · simp [hv]

/-- Over any run from the initial state, a transaction of a validated type is cast to the
validator once for every time it is accepted, and one of another type never. -/
theorem scheduled_exactly_once (events : List PendingEvent) (tx : Transaction) :
    castsOf env events .new tx = if tx.transactionType.isValidated
      then acceptedNews tx false (events.countP (PendingEvent.isNew tx)) else 0 :=
  castsOf_eq tx events .new PendingGraph.idle_new

/-! ## Mutual exclusion -/

/-- The accounts a scheduled transaction touches. -/
abbrev Scheduled.touched (s : Scheduled) : List Address :=
  Vertex.extractAccountsTouched s.1 s.2

/-- Whether a message resolves a transaction, which it names by its hash. -/
def PendingTransactionMessage.resolves (env : Env) (message : PendingTransactionMessage)
    (s : Scheduled) : Bool :=
  match message with
  | .valid tx => env.hashString s.1 = env.hashString tx
  | .validCall _ tx => env.hashString s.1 = env.hashString tx
  | .invalid tx _ => env.hashString s.1 = env.hashString tx
  | _ => false

/-- A step, with the transactions at the validator : those it resolves leave, those it casts
join. -/
def trackStep (env : Env) (st : PendingState × List Scheduled) (e : PendingEvent) :
    PendingState × List Scheduled :=
  let step := st.1.handle env e.reading e.message
  (step.state, (st.2.filter fun s => !e.message.resolves env s) ++
    step.scheduled.filter fun s => (scheduleWithValidator s).isSome)

/-- The state after a run, and the transactions at the validator then. -/
def track (env : Env) (events : List PendingEvent) : PendingState × List Scheduled :=
  events.foldl (trackStep env) (.new, [])

/-- Transactions of different hashes touch different accounts. -/
def Exclusive (env : Env) (l : List Scheduled) : Prop :=
  ∀ s ∈ l, ∀ s' ∈ l, env.hashString s.1 ≠ env.hashString s'.1 → s.touched.Disjoint s'.touched

/-- Whether the event `e`, after the events `before`, brings the transaction of `s` in for the
validator : it is a `New` of a type the validator is asked about, and of a bridge-in the first. -/
def Brings (before : List PendingEvent) (e : PendingEvent) (s : Scheduled) : Prop :=
  e.message = .new s.1 s.2 ∧ s.1.transactionType.isValidated = true ∧
    (s.1.transactionType.isBridgeIn = true → ∀ r ∈ before, r.isNew s.1 = false)

/-- A transaction comes in after the earlier ones on its accounts are resolved : of two with
different hashes and a common account, the first is resolved by an event in between. -/
def KeptApart (env : Env) (events : List PendingEvent) : Prop :=
  ∀ before e between e' after s s', events = before ++ e :: between ++ e' :: after →
    Brings before e s → Brings (before ++ e :: between) e' s' →
    env.hashString s.1 ≠ env.hashString s'.1 → ¬s.touched.Disjoint s'.touched →
    ∃ r ∈ between, r.message.resolves env s = true

theorem track_concat (events : List PendingEvent) (e : PendingEvent) :
    track env (events ++ [e]) = trackStep env (track env events) e := by
  simp [track]

theorem idle_track (events : List PendingEvent) : (track env events).1.pending.Idle := by
  induction events using List.reverseRecOn with
  | nil => exact PendingGraph.idle_new
  | append_singleton events e ih =>
    rw [track_concat]
    exact PendingState.idle_handle ih e.message

/-- The transactions at the validator after a step are those it does not resolve and those
it accepts. -/
theorem mem_trackStep {st : PendingState × List Scheduled} (hidle : st.1.pending.Idle)
    {e : PendingEvent} {s : Scheduled} :
    s ∈ (trackStep env st e).2 ↔ (s ∈ st.2 ∧ e.message.resolves env s = false) ∨
      (s ∈ PendingState.accepts e.message st.1 ∧ (scheduleWithValidator s).isSome) := by
  simp only [trackStep, PendingState.scheduled_handle hidle, List.mem_append, List.mem_filter,
    Bool.not_eq_true']

theorem isSome_scheduleWithValidator {s : Scheduled} :
    (scheduleWithValidator s).isSome = s.1.transactionType.isValidated := by
  cases htype : s.1.transactionType <;>
    simp [scheduleWithValidator, htype, TransactionType.isValidated, TransactionType.isSend,
      TransactionType.isCall, TransactionType.isBridgeIn]

/-- The bridge-ins a run has seen are those it got a `New` of. -/
theorem seen_track {tx : Transaction} (hb : tx.transactionType.isBridgeIn = true)
    (events : List PendingEvent) :
    (track env events).1.bridgeInTransactions.contains tx = events.any (·.isNew tx) := by
  induction events using List.reverseRecOn with
  | nil => rfl
  | append_singleton events e ih =>
    rw [track_concat, List.any_append, ← ih]
    exact (seen_handle hb e (track env events).1).trans (by simp)

/-- What the actor accepts for the validator is what the event brings in. -/
theorem brings_iff {events : List PendingEvent} {e : PendingEvent} {s : Scheduled} :
    s ∈ PendingState.accepts e.message (track env events).1 ∧ (scheduleWithValidator s).isSome ↔
      Brings events e s := by
  rw [PendingState.mem_accepts, isSome_scheduleWithValidator, Brings, and_right_comm, and_assoc]
  refine and_congr_right fun _ => and_congr_right fun _ => ?_
  by_cases hb : s.1.transactionType.isBridgeIn = true
  · rw [seen_track hb]
    simp [hb]
  · simp [hb]

/-- The transactions at the validator are those that came in and were not resolved since. -/
theorem mem_track {events : List PendingEvent} {s : Scheduled} :
    s ∈ (track env events).2 ↔ ∃ before e since, events = before ++ e :: since ∧
      Brings before e s ∧ ∀ r ∈ since, r.message.resolves env s = false := by
  induction events using List.reverseRecOn with
  | nil => simp [track]
  | append_singleton events e ih =>
    rw [track_concat, mem_trackStep (idle_track events), brings_iff, ih]
    constructor
    · rintro (⟨⟨before, e₀, since, rfl, hbrings, hsince⟩, hkeep⟩ | hbrings)
      · refine ⟨before, e₀, since ++ [e], by simp, hbrings, fun r hr => ?_⟩
        rcases List.mem_append.1 hr with hr | hr
        · exact hsince r hr
        · rw [List.mem_singleton.1 hr]
          exact hkeep
      · exact ⟨events, e, [], rfl, hbrings, fun r hr => absurd hr List.not_mem_nil⟩
    · rintro ⟨before, e₀, since, heq, hbrings, hsince⟩
      rcases List.eq_nil_or_concat since with rfl | ⟨since', r, rfl⟩
      · obtain ⟨rfl, hlast⟩ := List.append_inj' heq rfl
        rw [List.singleton_inj.1 hlast]
        exact Or.inr hbrings
      · have hassoc : events ++ [e] = (before ++ e₀ :: since') ++ [r] := by
          rw [heq, List.append_assoc, List.concat_eq_append]
          rfl
        obtain ⟨rfl, hlast⟩ := List.append_inj' hassoc rfl
        rw [List.singleton_inj.1 hlast]
        simp only [List.concat_eq_append, List.forall_mem_append, List.forall_mem_singleton]
          at hsince
        exact Or.inl ⟨⟨before, e₀, since', rfl, hbrings, hsince.1⟩, hsince.2⟩

/-- An event brings in one transaction at most. -/
theorem Brings.unique {before before' e s s'} (h : Brings before e s) (h' : Brings before' e s') :
    s = s' := by
  have hm := h.1.symm.trans h'.1
  rw [PendingTransactionMessage.new.injEq] at hm
  exact Prod.ext hm.1 hm.2

/-- Where the messages keep them apart, a transaction touches no account of an earlier one that is
not resolved. -/
theorem KeptApart.disjoint {before e between e' after s s'} {events : List PendingEvent}
    (h : KeptApart env events) (hevents : events = before ++ e :: between ++ e' :: after)
    (hs : Brings before e s) (hs' : Brings (before ++ e :: between) e' s')
    (hne : env.hashString s.1 ≠ env.hashString s'.1)
    (hkeep : ∀ r ∈ between, r.message.resolves env s = false) : s.touched.Disjoint s'.touched := by
  by_contra hcommon
  obtain ⟨r, hr, hres⟩ := h before e between e' after s s' hevents hs hs' hne hcommon
  rw [hkeep r hr] at hres
  cases hres

/-- A run keeps the transactions at the validator apart in every state, exactly when its messages
bring a transaction in only after the earlier ones on its accounts are resolved. -/
theorem exclusive_iff (env : Env) (events : List PendingEvent) :
    (∀ before, before <+: events → Exclusive env (track env before).2) ↔ KeptApart env events := by
  constructor
  · intro h before e between e' after s s' hevents hs hs' hne hcommon
    by_contra hnone
    push Not at hnone
    have hkeep : ∀ r ∈ between ++ [e'], r.message.resolves env s = false := by
      intro r hr
      rcases List.mem_append.1 hr with hr | hr
      · exact Bool.eq_false_iff.2 (hnone r hr)
      · rw [List.mem_singleton.1 hr, hs'.1]
        rfl
    have hpre : before ++ e :: between ++ [e'] <+: events := ⟨after, by simp [hevents]⟩
    refine hcommon (h _ hpre s (mem_track.2 ⟨before, e, between ++ [e'], by simp, hs, hkeep⟩) s'
      (mem_track.2 ⟨_, e', [], rfl, hs', fun r hr => absurd hr List.not_mem_nil⟩) hne)
  · rintro h run ⟨rest, rfl⟩ s hs s' hs' hne
    obtain ⟨before, e, since, heq, hbrings, hkeep⟩ := mem_track.1 hs
    obtain ⟨before', e', since', heq', hbrings', hkeep'⟩ := mem_track.1 hs'
    -- which of the two came in first
    rcases List.append_eq_append_iff.1 (heq.symm.trans heq') with
      ⟨l, rfl, hl⟩ | ⟨l, rfl, hl⟩
    · cases l with
      | nil =>
        cases (List.cons.inj hl).1
        exact absurd (by rw [hbrings.unique hbrings']) hne
      | cons e₁ l =>
        obtain ⟨rfl, rfl⟩ := List.cons.inj hl
        have hsplit : run ++ rest = before ++ e :: l ++ e' :: (since' ++ rest) := by simp [heq']
        exact h.disjoint hsplit hbrings hbrings' hne fun r hr => hkeep r (List.mem_append_left _ hr)
    · cases l with
      | nil =>
        cases (List.cons.inj hl).1
        exact absurd (by rw [hbrings.unique hbrings']) hne
      | cons e₁ l =>
        obtain ⟨rfl, rfl⟩ := List.cons.inj hl
        have hsplit : run ++ rest = before' ++ e' :: l ++ e :: (since ++ rest) := by simp [heq]
        exact (h.disjoint hsplit hbrings' hbrings hne.symm
          fun r hr => hkeep' r (List.mem_append_left _ hr)).symm

/-- Two sends to one account, right after each other, are both at the validator. -/
theorem two_sends_not_exclusive :
    ¬∀ before, before <+: [⟨.start, .new (ethSend 7#160 9#160 1#256 1#256) none⟩,
        ⟨.start, .new (ethSend 8#160 9#160 1#256 1#256) none⟩] →
      Exclusive .small (track .small before).2 := by
  intro h
  have hall := h _ (List.prefix_refl _) (ethSend 7#160 9#160 1#256 1#256, none)
    (List.mem_cons_self ..) (ethSend 8#160 9#160 1#256 1#256, none)
    (List.mem_cons_of_mem _ (List.mem_cons_self ..)) (by decide)
  exact hall (by decide : (9#160 : Address) ∈ _) (by decide)

end Lasr
