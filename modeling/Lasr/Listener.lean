import Lasr.Token
import Mathlib.Data.Finset.Lattice.Fold
import Mathlib.Order.Lattice.Nat

/-!
# The listener on the chain

`EoServer` of `eo_listener/src/lib.rs` asks the chain for the logs of its contract, bridge and
settlement logs apart. `next` sends both queries, takes the one that is answered first and
reads the head of the chain after it. For each kind the server keeps the blocks it has
processed, the head it read last, and the filter of the next query : from the block after the
highest processed one, up to the block after the head before last. An answer that does not
come in time is dropped, and an error in place of logs counts as no logs.

A `Chain` gives the events of each block, for good. Over it the events returned for a kind are
those of all blocks up to the highest processed one, in order, each once
(`delivered_exactly_once`).
-/

set_option linter.unusedSectionVars false

namespace Lasr

/-! ## Blocks -/

section Between

variable {α : Type}

/-- What the blocks `lo` to `hi` hold, block after block. -/
def between (f : ℕ → List α) (lo hi : ℕ) : List α :=
  ((List.range (hi + 1)).filter (lo ≤ ·)).flatMap f

variable {f : ℕ → List α} {lo lo' mid hi : ℕ}

theorem mem_between {x : α} : x ∈ between f lo hi ↔ ∃ b, lo ≤ b ∧ b ≤ hi ∧ x ∈ f b := by
  simp only [between, List.mem_flatMap, List.mem_filter, List.mem_range, decide_eq_true_eq]
  constructor
  · rintro ⟨b, ⟨hb, hlo⟩, hx⟩
    exact ⟨b, hlo, by omega, hx⟩
  · rintro ⟨b, hlo, hb, hx⟩
    exact ⟨b, ⟨by omega, hlo⟩, hx⟩

theorem between_eq_nil (h : ∀ b, lo ≤ b → b ≤ hi → f b = []) : between f lo hi = [] := by
  refine List.eq_nil_iff_forall_not_mem.2 fun x hx => ?_
  obtain ⟨b, hlo, hhi, hmem⟩ := mem_between.1 hx
  rw [h b hlo hhi] at hmem
  exact nomatch hmem

/-- Only the blocks that hold something count. -/
theorem between_congr (h : ∀ b, b ≤ hi → f b ≠ [] → (lo ≤ b ↔ lo' ≤ b)) :
    between f lo hi = between f lo' hi := by
  have hlist : ∀ l : List ℕ, (∀ b ∈ l, b ≤ hi) →
      (l.filter (lo ≤ ·)).flatMap f = (l.filter (lo' ≤ ·)).flatMap f := by
    intro l
    induction l with
    | nil => exact fun _ => rfl
    | cons b l ih =>
      intro hl
      have hrest := ih fun c hc => hl c (List.mem_cons_of_mem _ hc)
      by_cases hb : f b = []
      · by_cases h1 : lo ≤ b <;> by_cases h2 : lo' ≤ b <;> simp [h1, h2, hb, hrest]
      · have hiff := h b (hl b List.mem_cons_self) hb
        by_cases h1 : lo ≤ b
        · simp [h1, hiff.1 h1, hrest]
        · have h2 : ¬lo' ≤ b := fun h2 => h1 (hiff.2 h2)
          simp [h1, h2, hrest]
  exact hlist _ fun b hb => by
    rw [List.mem_range] at hb
    omega

theorem between_append (hlo : lo ≤ mid + 1) (hhi : mid ≤ hi) :
    between f lo mid ++ between f (mid + 1) hi = between f lo hi := by
  have hrange : List.range (hi + 1) = List.range (mid + 1) ++
      List.map (mid + 1 + ·) (List.range (hi - mid)) := by
    rw [← List.range_add]
    congr 1
    omega
  have hlow : (List.range (mid + 1)).filter (mid + 1 ≤ ·) = [] := by
    refine List.filter_eq_nil_iff.2 fun b hb => ?_
    rw [List.mem_range] at hb
    simp only [decide_eq_true_eq]
    omega
  have hhigh : ∀ n, n ≤ mid + 1 → (List.map (mid + 1 + ·) (List.range (hi - mid))).filter
      (n ≤ ·) = List.map (mid + 1 + ·) (List.range (hi - mid)) := by
    intro n hn
    refine List.filter_eq_self.2 fun b hb => ?_
    obtain ⟨c, -, rfl⟩ := List.mem_map.1 hb
    simp only [decide_eq_true_eq]
    omega
  unfold between
  rw [hrange, List.filter_append, List.filter_append, hlow, hhigh _ le_rfl, hhigh _ hlo,
    List.nil_append, List.flatMap_append]

/-- If every block from `lo` on has passed, and the next one that holds something is at most
`last`, the blocks up to `last` are complete. -/
theorem between_extend {last last' : ℕ} (hle : last ≤ last') (htop : last' ≤ max last hi)
    (hnone : ∀ b, last' < b → b ≤ hi → f b = []) :
    between f 0 last ++ between f (last + 1) hi = between f 0 last' := by
  rcases Nat.lt_or_ge last hi with hlt | hge
  · rw [max_eq_right hlt.le] at htop
    have hrest : between f (last' + 1) hi = [] := between_eq_nil fun b hb => hnone b hb
    have hsplit : between f (last + 1) last' ++ between f (last' + 1) hi =
        between f (last + 1) hi := between_append (by omega) htop
    rw [← hsplit, hrest, List.append_nil, between_append (by omega) hle]
  · obtain rfl : last' = last := by
      rw [max_eq_left hge] at htop
      omega
    have hempty : between f (last' + 1) hi = [] :=
      between_eq_nil fun b hb hb' => absurd hb (by omega)
    rw [hempty, List.append_nil]

/-- If no item is in two blocks, none comes twice. -/
theorem nodup_between (hnd : ∀ b, (f b).Nodup) (hdisj : ∀ b c, b ≠ c → List.Disjoint (f b) (f c))
    (lo hi : ℕ) : (between f lo hi).Nodup := by
  refine List.nodup_flatMap.2 ⟨fun b _ => hnd b, ?_⟩
  exact (List.nodup_range.filter _).imp fun {b c} hne => hdisj b c hne

/-- Items come in the order of their blocks. -/
theorem pairwise_between {number : α → Option ℕ} (hnum : ∀ b, ∀ x ∈ f b, number x = some b)
    (lo hi : ℕ) : (between f lo hi).Pairwise fun x y => ∀ b ∈ number x, ∀ c ∈ number y, b ≤ c := by
  refine List.pairwise_flatMap.2 ⟨fun b _ => ?_, ?_⟩
  · refine List.pairwise_of_forall_mem_list fun x hx y hy c hc d hd => ?_
    rw [hnum b x hx] at hc
    rw [hnum b y hy] at hd
    cases hc
    cases hd
    exact le_rfl
  · refine (List.pairwise_lt_range.filter _).imp fun {b c} hlt x hx y hy d hd e he => ?_
    rw [hnum b x hx] at hd
    rw [hnum c y hy] at he
    cases hd
    cases he
    exact hlt.le

end Between

/-! ## The server -/

/-- `EventType`, less the ABI. -/
inductive EventType where
  | bridge
  | settlement
  deriving DecidableEq, Repr

/-- `EoServerError`. -/
inductive EoServerError where
  | other (msg : String)
  deriving DecidableEq, Repr

/-- The blocks of a `Filter`, where `none` stands for the latest. -/
structure BlockFilter where
  fromBlock : ℕ
  toBlock : Option ℕ
  deriving DecidableEq, Repr

/-- What the server keeps for one kind of event : the processed blocks, the current filter
block and the filter. -/
structure Watch where
  processedBlocks : Finset ℕ
  currentFilterBlock : ℕ
  filter : BlockFilter
  deriving DecidableEq

/-- `EoServer`, for the bridge and the settlement events. -/
structure EoServer where
  bridge : Watch
  blobSettled : Watch
  deriving DecidableEq

/-- `+` of a `U64`, which panics (`none`) on overflow. -/
def addU64 (a b : ℕ) : Option ℕ :=
  if a + b < 2 ^ 64 then some (a + b) else none

/-- How a log is read : the number of its block, and `parse_log` of the event's ABI. -/
structure LogReader (L P : Type) where
  blockNumber : L → Option ℕ
  parseLog : L → Except String P

section Server

variable {L P : Type} (reader : LogReader L P)

/-- The loop of `handle_bridge_event` and `handle_settlement_event`. -/
def readLogs : List L → Except EoServerError (List (ℕ × P))
  | [] => .ok []
  | event :: events =>
    match reader.blockNumber event with
    | none => .error (.other "Log missing block number")
    | some blockNumber =>
      match reader.parseLog event with
      | .error e => .error (.other e)
      | .ok log =>
        match readLogs events with
        | .error e => .error e
        | .ok rest => .ok ((blockNumber, log) :: rest)

/-- Read the logs and note their blocks as processed. -/
def Watch.handleEvent (self : Watch) (events : List L) : Except EoServerError (List P × Watch) :=
  match readLogs reader events with
  | .error e => .error e
  | .ok read => .ok (read.map Prod.snd,
      { self with processedBlocks := self.processedBlocks ∪ (read.map Prod.fst).toFinset })

/-- The last of the processed blocks, or zero. -/
def Watch.highest (self : Watch) : ℕ := self.processedBlocks.sup id

/-- The next filter, from the block after the highest processed one to the block after the
current filter block, which then is the new head. -/
def Watch.incrementFilter (self : Watch) (blockNumber : ℕ) (_logDiscovered : Bool) :
    Option Watch :=
  match addU64 self.highest 1, addU64 self.currentFilterBlock 1 with
  | some fromBlock, some toBlock =>
    some { self with currentFilterBlock := blockNumber, filter := ⟨fromBlock, some toBlock⟩ }
  | _, _ => none

namespace EoServer

/-- `handle_bridge_event`. -/
def handleBridgeEvent (self : EoServer) (events : List L) :
    Except EoServerError (List P × EoServer) :=
  (self.bridge.handleEvent reader events).map fun (log, w) => (log, { self with bridge := w })

/-- `handle_settlement_event`. -/
def handleSettlementEvent (self : EoServer) (events : List L) :
    Except EoServerError (List P × EoServer) :=
  (self.blobSettled.handleEvent reader events).map fun (log, w) =>
    (log, { self with blobSettled := w })

/-- `increment_bridge_filter`. The contract's address was parsed when the server was set up. -/
def incrementBridgeFilter (self : EoServer) (blockNumber : ℕ) (logDiscovered : Bool) :
    Option EoServer :=
  (self.bridge.incrementFilter blockNumber logDiscovered).map fun w => { self with bridge := w }

/-- `increment_blob_filter`. -/
def incrementBlobFilter (self : EoServer) (blockNumber : ℕ) (logDiscovered : Bool) :
    Option EoServer :=
  (self.blobSettled.incrementFilter blockNumber logDiscovered).map fun w =>
    { self with blobSettled := w }

/-- `log_handler!`. -/
def logHandler : Except String (List L) → List L
  | .ok logs => logs
  | .error _ => []

/-- `process_logs`, with the head as it is read there. It is `none` where it panics. -/
def processLogs (self : EoServer) (eventType : EventType) (logs : Except String (List L))
    (blockNumber : Except String ℕ) : Option (Except EoServerError (List P) × EoServer) :=
  match blockNumber with
  | .error e => some (.error (.other ("Error attempting to get block number: " ++ e)), self)
  | .ok blockNumber =>
    let events := logHandler logs
    match eventType with
    | .bridge =>
      match self.handleBridgeEvent reader events with
      | .error e => some (.error e, self)
      | .ok (logs, server) =>
        (server.incrementBridgeFilter blockNumber !logs.isEmpty).map fun s => (.ok logs, s)
    | .settlement =>
      match self.handleSettlementEvent reader events with
      | .error e => some (.error e, self)
      | .ok (logs, server) =>
        (server.incrementBlobFilter blockNumber !logs.isEmpty).map fun s => (.ok logs, s)

end EoServer

/-- `EventLogResult`. -/
structure EventLogResult (P : Type) where
  eventType : EventType
  logResult : Except EoServerError (List P)

/-- What comes of one call of `next` : the time is up, or one of the two queries is answered
first, and the head after it. -/
inductive Poll (L : Type) where
  | timedOut
  | answered (eventType : EventType) (logs : Except String (List L))
      (blockNumber : Except String ℕ)

namespace EoServer

/-- `next`. A call whose time is up leaves the server as it was and has no result. -/
def next (self : EoServer) : Poll L → Option (EoServer × Option (EventLogResult P))
  | .timedOut => some (self, none)
  | .answered eventType logs blockNumber =>
    (self.processLogs reader eventType logs blockNumber).map fun (logResult, s) =>
      (s, some ⟨eventType, logResult⟩)

/-- Call after call, with the results. -/
def run : EoServer → List (Poll L) → Option (EoServer × List (EventLogResult P))
  | self, [] => some (self, [])
  | self, poll :: polls =>
    (self.next reader poll).bind fun (s, result) =>
      (run s polls).map fun (s', results) => (s', result.toList ++ results)

/-- The server as `setup_eo_server` builds it, with no processed blocks. -/
def start : EoServer :=
  ⟨⟨∅, 0, ⟨0, none⟩⟩, ⟨∅, 0, ⟨0, none⟩⟩⟩

/-- What is kept for a kind of event. -/
def watch (self : EoServer) : EventType → Watch
  | .bridge => self.bridge
  | .settlement => self.blobSettled

end EoServer

/-- The logs of a kind that were returned. -/
def delivered (eventType : EventType) (results : List (EventLogResult P)) : List P :=
  results.flatMap fun r =>
    match r.logResult with
    | .ok logs => if r.eventType = eventType then logs else []
    | .error _ => []

end Server

/-! ## One call -/

section Call

variable {L P : Type} {reader : LogReader L P}

/-- Each log that is read has a block number and is parsed. -/
theorem forall₂_of_readLogs : ∀ {events : List L} {read : List (ℕ × P)},
    readLogs reader events = .ok read → List.Forall₂ (fun event r =>
      reader.blockNumber event = some r.1 ∧ reader.parseLog event = .ok r.2) events read
  | [], read, h => by
    cases h
    exact .nil
  | event :: events, read, h => by
    unfold readLogs at h
    cases hn : reader.blockNumber event with
    | none => simp [hn] at h
    | some n =>
      cases hp : reader.parseLog event with
      | error e => simp [hn, hp] at h
      | ok log =>
        cases hr : readLogs reader events with
        | error e => simp [hn, hp, hr] at h
        | ok rest =>
          simp only [hn, hp, hr, Except.ok.injEq] at h
          subst h
          exact .cons ⟨hn, hp⟩ (forall₂_of_readLogs hr)

/-- What an `Ok` call does for its kind : the logs are read, their blocks are noted, and the next
filter starts after the highest. -/
structure Watch.Advances (reader : LogReader L P) (events : List L) (w : Watch) (logs : List P)
    (w' : Watch) : Prop where
  read : ∃ read, readLogs reader events = .ok read ∧ logs = read.map Prod.snd ∧
    w'.processedBlocks = w.processedBlocks ∪ (read.map Prod.fst).toFinset
  fromBlock : w'.filter.fromBlock = w'.highest + 1

theorem Watch.advances_of_handleEvent {events : List L} {w w₁ w' : Watch} {logs : List P}
    {blockNumber : ℕ} {logDiscovered : Bool} (h : w.handleEvent reader events = .ok (logs, w₁))
    (hinc : w₁.incrementFilter blockNumber logDiscovered = some w') :
    w.Advances reader events logs w' := by
  unfold handleEvent at h
  cases hread : readLogs reader events with
  | error e => simp [hread] at h
  | ok read =>
    simp only [hread, Except.ok.injEq, Prod.mk.injEq] at h
    obtain ⟨rfl, rfl⟩ := h
    unfold incrementFilter at hinc
    split at hinc
    · rename_i fromBlock toBlock hfrom hto
      cases hinc
      refine ⟨⟨read, hread, rfl, rfl⟩, ?_⟩
      unfold addU64 at hfrom
      split_ifs at hfrom
      cases hfrom
      rfl
    · exact nomatch hinc

/-- The server with another watch for a kind. -/
def EoServer.withWatch (self : EoServer) : EventType → Watch → EoServer
  | .bridge, w => { self with bridge := w }
  | .settlement, w => { self with blobSettled := w }

@[simp]
theorem EoServer.watch_withWatch_self (s : EoServer) (t : EventType) (w : Watch) :
    (s.withWatch t w).watch t = w := by
  cases t <;> rfl

theorem EoServer.watch_withWatch_of_ne (s : EoServer) {t t' : EventType} (w : Watch)
    (h : t' ≠ t) : (s.withWatch t w).watch t' = s.watch t' := by
  cases t <;> cases t' <;> first | rfl | exact absurd rfl h

/-- The two kinds are processed alike, each on its own watch. -/
theorem EoServer.processLogs_ok (s : EoServer) (eventType : EventType)
    (logs : Except String (List L)) (blockNumber : ℕ) :
    s.processLogs reader eventType logs (.ok blockNumber) =
      match (s.watch eventType).handleEvent reader (logHandler logs) with
      | .error e => some (.error e, s)
      | .ok (out, w) => (w.incrementFilter blockNumber !out.isEmpty).map fun w' =>
          (.ok out, s.withWatch eventType w') := by
  cases eventType with
  | bridge =>
    simp only [processLogs, handleBridgeEvent, incrementBridgeFilter, watch]
    cases s.bridge.handleEvent reader (logHandler logs) with
    | error e => rfl
    | ok r => exact Option.map_map ..
  | settlement =>
    simp only [processLogs, handleSettlementEvent, incrementBlobFilter, watch]
    cases s.blobSettled.handleEvent reader (logHandler logs) with
    | error e => rfl
    | ok r => exact Option.map_map ..

/-- Everything an answered call can do : return an error and nothing else, or advance the kind
it was answered for and leave the other. -/
theorem EoServer.processLogs_cases {s s' : EoServer} {eventType : EventType}
    {logs : Except String (List L)} {blockNumber : Except String ℕ}
    {result : Except EoServerError (List P)}
    (h : s.processLogs reader eventType logs blockNumber = some (result, s')) :
    (∃ e, result = .error e ∧ s' = s) ∨
    ∃ out, result = .ok out ∧
      (s.watch eventType).Advances reader (logHandler logs) out (s'.watch eventType) ∧
      ∀ other, other ≠ eventType → s'.watch other = s.watch other := by
  cases blockNumber with
  | error e =>
    cases h
    exact .inl ⟨_, rfl, rfl⟩
  | ok blockNumber =>
    rw [processLogs_ok] at h
    cases hev : (s.watch eventType).handleEvent reader (logHandler logs) with
    | error e =>
      simp only [hev] at h
      cases h
      exact .inl ⟨e, rfl, rfl⟩
    | ok r =>
      obtain ⟨out, w₁⟩ := r
      simp only [hev] at h
      obtain ⟨w, hw, heq⟩ := Option.map_eq_some_iff.1 h
      cases heq
      refine .inr ⟨out, rfl, ?_, fun other hother => s.watch_withWatch_of_ne w hother⟩
      rw [watch_withWatch_self]
      exact Watch.advances_of_handleEvent hev hw

end Call

/-! ## The chain -/

/-- A chain that only grows : the events of each kind in each block, for good. Each of them
carries the number of its block, none comes twice, and the first block has none. -/
structure Chain {L P : Type} (reader : LogReader L P) where
  events : EventType → ℕ → List L
  numbered : ∀ t b, ∀ log ∈ events t b, reader.blockNumber log = some b
  nodup : ∀ t b, (events t b).Nodup
  genesis : ∀ t, events t 0 = []

namespace Chain

variable {L P : Type} {reader : LogReader L P} (chain : Chain reader)

/-- The events that a query finds while the chain has the blocks up to `height`. -/
def logs (t : EventType) (height : ℕ) (filter : BlockFilter) : List L :=
  between (chain.events t) filter.fromBlock (min (filter.toBlock.getD height) height)

/-- All events of the blocks up to a number. -/
def upTo (t : EventType) (b : ℕ) : List L := between (chain.events t) 0 b

theorem nodup_upTo (t : EventType) (b : ℕ) : (chain.upTo t b).Nodup := by
  refine nodup_between (chain.nodup t) (fun b c hne log hb hc => ?_) 0 b
  have hnum := (chain.numbered t b log hb).symm.trans (chain.numbered t c log hc)
  exact hne (Option.some.inj hnum)

theorem pairwise_upTo (t : EventType) (b : ℕ) : (chain.upTo t b).Pairwise fun x y =>
    ∀ m ∈ reader.blockNumber x, ∀ n ∈ reader.blockNumber y, m ≤ n :=
  pairwise_between (chain.numbered t) 0 b

/-- The query of a call is answered by the chain, at some height, or with an error. -/
def Answers (s : EoServer) : Poll L → Prop
  | .timedOut => True
  | .answered t logs _ =>
    ∀ l, logs = .ok l → ∃ height, l = chain.logs t height (s.watch t).filter

/-- So is the query of every call of a run. -/
def AnswersAll : EoServer → List (Poll L) → Prop
  | _, [] => True
  | s, poll :: polls => chain.Answers s poll ∧
      ∀ s' result, s.next reader poll = some (s', result) → AnswersAll s' polls

section Answers

variable {chain} {s s' : EoServer} {poll : Poll L} {polls : List (Poll L)}
  {result : Option (EventLogResult P)} {t : EventType} {l : List L} {blockNumber : Except String ℕ}

theorem AnswersAll.cons (h : s.next reader poll = some (s', result)) (hpoll : chain.Answers s poll)
    (hpolls : chain.AnswersAll s' polls) : chain.AnswersAll s (poll :: polls) := by
  refine ⟨hpoll, fun s₁ r₁ h₁ => ?_⟩
  cases h.symm.trans h₁
  exact hpolls

theorem Answers.ok (height : ℕ) (h : l = chain.logs t height (s.watch t).filter) :
    chain.Answers s (.answered t (.ok l) blockNumber) := by
  rintro _ ⟨⟩
  exact ⟨height, h⟩

theorem Answers.error {e : String} : chain.Answers s (.answered t (.error e) blockNumber) := by
  rintro _ ⟨⟩

end Answers

/-- The events of all blocks up to the highest processed one were delivered, and the filter
starts with the first event that was not. -/
structure Follows (t : EventType) (w : Watch) (out : List P) : Prop where
  delivered : List.Forall₂ (fun log p => reader.parseLog log = .ok p) (chain.upTo t w.highest) out
  starts : ∀ b, chain.events t b ≠ [] → (w.filter.fromBlock ≤ b ↔ w.highest < b)

variable {chain}

/-- The blocks of logs that a query found. -/
theorem mem_blocks_iff {t : EventType} {height : ℕ} {filter : BlockFilter}
    {read : List (ℕ × P)} (h : readLogs reader (chain.logs t height filter) = .ok read) {b : ℕ} :
    b ∈ (read.map Prod.fst).toFinset ↔ chain.events t b ≠ [] ∧ filter.fromBlock ≤ b ∧
      b ≤ min (filter.toBlock.getD height) height := by
  have hblocks : (chain.logs t height filter).map reader.blockNumber =
      (read.map Prod.fst).map some := by
    rw [← List.forall₂_eq_eq_eq, List.map_map]
    exact List.forall₂_map_left_iff.2 (List.forall₂_map_right_iff.2
      ((forall₂_of_readLogs h).imp fun _ _ hr => hr.1))
  have hmem : b ∈ read.map Prod.fst ↔
      ∃ log ∈ chain.logs t height filter, reader.blockNumber log = some b := by
    rw [← List.mem_map, hblocks]
    simp
  rw [List.mem_toFinset, hmem]
  constructor
  · rintro ⟨log, hlog, hnum⟩
    obtain ⟨c, hlo, hhi, hin⟩ := mem_between.1 hlog
    obtain rfl : c = b := Option.some.inj ((chain.numbered t c log hin).symm.trans hnum)
    exact ⟨List.ne_nil_of_mem hin, hlo, hhi⟩
  · rintro ⟨hne, hlo, hhi⟩
    obtain ⟨log, hin⟩ := List.exists_mem_of_ne_nil _ hne
    exact ⟨log, mem_between.2 ⟨b, hlo, hhi, hin⟩, chain.numbered t b log hin⟩

/-- An advance over the events that the filter finds : what was delivered before it, and what it
returns, are all events up to the highest block then. -/
theorem Follows.advance {t : EventType} {w w' : Watch} {out logs : List P} {height : ℕ}
    (hw : chain.Follows t w out)
    (h : w.Advances reader (chain.logs t height w.filter) logs w') :
    chain.Follows t w' (out ++ logs) := by
  obtain ⟨⟨read, hread, rfl, hblocks⟩, hfrom⟩ := h
  have hmem : ∀ b, b ∈ w'.processedBlocks ↔ b ∈ w.processedBlocks ∨ chain.events t b ≠ [] ∧
      w.filter.fromBlock ≤ b ∧ b ≤ min (w.filter.toBlock.getD height) height := by
    intro b
    rw [hblocks, Finset.mem_union, mem_blocks_iff hread]
  set top := min (w.filter.toBlock.getD height) height with htop
  have hle : w.highest ≤ w'.highest :=
    Finset.sup_mono fun b hb => (hmem b).2 (.inl hb)
  have hmax : w'.highest ≤ max w.highest top := by
    refine Finset.sup_le fun b hb => ?_
    rcases (hmem b).1 hb with hold | ⟨-, -, hnew⟩
    · exact le_max_of_le_left (Finset.le_sup (f := id) hold)
    · exact le_max_of_le_right hnew
  have hnone : ∀ b, w'.highest < b → b ≤ top → chain.events t b = [] := by
    intro b hlt hb
    by_contra hne
    have hin : b ∈ w'.processedBlocks :=
      (hmem b).2 (.inr ⟨hne, (hw.starts b hne).2 (hle.trans_lt hlt), hb⟩)
    exact absurd (Finset.le_sup (f := id) hin) (not_le.2 hlt)
  -- the filter starts where the delivered events end
  have hlogs : chain.logs t height w.filter = between (chain.events t) (w.highest + 1) top :=
    between_congr fun b _ hne => hw.starts b hne
  have hupTo : chain.upTo t w.highest ++ chain.logs t height w.filter =
      chain.upTo t w'.highest := by
    rw [hlogs]
    exact between_extend hle hmax hnone
  have hparsed : List.Forall₂ (fun log p => reader.parseLog log = .ok p)
      (chain.logs t height w.filter) (read.map Prod.snd) :=
    List.forall₂_map_right_iff.2 ((forall₂_of_readLogs hread).imp fun _ _ hr => hr.2)
  refine ⟨hupTo ▸ List.rel_append hw.delivered hparsed, fun b _ => ?_⟩
  rw [hfrom]
  exact Nat.succ_le_iff

/-- An advance over no events delivers nothing. -/
theorem Follows.advance_nil {t : EventType} {w w' : Watch} {out logs : List P}
    (hw : chain.Follows t w out) (h : w.Advances reader [] logs w') :
    chain.Follows t w' (out ++ logs) := by
  obtain ⟨⟨read, hread, rfl, hblocks⟩, hfrom⟩ := h
  cases hread
  have hhigh : w'.highest = w.highest := by
    unfold Watch.highest
    rw [hblocks]
    simp
  refine ⟨?_, fun b _ => ?_⟩
  · rw [hhigh, List.map_nil, List.append_nil]
    exact hw.delivered
  · rw [hfrom]
    exact Nat.succ_le_iff

/-- One call keeps it, for either kind, with what the call returns. -/
theorem Follows.next {t : EventType} {s s' : EoServer} {out : List P} {poll : Poll L}
    {result : Option (EventLogResult P)} (hs : chain.Follows t (s.watch t) out)
    (hans : chain.Answers s poll) (h : s.next reader poll = some (s', result)) :
    chain.Follows t (s'.watch t) (out ++ Lasr.delivered t result.toList) := by
  cases poll with
  | timedOut =>
    cases h
    simpa [Lasr.delivered] using hs
  | answered eventType logs blockNumber =>
    obtain ⟨⟨logResult, s₁⟩, hproc, heq⟩ := Option.map_eq_some_iff.1 h
    cases heq
    rcases EoServer.processLogs_cases hproc with ⟨e, rfl, rfl⟩ | ⟨log, rfl, hadv, hother⟩
    · simpa [Lasr.delivered] using hs
    · by_cases ht : t = eventType
      · subst ht
        have hout : Lasr.delivered t [(⟨t, .ok log⟩ : EventLogResult P)] = log := by
          simp [Lasr.delivered]
        rw [Option.toList_some, hout]
        cases logs with
        | ok l =>
          obtain ⟨height, rfl⟩ := hans l rfl
          exact hs.advance hadv
        | error e => exact hs.advance_nil hadv
      · have hout : Lasr.delivered t [(⟨eventType, .ok log⟩ : EventLogResult P)] = [] := by
          simp [Lasr.delivered, Ne.symm ht]
        rw [Option.toList_some, hout, List.append_nil, hother t ht]
        exact hs

theorem delivered_append (t : EventType) (l l' : List (EventLogResult P)) :
    Lasr.delivered t (l ++ l') = Lasr.delivered t l ++ Lasr.delivered t l' :=
  List.flatMap_append

/-- Call after call. -/
theorem Follows.run {t : EventType} : ∀ {polls : List (Poll L)} {s s' : EoServer} {out : List P}
    {results : List (EventLogResult P)}, chain.Follows t (s.watch t) out →
      chain.AnswersAll s polls → s.run reader polls = some (s', results) →
      chain.Follows t (s'.watch t) (out ++ Lasr.delivered t results)
  | [], s, s', out, results, hs, _, h => by
    cases h
    simpa [Lasr.delivered] using hs
  | poll :: polls, s, s', out, results, hs, hans, h => by
    obtain ⟨⟨s₁, result⟩, hnext, hrest⟩ := Option.bind_eq_some_iff.1 h
    obtain ⟨⟨s₂, rest⟩, hrun, heq⟩ := Option.map_eq_some_iff.1 hrest
    cases heq
    have hstep := (hs.next hans.1 hnext).run (hans.2 s₁ result hnext) hrun
    rwa [List.append_assoc, ← delivered_append] at hstep

/-- A server with no processed blocks, from the first block on. -/
theorem follows_start (chain : Chain reader) (t : EventType) :
    chain.Follows t (EoServer.start.watch t) [] := by
  have hzero : chain.upTo t 0 = [] := by
    refine between_eq_nil fun b _ hb => ?_
    rw [Nat.le_zero.1 hb]
    exact chain.genesis t
  refine ⟨?_, fun b hne => ?_⟩
  · have hhigh : (EoServer.start.watch t).highest = 0 := by cases t <;> rfl
    rw [hhigh, hzero]
    exact .nil
  · have hpos : 0 < b := Nat.pos_of_ne_zero fun h0 => hne (h0 ▸ chain.genesis t)
    cases t <;> exact ⟨fun _ => hpos, fun _ => Nat.zero_le b⟩

end Chain

section FilterStart

variable {L P : Type} {reader : LogReader L P}

/-- The filter of a kind starts at the block after the highest processed one, or before. -/
theorem EoServer.fromBlock_run_le (t : EventType) : ∀ {polls : List (Poll L)} {s s' : EoServer}
    {results : List (EventLogResult P)},
      (s.watch t).filter.fromBlock ≤ (s.watch t).highest + 1 →
      s.run reader polls = some (s', results) →
      (s'.watch t).filter.fromBlock ≤ (s'.watch t).highest + 1
  | [], s, s', _, hs, h => by
    cases h
    exact hs
  | poll :: polls, s, s', _, hs, h => by
    obtain ⟨⟨s₁, result⟩, hnext, hrest⟩ := Option.bind_eq_some_iff.1 h
    obtain ⟨⟨s₂, rest⟩, hrun, heq⟩ := Option.map_eq_some_iff.1 hrest
    cases heq
    refine fromBlock_run_le t ?_ hrun
    cases poll with
    | timedOut =>
      cases hnext
      exact hs
    | answered eventType logs blockNumber =>
      obtain ⟨⟨logResult, s₃⟩, hproc, heq⟩ := Option.map_eq_some_iff.1 hnext
      cases heq
      rcases processLogs_cases hproc with ⟨e, rfl, rfl⟩ | ⟨log, rfl, hadv, hother⟩
      · exact hs
      · by_cases ht : t = eventType
        · subst ht
          exact hadv.fromBlock.le
        · rw [hother t ht]
          exact hs

/-- A call that returns an error changes nothing. -/
theorem EoServer.next_of_error {s s' : EoServer} {poll : Poll L} {t : EventType}
    {e : EoServerError} (h : s.next reader poll = some (s', some ⟨t, .error e⟩)) : s' = s := by
  cases poll with
  | timedOut => exact nomatch h
  | answered eventType logs blockNumber =>
    obtain ⟨⟨logResult, s₁⟩, hproc, heq⟩ := Option.map_eq_some_iff.1 h
    cases heq
    rcases processLogs_cases hproc with ⟨_, -, rfl⟩ | ⟨log, hok, -⟩
    · rfl
    · exact nomatch hok

end FilterStart

/-- A run from the first block over a chain that answers, or fails, in any order of the kinds and
with any calls out of time. For each kind the logs returned are those of all events up to the
highest processed block, in the order of their blocks and each once; the next filter starts at
the block after it or before; and a call that returns an error leaves the server as it was. -/
theorem delivered_exactly_once {L P : Type} {reader : LogReader L P} (chain : Chain reader)
    {polls : List (Poll L)} {s : EoServer} {results : List (EventLogResult P)}
    (hans : chain.AnswersAll .start polls)
    (hrun : EoServer.start.run reader polls = some (s, results)) (t : EventType) :
    List.Forall₂ (fun log p => reader.parseLog log = .ok p) (chain.upTo t (s.watch t).highest)
      (delivered t results) ∧
    (chain.upTo t (s.watch t).highest).Nodup ∧
    ((chain.upTo t (s.watch t).highest).Pairwise fun x y =>
      ∀ m ∈ reader.blockNumber x, ∀ n ∈ reader.blockNumber y, m ≤ n) ∧
    (∀ b, (s.watch t).highest < b → (s.watch t).filter.fromBlock ≤ b) ∧
    ∀ pre poll post s₁ out s₂ e, polls = pre ++ poll :: post →
      EoServer.start.run reader pre = some (s₁, out) →
      s₁.next reader poll = some (s₂, some ⟨t, .error e⟩) → s₂.watch t = s₁.watch t := by
  have hfollows := (chain.follows_start t).run hans hrun
  have hstart : (EoServer.start.watch t).filter.fromBlock ≤
      (EoServer.start.watch t).highest + 1 := by
    cases t <;> exact Nat.zero_le _
  have hfrom := EoServer.fromBlock_run_le t hstart hrun
  refine ⟨hfollows.delivered, chain.nodup_upTo t _, chain.pairwise_upTo t _, ?_, ?_⟩
  · intro b hb
    omega
  · intro pre poll post s₁ out s₂ e _ _ hnext
    rw [EoServer.next_of_error hnext]

/-- Logs that are the numbers of their blocks. -/
def numberReader : LogReader ℕ ℕ := ⟨some, .ok⟩

/-- A chain with bridge events in blocks one, two and four, and a settlement in block three. -/
def fourEvents : Chain numberReader where
  events
    | .bridge, b => if b = 1 ∨ b = 2 ∨ b = 4 then [b] else []
    | .settlement, b => if b = 3 then [b] else []
  numbered t b log h := by
    cases t <;> simp only at h <;> split_ifs at h <;> simp_all [numberReader]
  nodup t b := by cases t <;> simp only <;> split_ifs <;> simp
  genesis t := by cases t <;> rfl

/-- The first query finds two events. Then one fails, one is answered while the head cannot be
read, and one is late. The rest find the settlement, and the last event once the filter has
reached its block. -/
def mixedPolls : List (Poll ℕ) :=
  [.answered .bridge (.ok [1, 2]) (.ok 2), .answered .bridge (.error "connection closed") (.ok 2),
    .answered .settlement (.ok [3]) (.error "connection closed"), .timedOut,
    .answered .settlement (.ok [3]) (.ok 5), .answered .bridge (.ok []) (.ok 5),
    .answered .bridge (.ok []) (.ok 6), .answered .bridge (.ok [4]) (.ok 6)]

theorem fourEvents_answers : fourEvents.AnswersAll .start mixedPolls :=
  .cons rfl (.ok 2 rfl) (.cons rfl .error (.cons rfl (.ok 5 rfl) (.cons rfl trivial
    (.cons rfl (.ok 5 rfl) (.cons rfl (.ok 5 rfl) (.cons rfl (.ok 6 rfl)
      (.cons rfl (.ok 6 rfl) trivial)))))))

theorem delivered_of_mixed_polls :
    ∃ s results, EoServer.start.run numberReader mixedPolls = some (s, results) ∧
      List.Forall₂ (fun log p => numberReader.parseLog log = .ok p) [1, 2, 4]
        (delivered .bridge results) ∧
      List.Forall₂ (fun log p => numberReader.parseLog log = .ok p) [3]
        (delivered .settlement results) := by
  obtain ⟨s, results, hrun, hbridge, hsettlement⟩ : ∃ s results,
      EoServer.start.run numberReader mixedPolls = some (s, results) ∧
        (s.watch .bridge).highest = 4 ∧ (s.watch .settlement).highest = 3 := ⟨_, _, rfl, rfl, rfl⟩
  have hall := fun t => (delivered_exactly_once fourEvents fourEvents_answers hrun t).1
  refine ⟨s, results, hrun, ?_, ?_⟩
  · have hlogs := hall .bridge
    rw [hbridge] at hlogs
    exact hlogs
  · have hlogs := hall .settlement
    rw [hsettlement] at hlogs
    exact hlogs

end Lasr
