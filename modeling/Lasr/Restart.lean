import Lasr.Listener

/-!
# The listener stopped and started again

`EoServerWrapper::run` of `actors/src/eo_server.rs` polls the server, sends logs that are not
empty to the actor, and then saves the processed blocks to a file. The persistence store is
only read there (`update_blocks_processed_in_persistence`). After a stop the node loads the
record from the file, or else from the store, and sets up a server from it
(`setup_eo_server`).

The record has the processed blocks and the head of the chain, and the first filter starts at
that head. So a restart is right if nothing was sent since the record was saved and the saved
head divides the bridge events as the processed blocks do (`ListenerStep.Sound`) : then every
event up to the highest processed block is sent once (`restart_exactly_once`). An event in the
block of the saved head is sent again (`event_sent_again`).
-/

set_option linter.unusedSectionVars false

namespace Lasr

/-! ## The record -/

/-- `BlocksProcessed`. -/
structure BlocksProcessed where
  bridge : Option ℕ
  settle : Option ℕ
  bridgeProcessed : Finset ℕ
  settledProcessed : Finset ℕ

/-- `BlocksProcessed::default`. -/
def BlocksProcessed.empty : BlocksProcessed := ⟨none, none, ∅, ∅⟩

/-- The record that `save_blocks_processed` writes. -/
def EoServer.blocksProcessed (self : EoServer) : BlocksProcessed where
  bridge := some self.bridge.currentFilterBlock
  settle := some self.blobSettled.currentFilterBlock
  bridgeProcessed := self.bridge.processedBlocks
  settledProcessed := self.blobSettled.processedBlocks

/-- `load_processed_blocks`. The store is asked only where the file can be opened and has
nothing. -/
def loadProcessedBlocks (opened : Bool) (file persisted : Option BlocksProcessed) :
    Option BlocksProcessed :=
  if opened then file.or persisted else none

/-- `setup_eo_server`. -/
def setupEoServer (loaded : Option BlocksProcessed) : EoServer :=
  let blocksProcessed := loaded.getD .empty
  let bridgeFromBlock := blocksProcessed.bridge
  let settleFromBlock := blocksProcessed.settle
  { bridge := ⟨blocksProcessed.bridgeProcessed, bridgeFromBlock.getD 0,
      ⟨bridgeFromBlock.getD 0, none⟩⟩
    blobSettled := ⟨blocksProcessed.settledProcessed, settleFromBlock.getD 0,
      ⟨settleFromBlock.getD 0, none⟩⟩ }

/-- `update_blocks_processed_in_persistence` : the store is asked for the record, and keeps what
it has. -/
def updateBlocksProcessedInPersistence (persisted : Option BlocksProcessed) :
    Option BlocksProcessed :=
  persisted

/-! ## The wrapper -/

/-- The server, what the file and the persistence store hold, and the logs sent to the actor. -/
structure EoServerWrapper (P : Type) where
  server : EoServer
  file : Option BlocksProcessed
  persisted : Option BlocksProcessed
  sent : List (EventLogResult P)

/-- A round of `run`, whose message reaches the actor and whose record is saved, or not; or a
stop and a start, where the file can be opened or not. -/
inductive ListenerStep (L : Type) where
  | poll (poll : Poll L) (reached saved : Bool)
  | restart (opened : Bool)

namespace EoServerWrapper

section Run

variable {L P : Type} (reader : LogReader L P)

/-- A node that starts without a record. -/
def start : EoServerWrapper P :=
  ⟨setupEoServer (loadProcessedBlocks true none none), none, none, []⟩

/-- One round, or one restart. It is `none` where the server panics. -/
def step (self : EoServerWrapper P) : ListenerStep L → Option (EoServerWrapper P)
  | .poll p reached saved =>
    (self.server.next reader p).map fun (server, result) =>
      match result with
      | some ⟨eventType, .ok logs⟩ =>
        if logs.isEmpty then { self with server := server }
        else
          { server := server
            sent := if reached then self.sent ++ [⟨eventType, .ok logs⟩] else self.sent
            file := if saved then some server.blocksProcessed else self.file
            persisted := updateBlocksProcessedInPersistence self.persisted }
      | some ⟨_, .error _⟩ => { self with server := server }
      | none => { self with server := server }
  | .restart opened =>
    some { self with
      server := setupEoServer (loadProcessedBlocks opened self.file self.persisted) }

/-- Step after step. -/
def run : EoServerWrapper P → List (ListenerStep L) → Option (EoServerWrapper P)
  | self, [] => some self
  | self, step :: steps => (self.step reader step).bind fun s => run s steps

end Run

end EoServerWrapper

/-! ## Steps that lose and repeat nothing -/

section Sound

variable {L P : Type} {reader : LogReader L P} (chain : Chain reader)

/-- The query of a round is answered by the chain, or with an error. -/
def ListenerStep.Answered (s : EoServerWrapper P) : ListenerStep L → Prop
  | .poll p _ _ => chain.Answers s.server p
  | .restart _ => True

/-- A round has bridge events to send : both queries are answered, and its logs are read. -/
def Poll.Sends (reader : LogReader L P) : Poll L → Prop
  | .answered .bridge (.ok logs) (.ok _) => logs ≠ [] ∧ ∃ read, readLogs reader logs = .ok read
  | _ => False

/-- The message of a round with bridge events reaches the actor. A restart loads a record with
the bridge blocks that were processed before it, and every block with a bridge event is at the
saved head or above exactly if it is above all processed blocks. -/
def ListenerStep.Sound (s : EoServerWrapper P) : ListenerStep L → Prop
  | .poll p reached _ => p.Sends reader → reached = true
  | .restart opened =>
    let loaded := (loadProcessedBlocks opened s.file s.persisted).getD .empty
    loaded.bridgeProcessed = s.server.bridge.processedBlocks ∧
      ∀ b, chain.events .bridge b ≠ [] →
        (loaded.bridge.getD 0 ≤ b ↔ loaded.bridgeProcessed.sup id < b)

/-- A condition on the steps of a run, each in the state before it. -/
def EoServerWrapper.EachStep (reader : LogReader L P)
    (C : EoServerWrapper P → ListenerStep L → Prop) :
    EoServerWrapper P → List (ListenerStep L) → Prop
  | _, [] => True
  | s, step :: steps => C s step ∧
      ∀ s', s.step reader step = some s' → EachStep reader C s' steps

variable {chain}

/-- Only such a round returns bridge events. -/
theorem Poll.sends_of_next {server server' : EoServer} {p : Poll L} {logs : List P}
    (h : server.next reader p = some (server', some ⟨.bridge, .ok logs⟩)) (hne : logs ≠ []) :
    p.Sends reader := by
  cases p with
  | timedOut => cases h
  | answered eventType answer head =>
    obtain ⟨⟨result, s⟩, hlogs, hresult⟩ := Option.map_eq_some_iff.1 h
    cases hresult
    cases head with
    | error e => cases hlogs
    | ok n =>
      simp only [EoServer.processLogs, EoServer.handleBridgeEvent, Watch.handleEvent] at hlogs
      cases hread : readLogs reader (EoServer.logHandler answer) with
      | error e =>
        rw [hread] at hlogs
        cases hlogs
      | ok read =>
        rw [hread] at hlogs
        obtain ⟨_, -, hpair⟩ := Option.map_eq_some_iff.1 hlogs
        cases hpair
        cases answer with
        | error e =>
          cases hread
          exact absurd rfl hne
        | ok events =>
          refine ⟨?_, read, hread⟩
          rintro rfl
          cases hread
          exact absurd rfl hne

/-- One step : the bridge events sent are those up to the highest processed block. -/
theorem EoServerWrapper.follows_step {s s' : EoServerWrapper P} {step : ListenerStep L}
    (hs : chain.Follows .bridge s.server.bridge (delivered .bridge s.sent))
    (hans : step.Answered chain s) (hsound : step.Sound chain s)
    (h : s.step reader step = some s') :
    chain.Follows .bridge s'.server.bridge (delivered .bridge s'.sent) := by
  cases step with
  | poll poll reached saved =>
    obtain ⟨⟨server, result⟩, hnext, rfl⟩ := Option.map_eq_some_iff.1 h
    have hstep : chain.Follows .bridge server.bridge
        (delivered .bridge s.sent ++ delivered .bridge result.toList) :=
      Chain.Follows.next (s := s.server) hs hans hnext
    rcases result with _ | ⟨eventType, e | logs⟩
    · simpa [delivered] using hstep
    · simpa [delivered] using hstep
    · cases hlogs : logs.isEmpty with
      | true =>
        have hnil : logs = [] := List.isEmpty_iff.1 hlogs
        simpa [delivered, hnil] using hstep
      | false =>
        cases eventType with
        | bridge =>
          have hne : logs ≠ [] := fun hnil => by simp [hnil] at hlogs
          have hreached : reached = true := hsound (Poll.sends_of_next hnext hne)
          rw [← Chain.delivered_append] at hstep
          simpa [hlogs, hreached] using hstep
        | settlement =>
          cases reached <;> simpa [delivered, hlogs] using hstep
  | restart opened =>
    cases h
    obtain ⟨hblocks, hstart⟩ := hsound
    refine ⟨?_, hstart⟩
    have hhigh : Watch.highest (setupEoServer
        (loadProcessedBlocks opened s.file s.persisted)).bridge = s.server.bridge.highest :=
      congrArg (fun m => m.sup id) hblocks
    rw [hhigh]
    exact hs.delivered

/-- Step after step. -/
theorem EoServerWrapper.follows_run : ∀ {steps : List (ListenerStep L)}
    {s s' : EoServerWrapper P},
      chain.Follows .bridge s.server.bridge (delivered .bridge s.sent) →
      s.EachStep reader (ListenerStep.Answered chain) steps →
      s.EachStep reader (ListenerStep.Sound chain) steps →
      s.run reader steps = some s' →
      chain.Follows .bridge s'.server.bridge (delivered .bridge s'.sent)
  | [], _, _, hs, _, _, h => by
    cases h
    exact hs
  | step :: steps, s, s', hs, hans, hsound, h => by
    obtain ⟨t, ht, hrun⟩ := Option.bind_eq_some_iff.1 h
    exact follows_run (follows_step hs hans.1 hsound.1 ht) (hans.2 t ht) (hsound.2 t ht) hrun

end Sound

/-- In every run of rounds and restarts over a chain that answers, or fails, where each message with
bridge events reaches the actor and each restart loads the processed blocks of before, with a head
that divides the bridge events as they do : the bridge events sent, before and after all restarts,
are those of the blocks up to the highest processed one, each once and in order. -/
theorem restart_exactly_once {L P : Type} {reader : LogReader L P} (chain : Chain reader)
    {steps : List (ListenerStep L)} {s : EoServerWrapper P}
    (hans : EoServerWrapper.start.EachStep reader (ListenerStep.Answered chain) steps)
    (hsound : EoServerWrapper.start.EachStep reader (ListenerStep.Sound chain) steps)
    (hrun : EoServerWrapper.start.run reader steps = some s) :
    List.Forall₂ (fun log p => reader.parseLog log = .ok p)
      (chain.upTo .bridge s.server.bridge.highest) (delivered .bridge s.sent) ∧
    (chain.upTo .bridge s.server.bridge.highest).Nodup :=
  ⟨(EoServerWrapper.follows_run (chain.follows_start .bridge) hans hsound hrun).delivered,
    chain.nodup_upTo .bridge _⟩

/-- A chain with one bridge event, in block one. -/
def oneBridgeEvent : Chain numberReader where
  events t b := if t = .bridge ∧ b = 1 then [1] else []
  numbered t b log h := by
    split_ifs at h with hb
    · rw [List.mem_singleton.1 h, hb.2]
      rfl
    · exact nomatch h
  nodup t b := by split_ifs <;> simp
  genesis t := by simp

/-- The event of block one is found while the head is at three, and the restarted server asks
from block three on. -/
theorem restart_after_head_moved :
    ∃ s, EoServerWrapper.start.run numberReader
        [.poll (.answered .bridge (.ok [1]) (.ok 3)) true true, .restart true,
          .poll (.answered .bridge (.ok []) (.ok 4)) true true] = some s ∧
      List.Forall₂ (fun log p => numberReader.parseLog log = .ok p)
        (oneBridgeEvent.upTo .bridge s.server.bridge.highest) (delivered .bridge s.sent) := by
  obtain ⟨s, hrun⟩ : ∃ s, EoServerWrapper.start.run numberReader
      [.poll (.answered .bridge (.ok [1]) (.ok 3)) true true, .restart true,
        .poll (.answered .bridge (.ok []) (.ok 4)) true true] = some s := ⟨_, rfl⟩
  refine ⟨s, hrun, (restart_exactly_once oneBridgeEvent ?_ ?_ hrun).1⟩
  · refine ⟨fun l hl => ⟨1, ?_⟩, fun s₁ h₁ => ⟨trivial, fun s₂ h₂ => ⟨fun l hl => ⟨3, ?_⟩,
      fun _ _ => trivial⟩⟩⟩
    · cases hl
      rfl
    · cases h₁
      cases h₂
      cases hl
      rfl
  · refine ⟨fun _ => rfl, fun s₁ h₁ => ⟨?_, fun s₂ h₂ => ⟨fun _ => rfl, fun _ _ => trivial⟩⟩⟩
    cases h₁
    refine ⟨rfl, fun b hb => ?_⟩
    obtain rfl : b = 1 := by
      by_contra hne
      exact hb (by simp [oneBridgeEvent, hne])
    decide

/-- The event is in the block that is the head when it is found. After the restart the server
asks from that block on, and sends the event again. -/
theorem event_sent_again :
    ¬∀ (before after : List (ListenerStep ℕ)) (s₁ s : EoServerWrapper ℕ),
      EoServerWrapper.start.run numberReader before = some s₁ → s₁.file.isSome →
      s₁.run numberReader (.restart true :: after) = some s →
      EoServerWrapper.start.EachStep numberReader (ListenerStep.Answered oneBridgeEvent)
        (before ++ .restart true :: after) →
      ∃ events, events.Perm (oneBridgeEvent.upTo .bridge s.server.bridge.highest) ∧
        List.Forall₂ (fun log p => numberReader.parseLog log = .ok p) events
          (delivered .bridge s.sent) := by
  intro h
  obtain ⟨s₁, h₁⟩ : ∃ s₁, EoServerWrapper.start.run numberReader
      [.poll (.answered .bridge (.ok [1]) (.ok 1)) true true] = some s₁ := ⟨_, rfl⟩
  obtain ⟨s, h₂⟩ : ∃ s, s₁.run numberReader (.restart true ::
      [.poll (.answered .bridge (.ok [1]) (.ok 1)) true true]) = some s := by
    cases h₁
    exact ⟨_, rfl⟩
  have hans : EoServerWrapper.start.EachStep numberReader (ListenerStep.Answered oneBridgeEvent)
      ([.poll (.answered .bridge (.ok [1]) (.ok 1)) true true] ++ .restart true ::
        [.poll (.answered .bridge (.ok [1]) (.ok 1)) true true]) := by
    refine ⟨fun l hl => ⟨1, ?_⟩, fun t ht => ⟨trivial, fun t' ht' => ⟨fun l hl => ⟨1, ?_⟩,
      fun _ _ => trivial⟩⟩⟩
    · cases hl
      rfl
    · cases ht
      cases ht'
      cases hl
      rfl
  obtain ⟨events, hperm, hsent⟩ := h _ _ s₁ s h₁ (by cases h₁; rfl) h₂ hans
  cases h₁
  cases h₂
  exact absurd (hperm.length_eq.symm.trans hsent.length_eq) (by decide)

end Lasr
