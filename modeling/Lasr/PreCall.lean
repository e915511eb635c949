import Lasr.PendingGraph
import Lasr.Instructions

/-!
# Calls before execution

`PreCallGraph` is there to hand the calls of one program to the executor one at a time, in the
order of their arrival, and the next one when an execution has completed (`CallLog.Orderly`).
Its index of programs is looked up and never filled, so no call ever waits : each goes to the
executor on arrival (`CallLog.Eager`). What the graph is there for holds of a sequence of
messages exactly when the calls of a program arrive one at a time by themselves
(`preCall_ordered_iff`).
-/

set_option linter.unusedSectionVars false

namespace Lasr

/-! ## Runs of the graph -/

/-- The messages of the pending-transaction actor that are about calls before execution. -/
inductive CallMessage where
  | newCall (transaction : Transaction)
  | execSuccess (transaction : Transaction)
  deriving DecidableEq

/-- The message as the actor gets it. -/
def CallMessage.toPending : CallMessage → PendingTransactionMessage
  | .newCall tx => .newCall tx
  | .execSuccess tx => .execSuccess tx

/-- What the graph does with a message, and the calls it sends to the executor. -/
def PreCallGraph.handle (env : Env) (m : CallMessage) (g : PreCallGraph) :
    PreCallGraph × List Transaction :=
  match m with
  | .newCall tx => g.addCall env tx
  | .execSuccess tx => g.handleCompletedExec (env.hashString tx)

/-- The actor does just that. -/
theorem PendingState.handle_toPending (env : Env) (reading : Reading) (m : CallMessage)
    (state : PendingState) :
    state.handle env reading m.toPending =
      ⟨{ state with preCall := (state.preCall.handle env m).1 }, [],
        (state.preCall.handle env m).2.map fun tx => .executor (.exec tx)⟩ := by
  cases m <;> rfl

/-- The graph, and what has happened so far : the calls that arrived and those that were sent
to the executor, in order, and those whose execution has completed. -/
structure CallLog where
  graph : PreCallGraph
  arrived : List Transaction
  sent : List Transaction
  completed : List Transaction

namespace CallLog

/-- Nothing has happened. -/
def start : CallLog := ⟨.new, [], [], []⟩

variable (env : Env)

/-- One message. -/
def step (m : CallMessage) (log : CallLog) : CallLog :=
  let r := log.graph.handle env m
  match m with
  | .newCall tx => ⟨r.1, log.arrived ++ [tx], log.sent ++ r.2, log.completed⟩
  | .execSuccess tx => ⟨r.1, log.arrived, log.sent ++ r.2, log.completed ++ [tx]⟩

/-- The calls that were sent and have not completed. -/
def outstanding (log : CallLog) : List Transaction :=
  log.sent.filter fun tx => tx ∉ log.completed

/-- The calls of a program that have arrived and were not sent. -/
def waiting (log : CallLog) (program : Address) : List Transaction :=
  log.arrived.filter fun tx => tx.to = program ∧ tx ∉ log.sent

/-- What the graph is there for, at one message : no program has two calls outstanding, the
calls of a program were sent in the order of their arrival, and a completion sends the next
call that waits for the program. -/
structure Orderly (m : CallMessage) (log : CallLog) : Prop where
  one : ∀ program, ((step env m log).outstanding.filter fun tx => tx.to = program).length ≤ 1
  order : ∀ program, ((step env m log).sent.filter fun tx => tx.to = program) <+:
    (step env m log).arrived.filter fun tx => tx.to = program
  next : ∀ tx, m = .execSuccess tx → tx ∈ log.outstanding →
    (step env m log).sent = log.sent ++ (log.waiting tx.to).head?.toList

/-- It is so at every message of a sequence. -/
def Ordered : List CallMessage → CallLog → Prop
  | [], _ => True
  | m :: ms, log => Orderly env m log ∧ Ordered ms (step env m log)

/-- The messages come as they can : a call has a hash of its own, and an execution that
completes is that of a call sent to the executor. -/
def Proper : List CallMessage → CallLog → Prop
  | [], _ => True
  | m :: ms, log =>
    (match m with
      | .newCall tx => env.hashString tx ∉ log.arrived.map env.hashString
      | .execSuccess tx => tx ∈ log.sent) ∧ Proper ms (step env m log)

end CallLog

/-- The calls of a program arrive one at a time : each comes when those before it have
completed. The list has the calls that have not. -/
def Spaced : List CallMessage → List Transaction → Prop
  | [], _ => True
  | .newCall tx :: ms, calls => (∀ t ∈ calls, t.to ≠ tx.to) ∧ Spaced ms (calls ++ [tx])
  | .execSuccess tx :: ms, calls => Spaced ms (calls.filter fun t => t ≠ tx)

/-! ## No call waits -/

/-- The index of programs has only empty lists, and no vertex has a dependency. -/
structure PreCallGraph.Idle (g : PreCallGraph) : Prop where
  index : ∀ p q, g.programIndex.lookup p = some q → q = []
  dependencies : ∀ id v, g.vertices.lookup id = some v → v.dependencies = []

namespace PreCallGraph.Idle

variable {g : PreCallGraph}

theorem new : Idle .new := by
  constructor
  · intro p q h
    simp [PreCallGraph.new] at h
  · intro id v h
    simp [PreCallGraph.new] at h

/-- In an idle graph a new call is sent at once. -/
theorem addCall (hg : g.Idle) (env : Env) (tx : Transaction) :
    (g.addCall env tx).2 = [tx] ∧ (g.addCall env tx).1.Idle := by
  have hempty : (g.programIndex.lookup tx.to).getD [] = [] := by
    cases hq : g.programIndex.lookup tx.to with
    | none => rfl
    | some q => exact hg.index tx.to q hq
  simp only [PreCallGraph.addCall, hempty, List.foldl_nil]
  refine ⟨rfl, fun p q h => ?_, fun id v h => ?_⟩
  · rcases HashMap.lookup_insert_cases h with rfl | h
    · rfl
    · exact hg.index p q h
  · rcases HashMap.lookup_insert_cases h with rfl | h
    · rfl
    · exact hg.dependencies id v h

/-- In an idle graph a completion sends nothing. -/
theorem handleCompletedExec (hg : g.Idle) (hash : String) :
    (g.handleCompletedExec hash).2 = [] ∧ (g.handleCompletedExec hash).1.Idle := by
  unfold PreCallGraph.handleCompletedExec
  split
  · exact ⟨rfl, hg⟩
  · next vertex hv =>
    rw [hg.dependencies hash vertex hv]
    exact ⟨rfl, hg.index, fun id v h => hg.dependencies id v (HashMap.lookup_of_lookup_erase h)⟩

end PreCallGraph.Idle

namespace CallLog

variable {env : Env} {log : CallLog}

/-- Every call was sent when it arrived. -/
structure Eager (log : CallLog) : Prop where
  idle : log.graph.Idle
  sent : log.sent = log.arrived
  completed : ∀ tx ∈ log.completed, tx ∈ log.sent

theorem eager_start : start.Eager :=
  ⟨.new, rfl, fun _ h => nomatch h⟩

theorem Eager.newCall (h : log.Eager) (env : Env) (tx : Transaction) :
    (step env (.newCall tx) log).Eager ∧ (step env (.newCall tx) log).sent = log.sent ++ [tx] := by
  obtain ⟨hsent, hidle⟩ := h.idle.addCall env tx
  have hs : (step env (.newCall tx) log).sent = log.sent ++ [tx] := congrArg (log.sent ++ ·) hsent
  refine ⟨⟨hidle, ?_, fun t ht => ?_⟩, hs⟩
  · rw [hs, h.sent]
    rfl
  · rw [hs]
    exact List.mem_append_left _ (h.completed t ht)

theorem Eager.execSuccess (h : log.Eager) (env : Env) {tx : Transaction} (htx : tx ∈ log.sent) :
    (step env (.execSuccess tx) log).Eager ∧
      (step env (.execSuccess tx) log).sent = log.sent := by
  obtain ⟨hsent, hidle⟩ := h.idle.handleCompletedExec (env.hashString tx)
  have hs : (step env (.execSuccess tx) log).sent = log.sent := by
    have happ : (step env (.execSuccess tx) log).sent = log.sent ++ [] :=
      congrArg (log.sent ++ ·) hsent
    rwa [List.append_nil] at happ
  refine ⟨⟨hidle, hs.trans h.sent, fun t ht => ?_⟩, hs⟩
  rw [hs]
  rcases List.mem_append.1 ht with ht | ht
  · exact h.completed t ht
  · rw [List.mem_singleton.1 ht]
    exact htx

theorem Eager.outstanding_newCall (h : log.Eager) {tx : Transaction}
    (htx : env.hashString tx ∉ log.arrived.map env.hashString) :
    (step env (.newCall tx) log).outstanding = log.outstanding ++ [tx] := by
  have hnew : tx ∉ log.completed := fun hmem =>
    htx (List.mem_map_of_mem (h.sent ▸ h.completed tx hmem))
  unfold outstanding
  rw [(h.newCall env tx).2, List.filter_append]
  have hcompleted : (step env (.newCall tx) log).completed = log.completed := rfl
  rw [hcompleted]
  simp [hnew]

theorem Eager.outstanding_execSuccess (h : log.Eager) (env : Env) {tx : Transaction}
    (htx : tx ∈ log.sent) :
    (step env (.execSuccess tx) log).outstanding = log.outstanding.filter fun t => t ≠ tx := by
  have hcompleted : (step env (.execSuccess tx) log).completed = log.completed ++ [tx] := rfl
  unfold outstanding
  rw [(h.execSuccess env htx).2, hcompleted, List.filter_filter]
  refine List.filter_congr fun t _ => ?_
  simp [and_comm]

/-- Where every call was sent at once, the order is kept and nothing waits. -/
theorem Eager.orderly_iff (h : log.Eager) {m : CallMessage} (hstep : (step env m log).Eager)
    (hquiet : ∀ tx, m = .execSuccess tx → (step env m log).sent = log.sent) :
    Orderly env m log ↔
      ∀ program, ((step env m log).outstanding.filter fun tx => tx.to = program).length ≤ 1 := by
  refine ⟨Orderly.one, fun hone => ⟨hone, fun program => ?_, fun tx hm _ => ?_⟩⟩
  · rw [hstep.sent]
  · have hnone : log.waiting tx.to = [] := by
      refine List.filter_eq_nil_iff.2 fun t ht hw => ?_
      rw [h.sent] at hw
      simp [ht] at hw
    rw [hquiet tx hm, hnone]
    exact (List.append_nil _).symm

/-- From a state in which every call was sent at once, and no two of one program are
outstanding. -/
theorem ordered_iff_spaced : ∀ {ms : List CallMessage} {log : CallLog}, log.Eager →
    (∀ program, (log.outstanding.filter fun tx => tx.to = program).length ≤ 1) →
    Proper env ms log → (Ordered env ms log ↔ Spaced ms log.outstanding)
  | [], _, _, _, _ => Iff.rfl
  | .newCall tx :: ms, log, h, hone, hp => by
    obtain ⟨hstep, -⟩ := h.newCall env tx
    have hout := h.outstanding_newCall hp.1
    have hfree : Orderly env (.newCall tx) log ↔ ∀ t ∈ log.outstanding, t.to ≠ tx.to := by
      rw [h.orderly_iff hstep fun _ hm => nomatch hm]
      constructor
      · intro hle t ht hto
        have hlen := hle tx.to
        rw [hout, List.filter_append, List.length_append] at hlen
        have hpos : 0 < (log.outstanding.filter fun t => t.to = tx.to).length :=
          List.length_pos_of_mem (List.mem_filter.2 ⟨ht, by simp [hto]⟩)
        have hlast : ([tx].filter fun t => t.to = tx.to).length = 1 := by simp
        rw [hlast] at hlen
        omega
      · intro hfree program
        rw [hout, List.filter_append, List.length_append]
        by_cases hto : tx.to = program
        · subst hto
          have hnil : (log.outstanding.filter fun t => t.to = tx.to) = [] :=
            List.filter_eq_nil_iff.2 fun t ht => by simp [hfree t ht]
          simp [hnil]
        · have hle := hone program
          simpa [hto] using hle
    unfold Ordered Spaced
    rw [hfree, ← hout]
    refine and_congr_right fun hf => ordered_iff_spaced hstep ?_ hp.2
    exact (hfree.2 hf).one
  | .execSuccess tx :: ms, log, h, hone, hp => by
    obtain ⟨hstep, hsent⟩ := h.execSuccess env hp.1
    have hout := h.outstanding_execSuccess env hp.1
    have hone' : ∀ program, ((step env (.execSuccess tx) log).outstanding.filter
        fun t => t.to = program).length ≤ 1 := by
      intro program
      rw [hout]
      exact ((List.filter_sublist.filter _).length_le).trans (hone program)
    have hord : Orderly env (.execSuccess tx) log :=
      (h.orderly_iff hstep fun _ _ => hsent).2 hone'
    unfold Ordered Spaced
    rw [← hout]
    exact (and_iff_right hord).trans (ordered_iff_spaced hstep hone' hp.2)

end CallLog

/-- For every sequence of messages about calls with different hashes : the graph keeps one call
of a program at a time with the executor, in the order of their arrival, exactly when each call
of a program arrives after those before it have completed. -/
theorem preCall_ordered_iff {env : Env} {ms : List CallMessage}
    (hproper : CallLog.Proper env ms .start) :
    CallLog.Ordered env ms .start ↔ Spaced ms [] :=
  CallLog.ordered_iff_spaced CallLog.eager_start (fun _ => Nat.zero_le _) hproper

/-- Two calls of one program, the second after the first has completed. -/
def oneByOne : List CallMessage :=
  [.newCall (callOf 7#160 9#160 1#256), .execSuccess (callOf 7#160 9#160 1#256),
    .newCall (callOf 7#160 9#160 2#256)]

theorem preCall_ordered_oneByOne : CallLog.Ordered .small oneByOne .start := by
  have hproper : CallLog.Proper .small oneByOne .start := by
    refine ⟨by decide, by decide, by decide, trivial⟩
  refine (preCall_ordered_iff hproper).2 ⟨fun _ h => (nomatch h), ?_⟩
  exact ⟨fun t ht => by revert t; decide, trivial⟩

/-- Two calls of one program, one right after the other. -/
def atOnce : List CallMessage :=
  [.newCall (callOf 7#160 9#160 1#256), .newCall (callOf 7#160 9#160 2#256)]

/-- Both are with the executor. -/
theorem preCall_atOnce :
    CallLog.Proper .small atOnce .start ∧
      (atOnce.foldl (fun log m => CallLog.step .small m log) CallLog.start).outstanding.map
        Transaction.to = [9#160, 9#160] ∧
      ¬CallLog.Ordered .small atOnce .start := by
  refine ⟨⟨by decide, by decide, trivial⟩, by decide, fun h => ?_⟩
  exact absurd (h.2.1.one 9#160) (by decide)

end Lasr
