import Lasr.Causality
import Lasr.Scheduling

/-!
# Signatures

Every send or call the batcher applies carries the signature of its sender, as long as no
send comes in by way of `registerProgram` without one (`applied_authentic`). The validator
verifies the signature of whatever passes it (`Causes.append`), and a call that takes the
other road has no outputs, so that the batcher drops it. A send on that road is applied as
it is : `registerProgram` only wants some address to be recovered.
-/

set_option linter.unusedSectionVars false

namespace Lasr

variable (env : Env)

/-- A send that the node would take as a registration is signed by its sender. -/
def SignedIfSend (tx : Transaction) : Prop :=
  tx.transactionType.isSend → Registrable env tx → tx.verifySignature env = .ok ()

/-- A message from outside that brings no unsigned send by way of `registerProgram`. -/
def Msg.Accountable : Msg → Prop
  | .scheduler (.registerProgram tx _) => SignedIfSend env tx
  | _ => True

/-- What is known of the signature at each stage. -/
def Msg.Vouched : Msg → Prop
  | .scheduler (.registerProgram tx _) => SignedIfSend env tx
  | .engine (.registerProgram tx) => SignedIfSend env tx
  | .executor (.create tx _) => tx.transactionType.isSend → tx.verifySignature env = .ok ()
  | .batcher (.appendTransaction tx outputs) =>
    tx.transactionType.isSend ∨ tx.transactionType.isCall ∧ outputs.isSome →
      tx.verifySignature env = .ok ()
  | _ => True

variable {env}

theorem Msg.IsReport.vouched {m : Msg} (h : m.IsReport) : m.Vouched env := by
  cases m with
  | scheduler m =>
    cases m with
    | registerProgram tx port => exact h.elim
    | _ => trivial
  | pending m => trivial
  | _ => exact h.elim

/-- The validator hands on nothing unsigned but bridge-ins. -/
theorem ValidatorMessage.Checked.signed {m : ValidatorMessage} (h : m.Checked env)
    (htype : m.append.transaction.transactionType.isSend ∨
      m.append.transaction.transactionType.isCall) :
    m.append.transaction.verifySignature env = .ok () := by
  cases m with
  | pendingTransaction tx =>
    rcases h with ⟨-, hsig⟩ | ⟨hbridge, -⟩
    · exact hsig
    · change (tx.transactionType.isSend : Prop) ∨ (tx.transactionType.isCall : Prop) at htype
      cases ht : tx.transactionType <;>
        simp [ht, TransactionType.isBridgeIn, TransactionType.isSend,
          TransactionType.isCall] at hbridge htype
  | pendingCall outputs tx => exact h.2
  | pendingRegistration tx => exact h.elim

theorem vouched_closed : Closed env (Msg.Vouched env) := by
  refine ⟨fun {m m'} hm h => ?_⟩
  cases h with
  | report h => exact h.vouched
  | registerProgram => exact hm
  | create h => exact fun hsend => hm hsend h
  | register =>
    rintro (hsend | ⟨-, hnone⟩)
    · exact hm hsend
    · cases hnone
  | append h => exact fun htype => h.signed (htype.imp_right And.left)
  | _ => trivial

theorem Msg.Accountable.vouched {m : Msg} (hext : m.External) (h : m.Accountable env) :
    m.Vouched env := by
  cases m with
  | scheduler m =>
    cases m with
    | registerProgram tx port => exact h
    | _ => trivial
  | engine m =>
    cases m with
    | eoEvent event => trivial
    | _ => exact hext.elim
  | pending m => trivial
  | _ => exact hext.elim

/-- In every run, over every order of its steps, each send or call that a batcher future
writes to the account cache for is signed by its sender, if none of the requests brings an
unsigned send by way of `registerProgram`. -/
theorem applied_authentic {storage cache : AccountStore} {chs : List NodeChoice} {c : NodeConfig}
    (hin : ∀ m ∈ injected chs, m.External ∧ m.Accountable env)
    (hrun : (node env storage).run (NodeConfig.start cache) chs = some c) :
    ∀ e ∈ c.world.journal,
      e.1.transaction.transactionType.isSend ∨ e.1.transaction.transactionType.isCall →
        e.1.transaction.verifySignature env = .ok () := by
  intro e he htype
  have hall := vouched_closed.run (fun m hm => (hin m hm).2.vouched (hin m hm).1) hrun
  obtain ⟨hmsg, hout⟩ := hall.world.journal e he
  exact hmsg (htype.imp_right fun hcall => ⟨hcall, hout hcall⟩)

/-- A request `send` for a signed send of 4 ETH, followed to its end. -/
def signedSend : List NodeChoice :=
  [.inject (.scheduler (.send (ethSend 7#160 8#160 4#256 1#256) 0)),
    .deliver .scheduler .plain, .deliver .engine .plain] ++ polls 2 ++
  [.deliver .pendingTransactions .plain, .deliver .validator .plain] ++ polls 3 ++
  [.deliver .batcher .plain] ++ polls 11

theorem applied_authentic_signedSend :
    ∃ c, (node .small fun _ => none).run (NodeConfig.start tenEth) signedSend = some c ∧
      c.world.journal.length = 2 ∧
      ∀ e ∈ c.world.journal,
        e.1.transaction.transactionType.isSend ∨ e.1.transaction.transactionType.isCall →
          e.1.transaction.verifySignature .small = .ok () := by
  have hrun : ((node .small fun _ => none).run (NodeConfig.start tenEth) signedSend).map
      (fun c => c.world.journal.length) = some 2 := by decide
  obtain ⟨c, hc, hlen⟩ := Option.map_eq_some_iff.1 hrun
  have hin : ∀ m ∈ injected signedSend, m.External ∧ m.Accountable .small := by
    intro m hm
    rw [List.mem_singleton.1 hm]
    exact ⟨trivial, trivial⟩
  exact ⟨c, hc, hlen, applied_authentic hin hc⟩

/-- The environment of small runs, with every other signature that of 0x09. -/
def Env.withNine : Env :=
  { Env.small with recover := fun tx => if tx.v = 27 then .ok tx.from else .ok 9#160 }

/-- A send of 4 ETH from 0x07 to 0x09, signed by 0x09. -/
def forgedSend : Transaction :=
  { ethSend 7#160 9#160 4#256 1#256 with v := 28 }

/-- A request `registerProgram` for it, followed until the batcher has written twice. -/
def forgedRun : List NodeChoice :=
  [.inject (.scheduler (.registerProgram forgedSend 0)),
    .deliver .scheduler .plain, .deliver .engine .plain] ++ polls 2 ++
  [.deliver .executor .plain] ++ polls 2 ++
  [.deliver .batcher .plain] ++ polls 6

/-- The forged send is applied : its writes are in the journal, and 0x09 has the 4 ETH. -/
theorem forged_send_applied :
    forgedSend.transactionType.isSend ∧ forgedSend.verifySignature .withNine ≠ .ok () ∧
      ∃ c, (node .withNine fun _ => none).run (NodeConfig.start tenEth) forgedRun = some c ∧
        c.world.journal.map (fun e => e.1.transaction) = [forgedSend, forgedSend] ∧
        ((accounts (fun _ => none) c.world.cache 9#160).bind fun a =>
          (a.programs ETH_ADDR).map Token.balance) = some 4#256 := by
  have hrun : ((node .withNine fun _ => none).run (NodeConfig.start tenEth) forgedRun).map
      (fun c => (c.world.journal.map (fun e => e.1.transaction),
        (accounts (fun _ => none) c.world.cache 9#160).bind fun a =>
          (a.programs ETH_ADDR).map Token.balance)) =
      some ([forgedSend, forgedSend], some 4#256) := by decide
  obtain ⟨c, hc, hval⟩ := Option.map_eq_some_iff.1 hrun
  obtain ⟨hjournal, hbalance⟩ := Prod.mk.inj hval
  exact ⟨rfl, by decide, c, hc, hjournal, hbalance⟩

end Lasr
