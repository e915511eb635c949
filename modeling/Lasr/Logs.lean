import Lasr.BuilderLoop
import Lasr.Messages
import Mathlib.Data.List.Sort

/-!
# The logs of the chain

`parse_bridge_log` and `parse_settlement_log` of `actors/src/eo_server.rs`, which turn the logs
of the contract into events. Both run one builder over all of the logs (`builderLoop`), so a log
that lacks a parameter is filled in from the one before it, and only the first is missed.

The names of the parameters are those of `EO_CONTRACT_ABI_JSON` for `Bridge`. For
`BlobIndexSettled` the ABI says `accounts` where the parser looks for `user`, and no log of the
contract parses.
-/

set_option linter.unusedSectionVars false

namespace Lasr

namespace EoServer

/-- `Token` of `ethabi`, a decoded value. -/
inductive AbiToken where
  | address (a : Address)
  | fixedBytes (raw : List (BitVec 8))
  | bytes (raw : List (BitVec 8))
  | int (n : U256)
  | uint (n : U256)
  | bool (b : Bool)
  | string (s : String)
  | fixedArray (tokens : List AbiToken)
  | array (tokens : List AbiToken)
  | tuple (tokens : List AbiToken)

namespace AbiToken

/-- `into_address`. -/
def intoAddress : AbiToken → Option Address
  | .address a => some a
  | _ => none

/-- `into_uint`. -/
def intoUint : AbiToken → Option U256
  | .uint n => some n
  | _ => none

/-- `into_string`. -/
def intoString : AbiToken → Option String
  | .string s => some s
  | _ => none

/-- `into_array`. -/
def intoArray : AbiToken → Option (List AbiToken)
  | .array tokens => some tokens
  | _ => none

/-- `into_fixed_bytes`. -/
def intoFixedBytes : AbiToken → Option (List (BitVec 8))
  | .fixedBytes raw => some raw
  | _ => none

end AbiToken

/-- `LogParam`. -/
structure LogParam where
  name : String
  value : AbiToken

/-- `Log`, decoded. -/
structure Log where
  params : List LogParam

/-- Why logs do not parse. -/
inductive LogError where
  /-- `boxed_custom_eo_error`. -/
  | unparsable (param : LogParam)
  /-- A builder without the field. -/
  | uninitializedField (field : String)

/-- A value of a parameter, or the error about it. -/
def LogParam.parse {α : Type} (param : LogParam) (value : Option α) : Except LogError α :=
  match value with
  | some a => .ok a
  | none => .error (.unparsable param)

/-- A field of a builder, or the error about it. -/
def required {α : Type} (field : String) (value : Option α) : Except LogError α :=
  match value with
  | some a => .ok a
  | none => .error (.uninitializedField field)

/-! ## Bridge logs -/

/-- `BridgeEventBuilder`. -/
structure BridgeEventBuilder where
  user : Option Address
  programId : Option Address
  amount : Option U256
  tokenId : Option U256
  tokenType : Option String
  bridgeEventId : Option U256

namespace BridgeEventBuilder

/-- `default`. -/
def default : BridgeEventBuilder := ⟨none, none, none, none, none, none⟩

/-- What a parameter does to the builder. -/
def set (self : BridgeEventBuilder) (param : LogParam) : Except LogError BridgeEventBuilder :=
  if param.name = "user" then do
    return { self with user := some (← param.parse param.value.intoAddress) }
  else if param.name = "tokenAddress" then do
    return { self with programId := some (← param.parse param.value.intoAddress) }
  else if param.name = "amount" then do
    return { self with amount := some (← param.parse param.value.intoUint) }
  else if param.name = "tokenId" then do
    return { self with tokenId := some (← param.parse param.value.intoUint) }
  else if param.name = "tokenType" then do
    return { self with tokenType := some (← param.parse param.value.intoString) }
  else if param.name = "bridgeEventId" then do
    return { self with bridgeEventId := some (← param.parse param.value.intoUint) }
  else .ok self

/-- `build`. -/
def build (self : BridgeEventBuilder) : Except LogError BridgeEvent := do
  return {
    user := ← required "user" self.user
    programId := ← required "program_id" self.programId
    amount := ← required "amount" self.amount
    tokenId := ← required "token_id" self.tokenId
    tokenType := ← required "token_type" self.tokenType
    bridgeEventId := ← required "bridge_event_id" self.bridgeEventId }

end BridgeEventBuilder

/-- The key that bridge logs are sorted by. A log without it comes first. -/
def bridgeKey (log : Log) : Option U256 :=
  (log.params.find? fun p => p.name = "bridgeEventId").bind fun p => p.value.intoUint

/-- The order of `Option`. -/
def keyLe : Option U256 → Option U256 → Prop
  | none, _ => True
  | some _, none => False
  | some x, some y => x ≤ y

/-- What `sort_unstable_by` does with logs : it sorts, and leaves open the order of logs with
one key. -/
structure UnstableSort where
  sort : List Log → List Log
  perm : ∀ logs, (sort logs).Perm logs
  sorted : ∀ logs, (sort logs).Pairwise fun a b => keyLe (bridgeKey a) (bridgeKey b)

/-- `parse_bridge_log`. -/
def parseBridgeLog (order : UnstableSort) (logs : List Log) : Except LogError (List BridgeEvent) :=
  builderLoop BridgeEventBuilder.set BridgeEventBuilder.build .default
    ((order.sort logs).map Log.params)

/-! ## Settlement logs -/

/-- `SettlementEvent`. -/
structure SettlementEvent where
  accounts : List AbiToken
  batchHeaderHash : List (BitVec 8)
  blobIndex : U256
  settlementEventId : U256

/-- `SettlementEventBuilder`. -/
structure SettlementEventBuilder where
  accounts : Option (List AbiToken)
  batchHeaderHash : Option (List (BitVec 8))
  blobIndex : Option U256
  settlementEventId : Option U256

namespace SettlementEventBuilder

/-- `default`. -/
def default : SettlementEventBuilder := ⟨none, none, none, none⟩

/-- What a parameter does to the builder. -/
def set (self : SettlementEventBuilder) (param : LogParam) :
    Except LogError SettlementEventBuilder :=
  if param.name = "user" then do
    return { self with accounts := some (← param.parse param.value.intoArray) }
  else if param.name = "batchHeaderHash" then do
    return { self with batchHeaderHash := some (← param.parse param.value.intoFixedBytes) }
  else if param.name = "blobIndex" then do
    return { self with blobIndex := some (← param.parse param.value.intoUint) }
  else if param.name = "blobEventId" then do
    return { self with settlementEventId := some (← param.parse param.value.intoUint) }
  else .ok self

/-- `build`. -/
def build (self : SettlementEventBuilder) : Except LogError SettlementEvent := do
  return {
    accounts := ← required "accounts" self.accounts
    batchHeaderHash := ← required "batch_header_hash" self.batchHeaderHash
    blobIndex := ← required "blob_index" self.blobIndex
    settlementEventId := ← required "settlement_event_id" self.settlementEventId }

end SettlementEventBuilder

/-- `parse_settlement_log`. -/
def parseSettlementLog (logs : List Log) : Except LogError (List SettlementEvent) :=
  builderLoop SettlementEventBuilder.set SettlementEventBuilder.build .default
    (logs.map Log.params)

end EoServer

/-! ## The ABI -/

open EoServer

/-- The log that the ABI prescribes for a `Bridge` event. -/
def BridgeEvent.log (event : BridgeEvent) : Log where
  params := [
    ⟨"user", .address event.user⟩,
    ⟨"tokenAddress", .address event.programId⟩,
    ⟨"amount", .uint event.amount⟩,
    ⟨"tokenId", .uint event.tokenId⟩,
    ⟨"tokenType", .string event.tokenType⟩,
    ⟨"bridgeEventId", .uint event.bridgeEventId⟩]

/-- The log that the ABI prescribes for a `BlobIndexSettled` event. The accounts are indexed, and
what an indexed array is decoded to is left open. -/
def EoServer.SettlementEvent.log (accounts : AbiToken) (event : SettlementEvent) : Log where
  params := [
    ⟨"accounts", accounts⟩,
    ⟨"batchHeaderHash", .fixedBytes event.batchHeaderHash⟩,
    ⟨"blobIndex", .uint event.blobIndex⟩,
    ⟨"blobEventId", .uint event.settlementEventId⟩]

/-! ## The builders -/

namespace EoServer

/-- The value of a parameter is of the type that the parser takes for its name. -/
def LogParam.BridgeTyped (param : LogParam) : Prop :=
  if param.name = "user" then param.value.intoAddress.isSome
  else if param.name = "tokenAddress" then param.value.intoAddress.isSome
  else if param.name = "amount" then param.value.intoUint.isSome
  else if param.name = "tokenId" then param.value.intoUint.isSome
  else if param.name = "tokenType" then param.value.intoString.isSome
  else if param.name = "bridgeEventId" then param.value.intoUint.isSome
  else True

/-- The names of the parameters of a bridge log. -/
def bridgeParams : List String :=
  ["user", "tokenAddress", "amount", "tokenId", "tokenType", "bridgeEventId"]

/-- The field of a parameter is set. -/
def BridgeEventBuilder.has (self : BridgeEventBuilder) (name : String) : Prop :=
  if name = "user" then self.user.isSome
  else if name = "tokenAddress" then self.programId.isSome
  else if name = "amount" then self.amount.isSome
  else if name = "tokenId" then self.tokenId.isSome
  else if name = "tokenType" then self.tokenType.isSome
  else self.bridgeEventId.isSome

theorem required_eq_ok_iff {α : Type} {field : String} {value : Option α} {a : α} :
    required field value = .ok a ↔ value = some a := by
  cases value <;> simp [required]

/-- A parameter that sets a field does so if its value parses. -/
theorem LogParam.parse_bind_ok_iff {α β : Type} {param : LogParam} {value : Option α}
    {f : α → β} :
    (∃ b, (do return f (← param.parse value) : Except LogError β) = .ok b) ↔ value.isSome := by
  cases value <;> simp [LogParam.parse, bind, Except.bind, pure, Except.pure]

theorem bridge_builder : FieldBuilder BridgeEventBuilder.set BridgeEventBuilder.build bridgeParams
    LogParam.name LogParam.BridgeTyped BridgeEventBuilder.has where
  set_ok_iff b param := by
    unfold BridgeEventBuilder.set LogParam.BridgeTyped
    split_ifs
    case neg => simp
    all_goals exact LogParam.parse_bind_ok_iff
  has_set_iff b param b' f hf h := by
    simp only [bridgeParams, List.mem_cons, List.not_mem_nil, or_false] at hf
    unfold BridgeEventBuilder.set at h
    split_ifs at h with h₁ h₂ h₃ h₄ h₅ h₆
    case neg =>
      cases h
      rcases hf with rfl | rfl | rfl | rfl | rfl | rfl <;> simp [*]
    all_goals
      obtain ⟨x, -, h⟩ := Except.bind_eq_ok_iff.1 h
      cases h
      rcases hf with rfl | rfl | rfl | rfl | rfl | rfl <;> simp [BridgeEventBuilder.has, *]
  build_ok_iff b := by
    have hnames : (∀ name ∈ bridgeParams, b.has name) ↔ b.user.isSome ∧ b.programId.isSome ∧
        b.amount.isSome ∧ b.tokenId.isSome ∧ b.tokenType.isSome ∧ b.bridgeEventId.isSome := by
      simp [bridgeParams, BridgeEventBuilder.has]
    simp only [hnames, BridgeEventBuilder.build, Except.bind_eq_ok_iff, required_eq_ok_iff,
      Option.isSome_iff_exists]
    constructor
    · rintro ⟨_, _, hu, _, hp, _, ha, _, hi, _, ht, _, hb, -⟩
      exact ⟨⟨_, hu⟩, ⟨_, hp⟩, ⟨_, ha⟩, ⟨_, hi⟩, ⟨_, ht⟩, ⟨_, hb⟩⟩
    · rintro ⟨⟨_, hu⟩, ⟨_, hp⟩, ⟨_, ha⟩, ⟨_, hi⟩, ⟨_, ht⟩, ⟨_, hb⟩⟩
      exact ⟨_, _, hu, _, hp, _, ha, _, hi, _, ht, _, hb, rfl⟩

/-- The names that the parser looks for in a settlement log. -/
def settlementParams : List String :=
  ["user", "batchHeaderHash", "blobIndex", "blobEventId"]

/-- The value of a parameter is of the type that the parser takes for its name. -/
def LogParam.SettlementTyped (param : LogParam) : Prop :=
  if param.name = "user" then param.value.intoArray.isSome
  else if param.name = "batchHeaderHash" then param.value.intoFixedBytes.isSome
  else if param.name = "blobIndex" then param.value.intoUint.isSome
  else if param.name = "blobEventId" then param.value.intoUint.isSome
  else True

/-- The field of a parameter is set. -/
def SettlementEventBuilder.has (self : SettlementEventBuilder) (name : String) : Prop :=
  if name = "user" then self.accounts.isSome
  else if name = "batchHeaderHash" then self.batchHeaderHash.isSome
  else if name = "blobIndex" then self.blobIndex.isSome
  else self.settlementEventId.isSome

theorem settlement_builder : FieldBuilder SettlementEventBuilder.set SettlementEventBuilder.build
    settlementParams LogParam.name LogParam.SettlementTyped SettlementEventBuilder.has where
  set_ok_iff b param := by
    unfold SettlementEventBuilder.set LogParam.SettlementTyped
    split_ifs
    case neg => simp
    all_goals exact LogParam.parse_bind_ok_iff
  has_set_iff b param b' f hf h := by
    simp only [settlementParams, List.mem_cons, List.not_mem_nil, or_false] at hf
    unfold SettlementEventBuilder.set at h
    split_ifs at h with h₁ h₂ h₃ h₄
    case neg =>
      cases h
      rcases hf with rfl | rfl | rfl | rfl <;> simp [*]
    all_goals
      obtain ⟨x, -, h⟩ := Except.bind_eq_ok_iff.1 h
      cases h
      rcases hf with rfl | rfl | rfl | rfl <;> simp [SettlementEventBuilder.has, *]
  build_ok_iff b := by
    have hnames : (∀ name ∈ settlementParams, b.has name) ↔ b.accounts.isSome ∧
        b.batchHeaderHash.isSome ∧ b.blobIndex.isSome ∧ b.settlementEventId.isSome := by
      simp [settlementParams, SettlementEventBuilder.has]
    simp only [hnames, SettlementEventBuilder.build, Except.bind_eq_ok_iff, required_eq_ok_iff,
      Option.isSome_iff_exists]
    constructor
    · rintro ⟨_, _, ha, _, hh, _, hi, _, he, -⟩
      exact ⟨⟨_, ha⟩, ⟨_, hh⟩, ⟨_, hi⟩, ⟨_, he⟩⟩
    · rintro ⟨⟨_, ha⟩, ⟨_, hh⟩, ⟨_, hi⟩, ⟨_, he⟩⟩
      exact ⟨_, _, ha, _, hh, _, hi, _, he, rfl⟩

/-! ## The parsers -/

variable {order : UnstableSort} {logs : List Log}

/-- A log lacks a parameter of a name. -/
def Log.Lacks (log : Log) (name : String) : Prop :=
  ∀ param ∈ log.params, param.name ≠ name

/-- Bridge logs fail to parse if and only if a value is of the wrong type, or the first log in
the order of the event ids lacks a parameter. -/
theorem parseBridgeLog_error_iff : (∃ e, parseBridgeLog order logs = .error e) ↔
    (∃ log ∈ logs, ∃ param ∈ log.params, ¬param.BridgeTyped) ∨
      ∃ first ∈ (order.sort logs).head?, ∃ name ∈ bridgeParams, first.Lacks name := by
  have hempty : ∀ name ∈ bridgeParams, ¬BridgeEventBuilder.default.has name := by
    simp [bridgeParams, BridgeEventBuilder.has, BridgeEventBuilder.default]
  rw [parseBridgeLog, bridge_builder.loop_error_iff hempty]
  simp only [List.mem_map, exists_exists_and_eq_and, List.head?_map, Option.mem_map,
    (order.perm logs).mem_iff, Log.Lacks]

/-- Settlement logs fail to parse if and only if a value is of the wrong type, or the first log
lacks a parameter that the parser looks for. -/
theorem parseSettlementLog_error_iff : (∃ e, parseSettlementLog logs = .error e) ↔
    (∃ log ∈ logs, ∃ param ∈ log.params, ¬param.SettlementTyped) ∨
      ∃ first ∈ logs.head?, ∃ name ∈ settlementParams, first.Lacks name := by
  have hempty : ∀ name ∈ settlementParams, ¬SettlementEventBuilder.default.has name := by
    simp [settlementParams, SettlementEventBuilder.has, SettlementEventBuilder.default]
  rw [parseSettlementLog, settlement_builder.loop_error_iff hempty]
  simp only [List.mem_map, exists_exists_and_eq_and, List.head?_map, Option.mem_map, Log.Lacks]

/-- The log of each event sets every field, whatever the builder has. -/
theorem bridge_log_fills (b : BridgeEventBuilder) (event : BridgeEvent) :
    ∃ b', event.log.params.foldlM BridgeEventBuilder.set b = .ok b' ∧
      b'.build = .ok event :=
  ⟨_, rfl, rfl⟩

/-- The logs of events give back the events, in the order of their ids. -/
theorem parseBridgeLog_log (order : UnstableSort) (events : List BridgeEvent) :
    ∃ parsed, parseBridgeLog order (events.map BridgeEvent.log) = .ok parsed ∧
      parsed.Perm events ∧
      parsed.Pairwise fun a b => a.bridgeEventId ≤ b.bridgeEventId := by
  obtain ⟨parsed, hsort, hperm⟩ : Relation.Comp (· = List.map BridgeEvent.log ·) List.Perm
      (order.sort (events.map BridgeEvent.log)) events := by
    rw [List.eq_map_comp_perm]
    exact order.perm _
  refine ⟨parsed, ?_, hperm, ?_⟩
  · have hloop := builderLoop_map bridge_log_fills .default parsed
    rw [List.map_id'] at hloop
    rw [parseBridgeLog, hsort, List.map_map]
    exact hloop
  · have hsorted := order.sorted (events.map BridgeEvent.log)
    rw [hsort, List.pairwise_map] at hsorted
    exact hsorted

/-- No log of the contract has what the parser takes for the accounts. -/
theorem settlement_log_lacks (accounts : AbiToken) (event : SettlementEvent) :
    (event.log accounts).Lacks "user" := by
  simp [Log.Lacks, SettlementEvent.log]

/-- So the logs of settlements do not parse. -/
theorem parseSettlementLog_log_iff (accounts : SettlementEvent → AbiToken)
    (events : List SettlementEvent) :
    parseSettlementLog (events.map fun event => event.log (accounts event)) = .ok events ↔
      events = [] := by
  cases events with
  | nil => simp [parseSettlementLog, builderLoop]
  | cons event events =>
    have hfails : ∃ e, parseSettlementLog
        ((event :: events).map fun event => event.log (accounts event)) = .error e := by
      refine parseSettlementLog_error_iff.2 (.inr ⟨event.log (accounts event), rfl, "user", ?_, ?_⟩)
      · exact List.mem_cons_self
      · exact settlement_log_lacks (accounts event) event
    obtain ⟨e, he⟩ := hfails
    rw [he]
    simp

/-- Which logs become events one to one, and which of those that lack a parameter are refused. -/
theorem logs_parsed_iff (order : UnstableSort) :
    (∀ events : List BridgeEvent,
      ∃ parsed, parseBridgeLog order (events.map BridgeEvent.log) = .ok parsed ∧
        parsed.Perm events ∧ parsed.Pairwise fun a b => a.bridgeEventId ≤ b.bridgeEventId) ∧
    (∀ (accounts : SettlementEvent → AbiToken) (events : List SettlementEvent),
      parseSettlementLog (events.map fun event => event.log (accounts event)) = .ok events ↔
        events = []) ∧
    (∀ logs, (∃ log ∈ logs, ∃ name ∈ bridgeParams, log.Lacks name) →
      ((∃ e, parseBridgeLog order logs = .error e) ↔
        (∃ log ∈ logs, ∃ param ∈ log.params, ¬param.BridgeTyped) ∨
          ∃ first ∈ (order.sort logs).head?, ∃ name ∈ bridgeParams, first.Lacks name)) ∧
    ∀ logs, (∃ log ∈ logs, ∃ name ∈ settlementParams, log.Lacks name) →
      ((∃ e, parseSettlementLog logs = .error e) ↔
        (∃ log ∈ logs, ∃ param ∈ log.params, ¬param.SettlementTyped) ∨
          ∃ first ∈ logs.head?, ∃ name ∈ settlementParams, first.Lacks name) :=
  ⟨parseBridgeLog_log order, parseSettlementLog_log_iff, fun _ _ => parseBridgeLog_error_iff,
    fun _ _ => parseSettlementLog_error_iff⟩

/-! ## A log filled in from another -/

instance : DecidableRel keyLe := fun x y =>
  match x, y with
  | none, _ => isTrue trivial
  | some _, none => isFalse not_false
  | some x, some y => inferInstanceAs (Decidable (x ≤ y))

instance : Std.Total fun a b : Log => keyLe (bridgeKey a) (bridgeKey b) where
  total a b := by
    cases bridgeKey a <;> cases bridgeKey b <;> simp [keyLe, Std.le_total]

instance : IsTrans Log fun a b => keyLe (bridgeKey a) (bridgeKey b) where
  trans a b c hab hbc := by
    cases ha : bridgeKey a <;> cases hb : bridgeKey b <;> cases hc : bridgeKey c <;>
      simp_all [keyLe]
    exact BitVec.le_trans hab hbc

/-- Insertion sort, which is stable. -/
def insertionOrder : UnstableSort where
  sort := List.insertionSort fun a b => keyLe (bridgeKey a) (bridgeKey b)
  perm := List.perm_insertionSort _
  sorted := List.pairwise_insertionSort _

/-- The event of the first of two logs. -/
def firstBridge : BridgeEvent where
  user := 1
  programId := 2
  amount := 3
  tokenId := 4
  tokenType := "ERC20"
  bridgeEventId := 1

/-- A log that lacks the user. -/
def userlessLog : Log where
  params := [
    ⟨"tokenAddress", .address 2⟩,
    ⟨"amount", .uint 3⟩,
    ⟨"tokenId", .uint 4⟩,
    ⟨"tokenType", .string "ERC20"⟩,
    ⟨"bridgeEventId", .uint 2⟩]

/-- A bridge log that lacks the user becomes an event with the user of the log before it, and a
settlement log of the contract is refused. -/
theorem log_filled_from_another :
    userlessLog.Lacks "user" ∧
    parseBridgeLog insertionOrder [firstBridge.log, userlessLog] =
      .ok [firstBridge, { firstBridge with bridgeEventId := 2 }] ∧
    (∃ e, parseSettlementLog [SettlementEvent.log (.array []) ⟨[], [], 0, 0⟩] = .error e) := by
  refine ⟨by simp [Log.Lacks, userlessLog], ?_, ?_⟩
  · rfl
  · exact ⟨_, rfl⟩

end EoServer

end Lasr
