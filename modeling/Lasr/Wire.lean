import Lasr.JsonGrammar
import Lasr.JsonOrder
import Lasr.Requests
import Lasr.Serde

/-!
# What a program reads and writes

The derived serializers of `types/src/programming_model.rs` : the `Inputs` that a container gets
on its standard input and the `Outputs` that it writes. The records are those of the program
model with all they carry on the wire : the `field` tag next to the value of an update, the
inputs an `Outputs` echoes, and maps with their entries.

A program is written in any language, so its JSON has white space, escapes and an order of
members of its own. What it means does not depend on them (`pending_of_writtenAs`).
-/

set_option linter.unusedSectionVars false

namespace Lasr

/-! ## The codecs of accounts and transactions -/

/-- What a codec writes is found in the object with its members in another order. -/
theorem field_of_reorders {α : Type} {c : Codec SerdeError α} (hc : c.OrderFree)
    {names : List String} {j : Json} {a : α} {members : List (String × Json)}
    (h : (Json.obj members).Reorders j) (hmembers : Json.named names members = [c.ser a]) :
    c.field names j = .ok a := by
  refine hc.field h ?_
  rw [Json.field, hmembers]

theorem fieldOrNull_of_reorders {α : Type} {c : Codec SerdeError α} (hc : c.OrderFree)
    {names : List String} {j : Json} {a : α} {members : List (String × Json)}
    (h : (Json.obj members).Reorders j) (hmembers : Json.named names members = [c.ser a]) :
    c.fieldOrNull names j = .ok a := by
  refine hc.fieldOrNull h ?_
  rw [Json.fieldOrNull, hmembers]

theorem addressCodec_orderFree : addressCodec.OrderFree := Codec.OrderFree.value _

theorem u256Codec_orderFree : u256Codec.OrderFree := Codec.OrderFree.value _

theorem stringCodec_orderFree : stringCodec.OrderFree := Codec.OrderFree.value _

theorem bytes20Codec_orderFree : bytes20Codec.OrderFree :=
  Codec.OrderFree.of_text fun _ => ⟨_, rfl⟩

theorem bytes32Codec_orderFree : bytes32Codec.OrderFree :=
  Codec.OrderFree.of_text fun _ => ⟨_, rfl⟩

theorem i32Codec_orderFree : i32Codec.OrderFree := by
  intro n j h
  change (Json.num n.1).Reorders j at h
  rw [Json.Reorders] at h
  subst h
  exact i32Codec.de_ser n

theorem transactionTypeCodec_orderFree : transactionTypeCodec.OrderFree := by
  intro t j h
  cases t with
  | bridgeIn n | send n | call n | bridgeOut n | registerProgram n =>
    obtain ⟨v, hv, hn⟩ := h.variant (χ := SerdeError) rfl
    have hread := u256Codec_orderFree n v hn
    simp [transactionTypeCodec, hv, hread, bind, Except.bind, Functor.map, Except.map]

theorem accountTypeCodec_orderFree : accountTypeCodec.OrderFree := by
  intro t j h
  cases t with
  | user =>
    obtain rfl := Json.reorders_str.1 h
    exact accountTypeCodec.de_ser .user
  | program address =>
    obtain ⟨v, hv, ha⟩ := h.variant (χ := SerdeError) rfl
    have hread := addressCodec_orderFree address v ha
    simp [accountTypeCodec, hv, hread, bind, Except.bind, Functor.map, Except.map]

theorem addressOrNamespaceCodec_orderFree : addressOrNamespaceCodec.OrderFree := by
  intro x j h
  cases x with
  | this =>
    obtain rfl := Json.reorders_str.1 h
    exact addressOrNamespaceCodec.de_ser .this
  | address a =>
    obtain ⟨v, hv, ha⟩ := h.variant (χ := SerdeError) rfl
    have hread := addressCodec_orderFree a v ha
    simp [addressOrNamespaceCodec, hv, hread, bind, Except.bind, Functor.map, Except.map]
  | «namespace» name =>
    obtain ⟨v, hv, hname⟩ := h.variant (χ := SerdeError) rfl
    have hread := stringCodec_orderFree name v hname
    simp [addressOrNamespaceCodec, hv, hread, bind, Except.bind, Functor.map, Except.map]

theorem statusCodec_orderFree : statusCodec.OrderFree :=
  Codec.OrderFree.of_text fun status => by cases status <;> exact ⟨_, rfl⟩

theorem transactionCodec_orderFree : transactionCodec.OrderFree := by
  rintro ⟨tx, hv⟩ j h
  have htype : transactionTypeCodec.field ["transactionType"] j = .ok tx.transactionType :=
    field_of_reorders transactionTypeCodec_orderFree h (by simp [Json.named])
  have hfrom : bytes20Codec.field ["from"] j = .ok tx.from :=
    field_of_reorders bytes20Codec_orderFree h (by simp [Json.named])
  have hto : bytes20Codec.field ["to"] j = .ok tx.to :=
    field_of_reorders bytes20Codec_orderFree h (by simp [Json.named])
  have hprogram : bytes20Codec.field ["programId", "token", "token_address", "program_address"] j =
      .ok tx.programId :=
    field_of_reorders bytes20Codec_orderFree h (by simp [Json.named])
  have hop : stringCodec.field ["op"] j = .ok tx.op :=
    field_of_reorders stringCodec_orderFree h (by simp [Json.named])
  have hinputs : stringCodec.field ["transactionInputs"] j = .ok tx.inputs :=
    field_of_reorders stringCodec_orderFree h (by simp [Json.named])
  have hvalue : u256Codec.field ["value"] j = .ok tx.value :=
    field_of_reorders u256Codec_orderFree h (by simp [Json.named])
  have hnonce : u256Codec.field ["nonce"] j = .ok tx.nonce :=
    field_of_reorders u256Codec_orderFree h (by simp [Json.named])
  have hi32 : i32Codec.field ["v"] j = .ok ⟨tx.v, hv⟩ :=
    field_of_reorders i32Codec_orderFree h (by simp [Json.named])
  have hr : bytes32Codec.field ["r"] j = .ok tx.r :=
    field_of_reorders bytes32Codec_orderFree h (by simp [Json.named])
  have hs : bytes32Codec.field ["s"] j = .ok tx.s :=
    field_of_reorders bytes32Codec_orderFree h (by simp [Json.named])
  change SerdeTransaction.deserialize j = _
  rw [SerdeTransaction.deserialize, htype, hfrom, hto, hprogram, hop, hinputs, hvalue, hnonce,
    hi32, hr, hs]
  rfl

theorem dataCodec_orderFree : dataCodec.OrderFree :=
  OrderedMap.codec_orderFree _ stringCodec_orderFree

theorem allowanceCodec_orderFree : allowanceCodec.OrderFree :=
  OrderedMap.codec_orderFree _ u256Codec_orderFree

theorem approvalsCodec_orderFree : approvalsCodec.OrderFree :=
  OrderedMap.codec_orderFree _ u256Codec_orderFree.list

theorem tokenCodec_orderFree : tokenCodec.OrderFree := by
  intro token j h
  have hprogram : addressCodec.field ["programId"] j = .ok token.programId :=
    field_of_reorders addressCodec_orderFree h (by simp [Json.named])
  have howner : addressCodec.field ["ownerId"] j = .ok token.ownerId :=
    field_of_reorders addressCodec_orderFree h (by simp [Json.named])
  have hbalance : u256Codec.field ["balance"] j = .ok token.balance :=
    field_of_reorders u256Codec_orderFree h (by simp [Json.named])
  have hmetadata : dataCodec.field ["metadata"] j = .ok token.metadata :=
    field_of_reorders dataCodec_orderFree h (by simp [Json.named])
  have hids : u256Codec.list.field ["tokenIds"] j = .ok token.tokenIds :=
    field_of_reorders u256Codec_orderFree.list h (by simp [Json.named])
  have hallowance : allowanceCodec.field ["allowance"] j = .ok token.allowance :=
    field_of_reorders allowanceCodec_orderFree h (by simp [Json.named])
  have happrovals : approvalsCodec.field ["approvals"] j = .ok token.approvals :=
    field_of_reorders approvalsCodec_orderFree h (by simp [Json.named])
  have hdata : dataCodec.field ["data"] j = .ok token.data :=
    field_of_reorders dataCodec_orderFree h (by simp [Json.named])
  have hstatus : statusCodec.field ["status"] j = .ok token.status :=
    field_of_reorders statusCodec_orderFree h (by simp [Json.named])
  change SerdeToken.deserialize j = _
  rw [SerdeToken.deserialize, hprogram, howner, hbalance, hmetadata, hids, hallowance, happrovals,
    hdata, hstatus]
  rfl

theorem accountCodec_orderFree : accountCodec.OrderFree := by
  intro account j h
  have htype : accountTypeCodec.field ["accountType"] j = .ok account.accountType :=
    field_of_reorders accountTypeCodec_orderFree h (by simp [Json.named])
  have hnamespace : namespaceCodec.fieldOrNull ["programNamespace"] j =
      .ok account.programNamespace :=
    fieldOrNull_of_reorders addressOrNamespaceCodec_orderFree.option h (by
      simp [Json.named, namespaceCodec])
  have howner : addressCodec.field ["ownerAddress"] j = .ok account.ownerAddress :=
    field_of_reorders addressCodec_orderFree h (by simp [Json.named])
  have hprograms : programsCodec.field ["programs"] j = .ok account.programs :=
    field_of_reorders (OrderedMap.codec_orderFree _ tokenCodec_orderFree) h (by
      simp [Json.named, programsCodec])
  have hnonce : u256Codec.field ["nonce"] j = .ok account.nonce :=
    field_of_reorders u256Codec_orderFree h (by simp [Json.named])
  have hdata : dataCodec.field ["programAccountData"] j = .ok account.programAccountData :=
    field_of_reorders dataCodec_orderFree h (by simp [Json.named])
  have hmetadata : dataCodec.field ["programAccountMetadata"] j =
      .ok account.programAccountMetadata :=
    field_of_reorders dataCodec_orderFree h (by simp [Json.named])
  have hlinked : linkedProgramsCodec.field ["programAccountLinkedPrograms"] j =
      .ok account.programAccountLinkedPrograms :=
    field_of_reorders (OrderedMap.setCodec_orderFree addressOrNamespaceCodec_orderFree) h (by
      simp [Json.named, linkedProgramsCodec])
  change SerdeAccount.deserialize j = _
  rw [SerdeAccount.deserialize, htype, hnamespace, howner, hprograms, hnonce, hdata, hmetadata,
    hlinked]
  rfl

/-! ## Values of updates -/

/-- `TokenField`. -/
inductive TokenField where
  | programId
  | ownerId
  | balance
  | metadata
  | tokenIds
  | allowance
  | approvals
  | data
  | status

/-- `TokenField`. -/
def tokenFieldCodec : Codec SerdeError TokenField where
  ser
    | .programId => .str "programId"
    | .ownerId => .str "ownerId"
    | .balance => .str "balance"
    | .metadata => .str "metadata"
    | .tokenIds => .str "tokenIds"
    | .allowance => .str "allowance"
    | .approvals => .str "approvals"
    | .data => .str "data"
    | .status => .str "status"
  de j := do
    match ← j.variant with
    | ("programId", .null) => .ok .programId
    | ("ownerId", .null) => .ok .ownerId
    | ("balance", .null) => .ok .balance
    | ("metadata", .null) => .ok .metadata
    | ("tokenIds", .null) => .ok .tokenIds
    | ("allowance", .null) => .ok .allowance
    | ("approvals", .null) => .ok .approvals
    | ("data", .null) => .ok .data
    | ("status", .null) => .ok .status
    | _ => .error .unknownVariant
  de_ser field := by
    cases field <;> simp [Json.variant, bind, Except.bind]

theorem tokenFieldCodec_orderFree : tokenFieldCodec.OrderFree :=
  Codec.OrderFree.of_text fun field => by cases field <;> exact ⟨_, rfl⟩

/-- `ProgramField`. -/
inductive ProgramField where
  | linkedPrograms
  | metadata
  | data

/-- `ProgramField`. -/
def programFieldCodec : Codec SerdeError ProgramField where
  ser
    | .linkedPrograms => .str "linkedPrograms"
    | .metadata => .str "metadata"
    | .data => .str "data"
  de j := do
    match ← j.variant with
    | ("linkedPrograms", .null) => .ok .linkedPrograms
    | ("metadata", .null) => .ok .metadata
    | ("data", .null) => .ok .data
    | _ => .error .unknownVariant
  de_ser field := by
    cases field <;> simp [Json.variant, bind, Except.bind]

theorem programFieldCodec_orderFree : programFieldCodec.OrderFree :=
  Codec.OrderFree.of_text fun field => by cases field <;> exact ⟨_, rfl⟩

/-- `MetadataValue` and `DataValue`, which are written alike. -/
inductive SerdeMapValue where
  | insert (key value : String)
  | extend (iter : OrderedMap String String)
  | remove (key : String)

/-- A change of metadata, by the lookups of its map. -/
def SerdeMapValue.metadataValue : SerdeMapValue → MetadataValue
  | .insert key value => .insert key value
  | .extend iter => .extend iter.get
  | .remove key => .remove key

/-- A change of data, by the lookups of its map. -/
def SerdeMapValue.dataValue : SerdeMapValue → DataValue
  | .insert key value => .insert key value
  | .extend iter => .extend iter.get
  | .remove key => .remove key

/-- `MetadataValue` and `DataValue`. -/
def mapValueCodec : Codec SerdeError SerdeMapValue where
  ser
    | .insert key value => .obj [("insert", (stringCodec.pair stringCodec).ser (key, value))]
    | .extend iter => .obj [("extend", dataCodec.ser iter)]
    | .remove key => .obj [("remove", stringCodec.ser key)]
  de j := do
    match ← j.variant with
    | ("insert", e) => (fun e => .insert e.1 e.2) <$> (stringCodec.pair stringCodec).de e
    | ("extend", iter) => .extend <$> dataCodec.de iter
    | ("remove", key) => .remove <$> stringCodec.de key
    | _ => .error .unknownVariant
  de_ser v := by
    cases v <;> simp [Json.variant, bind, Except.bind, Functor.map, Except.map]

theorem mapValueCodec_orderFree : mapValueCodec.OrderFree := by
  intro x j h
  cases x with
  | insert key value =>
    obtain ⟨v, hv, he⟩ := h.variant (χ := SerdeError) rfl
    have hread := (stringCodec_orderFree.pair stringCodec_orderFree) _ v he
    simp [mapValueCodec, hv, hread, bind, Except.bind, Functor.map, Except.map]
  | extend iter =>
    obtain ⟨v, hv, hiter⟩ := h.variant (χ := SerdeError) rfl
    have hread := dataCodec_orderFree iter v hiter
    simp [mapValueCodec, hv, hread, bind, Except.bind, Functor.map, Except.map]
  | remove key =>
    obtain ⟨v, hv, hkey⟩ := h.variant (χ := SerdeError) rfl
    have hread := stringCodec_orderFree key v hkey
    simp [mapValueCodec, hv, hread, bind, Except.bind, Functor.map, Except.map]

/-- A key with an amount. -/
def allowanceEntryCodec : Codec SerdeError (Address × U256) := addressCodec.pair u256Codec

/-- `AllowanceValue`. -/
def allowanceValueCodec : Codec SerdeError AllowanceValue where
  ser
    | .insert key value => .obj [("insert", allowanceEntryCodec.ser (key, value))]
    | .extend values => .obj [("extend", allowanceEntryCodec.list.ser values)]
    | .remove key value => .obj [("remove", allowanceEntryCodec.ser (key, value))]
    | .revoke key => .obj [("revoke", addressCodec.ser key)]
  de j := do
    match ← j.variant with
    | ("insert", e) => (fun e => .insert e.1 e.2) <$> allowanceEntryCodec.de e
    | ("extend", values) => .extend <$> allowanceEntryCodec.list.de values
    | ("remove", e) => (fun e => .remove e.1 e.2) <$> allowanceEntryCodec.de e
    | ("revoke", key) => .revoke <$> addressCodec.de key
    | _ => .error .unknownVariant
  de_ser v := by
    cases v <;> simp [Json.variant, bind, Except.bind, Functor.map, Except.map]

theorem allowanceEntryCodec_orderFree : allowanceEntryCodec.OrderFree :=
  addressCodec_orderFree.pair u256Codec_orderFree

theorem allowanceValueCodec_orderFree : allowanceValueCodec.OrderFree := by
  intro x j h
  cases x with
  | insert key value | remove key value =>
    obtain ⟨v, hv, he⟩ := h.variant (χ := SerdeError) rfl
    have hread := allowanceEntryCodec_orderFree _ v he
    simp [allowanceValueCodec, hv, hread, bind, Except.bind, Functor.map, Except.map]
  | extend values =>
    obtain ⟨v, hv, hvalues⟩ := h.variant (χ := SerdeError) rfl
    have hread := allowanceEntryCodec_orderFree.list values v hvalues
    simp [allowanceValueCodec, hv, hread, bind, Except.bind, Functor.map, Except.map]
  | revoke key =>
    obtain ⟨v, hv, hkey⟩ := h.variant (χ := SerdeError) rfl
    have hread := addressCodec_orderFree key v hkey
    simp [allowanceValueCodec, hv, hread, bind, Except.bind, Functor.map, Except.map]

/-- A key with token ids. -/
def approvalsEntryCodec : Codec SerdeError (Address × List U256) :=
  addressCodec.pair u256Codec.list

/-- `ApprovalsValue`. -/
def approvalsValueCodec : Codec SerdeError ApprovalsValue where
  ser
    | .insert key value => .obj [("insert", approvalsEntryCodec.ser (key, value))]
    | .extend values => .obj [("extend", approvalsEntryCodec.list.ser values)]
    | .remove key values => .obj [("remove", approvalsEntryCodec.ser (key, values))]
    | .revoke key => .obj [("revoke", addressCodec.ser key)]
  de j := do
    match ← j.variant with
    | ("insert", e) => (fun e => .insert e.1 e.2) <$> approvalsEntryCodec.de e
    | ("extend", values) => .extend <$> approvalsEntryCodec.list.de values
    | ("remove", e) => (fun e => .remove e.1 e.2) <$> approvalsEntryCodec.de e
    | ("revoke", key) => .revoke <$> addressCodec.de key
    | _ => .error .unknownVariant
  de_ser v := by
    cases v <;> simp [Json.variant, bind, Except.bind, Functor.map, Except.map]

theorem approvalsEntryCodec_orderFree : approvalsEntryCodec.OrderFree :=
  addressCodec_orderFree.pair u256Codec_orderFree.list

theorem approvalsValueCodec_orderFree : approvalsValueCodec.OrderFree := by
  intro x j h
  cases x with
  | insert key value | remove key value =>
    obtain ⟨v, hv, he⟩ := h.variant (χ := SerdeError) rfl
    have hread := approvalsEntryCodec_orderFree _ v he
    simp [approvalsValueCodec, hv, hread, bind, Except.bind, Functor.map, Except.map]
  | extend values =>
    obtain ⟨v, hv, hvalues⟩ := h.variant (χ := SerdeError) rfl
    have hread := approvalsEntryCodec_orderFree.list values v hvalues
    simp [approvalsValueCodec, hv, hread, bind, Except.bind, Functor.map, Except.map]
  | revoke key =>
    obtain ⟨v, hv, hkey⟩ := h.variant (χ := SerdeError) rfl
    have hread := addressCodec_orderFree key v hkey
    simp [approvalsValueCodec, hv, hread, bind, Except.bind, Functor.map, Except.map]

/-- `StatusValue`. -/
def statusValueCodec : Codec SerdeError StatusValue where
  ser
    | .reverse => .str "reverse"
    | .lock => .str "lock"
    | .unlock => .str "unlock"
  de j := do
    match ← j.variant with
    | ("reverse", .null) => .ok .reverse
    | ("lock", .null) => .ok .lock
    | ("unlock", .null) => .ok .unlock
    | _ => .error .unknownVariant
  de_ser v := by
    cases v <;> simp [Json.variant, bind, Except.bind]

theorem statusValueCodec_orderFree : statusValueCodec.OrderFree :=
  Codec.OrderFree.of_text fun v => by cases v <;> exact ⟨_, rfl⟩

/-- `TokenFieldValue`. -/
inductive SerdeTokenFieldValue where
  | metadata (v : SerdeMapValue)
  | allowance (v : AllowanceValue)
  | approvals (v : ApprovalsValue)
  | data (v : SerdeMapValue)
  | status (v : StatusValue)

/-- The value, by the lookups of its map. -/
def SerdeTokenFieldValue.value : SerdeTokenFieldValue → TokenFieldValue
  | .metadata v => .metadata v.metadataValue
  | .allowance v => .allowance v
  | .approvals v => .approvals v
  | .data v => .data v.dataValue
  | .status v => .status v

/-- `TokenFieldValue`. -/
def tokenFieldValueCodec : Codec SerdeError SerdeTokenFieldValue where
  ser
    | .metadata v => .obj [("metadata", mapValueCodec.ser v)]
    | .allowance v => .obj [("allowance", allowanceValueCodec.ser v)]
    | .approvals v => .obj [("approvals", approvalsValueCodec.ser v)]
    | .data v => .obj [("data", mapValueCodec.ser v)]
    | .status v => .obj [("status", statusValueCodec.ser v)]
  de j := do
    match ← j.variant with
    | ("metadata", v) => .metadata <$> mapValueCodec.de v
    | ("allowance", v) => .allowance <$> allowanceValueCodec.de v
    | ("approvals", v) => .approvals <$> approvalsValueCodec.de v
    | ("data", v) => .data <$> mapValueCodec.de v
    | ("status", v) => .status <$> statusValueCodec.de v
    | _ => .error .unknownVariant
  de_ser v := by
    cases v <;> simp [Json.variant, bind, Except.bind, Functor.map, Except.map]

theorem tokenFieldValueCodec_orderFree : tokenFieldValueCodec.OrderFree := by
  intro x j h
  cases x with
  | metadata x | data x =>
    obtain ⟨v, hv, hx⟩ := h.variant (χ := SerdeError) rfl
    have hread := mapValueCodec_orderFree x v hx
    simp [tokenFieldValueCodec, hv, hread, bind, Except.bind, Functor.map, Except.map]
  | allowance x =>
    obtain ⟨v, hv, hx⟩ := h.variant (χ := SerdeError) rfl
    have hread := allowanceValueCodec_orderFree x v hx
    simp [tokenFieldValueCodec, hv, hread, bind, Except.bind, Functor.map, Except.map]
  | approvals x =>
    obtain ⟨v, hv, hx⟩ := h.variant (χ := SerdeError) rfl
    have hread := approvalsValueCodec_orderFree x v hx
    simp [tokenFieldValueCodec, hv, hread, bind, Except.bind, Functor.map, Except.map]
  | status x =>
    obtain ⟨v, hv, hx⟩ := h.variant (χ := SerdeError) rfl
    have hread := statusValueCodec_orderFree x v hx
    simp [tokenFieldValueCodec, hv, hread, bind, Except.bind, Functor.map, Except.map]

/-- `LinkedProgramsValue`. -/
def linkedProgramsValueCodec : Codec SerdeError LinkedProgramsValue where
  ser
    | .insert linkedProgram => .obj [("insert", addressCodec.ser linkedProgram)]
    | .extend linkedPrograms => .obj [("extend", addressCodec.list.ser linkedPrograms)]
    | .remove linkedProgram => .obj [("remove", addressCodec.ser linkedProgram)]
  de j := do
    match ← j.variant with
    | ("insert", v) => .insert <$> addressCodec.de v
    | ("extend", v) => .extend <$> addressCodec.list.de v
    | ("remove", v) => .remove <$> addressCodec.de v
    | _ => .error .unknownVariant
  de_ser v := by
    cases v <;> simp [Json.variant, bind, Except.bind, Functor.map, Except.map]

theorem linkedProgramsValueCodec_orderFree : linkedProgramsValueCodec.OrderFree := by
  intro x j h
  cases x with
  | insert x | remove x =>
    obtain ⟨v, hv, hx⟩ := h.variant (χ := SerdeError) rfl
    have hread := addressCodec_orderFree x v hx
    simp [linkedProgramsValueCodec, hv, hread, bind, Except.bind, Functor.map, Except.map]
  | extend x =>
    obtain ⟨v, hv, hx⟩ := h.variant (χ := SerdeError) rfl
    have hread := addressCodec_orderFree.list x v hx
    simp [linkedProgramsValueCodec, hv, hread, bind, Except.bind, Functor.map, Except.map]

/-- `ProgramFieldValue`. -/
inductive SerdeProgramFieldValue where
  | linkedPrograms (v : LinkedProgramsValue)
  | metadata (v : SerdeMapValue)
  | data (v : SerdeMapValue)

/-- The value, by the lookups of its map. -/
def SerdeProgramFieldValue.value : SerdeProgramFieldValue → ProgramFieldValue
  | .linkedPrograms v => .linkedPrograms v
  | .metadata v => .metadata v.metadataValue
  | .data v => .data v.dataValue

/-- `ProgramFieldValue`. -/
def programFieldValueCodec : Codec SerdeError SerdeProgramFieldValue where
  ser
    | .linkedPrograms v => .obj [("linkedPrograms", linkedProgramsValueCodec.ser v)]
    | .metadata v => .obj [("metadata", mapValueCodec.ser v)]
    | .data v => .obj [("data", mapValueCodec.ser v)]
  de j := do
    match ← j.variant with
    | ("linkedPrograms", v) => .linkedPrograms <$> linkedProgramsValueCodec.de v
    | ("metadata", v) => .metadata <$> mapValueCodec.de v
    | ("data", v) => .data <$> mapValueCodec.de v
    | _ => .error .unknownVariant
  de_ser v := by
    cases v <;> simp [Json.variant, bind, Except.bind, Functor.map, Except.map]

theorem programFieldValueCodec_orderFree : programFieldValueCodec.OrderFree := by
  intro x j h
  cases x with
  | linkedPrograms x =>
    obtain ⟨v, hv, hx⟩ := h.variant (χ := SerdeError) rfl
    have hread := linkedProgramsValueCodec_orderFree x v hx
    simp [programFieldValueCodec, hv, hread, bind, Except.bind, Functor.map, Except.map]
  | metadata x | data x =>
    obtain ⟨v, hv, hx⟩ := h.variant (χ := SerdeError) rfl
    have hread := mapValueCodec_orderFree x v hx
    simp [programFieldValueCodec, hv, hread, bind, Except.bind, Functor.map, Except.map]

/-! ## Updates -/

/-- `TokenUpdateField`. -/
structure SerdeTokenUpdateField where
  field : TokenField
  value : SerdeTokenFieldValue

/-- What is applied of it. -/
def SerdeTokenUpdateField.update (self : SerdeTokenUpdateField) : TokenUpdateField :=
  ⟨self.value.value⟩

/-- `TokenUpdateField`. -/
def tokenUpdateFieldCodec : Codec SerdeError SerdeTokenUpdateField where
  ser self := .obj [("field", tokenFieldCodec.ser self.field),
    ("value", tokenFieldValueCodec.ser self.value)]
  de j := do
    let field ← tokenFieldCodec.field ["field"] j
    let value ← tokenFieldValueCodec.field ["value"] j
    return ⟨field, value⟩
  de_ser self := by
    simp [Codec.field, Json.field, Json.named, bind, Except.bind, pure, Except.pure]

theorem tokenUpdateFieldCodec_orderFree : tokenUpdateFieldCodec.OrderFree := by
  intro self j h
  have hfield : tokenFieldCodec.field ["field"] j = .ok self.field :=
    field_of_reorders tokenFieldCodec_orderFree h (by simp [Json.named])
  have hvalue : tokenFieldValueCodec.field ["value"] j = .ok self.value :=
    field_of_reorders tokenFieldValueCodec_orderFree h (by simp [Json.named])
  simp only [tokenUpdateFieldCodec, hfield, hvalue]
  rfl

/-- `ProgramUpdateField`. -/
structure SerdeProgramUpdateField where
  field : ProgramField
  value : SerdeProgramFieldValue

/-- What is applied of it. -/
def SerdeProgramUpdateField.update (self : SerdeProgramUpdateField) : ProgramUpdateField :=
  ⟨self.value.value⟩

/-- `ProgramUpdateField`. -/
def programUpdateFieldCodec : Codec SerdeError SerdeProgramUpdateField where
  ser self := .obj [("field", programFieldCodec.ser self.field),
    ("value", programFieldValueCodec.ser self.value)]
  de j := do
    let field ← programFieldCodec.field ["field"] j
    let value ← programFieldValueCodec.field ["value"] j
    return ⟨field, value⟩
  de_ser self := by
    simp [Codec.field, Json.field, Json.named, bind, Except.bind, pure, Except.pure]

theorem programUpdateFieldCodec_orderFree : programUpdateFieldCodec.OrderFree := by
  intro self j h
  have hfield : programFieldCodec.field ["field"] j = .ok self.field :=
    field_of_reorders programFieldCodec_orderFree h (by simp [Json.named])
  have hvalue : programFieldValueCodec.field ["value"] j = .ok self.value :=
    field_of_reorders programFieldValueCodec_orderFree h (by simp [Json.named])
  simp only [programUpdateFieldCodec, hfield, hvalue]
  rfl

/-- `TokenUpdate`. -/
structure SerdeTokenUpdate where
  account : AddressOrNamespace
  token : AddressOrNamespace
  updates : List SerdeTokenUpdateField

/-- What is applied of it. -/
def SerdeTokenUpdate.update (self : SerdeTokenUpdate) : TokenUpdate :=
  ⟨self.account, self.token, self.updates.map SerdeTokenUpdateField.update⟩

/-- `TokenUpdate`. -/
def tokenUpdateCodec : Codec SerdeError SerdeTokenUpdate where
  ser self := .obj [("account", addressOrNamespaceCodec.ser self.account),
    ("token", addressOrNamespaceCodec.ser self.token),
    ("updates", tokenUpdateFieldCodec.list.ser self.updates)]
  de j := do
    let account ← addressOrNamespaceCodec.field ["account"] j
    let token ← addressOrNamespaceCodec.field ["token"] j
    let updates ← tokenUpdateFieldCodec.list.field ["updates"] j
    return ⟨account, token, updates⟩
  de_ser self := by
    simp [Codec.field, Json.field, Json.named, bind, Except.bind, pure, Except.pure]

theorem tokenUpdateCodec_orderFree : tokenUpdateCodec.OrderFree := by
  intro self j h
  have haccount : addressOrNamespaceCodec.field ["account"] j = .ok self.account :=
    field_of_reorders addressOrNamespaceCodec_orderFree h (by simp [Json.named])
  have htoken : addressOrNamespaceCodec.field ["token"] j = .ok self.token :=
    field_of_reorders addressOrNamespaceCodec_orderFree h (by simp [Json.named])
  have hupdates : tokenUpdateFieldCodec.list.field ["updates"] j = .ok self.updates :=
    field_of_reorders tokenUpdateFieldCodec_orderFree.list h (by simp [Json.named])
  simp only [tokenUpdateCodec, haccount, htoken, hupdates]
  rfl

/-- `ProgramUpdate`. -/
structure SerdeProgramUpdate where
  account : AddressOrNamespace
  updates : List SerdeProgramUpdateField

/-- What is applied of it. -/
def SerdeProgramUpdate.update (self : SerdeProgramUpdate) : ProgramUpdate :=
  ⟨self.account, self.updates.map SerdeProgramUpdateField.update⟩

/-- `ProgramUpdate`. -/
def programUpdateCodec : Codec SerdeError SerdeProgramUpdate where
  ser self := .obj [("account", addressOrNamespaceCodec.ser self.account),
    ("updates", programUpdateFieldCodec.list.ser self.updates)]
  de j := do
    let account ← addressOrNamespaceCodec.field ["account"] j
    let updates ← programUpdateFieldCodec.list.field ["updates"] j
    return ⟨account, updates⟩
  de_ser self := by
    simp [Codec.field, Json.field, Json.named, bind, Except.bind, pure, Except.pure]

theorem programUpdateCodec_orderFree : programUpdateCodec.OrderFree := by
  intro self j h
  have haccount : addressOrNamespaceCodec.field ["account"] j = .ok self.account :=
    field_of_reorders addressOrNamespaceCodec_orderFree h (by simp [Json.named])
  have hupdates : programUpdateFieldCodec.list.field ["updates"] j = .ok self.updates :=
    field_of_reorders programUpdateFieldCodec_orderFree.list h (by simp [Json.named])
  simp only [programUpdateCodec, haccount, hupdates]
  rfl

/-- `TokenOrProgramUpdate`. -/
inductive SerdeTokenOrProgramUpdate where
  | tokenUpdate (u : SerdeTokenUpdate)
  | programUpdate (u : SerdeProgramUpdate)

/-- What is applied of it. -/
def SerdeTokenOrProgramUpdate.update : SerdeTokenOrProgramUpdate → TokenOrProgramUpdate
  | .tokenUpdate u => .tokenUpdate u.update
  | .programUpdate u => .programUpdate u.update

/-- `TokenOrProgramUpdate`. -/
def tokenOrProgramUpdateCodec : Codec SerdeError SerdeTokenOrProgramUpdate where
  ser
    | .tokenUpdate u => .obj [("tokenUpdate", tokenUpdateCodec.ser u)]
    | .programUpdate u => .obj [("programUpdate", programUpdateCodec.ser u)]
  de j := do
    match ← j.variant with
    | ("tokenUpdate", u) => .tokenUpdate <$> tokenUpdateCodec.de u
    | ("programUpdate", u) => .programUpdate <$> programUpdateCodec.de u
    | _ => .error .unknownVariant
  de_ser u := by
    cases u <;> simp [Json.variant, bind, Except.bind, Functor.map, Except.map]

theorem tokenOrProgramUpdateCodec_orderFree : tokenOrProgramUpdateCodec.OrderFree := by
  intro x j h
  cases x with
  | tokenUpdate x =>
    obtain ⟨v, hv, hx⟩ := h.variant (χ := SerdeError) rfl
    have hread := tokenUpdateCodec_orderFree x v hx
    simp [tokenOrProgramUpdateCodec, hv, hread, bind, Except.bind, Functor.map, Except.map]
  | programUpdate x =>
    obtain ⟨v, hv, hx⟩ := h.variant (χ := SerdeError) rfl
    have hread := programUpdateCodec_orderFree x v hx
    simp [tokenOrProgramUpdateCodec, hv, hread, bind, Except.bind, Functor.map, Except.map]

/-! ## Instructions -/

/-- An amount that may be absent. -/
def amountCodec : Codec SerdeError (Option U256) :=
  u256Codec.option fun _ => by exact fun h => nomatch h

theorem amountCodec_orderFree : amountCodec.OrderFree := u256Codec_orderFree.option

/-- `TokenDistribution`. -/
structure SerdeTokenDistribution where
  programId : AddressOrNamespace
  «to» : AddressOrNamespace
  amount : Option U256
  tokenIds : List U256
  updateFields : List SerdeTokenUpdateField

/-- What is applied of it. -/
def SerdeTokenDistribution.distribution (self : SerdeTokenDistribution) : TokenDistribution :=
  ⟨self.programId, self.to, self.amount, self.tokenIds,
    self.updateFields.map SerdeTokenUpdateField.update⟩

/-- `TokenDistribution`. -/
def tokenDistributionCodec : Codec SerdeError SerdeTokenDistribution where
  ser self := .obj [("programId", addressOrNamespaceCodec.ser self.programId),
    ("to", addressOrNamespaceCodec.ser self.to), ("amount", amountCodec.ser self.amount),
    ("tokenIds", u256Codec.list.ser self.tokenIds),
    ("updateFields", tokenUpdateFieldCodec.list.ser self.updateFields)]
  de j := do
    let programId ← addressOrNamespaceCodec.field ["programId"] j
    let «to» ← addressOrNamespaceCodec.field ["to"] j
    let amount ← amountCodec.fieldOrNull ["amount"] j
    let tokenIds ← u256Codec.list.field ["tokenIds"] j
    let updateFields ← tokenUpdateFieldCodec.list.field ["updateFields"] j
    return ⟨programId, «to», amount, tokenIds, updateFields⟩
  de_ser self := by
    simp [Codec.field, Codec.fieldOrNull, Json.field, Json.fieldOrNull, Json.named, bind,
      Except.bind, pure, Except.pure]

theorem tokenDistributionCodec_orderFree : tokenDistributionCodec.OrderFree := by
  intro self j h
  have hprogram : addressOrNamespaceCodec.field ["programId"] j = .ok self.programId :=
    field_of_reorders addressOrNamespaceCodec_orderFree h (by simp [Json.named])
  have hto : addressOrNamespaceCodec.field ["to"] j = .ok self.to :=
    field_of_reorders addressOrNamespaceCodec_orderFree h (by simp [Json.named])
  have hamount : amountCodec.fieldOrNull ["amount"] j = .ok self.amount :=
    fieldOrNull_of_reorders amountCodec_orderFree h (by simp [Json.named])
  have hids : u256Codec.list.field ["tokenIds"] j = .ok self.tokenIds :=
    field_of_reorders u256Codec_orderFree.list h (by simp [Json.named])
  have hfields : tokenUpdateFieldCodec.list.field ["updateFields"] j = .ok self.updateFields :=
    field_of_reorders tokenUpdateFieldCodec_orderFree.list h (by simp [Json.named])
  simp only [tokenDistributionCodec, hprogram, hto, hamount, hids, hfields]
  rfl

/-- `CreateInstruction`. -/
structure SerdeCreateInstruction where
  programNamespace : AddressOrNamespace
  programId : AddressOrNamespace
  programOwner : Address
  totalSupply : U256
  initializedSupply : U256
  distribution : List SerdeTokenDistribution

/-- What is applied of it. -/
def SerdeCreateInstruction.instruction (self : SerdeCreateInstruction) : CreateInstruction :=
  ⟨self.programNamespace, self.programId, self.programOwner, self.totalSupply,
    self.initializedSupply, self.distribution.map SerdeTokenDistribution.distribution⟩

/-- `CreateInstruction`. -/
def createInstructionCodec : Codec SerdeError SerdeCreateInstruction where
  ser self := .obj [("programNamespace", addressOrNamespaceCodec.ser self.programNamespace),
    ("programId", addressOrNamespaceCodec.ser self.programId),
    ("programOwner", addressCodec.ser self.programOwner),
    ("totalSupply", u256Codec.ser self.totalSupply),
    ("initializedSupply", u256Codec.ser self.initializedSupply),
    ("distribution", tokenDistributionCodec.list.ser self.distribution)]
  de j := do
    let programNamespace ← addressOrNamespaceCodec.field ["programNamespace"] j
    let programId ← addressOrNamespaceCodec.field ["programId"] j
    let programOwner ← addressCodec.field ["programOwner"] j
    let totalSupply ← u256Codec.field ["totalSupply"] j
    let initializedSupply ← u256Codec.field ["initializedSupply"] j
    let distribution ← tokenDistributionCodec.list.field ["distribution"] j
    return ⟨programNamespace, programId, programOwner, totalSupply, initializedSupply,
      distribution⟩
  de_ser self := by
    simp [Codec.field, Json.field, Json.named, bind, Except.bind, pure, Except.pure]

theorem createInstructionCodec_orderFree : createInstructionCodec.OrderFree := by
  intro self j h
  have hnamespace : addressOrNamespaceCodec.field ["programNamespace"] j =
      .ok self.programNamespace :=
    field_of_reorders addressOrNamespaceCodec_orderFree h (by simp [Json.named])
  have hprogram : addressOrNamespaceCodec.field ["programId"] j = .ok self.programId :=
    field_of_reorders addressOrNamespaceCodec_orderFree h (by simp [Json.named])
  have howner : addressCodec.field ["programOwner"] j = .ok self.programOwner :=
    field_of_reorders addressCodec_orderFree h (by simp [Json.named])
  have htotal : u256Codec.field ["totalSupply"] j = .ok self.totalSupply :=
    field_of_reorders u256Codec_orderFree h (by simp [Json.named])
  have hinitialized : u256Codec.field ["initializedSupply"] j = .ok self.initializedSupply :=
    field_of_reorders u256Codec_orderFree h (by simp [Json.named])
  have hdistribution : tokenDistributionCodec.list.field ["distribution"] j =
      .ok self.distribution :=
    field_of_reorders tokenDistributionCodec_orderFree.list h (by simp [Json.named])
  simp only [createInstructionCodec, hnamespace, hprogram, howner, htotal, hinitialized,
    hdistribution]
  rfl

/-- `UpdateInstruction`. -/
def updateInstructionCodec : Codec SerdeError (List SerdeTokenOrProgramUpdate) where
  ser updates := .obj [("updates", tokenOrProgramUpdateCodec.list.ser updates)]
  de j := tokenOrProgramUpdateCodec.list.field ["updates"] j
  de_ser updates := by
    simp [Codec.field, Json.field, Json.named, bind, Except.bind]

theorem updateInstructionCodec_orderFree : updateInstructionCodec.OrderFree := by
  intro updates j h
  exact field_of_reorders tokenOrProgramUpdateCodec_orderFree.list h (by simp [Json.named])

/-- `TransferInstruction`. -/
def transferInstructionCodec : Codec SerdeError TransferInstruction where
  ser self := .obj [("token", addressCodec.ser self.token),
    ("from", addressOrNamespaceCodec.ser self.from),
    ("to", addressOrNamespaceCodec.ser self.to), ("amount", amountCodec.ser self.amount),
    ("ids", u256Codec.list.ser self.ids)]
  de j := do
    let token ← addressCodec.field ["token"] j
    let «from» ← addressOrNamespaceCodec.field ["from"] j
    let «to» ← addressOrNamespaceCodec.field ["to"] j
    let amount ← amountCodec.fieldOrNull ["amount"] j
    let ids ← u256Codec.list.field ["ids"] j
    return ⟨token, «from», «to», amount, ids⟩
  de_ser self := by
    simp [Codec.field, Codec.fieldOrNull, Json.field, Json.fieldOrNull, Json.named, bind,
      Except.bind, pure, Except.pure]

theorem transferInstructionCodec_orderFree : transferInstructionCodec.OrderFree := by
  intro self j h
  have htoken : addressCodec.field ["token"] j = .ok self.token :=
    field_of_reorders addressCodec_orderFree h (by simp [Json.named])
  have hfrom : addressOrNamespaceCodec.field ["from"] j = .ok self.from :=
    field_of_reorders addressOrNamespaceCodec_orderFree h (by simp [Json.named])
  have hto : addressOrNamespaceCodec.field ["to"] j = .ok self.to :=
    field_of_reorders addressOrNamespaceCodec_orderFree h (by simp [Json.named])
  have hamount : amountCodec.fieldOrNull ["amount"] j = .ok self.amount :=
    fieldOrNull_of_reorders amountCodec_orderFree h (by simp [Json.named])
  have hids : u256Codec.list.field ["ids"] j = .ok self.ids :=
    field_of_reorders u256Codec_orderFree.list h (by simp [Json.named])
  simp only [transferInstructionCodec, htoken, hfrom, hto, hamount, hids]
  rfl

/-- `BurnInstruction`. -/
def burnInstructionCodec : Codec SerdeError BurnInstruction where
  ser self := .obj [("caller", addressCodec.ser self.caller),
    ("programId", addressOrNamespaceCodec.ser self.programId),
    ("token", addressCodec.ser self.token), ("from", addressOrNamespaceCodec.ser self.from),
    ("amount", amountCodec.ser self.amount), ("tokenIds", u256Codec.list.ser self.tokenIds)]
  de j := do
    let caller ← addressCodec.field ["caller"] j
    let programId ← addressOrNamespaceCodec.field ["programId"] j
    let token ← addressCodec.field ["token"] j
    let «from» ← addressOrNamespaceCodec.field ["from"] j
    let amount ← amountCodec.fieldOrNull ["amount"] j
    let tokenIds ← u256Codec.list.field ["tokenIds"] j
    return ⟨caller, programId, token, «from», amount, tokenIds⟩
  de_ser self := by
    simp [Codec.field, Codec.fieldOrNull, Json.field, Json.fieldOrNull, Json.named, bind,
      Except.bind, pure, Except.pure]

theorem burnInstructionCodec_orderFree : burnInstructionCodec.OrderFree := by
  intro self j h
  have hcaller : addressCodec.field ["caller"] j = .ok self.caller :=
    field_of_reorders addressCodec_orderFree h (by simp [Json.named])
  have hprogram : addressOrNamespaceCodec.field ["programId"] j = .ok self.programId :=
    field_of_reorders addressOrNamespaceCodec_orderFree h (by simp [Json.named])
  have htoken : addressCodec.field ["token"] j = .ok self.token :=
    field_of_reorders addressCodec_orderFree h (by simp [Json.named])
  have hfrom : addressOrNamespaceCodec.field ["from"] j = .ok self.from :=
    field_of_reorders addressOrNamespaceCodec_orderFree h (by simp [Json.named])
  have hamount : amountCodec.fieldOrNull ["amount"] j = .ok self.amount :=
    fieldOrNull_of_reorders amountCodec_orderFree h (by simp [Json.named])
  have hids : u256Codec.list.field ["tokenIds"] j = .ok self.tokenIds :=
    field_of_reorders u256Codec_orderFree.list h (by simp [Json.named])
  simp only [burnInstructionCodec, hcaller, hprogram, htoken, hfrom, hamount, hids]
  rfl

/-- `ContractLogType`, whose variants keep their capitals. -/
def contractLogTypeCodec : Codec SerdeError ContractLogType where
  ser
    | .info s => .obj [("Info", stringCodec.ser s)]
    | .error s => .obj [("Error", stringCodec.ser s)]
    | .warn s => .obj [("Warn", stringCodec.ser s)]
    | .debug s => .obj [("Debug", stringCodec.ser s)]
  de j := do
    match ← j.variant with
    | ("Info", s) => .info <$> stringCodec.de s
    | ("Error", s) => .error <$> stringCodec.de s
    | ("Warn", s) => .warn <$> stringCodec.de s
    | ("Debug", s) => .debug <$> stringCodec.de s
    | _ => .error .unknownVariant
  de_ser t := by
    cases t <;> simp [Json.variant, bind, Except.bind, Functor.map, Except.map]

theorem contractLogTypeCodec_orderFree : contractLogTypeCodec.OrderFree := by
  intro t j h
  cases t with
  | info s | error s | warn s | debug s =>
    obtain ⟨v, hv, hs⟩ := h.variant (χ := SerdeError) rfl
    have hread := stringCodec_orderFree s v hs
    simp [contractLogTypeCodec, hv, hread, bind, Except.bind, Functor.map, Except.map]

/-- `Instruction`. -/
inductive SerdeInstruction where
  | create (i : SerdeCreateInstruction)
  | update (updates : List SerdeTokenOrProgramUpdate)
  | transfer (i : TransferInstruction)
  | burn (i : BurnInstruction)
  | log (i : ContractLogType)

/-- What is applied of it. -/
def SerdeInstruction.instruction : SerdeInstruction → Instruction
  | .create i => .create i.instruction
  | .update updates => .update ⟨updates.map SerdeTokenOrProgramUpdate.update⟩
  | .transfer i => .transfer i
  | .burn i => .burn i
  | .log i => .log i

/-- `Instruction`. -/
def instructionCodec : Codec SerdeError SerdeInstruction where
  ser
    | .create i => .obj [("create", createInstructionCodec.ser i)]
    | .update i => .obj [("update", updateInstructionCodec.ser i)]
    | .transfer i => .obj [("transfer", transferInstructionCodec.ser i)]
    | .burn i => .obj [("burn", burnInstructionCodec.ser i)]
    | .log i => .obj [("log", contractLogTypeCodec.ser i)]
  de j := do
    match ← j.variant with
    | ("create", i) => .create <$> createInstructionCodec.de i
    | ("update", i) => .update <$> updateInstructionCodec.de i
    | ("transfer", i) => .transfer <$> transferInstructionCodec.de i
    | ("burn", i) => .burn <$> burnInstructionCodec.de i
    | ("log", i) => .log <$> contractLogTypeCodec.de i
    | _ => .error .unknownVariant
  de_ser i := by
    cases i <;> simp [Json.variant, bind, Except.bind, Functor.map, Except.map]

theorem instructionCodec_orderFree : instructionCodec.OrderFree := by
  intro x j h
  cases x with
  | create i =>
    obtain ⟨v, hv, hi⟩ := h.variant (χ := SerdeError) rfl
    have hread := createInstructionCodec_orderFree i v hi
    simp [instructionCodec, hv, hread, bind, Except.bind, Functor.map, Except.map]
  | update i =>
    obtain ⟨v, hv, hi⟩ := h.variant (χ := SerdeError) rfl
    have hread := updateInstructionCodec_orderFree i v hi
    simp [instructionCodec, hv, hread, bind, Except.bind, Functor.map, Except.map]
  | transfer i =>
    obtain ⟨v, hv, hi⟩ := h.variant (χ := SerdeError) rfl
    have hread := transferInstructionCodec_orderFree i v hi
    simp [instructionCodec, hv, hread, bind, Except.bind, Functor.map, Except.map]
  | burn i =>
    obtain ⟨v, hv, hi⟩ := h.variant (χ := SerdeError) rfl
    have hread := burnInstructionCodec_orderFree i v hi
    simp [instructionCodec, hv, hread, bind, Except.bind, Functor.map, Except.map]
  | log i =>
    obtain ⟨v, hv, hi⟩ := h.variant (χ := SerdeError) rfl
    have hread := contractLogTypeCodec_orderFree i v hi
    simp [instructionCodec, hv, hread, bind, Except.bind, Functor.map, Except.map]

/-! ## Inputs and outputs -/

/-- `Inputs`. -/
structure Inputs where
  version : I32
  accountInfo : SerdeAccount
  transaction : SerdeTransaction
  op : String
  inputs : String

/-- `Inputs`. -/
def inputsCodec : Codec SerdeError Inputs where
  ser self := .obj [("version", i32Codec.ser self.version),
    ("accountInfo", accountCodec.ser self.accountInfo),
    ("transaction", transactionCodec.ser self.transaction), ("op", stringCodec.ser self.op),
    ("contractInputs", stringCodec.ser self.inputs)]
  de j := do
    let version ← i32Codec.field ["version"] j
    let accountInfo ← accountCodec.field ["accountInfo"] j
    let transaction ← transactionCodec.field ["transaction"] j
    let op ← stringCodec.field ["op"] j
    let inputs ← stringCodec.field ["contractInputs"] j
    return ⟨version, accountInfo, transaction, op, inputs⟩
  de_ser self := by
    simp [Codec.field, Json.field, Json.named, bind, Except.bind, pure, Except.pure]

theorem inputsCodec_orderFree : inputsCodec.OrderFree := by
  intro self j h
  have hversion : i32Codec.field ["version"] j = .ok self.version :=
    field_of_reorders i32Codec_orderFree h (by simp [Json.named])
  have haccount : accountCodec.field ["accountInfo"] j = .ok self.accountInfo :=
    field_of_reorders accountCodec_orderFree h (by simp [Json.named])
  have htransaction : transactionCodec.field ["transaction"] j = .ok self.transaction :=
    field_of_reorders transactionCodec_orderFree h (by simp [Json.named])
  have hop : stringCodec.field ["op"] j = .ok self.op :=
    field_of_reorders stringCodec_orderFree h (by simp [Json.named])
  have hinputs : stringCodec.field ["contractInputs"] j = .ok self.inputs :=
    field_of_reorders stringCodec_orderFree h (by simp [Json.named])
  simp only [inputsCodec, hversion, haccount, htransaction, hop, hinputs]
  rfl

/-- `Outputs`. -/
structure SerdeOutputs where
  inputs : Inputs
  instructions : List SerdeInstruction

/-- What is applied of it. -/
def SerdeOutputs.outputs (self : SerdeOutputs) : Outputs :=
  ⟨self.instructions.map SerdeInstruction.instruction⟩

/-- The names of the inputs that an `Outputs` echoes. -/
def computeInputsNames : List String := ["computeInputs", "inputs"]

/-- The outputs, with the inputs under a name. -/
def SerdeOutputs.serAs (name : String) (self : SerdeOutputs) : Json :=
  .obj [(name, inputsCodec.ser self.inputs),
    ("instructions", instructionCodec.list.ser self.instructions)]

/-- `Outputs::deserialize`. -/
def SerdeOutputs.deserialize (j : Json) : SerdeResult SerdeOutputs := do
  let inputs ← inputsCodec.field computeInputsNames j
  let instructions ← instructionCodec.list.field ["instructions"] j
  return ⟨inputs, instructions⟩

/-- Outputs are read under either name of the inputs, in whatever order the members are. -/
theorem SerdeOutputs.deserialize_of_reorders {name : String} (hname : name ∈ computeInputsNames)
    (self : SerdeOutputs) {j : Json} (h : (self.serAs name).Reorders j) :
    deserialize j = .ok self := by
  have hne : "instructions" ∉ computeInputsNames := by decide
  have hother : name ∉ ["instructions"] := fun hmem => by
    rw [List.mem_singleton.1 hmem] at hname
    exact hne hname
  have hinputs : inputsCodec.field computeInputsNames j = .ok self.inputs :=
    field_of_reorders inputsCodec_orderFree h (by
      rw [Json.named, List.filter_cons_of_pos (by simpa using hname),
        List.filter_cons_of_neg (by simpa using hne)]
      rfl)
  have hinstructions : instructionCodec.list.field ["instructions"] j = .ok self.instructions :=
    field_of_reorders instructionCodec_orderFree.list h (by
      rw [Json.named, List.filter_cons_of_neg (by simpa using hother)]
      simp)
  rw [deserialize, hinputs, hinstructions]
  rfl

/-- `serde_json::from_str` of outputs, with the text of its error. -/
def outputsFromStr (display : String → Option (DeError SerdeError) → String) (text : String) :
    Except String Outputs :=
  match Json.fromStr text with
  | none => .error (display text none)
  | some j =>
    match SerdeOutputs.deserialize j with
    | .ok self => .ok self.outputs
    | .error e => .error (display text (some e))

/-- The surroundings of a node whose engine reads outputs so. -/
def Env.withSerde (env : Env) (display : String → Option (DeError SerdeError) → String) : Env :=
  { env with parseOutputs := outputsFromStr display }

/-- `serde_json::to_string` of the inputs, for the standard input of a container. -/
def stdioInputs (inputs : Inputs) : String := String.ofList (inputsCodec.ser inputs).print

/-- A text says that these are the outputs. -/
def SerdeOutputs.WrittenAs (self : SerdeOutputs) (text : String) : Prop :=
  ∃ name ∈ computeInputsNames, ∃ j, (self.serAs name).Reorders j ∧ j.SpellsText text

/-- A program computes a function : of every text of its inputs it makes a text of the outputs. -/
def Computes (program : String → String) (f : Inputs → SerdeOutputs) : Prop :=
  ∀ inputs stdin, (inputsCodec.ser inputs).SpellsText stdin → (f inputs).WrittenAs (program stdin)

/-- The program that reads its inputs and writes the outputs without any white space. -/
def programOf (f : Inputs → SerdeOutputs) (stdin : String) : String :=
  match Json.fromStr stdin with
  | none => ""
  | some j =>
    match inputsCodec.de j with
    | .ok inputs => String.ofList ((f inputs).serAs "computeInputs").print
    | .error _ => ""

theorem programOf_of_spells (f : Inputs → SerdeOutputs) {inputs : Inputs} {stdin : String}
    (h : (inputsCodec.ser inputs).SpellsText stdin) :
    programOf f stdin = String.ofList ((f inputs).serAs "computeInputs").print := by
  rw [programOf, Json.fromStr_of_spells h]
  dsimp only
  rw [inputsCodec.de_ser]

/-- Every function is computed by a program. -/
theorem computes_programOf (f : Inputs → SerdeOutputs) : Computes (programOf f) f := by
  intro inputs stdin hstdin
  refine ⟨"computeInputs", by decide, _, Json.Reorders.refl _, ?_⟩
  rw [programOf_of_spells f hstdin]
  exact Json.spellsText_print _

section Engine

/-- A call from address 1 of the program at address 2. -/
def smallCall : Transaction :=
  ⟨.call 0#256, 1#160, 2#160, 2#160, "mint", "", 0#256, 1#256, 27, 0#256, 0#256⟩

/-- The inputs of that call, for a program without data. -/
def smallInputs : Inputs where
  version := ⟨1, by decide⟩
  accountInfo := ⟨.program 2#160, none, 1#160, OrderedMap.empty, 0#256, OrderedMap.empty,
    OrderedMap.empty, OrderedMap.empty⟩
  transaction := ⟨smallCall, by decide⟩
  op := "mint"
  inputs := ""

variable (env : Env) (display : String → Option (DeError SerdeError) → String)

theorem outputsFromStr_of_writtenAs {self : SerdeOutputs} {text : String}
    (h : self.WrittenAs text) : outputsFromStr display text = .ok self.outputs := by
  obtain ⟨name, hname, j, hj, htext⟩ := h
  rw [outputsFromStr, Json.fromStr_of_spells htext]
  dsimp only
  rw [SerdeOutputs.deserialize_of_reorders hname self hj]

/-- Whatever text a program chooses for its outputs, the engine hands these to the pending
transactions, with the transaction they are for. -/
theorem pending_of_writtenAs (tx : Transaction) (hash : String) {self : SerdeOutputs}
    {text : String} (h : self.WrittenAs text) :
    Engine.handleCallSuccess (env.withSerde display) tx hash text =
      Engine.setPendingTransaction tx (some self.outputs) := by
  have hparse : (env.withSerde display).parseOutputs text = .ok self.outputs :=
    outputsFromStr_of_writtenAs display h
  rw [Engine.handleCallSuccess, hparse]

/-- Two log lines, before the inputs and these under their other name. -/
theorem pending_of_writtenAs_swapped :
    Engine.handleCallSuccess (Env.small.withSerde fun _ _ => "") smallCall "0x01"
        (String.ofList (Json.obj [("instructions", .arr [.obj [("log", .obj [("Warn", .str "a")])],
            .obj [("log", .obj [("Info", .str "b")])]]),
          ("inputs", inputsCodec.ser smallInputs)]).print) =
      Engine.setPendingTransaction smallCall (some ⟨[.log (.warn "a"), .log (.info "b")]⟩) := by
  have hwritten : SerdeOutputs.WrittenAs ⟨smallInputs, [.log (.warn "a"), .log (.info "b")]⟩ _ :=
    ⟨"inputs", by decide, _, Json.reorders_obj.2 ⟨_, _, rfl, Json.ReordersMembers.refl _,
      List.Perm.swap _ _ _⟩, Json.spellsText_print _⟩
  exact pending_of_writtenAs Env.small (fun _ _ => "") smallCall "0x01" hwritten

/-- What the engine makes of the output of a program is the value of the function it computes
at the inputs the container was given. -/
theorem pending_of_computes (tx : Transaction) (hash : String) {program : String → String}
    {f : Inputs → SerdeOutputs} (hf : Computes program f) (inputs : Inputs) :
    Engine.handleCallSuccess (env.withSerde display) tx hash (program (stdioInputs inputs)) =
      Engine.setPendingTransaction tx (some (f inputs).outputs) := by
  have hparse : (env.withSerde display).parseOutputs (program (stdioInputs inputs)) =
      .ok (f inputs).outputs :=
    outputsFromStr_of_writtenAs display (hf inputs _ (Json.spellsText_print _))
  rw [Engine.handleCallSuccess, hparse]

end Engine

end Lasr
