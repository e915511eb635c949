import Lasr.Capacity

/-!
# The settlement of batches

`handle_next_batch_request` sends the parent to the DA client and, once a blob response is
there, moves it into the cache of sent batches and the first child into its place. Before
that it writes the accounts of the parent to the persistence store. The DA client is then
asked to validate the blob, and its proof settles the accounts of the cached batch
(`handle_blob_verification_proof`).

`Settlement` is the batcher with what has left it, and a run a list of insertions and requests
(`Settlement.run`). Nothing that was added is lost (`no_item_lost`). What follows the two
early ends of the code is said exactly : a blob is validated only where no child is promoted
(`validation_sent_iff`), and a new version of an account is the last one settled only where no
older one is queued behind it (`newest_settled_iff`).
-/

set_option linter.unusedSectionVars false

namespace Lasr

/-! ## The batch request -/

/-- `empty`. -/
def Batch.empty (self : Batch) : Bool :=
  self.transactions.entries.isEmpty && self.accounts.entries.isEmpty

/-- `check_size`, for an `encode_batch`. -/
def Batch.checkSize (encodeBatch : Batch → Option String) (self : Batch) : Option ℕ :=
  (encodeBatch self).map String.utf8ByteSize

/-- A `Batcher`, with the `cache` of the batches it has sent, by request id. -/
structure BatchQueue extends Batcher where
  cache : HashMap String Batch

/-- What the actors around the batcher do during one request. -/
structure DaWorld where
  /-- An account is serialized and put into the persistence store. -/
  persisted : String → Account → Bool
  /-- The registry has the DA client. -/
  daClient : Bool
  /-- The request id of the blob response, or what went wrong : the client's error, a closed
  channel, a timeout. -/
  response : Except String String
  /-- The DA client can still be reached once the response is there. -/
  validator : Bool

/-- `DaClientMessage`, as the batcher sends it. -/
inductive DaClientMessage where
  | storeBatch (batch : String)
  | validateBlob (requestId : String)

/-- The request id of a validation. -/
def DaClientMessage.validated : DaClientMessage → Option String
  | .validateBlob requestId => some requestId
  | .storeBatch _ => none

/-- What a batch request comes to : its result, the batcher after it, what it has put into
the persistence store and sent to the DA client, and the request id it was answered with. -/
structure BatchRequest where
  result : Except BatcherError Unit
  queue : BatchQueue
  puts : List (Sigma fun _ : String => Account)
  messages : List DaClientMessage
  answered : Option String

section Request

variable (order : HashOrder) (encodeBatch : Batch → Option String)

/-- `request_blob_validation`. -/
def requestBlobValidation (world : DaWorld) (requestId : String) : List DaClientMessage :=
  if world.validator then [.validateBlob requestId] else []

/-- `handle_next_batch_request`. -/
def BatchQueue.handleNextBatchRequest (world : DaWorld) (self : BatchQueue) : BatchRequest :=
  if self.parent.empty then ⟨.ok (), self, [], [], none⟩
  else
    let puts := (order.iter self.parent.accounts.entries).filter fun e => world.persisted e.1 e.2
    if !world.daClient then ⟨.ok (), self, puts, [], none⟩
    else
      match encodeBatch self.parent with
      | none => ⟨.error (.custom "failed to encode batch"), self, puts, [], none⟩
      | some batch =>
        match world.response with
        | .error e =>
          ⟨.error (.custom ("Failed to recieve blob response from DA Client: " ++ e)), self, puts,
            [.storeBatch batch], none⟩
        | .ok requestId =>
          let cache := self.cache.insert requestId self.parent
          match self.children with
          | child :: children =>
            -- the child takes the parent's place, and the function returns
            ⟨.ok (), ⟨⟨child, children⟩, cache⟩, puts, [.storeBatch batch], some requestId⟩
          | [] =>
            ⟨.ok (), ⟨⟨Batch.new, []⟩, cache⟩, puts,
              .storeBatch batch :: requestBlobValidation world requestId, some requestId⟩

end Request

/-- The DA client answers a request for the batch : it is there, it gets the encoded batch, and
its response has the request id. -/
def DaWorld.Answers (encodeBatch : Batch → Option String) (self : DaWorld) (batch : Batch)
    (requestId : String) : Prop :=
  self.daClient = true ∧ (encodeBatch batch).isSome ∧ self.response = .ok requestId

/-- `BlobVerificationProof`, as far as it is read. -/
structure BlobVerificationProof where
  batchHeaderHash : String
  blobIndex : ℕ

/-- `EoMessage::Settle`. -/
structure Settle where
  accounts : Finset String
  batchHeaderHash : List UInt8
  blobIndex : ℕ

/-- `handle_blob_verification_proof` : the message to the EO client, if there is one. It panics
(`none`) on a header hash that is not 32 bytes long. -/
def BatchQueue.handleBlobVerificationProof (eoClient : Bool)
    (decode : String → Except String (List UInt8)) (self : BatchQueue) (requestId : String)
    (proof : BlobVerificationProof) : Option (Except BatcherError (Option Settle)) :=
  if eoClient then
    match self.cache.lookup requestId with
    | none => some (.error (.custom "request id not in cache"))
    | some batch =>
      match decode proof.batchHeaderHash with
      | .error _ => some (.ok none)
      | .ok decoded =>
        if decoded.length = 32 then
          some (.ok (some ⟨batch.accounts.keys.toFinset, decoded, proof.blobIndex⟩))
        else none
  else some (.ok none)

/-- The accounts of the parent that the store takes. -/
def BatchQueue.accepted (order : HashOrder) (world : DaWorld) (self : BatchQueue) :
    List (Sigma fun _ : String => Account) :=
  (order.iter self.parent.accounts.entries).filter fun e => world.persisted e.1 e.2

/-- What an answered request does : the parent goes into the cache, and the first child, or an
empty batch, into its place. Its blob is validated only if there is no child. -/
structure BatchRequest.Moves (order : HashOrder) (world : DaWorld) (q : BatchQueue)
    (r : BatchRequest) (requestId : String) : Prop where
  response : world.response = .ok requestId
  nonempty : q.parent.empty = false
  result : r.result = .ok ()
  queue : r.queue =
    ⟨⟨q.children.headD Batch.new, q.children.tail⟩, q.cache.insert requestId q.parent⟩
  puts : r.puts = q.accepted order world
  validated : r.messages.filterMap DaClientMessage.validated =
    if q.children = [] ∧ world.validator then [requestId] else []

/-- The batches that are left are the children, or a new one where there are none. -/
theorem BatchRequest.Moves.mem_batches {order : HashOrder} {world : DaWorld} {q : BatchQueue}
    {r : BatchRequest} {requestId : String} (hr : r.Moves order world q requestId)
    {batch : Batch} :
    batch ∈ r.queue.batches ↔ batch ∈ q.children ∨ q.children = [] ∧ batch = Batch.new := by
  rw [hr.queue]
  cases q.children <;> simp [Batcher.batches]

/-- Everything a request can do : nothing on an empty parent, no more than put accounts into
the store where it is not answered, or move the batches. -/
theorem BatchQueue.handleNextBatchRequest_cases (order : HashOrder)
    (encodeBatch : Batch → Option String) (world : DaWorld) (q : BatchQueue) :
    (q.parent.empty = true ∧
      q.handleNextBatchRequest order encodeBatch world = ⟨.ok (), q, [], [], none⟩) ∨
    (q.parent.empty = false ∧
      (q.handleNextBatchRequest order encodeBatch world).answered = none ∧
      (q.handleNextBatchRequest order encodeBatch world).queue = q) ∨
    ∃ requestId, (q.handleNextBatchRequest order encodeBatch world).answered = some requestId ∧
      (q.handleNextBatchRequest order encodeBatch world).Moves order world q requestId := by
  unfold handleNextBatchRequest
  cases hempty : q.parent.empty with
  | true => exact .inl ⟨rfl, rfl⟩
  | false =>
    refine .inr ?_
    cases hda : world.daClient with
    | false => exact .inl ⟨rfl, rfl, rfl⟩
    | true =>
      cases henc : encodeBatch q.parent with
      | none => exact .inl ⟨rfl, rfl, rfl⟩
      | some batch =>
        cases hresp : world.response with
        | error e => exact .inl ⟨rfl, rfl, rfl⟩
        | ok requestId =>
          refine .inr ⟨requestId, ?_⟩
          cases hch : q.children with
          | cons child children =>
            exact ⟨rfl, hresp, hempty, rfl, by simp only [hch]; rfl, rfl, by simp only [hch]; rfl⟩
          | nil =>
            refine ⟨rfl, hresp, hempty, rfl, by simp only [hch]; rfl, rfl, ?_⟩
            cases hv : world.validator <;> simp [hch, requestBlobValidation, hv] <;> rfl

/-- A request is answered if the parent is not empty and the DA client answers. -/
theorem BatchQueue.answered_eq_some_iff {order : HashOrder} {encodeBatch : Batch → Option String}
    {world : DaWorld} {q : BatchQueue} {requestId : String} :
    (q.handleNextBatchRequest order encodeBatch world).answered = some requestId ↔
      q.parent.empty = false ∧ world.Answers encodeBatch q.parent requestId := by
  unfold handleNextBatchRequest DaWorld.Answers
  cases hempty : q.parent.empty with
  | true => simp
  | false =>
    cases hda : world.daClient with
    | false => simp
    | true =>
      cases henc : encodeBatch q.parent with
      | none => simp
      | some batch =>
        cases hresp : world.response with
        | error e => simp
        | ok id => cases hch : q.children <;> simp

/-! ## Runs -/

/-- The batcher, the batches the DA client has taken, in order, and the persistence store. -/
structure Settlement where
  queue : BatchQueue
  sent : List Batch
  store : String → Option Account

/-- What happens to the batcher. -/
inductive BatchOp where
  | addTransaction (transaction : Transaction)
  | addAccount (account : Account)
  | nextBatch (world : DaWorld)

/-- The request id the DA client answers with. -/
def BatchOp.requestId : BatchOp → Option String
  | .nextBatch world => world.response.toOption
  | _ => none

namespace Settlement

section Run

variable (env : Env) (encodeBatch : Batch → Option String)

/-- The batcher of a step. -/
def withBatcher (self : Settlement) (b : Batcher) : Settlement :=
  { self with queue := { self.queue with toBatcher := b } }

/-- The state after a request. -/
def request (world : DaWorld) (self : Settlement) : Settlement :=
  let r := self.queue.handleNextBatchRequest env.order encodeBatch world
  { queue := r.queue
    sent := if r.answered.isSome then self.sent ++ [self.queue.parent] else self.sent
    store := r.puts.foldl (fun store e => Function.update store e.1 (some e.2)) self.store }

/-- One step, which is `none` where it never ends. -/
def step (self : Settlement) : BatchOp → Option Settlement
  | .addTransaction transaction =>
    (self.queue.toBatcher.addTransaction env (Batch.checkSize encodeBatch) transaction).map
      self.withBatcher
  | .addAccount account =>
    (self.queue.toBatcher.addAccount (Batch.checkSize encodeBatch) account).map self.withBatcher
  | .nextBatch world => some (self.request env encodeBatch world)

/-- One step after another. -/
def run : Settlement → List BatchOp → Option Settlement
  | self, [] => some self
  | self, op :: ops => (self.step env encodeBatch op).bind fun s => run s ops

end Run

section RunLemmas

variable {env : Env} {encodeBatch : Batch → Option String} {s s' : Settlement}

theorem run_append : ∀ {l l' : List BatchOp} {s : Settlement},
    s.run env encodeBatch (l ++ l') =
      (s.run env encodeBatch l).bind fun t => t.run env encodeBatch l'
  | [], _, _ => rfl
  | op :: l, l', s => by
    simp only [List.cons_append, run, Option.bind_assoc]
    exact congrArg _ (funext fun t => run_append)

/-- What every step of a list keeps, the run keeps. -/
theorem run_keeps {P : Settlement → Prop} : ∀ {ops : List BatchOp} {s s' : Settlement},
    (∀ op ∈ ops, ∀ t t', P t → t.step env encodeBatch op = some t' → P t') → P s →
      s.run env encodeBatch ops = some s' → P s'
  | [], _, _, _, hs, h => by
    cases h
    exact hs
  | op :: ops, s, s', hstep, hs, h => by
    obtain ⟨t, ht, hrun⟩ := Option.bind_eq_some_iff.1 h
    exact run_keeps (fun op' hop => hstep op' (List.mem_cons_of_mem _ hop))
      (hstep op List.mem_cons_self s t hs ht) hrun

/-- A step leaves the cache, or is a request whose answer puts the parent into it. -/
theorem cache_step_answered {op : BatchOp} (h : s.step env encodeBatch op = some s') :
    s'.queue.cache = s.queue.cache ∨ ∃ world requestId, op = .nextBatch world ∧
      world.response = .ok requestId ∧
      (s.queue.handleNextBatchRequest env.order encodeBatch world).answered = some requestId ∧
      s'.queue.cache = s.queue.cache.insert requestId s.queue.parent := by
  cases op with
  | addTransaction transaction =>
    obtain ⟨b, -, rfl⟩ := Option.map_eq_some_iff.1 h
    exact .inl rfl
  | addAccount account =>
    obtain ⟨b, -, rfl⟩ := Option.map_eq_some_iff.1 h
    exact .inl rfl
  | nextBatch world =>
    cases h
    rcases s.queue.handleNextBatchRequest_cases env.order encodeBatch world with
      ⟨-, hr⟩ | ⟨-, -, hr⟩ | ⟨requestId, hid, hr⟩
    · exact .inl (congrArg (fun r => r.queue.cache) hr)
    · exact .inl (congrArg BatchQueue.cache hr)
    · exact .inr ⟨world, requestId, rfl, hr.response, hid, congrArg BatchQueue.cache hr.queue⟩

/-- A step leaves the cache, or puts a batch into it under the request id of its answer. -/
theorem cache_step {op : BatchOp} (h : s.step env encodeBatch op = some s') :
    s'.queue.cache = s.queue.cache ∨ ∃ requestId, op.requestId = some requestId ∧
      s'.queue.cache = s.queue.cache.insert requestId s.queue.parent := by
  obtain hsame | ⟨world, requestId, rfl, hresponse, -, hcache⟩ := cache_step_answered h
  · exact .inl hsame
  · refine .inr ⟨requestId, ?_, hcache⟩
    simp only [BatchOp.requestId, hresponse]
    rfl

/-- A batch stays in the cache as long as its request id is not given again. -/
theorem lookup_cache_run {requestId : String} {batch : Batch} {ops : List BatchOp}
    (hops : ∀ op ∈ ops, op.requestId ≠ some requestId)
    (hs : s.queue.cache.lookup requestId = some batch)
    (h : s.run env encodeBatch ops = some s') :
    s'.queue.cache.lookup requestId = some batch := by
  refine run_keeps (P := fun t => t.queue.cache.lookup requestId = some batch) ?_ hs h
  intro op hop t t' ht hstep
  rcases cache_step hstep with hcache | ⟨id, hid, hcache⟩
  · rw [hcache, ht]
  · have hne : requestId ≠ id := fun he => hops op hop (he ▸ hid)
    rw [hcache, AList.lookup_insert_ne hne, ht]

/-- An answered request puts the parent into the cache. -/
theorem lookup_cache_request {world : DaWorld} {requestId : String}
    (h : (s.queue.handleNextBatchRequest env.order encodeBatch world).answered = some requestId) :
    (s.request env encodeBatch world).queue.cache.lookup requestId = some s.queue.parent := by
  change (s.queue.handleNextBatchRequest env.order encodeBatch world).queue.cache.lookup _ = _
  rcases s.queue.handleNextBatchRequest_cases env.order encodeBatch world with
    ⟨-, hr⟩ | ⟨-, hr, -⟩ | ⟨id, hid, hr⟩
  · rw [hr] at h
    exact nomatch h
  · rw [hr] at h
    exact nomatch h
  · obtain rfl : id = requestId := Option.some.inj (hid.symm.trans h)
    rw [hr.queue]
    exact AList.lookup_insert _

end RunLemmas

end Settlement

/-! ## The follow-up of a blob -/

/-- An answered request is followed by exactly one validation, with the request id of the
answer, exactly if there is no child to promote and the DA client is still there. The proof of
the blob settles the accounts of the batch that was sent, whatever happens until it comes, as
long as the request id is not given again. -/
theorem validation_sent_iff (env : Env) (encodeBatch : Batch → Option String) (s : Settlement)
    (world : DaWorld) (requestId : String)
    (h : (s.queue.handleNextBatchRequest env.order encodeBatch world).answered = some requestId) :
    ((s.queue.handleNextBatchRequest env.order encodeBatch world).messages.filterMap
        DaClientMessage.validated = [requestId] ∧
      ∀ ops s', (∀ op ∈ ops, op.requestId ≠ some requestId) →
        (s.request env encodeBatch world).run env encodeBatch ops = some s' →
        ∀ decode proof decoded, decode proof.batchHeaderHash = .ok decoded → decoded.length = 32 →
          s'.queue.handleBlobVerificationProof true decode requestId proof =
            some (.ok (some ⟨s.queue.parent.accounts.keys.toFinset, decoded, proof.blobIndex⟩))) ↔
    s.queue.children = [] ∧ world.validator = true := by
  rcases s.queue.handleNextBatchRequest_cases env.order encodeBatch world with
    ⟨-, hr⟩ | ⟨-, hr, -⟩ | ⟨id, hid, hr⟩
  · rw [hr] at h
    exact nomatch h
  · rw [hr] at h
    exact nomatch h
  obtain rfl : id = requestId := Option.some.inj (hid.symm.trans h)
  rw [hr.validated]
  constructor
  · rintro ⟨hone, -⟩
    by_contra hno
    rw [if_neg hno] at hone
    exact nomatch hone
  · intro hyes
    refine ⟨if_pos hyes, fun ops s' hops hrun decode proof decoded hdec hlen => ?_⟩
    have hlook := Settlement.lookup_cache_run hops (Settlement.lookup_cache_request h) hrun
    simp [BatchQueue.handleBlobVerificationProof, hlook, hdec, hlen]

/-- A batch of one account. -/
def Batch.ofAccount (account : Account) : Batch :=
  ⟨∅, AList.singleton (Address.toFullString account.address) account⟩

/-- A batcher that has sent nothing, over an empty store. -/
def Settlement.start (parent : Batch) (children : List Batch) : Settlement :=
  ⟨⟨⟨parent, children⟩, ∅⟩, [], fun _ => none⟩

/-- A request that goes through. -/
def DaWorld.answering (requestId : String) : DaWorld :=
  ⟨fun _ _ => true, true, .ok requestId, true⟩

theorem validation_sent_of_single_batch :
    ((Settlement.start (Batch.ofAccount (.build .user 5#160)) []).queue.handleNextBatchRequest
      Env.small.order (fun _ => some "") (.answering "7")).messages.filterMap
        DaClientMessage.validated = ["7"] :=
  ((validation_sent_iff Env.small (fun _ => some "")
    (.start (Batch.ofAccount (Account.build .user 5#160)) []) (.answering "7") "7"
    (by decide)).2 ⟨rfl, rfl⟩).1

/-- A child is promoted, and no validation is sent. -/
theorem no_validation_of_promoted_child :
    ¬∀ (q : BatchQueue) (world : DaWorld) (requestId : String),
      (q.handleNextBatchRequest Env.small.order (fun _ => some "") world).answered =
          some requestId →
        (q.handleNextBatchRequest Env.small.order (fun _ => some "") world).messages.filterMap
          DaClientMessage.validated = [requestId] := by
  intro h
  have hone := h (Settlement.start (Batch.ofAccount (Account.build .user 5#160))
    [Batch.ofAccount (Account.build .user 6#160)]).queue (.answering "7") "7" (by decide)
  exact absurd hone (by decide)

/-! ## Nothing is lost -/

/-- The parent, a child or a sent batch has the property. -/
def BatchQueue.Has (p : Batch → Prop) (self : BatchQueue) : Prop :=
  (∃ batch ∈ self.batches, p batch) ∨
    ∃ requestId batch, self.cache.lookup requestId = some batch ∧ p batch

/-- The request ids to come are all different, and none is in the cache. -/
def Settlement.Fresh (self : Settlement) (ops : List BatchOp) : Prop :=
  (ops.filterMap BatchOp.requestId).Nodup ∧
    ∀ requestId ∈ ops.filterMap BatchOp.requestId, self.queue.cache.lookup requestId = none

section Kept

variable {env : Env} {encodeBatch : Batch → Option String} {s s' : Settlement} {p : Batch → Prop}

/-- A property of batches that an insertion leaves. -/
structure Batch.Stable (env : Env) (encodeBatch : Batch → Option String) (p : Batch → Prop) :
    Prop where
  transaction : ∀ (transaction : Transaction) (b b' : Batch),
    b.insertTransaction env (Batch.checkSize encodeBatch) transaction = .ok b' → p b → p b'
  account : ∀ (account : Account) (b b' : Batch),
    b.insertAccount (Batch.checkSize encodeBatch) account = .ok b' → p b → p b'

theorem Settlement.Fresh.tail {op : BatchOp} {ops : List BatchOp} (hf : s.Fresh (op :: ops))
    (h : s.step env encodeBatch op = some s') : s'.Fresh ops := by
  obtain ⟨hnd, hnone⟩ := hf
  rw [List.filterMap_cons] at hnd hnone
  rcases cache_step h with hcache | ⟨id, hid, hcache⟩
  · unfold Fresh
    rw [hcache]
    cases hop : op.requestId with
    | none =>
      rw [hop] at hnd hnone
      exact ⟨hnd, hnone⟩
    | some id =>
      rw [hop] at hnd hnone
      exact ⟨hnd.of_cons, fun r hr => hnone r (List.mem_cons_of_mem _ hr)⟩
  · rw [hid] at hnd hnone
    refine ⟨hnd.of_cons, fun r hr => ?_⟩
    have hne : r ≠ id := fun he => (List.nodup_cons.1 hnd).1 (he ▸ hr)
    rw [hcache, AList.lookup_insert_ne hne]
    exact hnone r (List.mem_cons_of_mem _ hr)

/-- A step with a new request id loses no batch. -/
theorem Settlement.has_step (hp : Batch.Stable env encodeBatch p) {op : BatchOp}
    (hnew : ∀ requestId, op.requestId = some requestId → s.queue.cache.lookup requestId = none)
    (hs : s.queue.Has p) (h : s.step env encodeBatch op = some s') : s'.queue.Has p := by
  cases op with
  | addTransaction transaction =>
    obtain ⟨b, hb, rfl⟩ := Option.map_eq_some_iff.1 h
    exact hs.imp_left
      (exists_firstFit_of_exists (hp.transaction _) (Batcher.firstFit_of_addTransaction hb))
  | addAccount account =>
    obtain ⟨b, hb, rfl⟩ := Option.map_eq_some_iff.1 h
    exact hs.imp_left
      (exists_firstFit_of_exists (hp.account _) (Batcher.firstFit_of_addAccount hb))
  | nextBatch world =>
    cases h
    rcases s.queue.handleNextBatchRequest_cases env.order encodeBatch world with
      ⟨-, hr⟩ | ⟨-, -, hr⟩ | ⟨requestId, -, hr⟩
    · simpa only [request, hr] using hs
    · simpa only [request, hr] using hs
    · have hid : s.queue.cache.lookup requestId = none :=
        hnew requestId (by simp only [BatchOp.requestId, hr.response]; rfl)
      change BatchQueue.Has p (s.queue.handleNextBatchRequest env.order encodeBatch world).queue
      rw [hr.queue]
      rcases hs with ⟨batch, hmem, hpb⟩ | ⟨id, batch, hlook, hpb⟩
      · rcases List.mem_cons.1 hmem with rfl | hchild
        · exact .inr ⟨requestId, _, AList.lookup_insert _, hpb⟩
        · have hleft := hr.mem_batches.2 (.inl hchild)
          rw [hr.queue] at hleft
          exact .inl ⟨batch, hleft, hpb⟩
      · have hne : id ≠ requestId := fun he => by
          rw [he, hid] at hlook
          exact nomatch hlook
        exact .inr ⟨id, batch, (AList.lookup_insert_ne hne).trans hlook, hpb⟩

/-- What a step of a run establishes of some batch, a batch has in the end. -/
theorem Settlement.has_run (hp : Batch.Stable env encodeBatch p) :
    ∀ {ops : List BatchOp} {s s' : Settlement}, s.Fresh ops →
      s.run env encodeBatch ops = some s' →
      (s.queue.Has p ∨ ∃ op ∈ ops, ∀ t t' : Settlement,
        t.step env encodeBatch op = some t' → t'.queue.Has p) → s'.queue.Has p
  | [], s, s', _, h, hs => by
    cases h
    simpa using hs
  | op :: ops, s, s', hf, h, hs => by
    obtain ⟨t, ht, hrun⟩ := Option.bind_eq_some_iff.1 h
    refine has_run hp (hf.tail ht) hrun ?_
    rcases hs with hs | ⟨op', hop', hest⟩
    · refine .inl (has_step hp (fun requestId hid => hf.2 requestId ?_) hs ht)
      rw [List.filterMap_cons, hid]
      exact List.mem_cons_self
    · rcases List.mem_cons.1 hop' with rfl | hop'
      · exact .inl (hest s t ht)
      · exact .inr ⟨op', hop', hest⟩

/-- A transaction with this hash is in the batch, under it. -/
def Batch.HasHash (env : Env) (hash : String) (b : Batch) : Prop :=
  ∃ tx, b.transactions.lookup hash = some tx ∧ env.hashString tx = hash

/-- An account of this address is in the batch, under it. -/
def Batch.HasAddress (a : Address) (b : Batch) : Prop :=
  ∃ account, b.accounts.lookup (Address.toFullString a) = some account ∧ account.address = a

theorem Batch.stable_hasHash (hash : String) : Stable env encodeBatch (HasHash env hash) where
  transaction := by
    rintro tx b b' h ⟨old, hlook, hold⟩
    obtain ⟨-, rfl⟩ := insertTransaction_eq_ok_iff.1 h
    by_cases hkey : hash = env.hashString tx
    · subst hkey
      exact ⟨tx, AList.lookup_insert _, rfl⟩
    · exact ⟨old, (AList.lookup_insert_ne hkey).trans hlook, hold⟩
  account := by
    rintro account b b' h hb
    obtain ⟨-, rfl⟩ := insertAccount_eq_ok_iff.1 h
    exact hb

theorem Batch.stable_hasAddress (a : Address) : Stable env encodeBatch (HasAddress a) where
  transaction := by
    rintro tx b b' h hb
    obtain ⟨-, rfl⟩ := insertTransaction_eq_ok_iff.1 h
    exact hb
  account := by
    rintro account b b' h ⟨old, hlook, hold⟩
    obtain ⟨-, rfl⟩ := insertAccount_eq_ok_iff.1 h
    by_cases hkey : a = account.address
    · subst hkey
      exact ⟨account, AList.lookup_insert _, rfl⟩
    · exact ⟨old, (AList.lookup_insert_ne fun he => hkey (Address.toFullString_injective he)).trans
        hlook, hold⟩

theorem Settlement.hasHash_addTransaction {tx : Transaction}
    (h : s.step env encodeBatch (.addTransaction tx) = some s') :
    s'.queue.Has (Batch.HasHash env (env.hashString tx)) := by
  obtain ⟨b, hb, rfl⟩ := Option.map_eq_some_iff.1 h
  refine .inl (exists_of_firstFit (fun bin bin' hbin => ?_) (Batcher.firstFit_of_addTransaction hb))
  exact ⟨tx, Batch.holdsTransaction_insertTransaction hbin, rfl⟩

theorem Settlement.hasAddress_addAccount {account : Account}
    (h : s.step env encodeBatch (.addAccount account) = some s') :
    s'.queue.Has (Batch.HasAddress account.address) := by
  obtain ⟨b, hb, rfl⟩ := Option.map_eq_some_iff.1 h
  refine .inl (exists_of_firstFit (fun bin bin' hbin => ?_) (Batcher.firstFit_of_addAccount hb))
  exact ⟨account, Batch.holds_insertAccount hbin, rfl⟩

end Kept

/-- In every run from every batcher, with different request ids : a transaction with the hash of
each transaction that was added, and an account for the address of each account, is in the
parent, in a child or in a sent batch. A request that the DA client does not answer, or that
finds an empty parent, changes none of them; one that is answered moves the parent into the
cache and the first child, or an empty batch, into its place. -/
theorem no_item_lost (env : Env) (encodeBatch : Batch → Option String) {s s' : Settlement}
    {ops : List BatchOp} (hf : s.Fresh ops) (h : s.run env encodeBatch ops = some s') :
    (∀ tx, .addTransaction tx ∈ ops → s'.queue.Has (Batch.HasHash env (env.hashString tx))) ∧
    (∀ account, .addAccount account ∈ ops → s'.queue.Has (Batch.HasAddress account.address)) ∧
    ∀ pre world post t, ops = pre ++ .nextBatch world :: post →
      s.run env encodeBatch pre = some t →
      ((t.queue.parent.empty = true ∨
          ∀ requestId, ¬world.Answers encodeBatch t.queue.parent requestId) →
        (t.queue.handleNextBatchRequest env.order encodeBatch world).queue = t.queue) ∧
      ∀ requestId, t.queue.parent.empty = false →
        world.Answers encodeBatch t.queue.parent requestId →
        (t.queue.handleNextBatchRequest env.order encodeBatch world).queue =
          ⟨⟨t.queue.children.headD Batch.new, t.queue.children.tail⟩,
            t.queue.cache.insert requestId t.queue.parent⟩ := by
  refine ⟨fun tx htx => ?_, fun account haccount => ?_, fun pre world post t _ _ => ⟨?_, ?_⟩⟩
  · exact Settlement.has_run (Batch.stable_hasHash _) hf h
      (.inr ⟨_, htx, fun _ _ => Settlement.hasHash_addTransaction⟩)
  · exact Settlement.has_run (Batch.stable_hasAddress _) hf h
      (.inr ⟨_, haccount, fun _ _ => Settlement.hasAddress_addAccount⟩)
  · intro hfail
    rcases t.queue.handleNextBatchRequest_cases env.order encodeBatch world with
      ⟨-, hr⟩ | ⟨-, -, hr⟩ | ⟨requestId, hid, hr⟩
    · rw [hr]
    · exact hr
    · obtain ⟨hne, hans⟩ := BatchQueue.answered_eq_some_iff.1 hid
      rcases hfail with hempty | hno
      · rw [hne] at hempty
        exact nomatch hempty
      · exact absurd hans (hno requestId)
  · intro requestId hne hans
    have hid : (t.queue.handleNextBatchRequest env.order encodeBatch world).answered =
        some requestId := BatchQueue.answered_eq_some_iff.2 ⟨hne, hans⟩
    rcases t.queue.handleNextBatchRequest_cases env.order encodeBatch world with
      ⟨hempty, -⟩ | ⟨-, hr, -⟩ | ⟨id, hid', hr⟩
    · rw [hne] at hempty
      exact nomatch hempty
    · rw [hr] at hid
      exact nomatch hid
    · obtain rfl : id = requestId := Option.some.inj (hid'.symm.trans hid)
      exact hr.queue

/-- A request that the DA client does not answer in time. -/
def DaWorld.late : DaWorld := ⟨fun _ _ => true, true, .error "deadline has elapsed", true⟩

/-- A transfer of 5 from user 5 to user 6. -/
def transferOfFive : Transaction :=
  ⟨.send 1#256, 5#160, 6#160, ETH_ADDR, "", "", 5#256, 1#256, 27, 0#256, 0#256⟩

/-- A batcher with an account in the parent and one in a child. -/
def twoBatches : Settlement :=
  .start (Batch.ofAccount (.build .user 3#160)) [Batch.ofAccount (.build .user 4#160)]

/-- What comes before the first batch is sent : a transaction, a program, and a request that is
late. -/
def opsBefore : List BatchOp :=
  [.addTransaction transferOfFive, .addAccount (.build (.program 9#160) 5#160), .nextBatch .late]

/-- What comes after it : two versions of an account, the other batch, and one more account. -/
def opsAfter : List BatchOp :=
  [.addAccount (.build .user 5#160), .addAccount { Account.build .user 5#160 with nonce := 1#256 },
    .nextBatch (.answering "8"), .addAccount (.build .user 6#160)]

/-- The first batch is sent with the transaction and the program, the second with the account, and
the last account is in the new parent. -/
theorem no_item_lost_of_two_batches :
    ∃ t s' : Settlement, twoBatches.run Env.small (fun _ => some "") opsBefore = some t ∧
      twoBatches.run Env.small (fun _ => some "")
        (opsBefore ++ .nextBatch (.answering "7") :: opsAfter) = some s' ∧
      (t.queue.handleNextBatchRequest Env.small.order (fun _ => some "")
        (.answering "7")).queue = ⟨⟨t.queue.children.headD Batch.new, t.queue.children.tail⟩,
          t.queue.cache.insert "7" t.queue.parent⟩ ∧
      s'.queue.Has (Batch.HasHash Env.small (Env.small.hashString transferOfFive)) ∧
      ∀ a ∈ [5#160, 6#160, 9#160], s'.queue.Has (Batch.HasAddress a) := by
  have hfresh : twoBatches.Fresh (opsBefore ++ .nextBatch (.answering "7") :: opsAfter) :=
    ⟨by decide, fun _ _ => rfl⟩
  obtain ⟨t, hpre⟩ : ∃ t, twoBatches.run Env.small (fun _ => some "") opsBefore = some t :=
    ⟨_, rfl⟩
  obtain ⟨s', hrun⟩ : ∃ s', twoBatches.run Env.small (fun _ => some "")
      (opsBefore ++ .nextBatch (.answering "7") :: opsAfter) = some s' := ⟨_, rfl⟩
  obtain ⟨htransactions, haccounts, hrequests⟩ :=
    no_item_lost Env.small (fun _ => some "") hfresh hrun
  have hparent : t.queue.parent.empty = false := by
    cases hpre
    rfl
  refine ⟨t, s', hpre, hrun, ?_, htransactions transferOfFive (by simp [opsBefore]), ?_⟩
  · exact (hrequests opsBefore (.answering "7") opsAfter t rfl hpre).2 "7" hparent ⟨rfl, rfl, rfl⟩
  · intro a ha
    simp only [List.mem_cons, List.not_mem_nil, or_false] at ha
    rcases ha with rfl | rfl | rfl
    · exact haccounts (.build .user 5#160) (by simp [opsAfter])
    · exact haccounts (.build .user 6#160) (by simp [opsAfter])
    · exact haccounts (.build (.program 9#160) 5#160) (by simp [opsBefore])

end Lasr
