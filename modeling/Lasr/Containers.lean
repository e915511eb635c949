import Lasr.Interleave
import Lasr.Wire

/-!
# Container runs

`OciManager::run_container` of `compute/src/compute.rs` : the thread that the executor starts
for a call. It empties the file that is named after the content id, has the container write its
standard output there, reads the file back once the container has ended, reports to the
executor and removes the file. What the thread returns is awaited by the executor.

The file belongs to the content, not to the call. A run that is the only one of its content as
long as it lasts ends with the output of its own container, whatever an earlier run left behind
and whatever else runs (`outcome_of_alone`), so the node applies what the program computes of
the inputs of the call (`pending_of_container`). Nothing in the node sees to that : of two calls of
one program at the same time either may end with the output of the other, while that one fails
and is never reported (`outcome_swapped`), and a run that starts empties the output of one that
is about to read it (`outcome_lost`).

What the operating system and the container do is read from `ContainerCall` : the errors of the
steps, and what the container makes of its standard input.
-/

set_option linter.unusedSectionVars false

namespace Lasr

/-! ## Files -/

/-- The file that is named after a content id. A writer that has it open goes on with the file
it opened, also after another one has taken the name. -/
structure OutFile where
  /-- The file that has the name. -/
  link : Option ℕ
  /-- The files that had the name, and what they contain. -/
  files : ℕ → List UInt8
  /-- How many files had the name. -/
  count : ℕ

namespace OutFile

/-- `File::create` : the file of that name is emptied, or a new one is made. -/
def create (self : OutFile) : ℕ × OutFile :=
  match self.link with
  | some i => (i, { self with files := Function.update self.files i [] })
  | none => (self.count, ⟨some self.count, Function.update self.files self.count [],
      self.count + 1⟩)

/-- Bytes at an offset, after zeros if the file ends before it. -/
def overwrite (bytes : List UInt8) (offset : ℕ) (data : List UInt8) : List UInt8 :=
  (bytes ++ List.replicate (offset - bytes.length) 0).take offset ++ data ++
    bytes.drop (offset + data.length)

theorem create_link (self : OutFile) : self.create.2.link = some self.create.1 := by
  unfold create
  split
  · next h => exact h
  · rfl

theorem create_files (self : OutFile) : self.create.2.files self.create.1 = [] := by
  unfold create
  split <;> exact Function.update_self _ _ _

/-- A write to an open file. -/
def write (file offset : ℕ) (data : List UInt8) (self : OutFile) : OutFile :=
  { self with
    files := Function.update self.files file (overwrite (self.files file) offset data) }

/-- A write at the end of a file adds to it. -/
theorem overwrite_end (bytes data : List UInt8) :
    overwrite bytes bytes.length data = bytes ++ data := by
  simp [overwrite]

/-- `remove_file` : the name is taken away, if there is a file of that name. -/
def remove (self : OutFile) : Bool × OutFile :=
  match self.link with
  | some _ => (true, { self with link := none })
  | none => (false, self)

end OutFile

theorem OutFile.remove_link (self : OutFile) : self.remove.2.link = none := by
  unfold OutFile.remove
  split
  · rfl
  · next h => exact h

/-- The text that bytes encode. -/
def utf8Decode (bytes : List UInt8) : Option String := String.fromUTF8? ⟨bytes.toArray⟩

/-- The bytes of a text. -/
def utf8Encode (text : String) : List UInt8 := text.toUTF8.data.toList

theorem utf8Decode_utf8Encode (text : String) : utf8Decode (utf8Encode text) = some text := by
  have hbytes : (⟨(utf8Encode text).toArray⟩ : ByteArray) = text.toUTF8 := by
    rw [utf8Encode, Array.toArray_toList]
  rw [utf8Decode, hbytes]
  exact dif_pos text.isValidUTF8

/-! ## Operations -/

/-- What the thread of a run does to its surroundings. -/
inductive ContainerOp where
  /-- `metadata(path).is_ok()`. -/
  | exists (contentId : String)
  /-- `File::create`, and `write` of no bytes. -/
  | create (contentId : String)
  /-- A write of the container to its standard output. -/
  | write (contentId : String) (file offset : ℕ) (data : List UInt8)
  /-- `File::open`. -/
  | open (contentId : String)
  /-- `read_to_string`. -/
  | read (contentId : String) (file : ℕ)
  /-- `actor.cast` of the results. -/
  | report (id : ℕ)
  /-- `remove_file`. -/
  | remove (contentId : String)
  /-- The end of the thread, with what its handle returns. -/
  | finish (id : ℕ) (result : Except String String)

/-- The effects of a run. -/
abbrev containerEffects : Signature where
  Op := ContainerOp
  Resp
    | .exists _ => Bool
    | .create _ => ℕ
    | .open _ => Option ℕ
    | .read _ _ => List UInt8
    | .remove _ => Bool
    | _ => Unit

/-- The file of a content, and what is known of a run. -/
inductive ContainerKey where
  | file (contentId : String)
  | run (id : ℕ)
  deriving DecidableEq

/-- What has come of a run : whether it was reported to the executor, and what its handle
returns. -/
structure RunState where
  reported : Bool
  outcome : Option (Except String String)

/-- The cells of the store. -/
abbrev ContainerCell : ContainerKey → Type
  | .file _ => OutFile
  | .run _ => RunState

/-- The store. -/
abbrev Disk := (k : ContainerKey) → ContainerCell k

/-- The cell an operation touches. -/
def ContainerOp.key : ContainerOp → ContainerKey
  | .exists contentId => .file contentId
  | .create contentId => .file contentId
  | .write contentId _ _ _ => .file contentId
  | .open contentId => .file contentId
  | .read contentId _ => .file contentId
  | .report id => .run id
  | .remove contentId => .file contentId
  | .finish id _ => .run id

/-- What an operation does. -/
def containerHandler : Handler containerEffects Disk
  | .exists contentId, m => ((m (.file contentId)).link.isSome, m)
  | .create contentId, m => ((m (.file contentId)).create.1,
      Function.update m (.file contentId) (m (.file contentId)).create.2)
  | .write contentId file offset data, m => ((),
      Function.update m (.file contentId) ((m (.file contentId)).write file offset data))
  | .open contentId, m => ((m (.file contentId)).link, m)
  | .read contentId file, m => ((m (.file contentId)).files file, m)
  | .report id, m => ((), Function.update m (.run id) { m (.run id) with reported := true })
  | .remove contentId, m => ((m (.file contentId)).remove.1,
      Function.update m (.file contentId) (m (.file contentId)).remove.2)
  | .finish id result, m => ((),
      Function.update m (.run id) { m (.run id) with outcome := some result })

/-- An operation touches its cell only. -/
def containerCells : KeyedHandler containerEffects ContainerKey ContainerCell where
  handler := containerHandler
  key o := some o.key
  frame o m k hk := by
    have hne : k ≠ o.key := fun h => hk (congrArg some h.symm)
    cases o with
    | «exists» | «open» | read => rfl
    | create | write | report | remove | finish => exact Function.update_of_ne hne _ _
  read o m m' h := by
    have hcell := h o.key rfl
    cases o with
    | «exists» | «open» | read =>
      simp only [ContainerOp.key] at hcell
      exact ⟨by simp only [containerHandler, hcell], fun k hk => h k hk⟩
    | create | write | report | remove | finish =>
      simp only [ContainerOp.key] at hcell
      refine ⟨by simp only [containerHandler, hcell], fun k hk => ?_⟩
      obtain rfl := Option.some.inj hk
      simp only [containerHandler, ContainerOp.key, Function.update_self, hcell]

theorem containerHandler_frame {o : ContainerOp} {k : ContainerKey} (m : Disk) (h : o.key ≠ k) :
    (containerHandler o m).2 k = m k :=
  containerCells.frame o m k fun hk => h (Option.some.inj hk)

/-! ## The thread of a run -/

/-- Where the operating system may fail a run. -/
inductive RunStage where
  | createDir
  | truncate
  | create
  | spawn
  | wait
  | open
  | read
  | actor
  | cast
  | remove

/-- What a container does with its standard input : what it writes, in pieces, and whether it
ends well. -/
structure ContainerProcess where
  writes : List (List UInt8)
  success : Bool

/-- A call of `run_container`. -/
structure ContainerCall where
  /-- The handle of the thread. -/
  id : ℕ
  contentId : String
  inputs : Inputs
  /-- `temp_dir()`. -/
  tempDir : String
  /-- The file that is read back, as it is debugged. -/
  file : String
  /-- What the container does. -/
  process : String → ContainerProcess
  /-- The error of the operating system at a stage, as it is debugged. -/
  fault : RunStage → Option String
  /-- The error of bytes that are no text, as it is debugged. -/
  invalidUtf8 : String

namespace ContainerCall

/-- A program of a run. -/
abbrev RunM (α : Type) := Prog containerEffects String α

section Thread

variable (self : ContainerCall)

/-- `temp_file_path`, as it is debugged. -/
def tempFilePath : String :=
  Engine.errorText (self.tempDir ++ "/lasr/" ++ self.contentId ++ ".out")

/-- The text of the error at a stage. -/
def errorText (e : String) : RunStage → String
  | .createDir => "Error creating temp conatiner path " ++ self.tempFilePath ++ ": " ++ e
  | .truncate => "Error writing container metadata to " ++ self.tempFilePath ++ ": " ++ e
  | .create => "Error creating temp container file in path " ++ self.tempFilePath ++ ":  " ++ e
  | .spawn => "Error executing runsc command for " ++ self.contentId ++ ": " ++ e
  | .wait => "Error retrieving child status: " ++ e
  | .open => "Failed to open " ++ self.tempFilePath ++ ": " ++ e
  | .read => "Failed to parse " ++ self.file ++ " for output results: " ++ e
  | .actor => "unable to acquire Executor actor from inside container execution thread"
  | .cast => "Failed to cast message to executor: " ++ e
  | .remove => "Error removing temp container file " ++ self.tempFilePath ++ ": " ++ e

/-- A stage that the operating system may fail. -/
def pass (stage : RunStage) : Except String Unit :=
  match self.fault stage with
  | none => .ok ()
  | some e => .error (self.errorText e stage)

/-- The error of a file that is not there. -/
def notFound : String :=
  "Os \x7b code: 2, kind: NotFound, message: \"No such file or directory\" \x7d"

/-- Empty the file, if there is one. -/
def truncate : RunM Unit := do
  if ← Prog.perform (E := containerEffects) (.exists self.contentId) then
    .ofExcept (self.pass .truncate)
    let _ ← Prog.perform (E := containerEffects) (.create self.contentId)
    pure ()
  else pure ()

/-- Empty the file, and open it for the output of the container. -/
def prepare : RunM ℕ := do
  .ofExcept (self.pass .createDir)
  self.truncate
  .ofExcept (self.pass .create)
  Prog.perform (E := containerEffects) (.create self.contentId)

/-- What the container writes to its standard output. -/
def writeAll (contentId : String) (file : ℕ) : ℕ → List (List UInt8) → RunM Unit
  | _, [] => pure ()
  | offset, data :: rest => do
    Prog.perform (E := containerEffects) (.write contentId file offset data)
    writeAll contentId file (offset + data.length) rest

/-- The container of the call, with the inputs on its standard input. -/
def child : ContainerProcess := self.process (stdioInputs self.inputs)

/-- Start the container, and wait for its end. -/
def execute (file : ℕ) : RunM Unit := do
  .ofExcept (self.pass .spawn)
  writeAll self.contentId file 0 self.child.writes
  .ofExcept (self.pass .wait)
  if self.child.success then pure () else .fail "runsc command failed"

/-- The error of a container that wrote nothing. -/
def emptyOutput : String := "temporary file is empty after container execution"

/-- A text that is not empty. -/
def checked : Option String → Except String String
  | none => .error (self.errorText self.invalidUtf8 .read)
  | some outputs => if outputs.isEmpty then .error emptyOutput else .ok outputs

/-- The text of a file with these bytes. -/
def textOf (bytes : List UInt8) : Except String String := do
  self.pass .read
  self.checked (utf8Decode bytes)

/-- Read the file that has the name. -/
def readBack : Option ℕ → RunM String
  | none => .fail (self.errorText notFound .open)
  | some file => do
    let bytes ← Prog.perform (E := containerEffects) (.read self.contentId file)
    .ofExcept (self.textOf bytes)

/-- Read the output of the container. -/
def collect : RunM String := do
  .ofExcept (self.pass .open)
  let file ← Prog.perform (E := containerEffects) (.open self.contentId)
  self.readBack file

/-- Run the container. -/
def launch : RunM Unit := do
  let file ← self.prepare
  self.execute file

/-- Read the output, and find the executor. -/
def fetch : RunM String := do
  let outputs ← self.collect
  .ofExcept (self.pass .actor)
  .ofExcept (self.pass .cast)
  return outputs

/-- Report to the executor, and remove the file. -/
def inform (outputs : String) : RunM String := do
  Prog.perform (E := containerEffects) (.report self.id)
  .ofExcept (self.pass .remove)
  if ← Prog.perform (E := containerEffects) (.remove self.contentId) then pure outputs
  else .fail (self.errorText notFound .remove)

/-- The future of the thread. -/
def thread : RunM String := do
  self.launch
  let outputs ← self.fetch
  self.inform outputs

/-- The thread, and what its handle returns. -/
def body : Prog containerEffects Empty Unit := do
  let result ← self.thread.caught
  Prog.perform (E := containerEffects) (.finish self.id result)

end Thread

/-! ## What becomes of a run alone -/

section Outcome

variable (self : ContainerCall)

/-- `truncate`, where there was a file of that name or not. -/
def truncated (existed : Bool) : Except String Unit :=
  if existed then self.pass .truncate else .ok ()

/-- `prepare`, where there was a file of that name or not. -/
def prepared (existed : Bool) : Except String Unit := do
  self.pass .createDir
  self.truncated existed
  self.pass .create

/-- `execute`. -/
def executed : Except String Unit := do
  self.pass .spawn
  self.pass .wait
  if self.child.success then .ok () else .error "runsc command failed"

/-- `launch`, where there was a file of that name or not. -/
def launched (existed : Bool) : Except String Unit := do
  self.prepared existed
  self.executed

/-- `collect`, of a file with these bytes. -/
def collected (bytes : List UInt8) : Except String String := do
  self.pass .open
  self.textOf bytes

/-- `fetch`, of a file with these bytes. -/
def fetched (bytes : List UInt8) : Except String String := do
  let outputs ← self.collected bytes
  self.pass .actor
  self.pass .cast
  return outputs

/-- The output of its own container, if the run gets as far as reporting it. -/
def output (existed : Bool) : Except String String := do
  self.launched existed
  self.fetched self.child.writes.flatten

/-- What its handle returns, and whether it was reported. -/
def ownRun (existed : Bool) : ContainerRun where
  reports := (self.output existed).isOk
  outcome := do
    let outputs ← self.output existed
    self.pass .remove
    return outputs

/-- What is to be known of it in the end. -/
def ownState (existed : Bool) : RunState :=
  ⟨(self.ownRun existed).reports, some (self.ownRun existed).outcome⟩

end Outcome

/-! ## The thread alone -/

section Alone

variable {self : ContainerCall} {m : Disk}

/-- Within the file of its content a block of the thread leaves what is known of runs. -/
theorem run_state {α : Type} {p : RunM α} {contentId : String}
    (hp : p.Within containerCells {.file contentId}) (id : ℕ) :
    (p.run containerHandler m).2 (.run id) = m (.run id) :=
  Prog.run_frame (H := containerCells) hp (by simp)

theorem within_pass (self : ContainerCall) (stage : RunStage) (F : Set ContainerKey) :
    (Prog.ofExcept (self.pass stage) : RunM Unit).Within containerCells F :=
  Prog.meets_ofExcept fun _ _ => trivial

theorem within_perform {o : ContainerOp} {F : Set ContainerKey} (h : o.key ∈ F) :
    (Prog.perform (E := containerEffects) o : RunM _).Within containerCells F :=
  ⟨fun _ hk => Option.some.inj hk ▸ h, fun _ => trivial⟩

theorem within_fileOp {o : ContainerOp} {contentId : String} (h : o.key = .file contentId) :
    (Prog.perform (E := containerEffects) o : RunM _).Within containerCells {.file contentId} :=
  within_perform (Set.mem_singleton_iff.2 h)

theorem within_truncate (self : ContainerCall) :
    self.truncate.Within containerCells {.file self.contentId} := by
  refine (within_fileOp rfl).bind fun existed _ => ?_
  cases existed with
  | false => trivial
  | true =>
    refine (within_pass self .truncate _).bind fun _ _ => ?_
    exact (within_fileOp rfl).bind fun _ _ => Prog.meets_ret trivial

theorem within_prepare (self : ContainerCall) :
    self.prepare.Within containerCells {.file self.contentId} := by
  refine (within_pass self .createDir _).bind fun _ _ => ?_
  refine (within_truncate self).bind fun _ _ => ?_
  refine (within_pass self .create _).bind fun _ _ => ?_
  exact within_fileOp (o := .create self.contentId) rfl

theorem within_writeAll (contentId : String) (file : ℕ) : ∀ (offset : ℕ) (l : List (List UInt8)),
    (writeAll contentId file offset l).Within containerCells {.file contentId}
  | _, [] => trivial
  | offset, data :: rest =>
    (within_fileOp rfl).bind fun _ _ =>
      within_writeAll contentId file (offset + data.length) rest

theorem within_execute (self : ContainerCall) (file : ℕ) :
    (self.execute file).Within containerCells {.file self.contentId} := by
  refine (within_pass self .spawn _).bind fun _ _ => ?_
  refine (within_writeAll _ _ _ _).bind fun _ _ => ?_
  refine (within_pass self .wait _).bind fun _ _ => ?_
  split
  · trivial
  · trivial

theorem within_collect (self : ContainerCall) :
    self.collect.Within containerCells {.file self.contentId} := by
  refine (within_pass self .open _).bind fun _ _ => ?_
  refine (within_fileOp rfl).bind fun file _ => ?_
  cases file with
  | none => trivial
  | some file =>
    exact (within_fileOp rfl).bind fun _ _ =>
      Prog.meets_ofExcept fun _ _ => trivial

theorem within_launch (self : ContainerCall) :
    self.launch.Within containerCells {.file self.contentId} :=
  (within_prepare self).bind fun file _ => within_execute self file

theorem within_fetch (self : ContainerCall) :
    self.fetch.Within containerCells {.file self.contentId} := by
  refine (within_collect self).bind fun outputs _ => ?_
  refine (within_pass self .actor _).bind fun _ _ => ?_
  exact (within_pass self .cast _).bind fun _ _ => Prog.meets_ret trivial

/-- The thread, up to where it knows the executor. -/
def produce (self : ContainerCall) : RunM String := do
  self.launch
  self.fetch

theorem within_produce (self : ContainerCall) :
    self.produce.Within containerCells {.file self.contentId} :=
  (within_launch self).bind fun _ _ => within_fetch self

theorem thread_eq (self : ContainerCall) : self.thread = self.produce >>= self.inform := by
  unfold thread produce
  exact (Prog.bind_assoc _ _ _).symm

theorem within_inform (self : ContainerCall) (outputs : String) :
    (self.inform outputs).Within containerCells {.file self.contentId, .run self.id} := by
  refine (within_perform (Or.inr rfl)).bind fun _ _ => ?_
  refine (within_pass self .remove _).bind fun _ _ => ?_
  refine (within_perform (Or.inl rfl)).bind fun removed _ => ?_
  cases removed with
  | false => trivial
  | true => trivial

theorem within_body (self : ContainerCall) :
    self.body.Within containerCells {.file self.contentId, .run self.id} := by
  have hproduce : self.produce.Within containerCells {.file self.contentId, .run self.id} :=
    (within_produce self).mono (fun _ h k hk => Or.inl (h k hk)) fun _ h => h
  have hthread : self.thread.Within containerCells {.file self.contentId, .run self.id} :=
    thread_eq self ▸ hproduce.bind fun outputs _ => within_inform self outputs
  refine hthread.caught.bind fun result _ => ?_
  exact ⟨fun _ hk => Option.some.inj hk ▸ Or.inr rfl, fun _ => trivial⟩

/-- The file of the name is open for the container, and empty. -/
def Ready (contentId : String) (file : ℕ) (bytes : List UInt8) (m : Disk) : Prop :=
  (m (.file contentId)).link = some file ∧ (m (.file contentId)).files file = bytes

theorem ready_create {contentId : String} :
    Ready contentId (containerHandler (.create contentId) m).1 []
      (containerHandler (.create contentId) m).2 := by
  simp only [Ready, containerHandler, Function.update_self]
  exact ⟨OutFile.create_link _, OutFile.create_files _⟩

theorem truncate_follows : self.truncate.Follows containerHandler m
    (self.truncated (m (.file self.contentId)).link.isSome) fun _ _ _ => True := by
  unfold truncate truncated
  refine Prog.Follows.op ?_
  change Prog.Follows containerHandler
    (if (m (.file self.contentId)).link.isSome then _ else _) m _ _
  split
  · cases hpass : self.pass .truncate with
    | error e => rfl
    | ok u => exact ⟨(), _, rfl, trivial⟩
  · exact Prog.follows_ret trivial

/-- The run fails before its container starts, or has an empty file of the name. -/
theorem prepare_follows : self.prepare.Follows containerHandler m
    (self.prepared (m (.file self.contentId)).link.isSome)
    fun file _ m' => Ready self.contentId file [] m' := by
  refine Prog.follows_ofExcept.bind ?_
  rintro _ _ m' ⟨-, rfl⟩
  refine truncate_follows.bind fun _ _ m' _ => ?_
  refine Prog.follows_ofExcept.andThen ?_
  rintro _ _ m' ⟨-, rfl⟩
  exact ⟨_, _, rfl, ready_create⟩

/-- The writes of the container add up in its file. -/
theorem writeAll_follows {file : ℕ} : ∀ {l : List (List UInt8)} {bytes : List UInt8} {m : Disk},
    Ready self.contentId file bytes m →
      (writeAll self.contentId file bytes.length l).Follows containerHandler m
        (.ok () : Except String Unit)
        fun _ _ m' => Ready self.contentId file (bytes ++ l.flatten) m'
  | [], bytes, m, h => by
    rw [List.flatten_nil, List.append_nil]
    exact Prog.follows_ret h
  | data :: rest, bytes, m, h => by
    have hready : Ready self.contentId file (bytes ++ data)
        (containerHandler (.write self.contentId file bytes.length data) m).2 := by
      simp only [Ready, containerHandler, Function.update_self]
      refine ⟨h.1, ?_⟩
      simp only [OutFile.write, Function.update_self, h.2, OutFile.overwrite_end]
    have ih := writeAll_follows (l := rest) hready
    rw [List.length_append, List.append_assoc] at ih
    exact ih

theorem execute_follows {file : ℕ} (h : Ready self.contentId file [] m) :
    (self.execute file).Follows containerHandler m self.executed
      fun _ _ m' => Ready self.contentId file self.child.writes.flatten m' := by
  refine Prog.follows_ofExcept.bind ?_
  rintro _ _ m' ⟨-, rfl⟩
  refine (writeAll_follows h).after fun _ m' hm' => ?_
  refine Prog.follows_ofExcept.bind ?_
  rintro _ _ m' ⟨-, rfl⟩
  split
  · exact Prog.follows_ret hm'
  · rfl

theorem launch_follows : self.launch.Follows containerHandler m
    (self.launched (m (.file self.contentId)).link.isSome)
    fun _ _ m' => ∃ file, Ready self.contentId file self.child.writes.flatten m' :=
  prepare_follows.bind fun file _ _ hm' => (execute_follows hm').mono fun _ _ _ h => ⟨file, h⟩

/-- It reads the file that has the name. -/
theorem collect_follows {file : ℕ} {bytes : List UInt8} (h : Ready self.contentId file bytes m) :
    self.collect.Follows containerHandler m (self.collected bytes)
      fun outputs outputs' m' => outputs = outputs' ∧ m' = m := by
  refine Prog.follows_ofExcept.bind ?_
  rintro _ _ m' ⟨-, rfl⟩
  refine Prog.Follows.op ?_
  change Prog.Follows containerHandler (self.readBack (m' (.file self.contentId)).link) m' _ _
  rw [h.1]
  refine Prog.Follows.op ?_
  change Prog.Follows containerHandler
    (.ofExcept (self.textOf ((m' (.file self.contentId)).files file))) m' _ _
  rw [h.2]
  exact Prog.follows_ofExcept

theorem fetch_follows {file : ℕ} {bytes : List UInt8} (h : Ready self.contentId file bytes m) :
    self.fetch.Follows containerHandler m (self.fetched bytes)
      fun outputs outputs' m' => outputs = outputs' ∧ m' = m := by
  refine (collect_follows h).bind ?_
  rintro outputs _ _ ⟨rfl, rfl⟩
  refine Prog.follows_ofExcept.bind ?_
  rintro _ _ m' ⟨-, rfl⟩
  refine Prog.follows_ofExcept.bind ?_
  rintro _ _ m' ⟨-, rfl⟩
  exact Prog.follows_ret ⟨rfl, rfl⟩

theorem produce_follows : self.produce.Follows containerHandler m
    (self.output (m (.file self.contentId)).link.isSome) fun outputs outputs' m' =>
      outputs = outputs' ∧ (m' (.file self.contentId)).link.isSome := by
  refine launch_follows.bind ?_
  rintro _ _ m' ⟨file, hm'⟩
  refine (fetch_follows hm').mono ?_
  rintro outputs _ _ ⟨rfl, rfl⟩
  exact ⟨rfl, by rw [hm'.1]; rfl⟩

/-- The report is made before anything else can fail. -/
theorem run_inform (outputs : String) (h : (m (.file self.contentId)).link.isSome) :
    (self.inform outputs |>.run containerHandler m).1 =
        (do self.pass .remove; return outputs : Except String String) ∧
      ((self.inform outputs |>.run containerHandler m).2 (.run self.id)).reported = true := by
  have hcell : ((containerHandler (.report self.id) m).2 (.run self.id)).reported = true := by
    simp only [containerHandler, Function.update_self]
  have hfile : (containerHandler (.report self.id) m).2 (.file self.contentId) =
      m (.file self.contentId) := containerHandler_frame m (by simp [ContainerOp.key])
  unfold inform
  simp only [Prog.perform, Prog.op_bind, Prog.run_op, Prog.ret_bind]
  rw [Prog.run_ofExcept_bind]
  cases self.pass .remove with
  | error e => exact ⟨rfl, hcell⟩
  | ok u =>
    obtain ⟨i, hi⟩ := Option.isSome_iff_exists.1 h
    have hremove : (containerHandler (.remove self.contentId)
        (containerHandler (.report self.id) m).2).1 = true := by
      simp only [containerHandler] at hfile ⊢
      rw [hfile, OutFile.remove, hi]
    dsimp only
    rw [Prog.run_op, hremove]
    refine ⟨rfl, Eq.trans ?_ hcell⟩
    have hframe := containerHandler_frame (o := .remove self.contentId) (k := .run self.id)
      (containerHandler (.report self.id) m).2 (by simp [ContainerOp.key])
    exact congrArg RunState.reported hframe

/-- Alone, a run ends with the output of its own container, whatever the file of its content was
before. -/
theorem run_body (h : m (.run self.id) = ⟨false, none⟩) :
    (self.body.run containerHandler m).2 (.run self.id) =
      self.ownState (m (.file self.contentId)).link.isSome := by
  have hbody : (self.body.run containerHandler m).2 (.run self.id) =
      ⟨((self.thread.run containerHandler m).2 (.run self.id)).reported,
        some (self.thread.run containerHandler m).1⟩ := by
    unfold body
    rw [Prog.run_bind, Prog.run_caught]
    exact Function.update_self _ _ _
  have hfollows : self.produce.Follows containerHandler m _ _ := produce_follows
  have hstate := run_state (m := m) (within_produce self) self.id
  rw [hbody, ownState, ownRun, thread_eq, Prog.run_bind]
  unfold Prog.Follows at hfollows
  cases hout : self.output (m (.file self.contentId)).link.isSome with
  | error e =>
    rw [hout] at hfollows
    rcases hrun : self.produce.run containerHandler m with ⟨x, m₁⟩
    rw [hrun] at hfollows hstate
    dsimp only at hfollows hstate
    rw [hfollows]
    dsimp only
    rw [hstate, h]
    rfl
  | ok outputs =>
    rw [hout] at hfollows
    obtain ⟨outputs', m₁, hrun, rfl, hlink⟩ := hfollows
    rw [hrun] at hstate ⊢
    dsimp only at hstate ⊢
    obtain ⟨houtcome, hreported⟩ := run_inform outputs' hlink
    rw [houtcome, hreported]
    rfl

end Alone

variable {r : ContainerCall} {text : String}

/-- A run that ends with a text ends with what its container wrote. -/
theorem decode_of_outcome {existed : Bool}
    (h : (r.ownRun existed).outcome = .ok text) :
    utf8Decode r.child.writes.flatten = some text := by
  obtain ⟨outputs, houtput, h⟩ := Except.bind_eq_ok_iff.1 h
  obtain ⟨_, -, h⟩ := Except.bind_eq_ok_iff.1 h
  cases h
  obtain ⟨_, -, hfetched⟩ := Except.bind_eq_ok_iff.1 houtput
  obtain ⟨outputs', hcollected, h⟩ := Except.bind_eq_ok_iff.1 hfetched
  obtain ⟨_, -, h⟩ := Except.bind_eq_ok_iff.1 h
  obtain ⟨_, -, h⟩ := Except.bind_eq_ok_iff.1 h
  cases h
  obtain ⟨_, -, htext⟩ := Except.bind_eq_ok_iff.1 hcollected
  obtain ⟨_, -, hchecked⟩ := Except.bind_eq_ok_iff.1 htext
  cases hdecode : utf8Decode r.child.writes.flatten with
  | none =>
    rw [hdecode] at hchecked
    cases hchecked
  | some outputs' =>
    rw [hdecode, checked] at hchecked
    split_ifs at hchecked
    cases hchecked
    rfl

/-- Nothing goes wrong, and the container writes a text. -/
structure Succeeds (r : ContainerCall) (text : String) : Prop where
  faultless : ∀ stage, r.fault stage = none
  success : r.child.success = true
  writes : utf8Decode r.child.writes.flatten = some text
  nonempty : text.isEmpty = false

theorem Succeeds.pass (h : r.Succeeds text) (stage : RunStage) : r.pass stage = .ok () := by
  rw [ContainerCall.pass, h.faultless]

theorem Succeeds.launched (h : r.Succeeds text) (existed : Bool) :
    r.launched existed = .ok () := by
  unfold ContainerCall.launched prepared executed truncated
  cases existed <;> simp [h.pass, h.success, bind, Except.bind]

theorem Succeeds.fetched (h : r.Succeeds text) (bytes : List UInt8) :
    r.fetched bytes = r.checked (utf8Decode bytes) := by
  unfold ContainerCall.fetched collected textOf
  rw [h.pass, h.pass, h.pass, h.pass]
  cases r.checked (utf8Decode bytes) <;> rfl

/-- It reads the output of whichever container wrote last. -/
theorem Succeeds.fetched_other (h : r.Succeeds text) {r' : ContainerCall} {text' : String}
    (h' : r'.Succeeds text') : r.fetched r'.child.writes.flatten = .ok text' := by
  rw [h.fetched, h'.writes, checked, if_neg (by simp [h'.nonempty])]

theorem Succeeds.ownState (h : r.Succeeds text) (existed : Bool) :
    r.ownState existed = ⟨true, some (.ok text)⟩ := by
  have houtput : r.output existed = .ok text := by
    rw [output, h.launched]
    exact h.fetched_other h
  rw [ContainerCall.ownState, ownRun, houtput, h.pass]
  rfl

/-- It cannot use a file that was emptied. -/
theorem Succeeds.fetched_empty (h : r.Succeeds text) : r.fetched [] = .error emptyOutput := by
  rw [h.fetched, show utf8Decode [] = some "" from utf8Decode_utf8Encode ""]
  rfl

/-- A run of content `c` whose container prints what a program makes of its input. -/
def printing (id : ℕ) (program : String → String) : ContainerCall where
  id := id
  contentId := "c"
  inputs := smallInputs
  tempDir := "/tmp"
  file := "File"
  process stdin := ⟨[utf8Encode (program stdin)], true⟩
  fault _ := none
  invalidUtf8 :=
    "Custom \x7b kind: InvalidData, error: \"stream did not contain valid UTF-8\" \x7d"

theorem printing_succeeds (id : ℕ) {program : String → String}
    (h : (program (stdioInputs smallInputs)).isEmpty = false) :
    (printing id program).Succeeds (program (stdioInputs smallInputs)) where
  faultless _ := rfl
  success := rfl
  writes := by
    have hbytes : (printing id program).child.writes.flatten =
        utf8Encode (program (stdioInputs smallInputs)) := List.append_nil _
    rw [hbytes, utf8Decode_utf8Encode]
  nonempty := h

/-- A run whose container prints a text. -/
def small (id : ℕ) (text : String) : ContainerCall := printing id fun _ => text

theorem small_succeeds (id : ℕ) (text : String) (h : text.isEmpty = false) :
    (small id text).Succeeds text := printing_succeeds id h

end ContainerCall

/-! ## Runs together -/

/-- The threads of the node, over the files. -/
def containerTasks : Tasks containerEffects Empty ContainerKey ContainerCell ContainerCall where
  cells := containerCells
  body := ContainerCall.body
  reads l := {.file l.contentId, .run l.id}
  writes l := {.file l.contentId, .run l.id}
  writes_subset _ := subset_rfl
  within := ContainerCall.within_body
  confined l := (ContainerCall.within_body l).confined

/-- The threads of the node, and what they did. -/
abbrev ContainerPool := Pool containerEffects Empty ContainerKey ContainerCell ContainerCall

/-- A thread that starts has a handle of its own. -/
def OwnHandle (s : ContainerPool) (a : Option ContainerCall) : Prop :=
  ∀ l, a = some l → (∀ t ∈ s.running, t.label.id ≠ l.id) ∧ ∀ l' ∈ s.done, l'.id ≠ l.id

theorem ownHandle_none (s : ContainerPool) : OwnHandle s none := by
  intro l hl
  cases hl

/-- The files as they are when the node starts. -/
def emptyHandles (files : String → OutFile) : Disk
  | .file contentId => files contentId
  | .run _ => ⟨false, none⟩

/-- The pools that are reached from the start of the node, by way of those with a property. -/
inductive ContainerReach (C : ContainerPool → Prop) : ContainerPool → Prop
  | start (files : String → OutFile) : ContainerReach C ⟨emptyHandles files, [], []⟩
  | step {s s' : ContainerPool} {a : Option ContainerCall} (h : ContainerReach C s) (hC : C s)
      (ha : OwnHandle s a) (hs : containerTasks.Step s a s') : ContainerReach C s'

/-- A run is the only one of its content, if it runs. -/
def OnlyOfContent (r : ContainerCall) (s : ContainerPool) : Prop :=
  s.running.Pairwise fun t t' => t.label = r ∨ t'.label = r →
    t.label.contentId ≠ t'.label.contentId

/-- Each run has a handle of its own, and nothing is known of the others. -/
structure Handles (s : ContainerPool) : Prop where
  kept : containerTasks.Kept s
  running : s.running.Pairwise fun t t' => t.label.id ≠ t'.label.id
  done : ∀ l ∈ s.done, ∀ t ∈ s.running, l.id ≠ t.label.id
  fresh : ∀ id, (∀ t ∈ s.running, t.label.id ≠ id) → (∀ l ∈ s.done, l.id ≠ id) →
    s.store (.run id) = ⟨false, none⟩

section Together

open ContainerCall

variable {s s' : ContainerPool} {a : Option ContainerCall}

theorem handles_start (files : String → OutFile) : Handles ⟨emptyHandles files, [], []⟩ where
  kept := ⟨fun _ h => absurd h List.not_mem_nil, fun _ h => absurd h List.not_mem_nil⟩
  running := List.Pairwise.nil
  done _ h := absurd h List.not_mem_nil
  fresh _ _ _ := rfl

theorem Handles.step (h : Handles s) (ha : OwnHandle s a) (hs : containerTasks.Step s a s') :
    Handles s' := by
  have hkept := h.kept.step hs
  obtain ⟨⟨-, hconfined⟩, hrunning, hdone, hfresh⟩ := h
  cases hs with
  | start l =>
    obtain ⟨hnew, hold⟩ := ha l rfl
    refine ⟨hkept, List.pairwise_append.2 ⟨hrunning, List.pairwise_singleton _ _,
      fun t ht t' ht' => ?_⟩, fun l' hl' => List.forall_mem_append.2 ⟨hdone l' hl', ?_⟩,
      fun id hid => hfresh id (List.forall_mem_append.1 hid).1⟩
    · rw [List.mem_singleton.1 ht']
      exact hnew t ht
    · exact List.forall_mem_singleton.2 (hold l' hl')
  | @perform t₁ t₂ l o c hrun =>
    have hop := hconfined ⟨l, .op o c⟩ (by simp [hrun])
    have hids : ∀ P : ContainerCall → Prop, (∀ t ∈ s.running, P t.label) ↔ ∀ t ∈ t₁ ++
        ⟨l, c (containerTasks.cells.handler o s.store).1⟩ :: t₂, P t.label := by
      intro P
      rw [hrun, Tasks.forall_mem_split, Tasks.forall_mem_split]
    refine ⟨hkept, ?_, fun l' hl' => (hids fun l => l'.id ≠ l.id).1 (hdone l' hl'),
      fun id hid hid' => ?_⟩
    · rw [hrun] at hrunning
      simpa [List.pairwise_append, List.pairwise_cons] using hrunning
    · have hid := (hids fun l => l.id ≠ id).2 hid
      refine (hop.1 s.store (.run id) ?_).trans (hfresh id hid hid')
      have hne : l.id ≠ id := hid ⟨l, .op o c⟩ (by simp [hrun])
      simpa [containerTasks] using hne.symm
  | @ret t₁ t₂ l u hrun =>
    rw [hrun] at hrunning
    obtain ⟨h₁, h₂, h₃⟩ := List.pairwise_append.1 hrunning
    obtain ⟨hl, h₂⟩ := List.pairwise_cons.1 h₂
    have hne : ∀ t ∈ t₁ ++ t₂, l.id ≠ t.label.id := by
      intro t ht
      rcases List.mem_append.1 ht with ht | ht
      · exact (h₃ t ht _ List.mem_cons_self).symm
      · exact hl t ht
    refine ⟨hkept, List.pairwise_append.2 ⟨h₁, h₂, fun t ht t' ht' =>
      h₃ t ht t' (List.mem_cons_of_mem _ ht')⟩, List.forall_mem_append.2 ⟨fun l' hl' t ht => ?_,
      List.forall_mem_singleton.2 hne⟩, fun id hid hid' => ?_⟩
    · refine hdone l' hl' t ?_
      rw [hrun]
      exact List.mem_append.2 ((List.mem_append.1 ht).imp_right (List.mem_cons_of_mem _))
    · obtain ⟨hid', hl'⟩ := List.forall_mem_append.1 hid'
      refine hfresh id ?_ hid'
      rw [hrun]
      exact Tasks.forall_mem_split.2 ⟨hl' l List.mem_cons_self, hid⟩
  | @fail _ _ _ e _ => exact e.elim

/-- Runs of different contents, with handles of their own, keep apart. -/
theorem containers_apart {l l' : ContainerCall} (hid : l.id ≠ l'.id)
    (hcontent : l.contentId ≠ l'.contentId) : containerTasks.Apart l l' := by
  have hdisjoint : ∀ {l l' : ContainerCall}, l.id ≠ l'.id → l.contentId ≠ l'.contentId →
      Disjoint (containerTasks.writes l) (containerTasks.reads l') := by
    intro l l' hid hcontent
    simp [containerTasks, Ne.symm hid, Ne.symm hcontent]
  exact ⟨hdisjoint hid hcontent, hdisjoint hid.symm hcontent.symm⟩

theorem not_apart_self (l : ContainerCall) : ¬containerTasks.Apart l l := by
  intro h
  exact Set.disjoint_left.1 h.1 (Or.inl rfl) (Or.inl rfl)

theorem ContainerReach.handles {C : ContainerPool → Prop} (h : ContainerReach C s) :
    Handles s := by
  induction h with
  | start files => exact handles_start files
  | step _ _ ha hs ih => exact ih.step ha hs

/-- One step of the pool, as `ContainerReach` takes it. -/
def ContainerStep (C : ContainerPool → Prop) (s s' : ContainerPool) : Prop :=
  C s ∧ ∃ a, OwnHandle s a ∧ containerTasks.Step s a s'

/-- The pool with a run that starts. -/
def withRun (s : ContainerPool) (r : ContainerCall) : ContainerPool :=
  { s with running := s.running ++ [⟨r, r.body⟩] }

/-- There is a file of the content's name. -/
def fileExists (s : ContainerPool) (contentId : String) : Bool :=
  (s.store (.file contentId)).link.isSome

/-- What is known of a run in the end is what its own container makes of it. -/
def OwnOutcome (r : ContainerCall) (existed : Bool) (m : Disk) : Prop :=
  m (.run r.id) = r.ownState existed

/-- A run started in the pool `s₀`, and ends with what its own container makes of it there. -/
structure StartedIn (r : ContainerCall) (s₀ s : ContainerPool) : Prop where
  reach : ContainerReach (OnlyOfContent r) s₀
  path : Relation.ReflTransGen (ContainerStep (OnlyOfContent r)) (withRun s₀ r) s
  secured : containerTasks.Secured (OwnOutcome r (fileExists s₀ r.contentId)) r s

/-- A run is not there yet. -/
structure Absent (r : ContainerCall) (s : ContainerPool) : Prop where
  done : r ∉ s.done
  running : ∀ t ∈ s.running, t.label ≠ r

theorem absent_of_ownHandle {r : ContainerCall} (h : OwnHandle s (some r)) : Absent r s where
  done hr := (h r rfl).2 r hr rfl
  running t ht hl := (h r rfl).1 t ht (congrArg ContainerCall.id hl)

theorem Absent.step {r : ContainerCall} (h : Absent r s) (ha : a ≠ some r)
    (hs : containerTasks.Step s a s') : Absent r s' := by
  obtain ⟨hdone, hrunning⟩ := h
  cases hs with
  | start l =>
    refine ⟨hdone, List.forall_mem_append.2 ⟨hrunning, List.forall_mem_singleton.2 ?_⟩⟩
    rintro rfl
    exact ha rfl
  | perform hrun =>
    rw [hrun, Tasks.forall_mem_split] at hrunning
    exact ⟨hdone, Tasks.forall_mem_split.2 hrunning⟩
  | ret hrun =>
    rw [hrun, Tasks.forall_mem_split] at hrunning
    refine ⟨fun hmem => ?_, hrunning.2⟩
    rcases List.mem_append.1 hmem with hmem | hmem
    · exact hdone hmem
    · exact hrunning.1 (List.mem_singleton.1 hmem).symm
  | @fail _ _ _ e _ => exact e.elim

/-- It has nothing to be secured of. -/
theorem Absent.secured {r : ContainerCall} {P : Disk → Prop} (h : Absent r s) (hs : Handles s) :
    containerTasks.Secured P r s :=
  ⟨hs.kept, fun t ht hl => absurd hl (h.running t ht), fun hr => absurd hr h.done,
    fun hr => absurd hr h.done⟩

/-- A step keeps a run secured, also the one that starts it. -/
theorem secured_step {r : ContainerCall} {existed : Bool} (hhandles : Handles s)
    (hC : OnlyOfContent r s) (ha : OwnHandle s a) (hs : containerTasks.Step s a s')
    (hstart : a = some r → fileExists s r.contentId = existed)
    (h : containerTasks.Secured (OwnOutcome r existed) r s) :
    containerTasks.Secured (OwnOutcome r existed) r s' := by
  have halone : containerTasks.Alone r s := hhandles.running.imp₂
    (fun _ _ hid hcontent hl => containers_apart hid (hcontent hl)) hC
  refine h.step (D := {.run r.id}) ?_ ?_ (not_apart_self r) halone ?_ ?_ hs
  · intro m m' hm hr
    exact (hm _ rfl).symm.trans hr
  · rintro k rfl
    exact Or.inr rfl
  · intro hr t ht
    have hne := hhandles.done r hr t ht
    simpa [containerTasks] using hne
  · rintro rfl
    obtain ⟨hnew, hold⟩ := ha r rfl
    refine ⟨fun hr => hold r hr rfl, ?_⟩
    rw [← hstart rfl]
    exact ContainerCall.run_body (hhandles.fresh r.id hnew hold)

/-- A run that is there started in some pool. -/
theorem ContainerReach.startedIn {r : ContainerCall} (h : ContainerReach (OnlyOfContent r) s)
    (hr : ¬Absent r s) : ∃ s₀, StartedIn r s₀ s := by
  induction h with
  | start files =>
    exact absurd ⟨List.not_mem_nil, fun _ ht => absurd ht List.not_mem_nil⟩ hr
  | @step s s' a h hC ha hs ih =>
    by_cases habsent : Absent r s
    · obtain rfl : a = some r := by
        by_contra hne
        exact hr (habsent.step hne hs)
      cases hs
      exact ⟨s, h, .refl, secured_step h.handles hC ha (.start r) (fun _ => rfl)
        (habsent.secured h.handles)⟩
    · -- it does not start once more, as its handle is taken
      have hne : a ≠ some r := by
        rintro rfl
        exact habsent (absent_of_ownHandle ha)
      obtain ⟨s₀, hreach, hpath, hsecured⟩ := ih habsent
      exact ⟨s₀, hreach, hpath.tail ⟨hC, a, ha, hs⟩,
        secured_step h.handles hC ha hs (fun h => absurd h hne) hsecured⟩

theorem ownHandle_first {r : ContainerCall} {m : Disk} : OwnHandle ⟨m, [], []⟩ (some r) :=
  fun _ _ => ⟨fun _ ht => absurd ht List.not_mem_nil, fun _ hl => absurd hl List.not_mem_nil⟩

theorem onlyOfContent_of_pairwise {r : ContainerCall} {m : Disk} {done : List ContainerCall}
    {l : List (Future containerEffects Empty ContainerCall)}
    (h : l.Pairwise fun t t' => t.label.contentId ≠ t'.label.contentId) :
    OnlyOfContent r ⟨m, done, l⟩ := by
  refine List.Pairwise.imp ?_ h
  intro t t' hne _
  exact hne

/-- Runs of different contents get to their end, one after another. -/
theorem exists_all_done {r : ContainerCall} :
    ∀ (l : List (Future containerEffects Empty ContainerCall)) {m : Disk}
      {done : List ContainerCall},
      l.Pairwise (fun t t' => t.label.contentId ≠ t'.label.contentId) →
      ContainerReach (OnlyOfContent r) ⟨m, done, l⟩ →
      ∃ m', ContainerReach (OnlyOfContent r) ⟨m', done ++ l.map Future.label, []⟩
  | [], m, done, _, h => ⟨m, by rwa [List.map_nil, List.append_nil]⟩
  | ⟨l, p⟩ :: rest, m, done, hcontents, h => by
    obtain ⟨hl, hrest⟩ := List.pairwise_cons.1 hcontents
    induction p generalizing m with
    | ret u =>
      have hret : containerTasks.Step ⟨m, done, ⟨l, .ret u⟩ :: rest⟩ none
          ⟨m, done ++ [l], [] ++ rest⟩ := .ret rfl
      have hdone := h.step (onlyOfContent_of_pairwise hcontents) (ownHandle_none _) hret
      obtain ⟨m', hm'⟩ := exists_all_done rest hrest hdone
      exact ⟨m', by rwa [List.append_assoc] at hm'⟩
    | fail e => exact e.elim
    | op o c ih =>
      have hop : containerTasks.Step ⟨m, done, ⟨l, .op o c⟩ :: rest⟩ none
          ⟨(containerHandler o m).2, done, [] ++ ⟨l, c (containerHandler o m).1⟩ :: rest⟩ :=
        .perform rfl
      exact ih (containerHandler o m).1 _ (List.pairwise_cons.2 ⟨hl, hrest⟩)
        (h.step (onlyOfContent_of_pairwise hcontents) (ownHandle_none _) hop) hl

/-- The function of a program that logs the name of the operation it was called with. -/
def logOp (inputs : Inputs) : SerdeOutputs := ⟨inputs, [.log (.info inputs.op)]⟩

end Together

/-! ## Two runs of one content -/

namespace ContainerCall

/-- What is left of the thread once its container ended. -/
def deliver (self : ContainerCall) : RunM String := do
  let outputs ← self.fetch
  self.inform outputs

/-- The end of the thread. -/
def ended (self : ContainerCall) (result : Except String String) :
    Prog containerEffects Empty Unit :=
  Prog.perform (E := containerEffects) (.finish self.id result)

end ContainerCall

section Collision

open ContainerCall

variable {r r' : ContainerCall} {text text' : String} {s : ContainerPool} {m m' : Disk}
  {done : List ContainerCall}

theorem ContainerReach.forward {s' : ContainerPool} (h : ContainerReach (fun _ => True) s)
    (hs : Relation.ReflTransGen (fun s s' => containerTasks.Step s none s') s s') :
    ContainerReach (fun _ => True) s' := by
  induction hs with
  | refl => exact h
  | tail _ hs ih => exact .step ih trivial (ownHandle_none _) hs

/-- A thread whose container has run waits with its file. -/
theorem ContainerReach.launch (t₁ t₂ : List (Future containerEffects Empty ContainerCall))
    {u : Unit}
    (h : ContainerReach (fun _ => True) ⟨m, done, t₁ ++ ⟨r, r.body⟩ :: t₂⟩)
    (hrun : r.launch.run containerHandler m = (.ok u, m')) :
    ContainerReach (fun _ => True) ⟨m', done, t₁ ++ ⟨r, r.deliver.caught >>= r.ended⟩ :: t₂⟩ :=
  h.forward (Tasks.forward_caught_bind hrun)

/-- A thread waits with an empty file. -/
theorem ContainerReach.prepare (t₁ t₂ : List (Future containerEffects Empty ContainerCall))
    {file : ℕ}
    (h : ContainerReach (fun _ => True) ⟨m, done, t₁ ++ ⟨r, r.body⟩ :: t₂⟩)
    (hrun : r.prepare.run containerHandler m = (.ok file, m')) :
    ContainerReach (fun _ => True) ⟨m', done,
      t₁ ++ ⟨r, (r.execute file >>= fun _ => r.deliver).caught >>= r.ended⟩ :: t₂⟩ := by
  have hbody : r.body =
      (r.prepare >>= fun file => r.execute file >>= fun _ => r.deliver).caught >>= r.ended := by
    rw [← Prog.bind_assoc]
    rfl
  rw [hbody] at h
  exact h.forward (Tasks.forward_caught_bind hrun)

/-- A thread gets to its end. -/
theorem ContainerReach.finish (t₁ t₂ : List (Future containerEffects Empty ContainerCall))
    {p : RunM String}
    (h : ContainerReach (fun _ => True) ⟨m, done, t₁ ++ ⟨r, p.caught >>= r.ended⟩ :: t₂⟩) :
    ContainerReach (fun _ => True)
      ⟨(containerHandler (.finish r.id (p.run containerHandler m).1)
        (p.run containerHandler m).2).2, done ++ [r], t₁ ++ t₂⟩ := by
  have hforward := h.forward Tasks.forward_caught
  have hfinish := hforward.step trivial (ownHandle_none _) (.perform rfl)
  exact hfinish.step trivial (ownHandle_none _) (.ret rfl)

/-- A thread that finds a text reports it, and takes the file with it. -/
theorem run_deliver {outputs : String} {file : ℕ} {bytes : List UInt8}
    (h : r.Succeeds text) (hm : Ready r.contentId file bytes m)
    (hfetched : r.fetched bytes = .ok outputs) :
    ∃ m', r.deliver.run containerHandler m = (.ok outputs, m') ∧
      (m' (.run r.id)).reported = true ∧ (m' (.file r.contentId)).link = none ∧
      ∀ id, id ≠ r.id → m' (.run id) = m (.run id) := by
  have hfetch := fetch_follows hm
  unfold Prog.Follows at hfetch
  rw [hfetched] at hfetch
  obtain ⟨outputs', m', hrun, heq, hm'⟩ := hfetch
  rw [heq, hm'] at hrun
  have hsome : (m (.file r.contentId)).link.isSome := by
    rw [hm.1]
    rfl
  obtain ⟨houtcome, hreported⟩ := run_inform outputs hsome
  rw [h.pass] at houtcome
  refine ⟨(r.deliver.run containerHandler m).2, ?_, ?_, ?_, ?_⟩
  all_goals unfold deliver
  all_goals rw [Prog.run_bind, hrun]
  · exact Prod.ext houtcome rfl
  · exact hreported
  · unfold inform
    rw [h.pass]
    have hlink : ((containerHandler (.remove r.contentId)
        (containerHandler (.report r.id) m).2).2 (.file r.contentId)).link = none := by
      simp only [containerHandler, Function.update_self]
      exact OutFile.remove_link _
    simp only [Prog.perform, Prog.op_bind, Prog.run_op, Prog.ret_bind, Prog.ofExcept]
    split
    · exact hlink
    · exact hlink
  · intro id hid
    exact Prog.run_frame (H := containerCells) (within_inform r outputs) (by simp [hid])

/-- A thread whose file is gone fails. -/
theorem run_deliver_gone (h : r.Succeeds text) (hm : (m (.file r.contentId)).link = none) :
    r.deliver.run containerHandler m = (.error (r.errorText notFound .open), m) := by
  have hcollect : r.collect.run containerHandler m = (.error (r.errorText notFound .open), m) := by
    unfold collect
    rw [h.pass]
    change (r.readBack (m (.file r.contentId)).link).run containerHandler m = _
    rw [hm]
    rfl
  unfold deliver fetch
  rw [Prog.run_bind, Prog.run_bind, hcollect]

theorem run_launch (h : r.Succeeds text) (m : Disk) :
    ∃ m' file, r.launch.run containerHandler m = (.ok (), m') ∧
      Ready r.contentId file r.child.writes.flatten m' ∧
      ∀ id, m' (.run id) = m (.run id) := by
  have hlaunch : r.launch.Follows containerHandler m _ _ := launch_follows
  unfold Prog.Follows at hlaunch
  rw [h.launched] at hlaunch
  obtain ⟨_, m', hrun, file, hready⟩ := hlaunch
  refine ⟨m', file, hrun, hready, fun id => ?_⟩
  have hstate := run_state (m := m) (within_launch r) id
  rwa [hrun] at hstate

theorem handler_finish (id : ℕ) (result : Except String String) (m : Disk) :
    (containerHandler (.finish id result) m).2 (.run id) =
      ⟨(m (.run id)).reported, some result⟩ := Function.update_self _ _ _

theorem ownHandle_other {a : Future containerEffects Empty ContainerCall}
    (hid : a.label.id ≠ r'.id) : OwnHandle ⟨m, [], [a]⟩ (some r') := by
  intro l hl
  cases hl
  exact ⟨List.forall_mem_singleton.2 hid, fun _ hl => absurd hl List.not_mem_nil⟩

/-- The container of a first run has ended, and a second run starts. -/
theorem ContainerReach.second {files : String → OutFile} (hid : r.id ≠ r'.id)
    (hrun : r.launch.run containerHandler (emptyHandles files) = (.ok (), m)) :
    ContainerReach (fun _ => True)
      ⟨m, [], [⟨r, r.deliver.caught >>= r.ended⟩, ⟨r', r'.body⟩]⟩ := by
  have hstart : ContainerReach (fun _ => True) ⟨emptyHandles files, [], [⟨r, r.body⟩]⟩ :=
    (ContainerReach.start files).step trivial ownHandle_first (.start r)
  exact (hstart.launch [] [] hrun).step trivial (ownHandle_other hid) (.start r')

/-- Two calls of one program at the same time : the first may end with the output of the second,
while that one fails, and is never reported. -/
theorem outcome_swapped (files : String → OutFile) (h : r.Succeeds text)
    (h' : r'.Succeeds text') (hcontent : r'.contentId = r.contentId) (hid : r.id ≠ r'.id) :
    ∃ s, ContainerReach (fun _ => True) s ∧ s.done = [r, r'] ∧ s.running = [] ∧
      s.store (.run r.id) = ⟨true, some (.ok text')⟩ ∧
      s.store (.run r'.id) = ⟨false, some (.error (r'.errorText notFound .open))⟩ := by
  -- both containers have run before the first thread reads the file
  obtain ⟨m₁, file, hrun₁, -, hstate₁⟩ := run_launch h (emptyHandles files)
  obtain ⟨m₂, file', hrun₂, hready, hstate₂⟩ := run_launch h' m₁
  have hboth := (ContainerReach.second hid hrun₁).launch [_] [] hrun₂
  -- the first takes what the second wrote
  rw [hcontent] at hready
  obtain ⟨m₃, hrun₃, hreported, hgone, hstate₃⟩ := run_deliver h hready (h.fetched_other h')
  have hfirst := hboth.finish [] [_]
  rw [hrun₃] at hfirst
  have hgone' : ((containerHandler (.finish r.id (.ok text')) m₃).2
      (.file r'.contentId)).link = none := by
    rw [hcontent]
    exact hgone
  have hsecond := hfirst.finish [] []
  rw [run_deliver_gone h' hgone'] at hsecond
  refine ⟨_, hsecond, rfl, rfl, ?_, ?_⟩
  · change (containerHandler (.finish r'.id (.error (r'.errorText notFound .open)))
      (containerHandler (.finish r.id (.ok text')) m₃).2).2 (.run r.id) = _
    rw [containerHandler_frame _ (by simpa [ContainerOp.key] using hid.symm), handler_finish,
      hreported]
  · change (containerHandler (.finish r'.id (.error (r'.errorText notFound .open)))
      (containerHandler (.finish r.id (.ok text')) m₃).2).2 (.run r'.id) = _
    rw [handler_finish, containerHandler_frame _ (by simpa [ContainerOp.key] using hid),
      hstate₃ _ hid.symm, hstate₂, hstate₁]
    rfl

/-- A run that was to end with `a` ends with `b`. -/
theorem outcome_swapped_small : ∃ s : ContainerPool, s.running = [] ∧
    s.store (.run 0) = ⟨true, some (.ok "b")⟩ := by
  obtain ⟨s, -, -, hidle, hstate, -⟩ := outcome_swapped (fun _ => ⟨none, fun _ => [], 0⟩)
    (small_succeeds 0 "a" rfl) (small_succeeds 1 "b" rfl) rfl (by decide)
  exact ⟨s, hidle, hstate⟩

/-- A run that starts empties the output of one that is about to read it : that one fails, and
is never reported. -/
theorem outcome_lost (files : String → OutFile) (h : r.Succeeds text)
    (h' : r'.prepared true = .ok ()) (hcontent : r'.contentId = r.contentId)
    (hid : r.id ≠ r'.id) :
    ∃ s, ContainerReach (fun _ => True) s ∧ r ∈ s.done ∧
      s.store (.run r.id) = ⟨false, some (.error emptyOutput)⟩ := by
  obtain ⟨m₁, file, hrun₁, hready₁, hstate₁⟩ := run_launch h (emptyHandles files)
  have hprepare : r'.prepare.Follows containerHandler m₁ _ _ := prepare_follows
  unfold Prog.Follows at hprepare
  rw [hcontent, hready₁.1] at hprepare
  rw [show (some file).isSome = true from rfl, h'] at hprepare
  obtain ⟨file', m₂, hrun₂, hready⟩ := hprepare
  have hstate₂ := run_state (m := m₁) (within_prepare r') r.id
  rw [hrun₂] at hstate₂
  have hboth := (ContainerReach.second hid hrun₁).prepare [_] [] hrun₂
  have hfetch := fetch_follows hready
  unfold Prog.Follows at hfetch
  rw [h.fetched_empty] at hfetch
  have hstate₃ := run_state (m := m₂) (within_fetch r) r.id
  have hdeliver : (r.deliver.run containerHandler m₂).1 = .error emptyOutput ∧
      (r.deliver.run containerHandler m₂).2 (.run r.id) = ⟨false, none⟩ := by
    rcases hrun₃ : r.fetch.run containerHandler m₂ with ⟨x, m₃⟩
    rw [hrun₃] at hfetch hstate₃
    dsimp only at hfetch hstate₃
    unfold deliver
    rw [Prog.run_bind, hrun₃, hfetch]
    exact ⟨rfl, hstate₃.trans (hstate₂.trans (hstate₁ r.id))⟩
  refine ⟨_, hboth.finish [] [_], List.mem_singleton_self _, ?_⟩
  refine (handler_finish _ _ _).trans ?_
  rw [hdeliver.1, hdeliver.2]

/-- A run that was to end with `a` ends with an error, and is not reported. -/
theorem outcome_lost_small : ∃ s : ContainerPool, small 0 "a" ∈ s.done ∧
    s.store (.run 0) = ⟨false, some (.error emptyOutput)⟩ := by
  obtain ⟨s, -, hdone, hstate⟩ := outcome_lost (fun _ => ⟨none, fun _ => [], 0⟩)
    (small_succeeds 0 "a" rfl) (show (small 1 "b").prepared true = .ok () from rfl) rfl (by decide)
  exact ⟨s, hdone, hstate⟩

end Collision

end Lasr
