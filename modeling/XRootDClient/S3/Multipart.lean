import XRootDClient.Lib.BigEndian
import XRootDClient.Lib.Run
import XRootDClient.Lib.Stateful
import XRootDClient.Lib.Text

/-!
# Multipart uploads

A raw file opened for writing on an object store: what is small enough to hold goes
out in one PUT when it closes, anything larger as parts named by a manifest. Every
request may fail, and one that fails may have reached the server all the same. Of
an upload that is aborted nothing is followed.
-/

set_option autoImplicit false

namespace XRootDClient.S3

open Lib Lib.BigEndian Lib.Run Lib.Stateful

/-- `MIN_PART_SIZE`, which every part but the last must have. -/
def minPartSize : Nat := 5 * 2 ^ 20

/-- What becomes of a request: answered, with the identifier or the tag the answer
holds; done with its answer lost; or refused. -/
inductive Outcome
  | done (said : Text)
  | lost
  | refused

def Outcome.reached : Outcome → Bool
  | .done _ | .lost => true
  | .refused => false

inductive Error
  | io
  | protocol
  deriving DecidableEq

structure RawIo where
  buffer : Bytes := []
  pending : Bytes := []
  uploadId : Text := []
  parts : List Text := []
  pos : Nat := 0
  done : Bool := false

/-- The parts of the upload in hand, the manifest that was sent, the object that was
accepted, and whether the PUT of a part has raised. -/
structure Bucket where
  stored : Nat → Option Bytes := fun _ => none
  manifest : Option (List (Nat × Text)) := none
  object : Option Bytes := none
  partFailed : Bool := false

structure World where
  io : RawIo := {}
  bucket : Bucket := {}

abbrev Act := EStateM Error World

structure Network where
  begins : Outcome
  part : Outcome

structure Ending where
  part : Outcome
  completes : Outcome
  puts : Outcome

def World.streaming (world : World) : Bool := !world.io.uploadId.isEmpty

def streamAfter (chunkSize : Nat) : Nat := max chunkSize minPartSize

def World.due (final_ : Bool) (world : World) : Bool :=
  world.io.pending.length ≥ minPartSize || (final_ && !world.io.pending.isEmpty)

/-- What is pending has left, and is stored if it reached the server. -/
def World.sent (put : Outcome) (world : World) : World where
  io := { world.io with pending := [] }
  bucket := { world.bucket with
    stored := if put.reached then
      Function.update world.bucket.stored (world.io.parts.length + 1) (some world.io.pending)
    else world.bucket.stored }

/-- `_drain`. What is pending is taken out of hand before it is sent. -/
def drain (final_ : Bool) (put : Outcome) : Act Unit := fun world =>
  if world.due final_ then
    let world := world.sent put
    match put with
    | .done tag => .ok () { world with io := { world.io with parts := world.io.parts ++ [tag] } }
    | .lost | .refused =>
        .error .io { world with bucket := { world.bucket with partFailed := true } }
  else .ok () world

def beginUpload (network : Network) : Act Unit := do
  match network.begins with
  | .lost | .refused => throw .io
  | .done said =>
      modify fun world => { world with io := { world.io with uploadId := said } }
      if said.isEmpty then throw .protocol
      else
        modify fun world => { world with
          io := { world.io with
            pending := world.io.pending ++ world.io.buffer
            buffer := [] }
          bucket := { world.bucket with stored := fun _ => none } }
        drain false network.part

def sendChunk (network : Network) (payload : Bytes) : Act Unit := do
  modify fun world => { world with io := { world.io with pending := world.io.pending ++ payload } }
  drain false network.part

def advance (payload : Bytes) : Act Nat := do
  modify fun world => { world with io := { world.io with pos := world.io.pos + payload.length } }
  return payload.length

def write (chunkSize : Nat) (network : Network) (payload : Bytes) : Act Nat := do
  if !(← get).streaming then
    modify fun world => { world with io := { world.io with buffer := world.io.buffer ++ payload } }
    if (← get).io.buffer.length ≤ streamAfter chunkSize then return payload.length
    else
      beginUpload network
      advance payload
  else
    sendChunk network payload
    advance payload

/-- `_manifest`: the tags of the parts, numbered from one. -/
def manifest (tags : List Text) : List (Nat × Text) :=
  (tags.zipIdx 1).map fun entry => (entry.2, entry.1)

def assembled (stored : Nat → Option Bytes) (parts : List (Nat × Text)) : Bytes :=
  parts.flatMap fun part => (stored part.1).getD []

def finishUpload (ending : Ending) : Act Unit := do
  drain true ending.part
  modify fun world =>
    let parts := manifest world.io.parts
    { world with bucket := { world.bucket with
        manifest := some parts
        object := if ending.completes.reached then some (assembled world.bucket.stored parts)
          else world.bucket.object } }
  match ending.completes with
  | .done _ => return ()
  | .lost | .refused => throw .io

def putBuffered (ending : Ending) : Act Unit := do
  modify fun world => { world with bucket := { world.bucket with
    object := if ending.puts.reached then some world.io.buffer else world.bucket.object } }
  match ending.puts with
  | .done _ => modify fun world => { world with io := { world.io with buffer := [] } }
  | .lost | .refused => throw .io

def close (ending : Ending) : Act Unit := do
  let world ← get
  if world.io.done then return ()
  else
    set { world with io := { world.io with done := true } }
    if world.streaming then finishUpload ending else putBuffered ending

/-- A file being written: what was offered to its writes, what they accepted, and
whether one of them raised. -/
structure Session where
  world : World := {}
  offered : Bytes := []
  accepted : Bytes := []
  failed : Bool := false

def Session.step (chunkSize : Nat) (write_ : Bytes × Network) (session : Session) : Session :=
  let result := write chunkSize write_.2 write_.1 session.world
  { world := final result
    offered := session.offered ++ write_.1
    accepted := if (raised result).isNone then session.accepted ++ write_.1 else session.accepted
    failed := session.failed || (raised result).isSome }

/-- An object that was accepted is what the writes accepted; its parts are numbered
without a gap and each but the last is large enough; and no manifest is sent once a
part has failed. -/
structure Whole (accepted : Bytes) (before after : World) : Prop where
  object : ∀ object, after.bucket.object = some object → object = accepted
  parts : ∀ parts, after.bucket.manifest = some parts →
    parts.map Prod.fst = List.range' 1 parts.length ∧
    ∀ part ∈ parts.dropLast, ∃ body, after.bucket.stored part.1 = some body ∧
      minPartSize ≤ body.length
  unfailed : before.bucket.partFailed = true → after.bucket.manifest = none

/-- The server holds these bodies as the parts so far. -/
structure World.Holds (world : World) (bodies : List Bytes) : Prop where
  count : bodies.length = world.io.parts.length
  stored : ∀ index body, bodies[index]? = some body → world.bucket.stored (index + 1) = some body

/-- Every part so far is large enough, and with what is pending they make up the
content. -/
def World.Carries (world : World) (content : Bytes) : Prop :=
  ∃ bodies, world.Holds bodies ∧ (∀ body ∈ bodies, minPartSize ≤ body.length) ∧
    bodies.flatten ++ world.io.pending = content

structure Frame (world after : World) : Prop where
  done : after.io.done = world.io.done
  manifest : after.bucket.manifest = world.bucket.manifest
  object : after.bucket.object = world.bucket.object

section Drains

variable {world after : World} {put : Outcome}

inductive Drained (world : World) (final_ : Bool) : EStateM.Result Error World Unit → Prop
  | idle (none : world.due final_ = false) : Drained world final_ (.ok () world)
  | sent {after : World} (due : world.due final_ = true)
      (holds : ∀ bodies, world.Holds bodies → after.Holds (bodies ++ [world.io.pending]))
      (pending : after.io.pending = []) (streaming : after.streaming = world.streaming)
      (partFailed : after.bucket.partFailed = world.bucket.partFailed) :
      Drained world final_ (.ok () after)
  | failed {after : World} (streaming : after.streaming = world.streaming)
      (partFailed : after.bucket.partFailed = true) : Drained world final_ (.error .io after)

theorem drain_cases (world : World) (final_ : Bool) (put : Outcome) :
    Drained world final_ (drain final_ put world) := by
  unfold drain
  cases due : world.due final_ with
  | false => exact .idle due
  | true =>
      rw [if_pos rfl]
      cases put with
      | lost | refused => exact .failed rfl rfl
      | done tag =>
          refine .sent due (fun bodies holds => ⟨?_, fun index body found => ?_⟩) rfl rfl rfl
          · simp [World.sent, holds.count]
          · have count := holds.count
            change Function.update world.bucket.stored _ _ _ = _
            rcases Nat.lt_or_ge index bodies.length with early | late
            · rw [List.getElem?_append_left early] at found
              rw [Function.update_of_ne (by omega)]
              exact holds.stored index body found
            · rw [List.getElem?_append_right late, List.getElem?_singleton] at found
              split_ifs at found with last
              cases found
              rw [show index + 1 = world.io.parts.length + 1 by omega, Function.update_self]

theorem carries_drain {content : Bytes} (carries : world.Carries content)
    (returned : drain false put world = .ok () after) :
    after.Carries content ∧ after.streaming = world.streaming ∧
      after.bucket.partFailed = world.bucket.partFailed := by
  obtain ⟨bodies, holds, large, whole⟩ := carries
  have drained := drain_cases world false put
  rw [returned] at drained
  cases drained with
  | idle => exact ⟨⟨bodies, holds, large, whole⟩, rfl, rfl⟩
  | sent due stores pending streaming partFailed =>
      refine ⟨⟨_, stores bodies holds, fun body member => ?_, ?_⟩, streaming, partFailed⟩
      · rcases List.mem_append.mp member with early | last
        · exact large body early
        · rw [List.mem_singleton.mp last]
          simpa [World.due] using due
      · rw [pending, List.append_nil, List.flatten_append, ← whole]
        simp

end Drains

section Writes

variable {chunkSize : Nat} {network : Network} {payload : Bytes} {world : World}

structure World.Idle (world : World) (content : Bytes) : Prop where
  streaming : world.streaming = false
  pending : world.io.pending = []
  parts : world.io.parts = []
  partFailed : world.bucket.partFailed = false
  buffer : world.io.buffer = content

/-- A file whose upload has begun; unless a part has failed it carries the content. -/
structure World.Busy (world : World) (content : Bytes) : Prop where
  streaming : world.streaming = true
  carries : world.bucket.partFailed = false → world.Carries content

inductive Written (chunkSize : Nat) (payload content : Bytes) (world : World) :
    EStateM.Result Error World Nat → Prop
  | held {after : World} (before : world.Idle content) (idle : after.Idle (content ++ payload))
      (room : (content ++ payload).length ≤ streamAfter chunkSize) :
      Written chunkSize payload content world (.ok payload.length after)
  | unbegun {after : World} {error : Error} (before : world.Idle content)
      (idle : after.Idle (content ++ payload))
      (full : streamAfter chunkSize < (content ++ payload).length) :
      Written chunkSize payload content world (.error error after)
  | carried {after : World} (busy : after.Busy (content ++ payload))
      (partFailed : after.bucket.partFailed = world.bucket.partFailed) :
      Written chunkSize payload content world (.ok payload.length after)
  | failed {after : World} {error : Error} (streaming : after.streaming = true)
      (partFailed : after.bucket.partFailed = true) :
      Written chunkSize payload content world (.error error after)

theorem drained_write {content : Bytes} {ready : World} (busy : ready.Busy (content ++ payload))
    (same : ready.bucket.partFailed = world.bucket.partFailed) (put : Outcome) :
    Written chunkSize payload content world
      ((drain false put >>= fun _ => advance payload) ready) := by
  rw [run_bind]
  have drained := drain_cases ready false put
  cases outcome : drain false put ready with
  | ok _ after =>
      refine .carried ⟨?_, fun fine => ?_⟩ ?_
      · rw [outcome] at drained
        cases drained with
        | idle => exact busy.streaming
        | sent _ _ _ streaming => exact streaming.trans busy.streaming
      · have before : ready.bucket.partFailed = false := by
          rw [outcome] at drained
          cases drained with
          | idle => exact fine
          | sent _ _ _ _ partFailed => exact partFailed.symm.trans fine
        obtain ⟨bodies, ⟨count, stored⟩, rest⟩ :=
          (carries_drain (busy.carries before) outcome).1
        exact ⟨bodies, ⟨count, stored⟩, rest⟩
      · rw [outcome] at drained
        cases drained with
        | idle => exact same
        | sent _ _ _ _ partFailed => exact partFailed.trans same
  | error error after =>
      rw [outcome] at drained
      cases drained with
      | failed streaming partFailed => exact .failed (streaming.trans busy.streaming) partFailed

/-- The file once its upload has begun: what it held is pending. -/
def World.begun (said : Text) (world : World) : World where
  io := { world.io with
    uploadId := said
    pending := world.io.pending ++ world.io.buffer
    buffer := [] }
  bucket := { world.bucket with stored := fun _ => none }

theorem begin_upload_starts {said : Text} (begins : network.begins = .done said)
    (named : said.isEmpty = false) :
    beginUpload network world = drain false network.part (world.begun said) := by
  unfold beginUpload
  rw [begins]
  simp only [run_bind, run_modify, named, Bool.false_eq_true, if_false]
  rfl

theorem World.Idle.begun {content : Bytes} (idle : world.Idle content) {said : Text}
    (named : said.isEmpty = false) : (world.begun said).Busy content := by
  refine ⟨by simpa [World.begun, World.streaming] using named, fun _ => ?_⟩
  refine ⟨[], ⟨?_, fun index body found => ?_⟩, ?_, ?_⟩
  · simp [World.begun, idle.parts]
  · simp at found
  · exact fun body member => absurd member List.not_mem_nil
  · simp [World.begun, idle.pending, idle.buffer]

theorem begun_write {content : Bytes} (idle : world.Idle (content ++ payload))
    (before : World) (was : before.Idle content)
    (full : streamAfter chunkSize < (content ++ payload).length) :
    Written chunkSize payload content before
      ((beginUpload network >>= fun _ => advance payload) world) := by
  cases begins : network.begins with
  | lost | refused =>
      unfold beginUpload
      rw [begins]
      exact .unbegun was idle full
  | done said =>
      cases named : said.isEmpty with
      | true =>
          have same : said = [] := List.isEmpty_iff.mp named
          unfold beginUpload
          rw [begins]
          simp only [run_bind, run_modify, named, if_true, run_throw]
          refine .unbegun was ⟨?_, idle.pending, idle.parts, idle.partFailed, idle.buffer⟩ full
          simp [World.streaming, same]
      | false =>
          have drained := @drained_write chunkSize payload before content _ (idle.begun named)
            (idle.partFailed.trans was.partFailed.symm) network.part
          rw [run_bind] at drained ⊢
          rw [begin_upload_starts begins named]
          exact drained

def World.held (payload : Bytes) (world : World) : World :=
  { world with io := { world.io with buffer := world.io.buffer ++ payload } }

def World.queued (payload : Bytes) (world : World) : World :=
  { world with io := { world.io with pending := world.io.pending ++ payload } }

theorem write_idle (idle : world.streaming = false) :
    write chunkSize network payload world =
      if (world.io.buffer ++ payload).length ≤ streamAfter chunkSize then
        .ok payload.length (world.held payload)
      else (beginUpload network >>= fun _ => advance payload) (world.held payload) := by
  unfold write
  rw [run_bind, run_get]
  simp only [idle, Bool.not_false, if_true]
  by_cases room : (world.io.buffer ++ payload).length ≤ streamAfter chunkSize
  · rw [if_pos room]
    change (if (world.io.buffer ++ payload).length ≤ _ then _ else _ : Act Nat) _ = _
    rw [if_pos room]
    rfl
  · rw [if_neg room]
    change (if (world.io.buffer ++ payload).length ≤ _ then _ else _ : Act Nat) _ = _
    rw [if_neg room]
    rfl

theorem write_busy (busy : world.streaming = true) :
    write chunkSize network payload world =
      (drain false network.part >>= fun _ => advance payload) (world.queued payload) := by
  unfold write
  rw [run_bind, run_get]
  simp only [busy, Bool.not_true, Bool.false_eq_true, if_false]
  rfl

theorem write_cases {content : Bytes} (sound : world.Idle content ∨ world.Busy content)
    (network : Network) (payload : Bytes) :
    Written chunkSize payload content world (write chunkSize network payload world) := by
  rcases sound with idle | busy
  · have more : (world.held payload).Idle (content ++ payload) :=
      ⟨idle.streaming, idle.pending, idle.parts, idle.partFailed, by rw [← idle.buffer]; rfl⟩
    rw [write_idle idle.streaming, idle.buffer]
    split_ifs with room
    · exact .held idle more room
    · exact begun_write more world idle (Nat.lt_of_not_le room)
  · have more : (world.queued payload).Busy (content ++ payload) := by
      refine ⟨busy.streaming, fun fine => ?_⟩
      obtain ⟨bodies, ⟨count, stored⟩, large, whole⟩ := busy.carries fine
      exact ⟨bodies, ⟨count, stored⟩, large, by rw [← whole, List.append_assoc]; rfl⟩
    rw [write_busy busy.streaming]
    exact @drained_write chunkSize payload world content _ more rfl network.part

theorem Frame.trans {one two three : World} (first : Frame one two) (second : Frame two three) :
    Frame one three :=
  ⟨second.done.trans first.done, second.manifest.trans first.manifest,
    second.object.trans first.object⟩

theorem frame_bind {Value Other : Type} {first : Act Value} {rest : Value → Act Other}
    (before : Respects Frame first) (after : ∀ value, Respects Frame (rest value)) :
    Respects Frame (first >>= rest) :=
  respects_bind (fun one two => one.trans two) before after

theorem drain_frame (final_ : Bool) (put : Outcome) : Respects Frame (drain final_ put) := by
  intro world
  unfold drain
  split_ifs
  · cases put <;> exact ⟨rfl, rfl, rfl⟩
  · exact ⟨rfl, rfl, rfl⟩

theorem modify_frame {change : World → World} (frame : ∀ world, Frame world (change world)) :
    Respects Frame (modify change : Act PUnit) := frame

theorem begin_upload_frame (network : Network) : Respects Frame (beginUpload network) := by
  unfold beginUpload
  split
  · exact fun _ => ⟨rfl, rfl, rfl⟩
  · exact fun _ => ⟨rfl, rfl, rfl⟩
  · refine frame_bind (modify_frame fun _ => ⟨rfl, rfl, rfl⟩) fun _ => ?_
    split_ifs
    · exact fun _ => ⟨rfl, rfl, rfl⟩
    · exact frame_bind (modify_frame fun _ => ⟨rfl, rfl, rfl⟩) fun _ =>
        drain_frame _ _

theorem write_frame (chunkSize : Nat) (network : Network) (payload : Bytes) :
    Respects Frame (write chunkSize network payload) := by
  have advances : Respects Frame (advance payload) := fun _ => ⟨rfl, rfl, rfl⟩
  refine frame_bind (fun _ => ⟨rfl, rfl, rfl⟩) fun world => ?_
  split_ifs
  · refine frame_bind (modify_frame fun _ => ⟨rfl, rfl, rfl⟩) fun _ => ?_
    refine frame_bind (fun _ => ⟨rfl, rfl, rfl⟩) fun _ => ?_
    split_ifs
    · exact fun _ => ⟨rfl, rfl, rfl⟩
    · exact frame_bind (begin_upload_frame network) fun _ => advances
  · refine frame_bind ?_ fun _ => advances
    exact frame_bind (modify_frame fun _ => ⟨rfl, rfl, rfl⟩) fun _ =>
      drain_frame _ _

end Writes

/-- Between its writes a file holds or carries all it was offered, unless a part has
failed; and a write that raised was not accepted. -/
structure Session.Sound (chunkSize : Nat) (session : Session) : Prop where
  stands : session.world.Idle session.offered ∨ session.world.Busy session.offered
  room : session.failed = false → session.world.streaming = false →
    session.offered.length ≤ streamAfter chunkSize
  kept : session.failed = false →
    session.accepted = session.offered ∧ session.world.bucket.partFailed = false
  most : session.accepted.length ≤ session.offered.length
  less : session.failed = true → session.world.bucket.partFailed = false →
    session.accepted.length < session.offered.length
  frame : Frame {} session.world

theorem Session.Sound.step {chunkSize : Nat} {session : Session} (sound : session.Sound chunkSize)
    (write_ : Bytes × Network) : (session.step chunkSize write_).Sound chunkSize := by
  obtain ⟨payload, network⟩ := write_
  have frame := sound.frame.trans (write_frame chunkSize network payload session.world)
  have written := @write_cases chunkSize session.world session.offered sound.stands network payload
  have most := sound.most
  unfold Session.step
  dsimp only
  cases outcome : write chunkSize network payload session.world with
  | ok count after =>
      rw [outcome] at frame written
      have longer : (session.accepted ++ payload).length ≤ (session.offered ++ payload).length := by
        rw [List.length_append, List.length_append]
        omega
      have shorter : session.failed = true → session.world.bucket.partFailed = false →
          (session.accepted ++ payload).length < (session.offered ++ payload).length := by
        intro failed fine
        have less := sound.less failed fine
        rw [List.length_append, List.length_append]
        omega
      simp only [final_ok, raised_ok, Option.isNone_none, if_true, Option.isSome_none, Bool.or_false]
      cases written with
      | held before idle room =>
          refine ⟨.inl idle, fun _ _ => room, fun fine => ?_, longer, fun failed _ => ?_, frame⟩
          · rw [(sound.kept fine).1]
            exact ⟨rfl, idle.partFailed⟩
          · exact shorter failed before.partFailed
      | carried busy partFailed =>
          refine ⟨.inr busy, fun _ idle => ?_, fun fine => ?_, longer, fun failed fine => ?_, frame⟩
          · rw [busy.streaming] at idle
            cases idle
          · obtain ⟨same, unfailed⟩ := sound.kept fine
            rw [same]
            exact ⟨rfl, partFailed.trans unfailed⟩
          · exact shorter failed (partFailed.symm.trans fine)
  | error error after =>
      rw [outcome] at frame written
      simp only [final_error, raised_error, Option.isNone_some, Bool.false_eq_true, if_false,
        Option.isSome_some, Bool.or_true]
      have longer : session.accepted.length ≤ (session.offered ++ payload).length := by
        rw [List.length_append]
        omega
      cases written with
      | unbegun before idle full =>
          refine ⟨.inl idle, nofun, nofun, longer, fun _ _ => ?_, frame⟩
          change session.accepted.length < (session.offered ++ payload).length
          cases failed : session.failed with
          | true =>
              have less := sound.less failed before.partFailed
              rw [List.length_append]
              omega
          | false =>
              -- the write that overflowed the buffer had something to add
              have room := sound.room failed before.streaming
              rw [(sound.kept failed).1]
              omega
      | failed streaming partFailed =>
          refine ⟨.inr ⟨streaming, fun fine => ?_⟩, nofun, nofun, longer, fun _ fine => ?_, frame⟩
          · rw [partFailed] at fine
            cases fine
          · rw [partFailed] at fine
            cases fine

theorem Session.sound (chunkSize : Nat) (writes : List (Bytes × Network)) :
    (run (Session.step chunkSize) writes {}).Sound chunkSize := by
  refine run_invariant (Session.step chunkSize) (fun _ => True) (Session.Sound chunkSize)
    (fun _ write_ _ sound => sound.step write_) writes {} (fun _ _ => trivial) ?_
  exact ⟨.inl ⟨rfl, rfl, rfl, rfl, rfl⟩, fun _ _ => Nat.zero_le _, fun _ => ⟨rfl, rfl⟩,
    Nat.le_refl _, nofun, ⟨rfl, rfl, rfl⟩⟩

theorem manifest_numbers (tags : List Text) :
    (manifest tags).map Prod.fst = List.range' 1 (manifest tags).length := by
  rw [manifest, List.map_map, List.length_map, List.length_zipIdx]
  exact List.zipIdx_map_snd 1 tags

theorem assembled_from {stored : Nat → Option Bytes} {tags : List Text} {bodies : List Bytes}
    {start : Nat} (count : bodies.length = tags.length)
    (holds : ∀ index body, bodies[index]? = some body → stored (start + index) = some body) :
    assembled stored ((tags.zipIdx start).map fun entry => (entry.2, entry.1)) =
      bodies.flatten := by
  induction tags generalizing bodies start with
  | nil =>
      rw [List.length_eq_zero_iff.mp count]
      rfl
  | cons tag rest induction =>
      cases bodies with
      | nil => cases count
      | cons body others =>
          have first := holds 0 body rfl
          have later := induction (Nat.succ.inj count) (fun index body found => by
            have known := holds (index + 1) body found
            rwa [Nat.add_comm index 1, ← Nat.add_assoc] at known)
          rw [Nat.add_zero] at first
          rw [assembled] at later ⊢
          rw [List.zipIdx_cons, List.map_cons, List.flatMap_cons, later, first]
          rfl

theorem assembled_bodies {world : World} {bodies : List Bytes} (holds : world.Holds bodies) :
    assembled world.bucket.stored (manifest world.io.parts) = bodies.flatten :=
  assembled_from holds.count fun index body found => by
    rw [Nat.add_comm]
    exact holds.stored index body found

/-- What the last part leaves: bodies that make up the content, each but the last of
them large enough. -/
theorem drain_last {world after : World} {content : Bytes} {put : Outcome}
    (carries : world.Carries content) (returned : drain true put world = .ok () after) :
    ∃ bodies, after.Holds bodies ∧ (∀ body ∈ bodies.dropLast, minPartSize ≤ body.length) ∧
      bodies.flatten = content := by
  obtain ⟨bodies, holds, large, whole⟩ := carries
  have drained := drain_cases world true put
  rw [returned] at drained
  cases drained with
  | idle none =>
      have empty : world.io.pending = [] := by
        simp only [World.due, Bool.or_eq_false_iff, Bool.true_and, Bool.not_eq_false',
          List.isEmpty_iff] at none
        exact none.2
      rw [empty, List.append_nil] at whole
      exact ⟨bodies, holds, fun body member => large body (List.dropLast_subset _ member), whole⟩
  | sent due stores =>
      refine ⟨_, stores bodies holds, ?_, ?_⟩
      · rw [List.dropLast_concat]
        exact large
      · rw [List.flatten_append, ← whole]
        simp

/-- Each but the last of the parts in a manifest is large enough if the bodies are. -/
theorem manifest_large {world : World} {bodies : List Bytes} (holds : world.Holds bodies)
    (large : ∀ body ∈ bodies.dropLast, minPartSize ≤ body.length) :
    ∀ part ∈ (manifest world.io.parts).dropLast,
      ∃ body, world.bucket.stored part.1 = some body ∧ minPartSize ≤ body.length := by
  intro part member
  obtain ⟨index, inside, found⟩ := List.mem_iff_getElem.mp member
  have count := holds.count
  rw [List.length_dropLast, manifest, List.length_map, List.length_zipIdx] at inside
  have here : index < bodies.length := by omega
  have number : part.1 = index + 1 := by
    rw [← found, List.getElem_dropLast]
    simp only [manifest, List.getElem_map, List.getElem_zipIdx]
    omega
  refine ⟨bodies[index], ?_, large _ ?_⟩
  · rw [number]
    exact holds.stored index _ (List.getElem?_eq_getElem here)
  · rw [List.mem_iff_getElem]
    exact ⟨index, by rw [List.length_dropLast]; omega, List.getElem_dropLast _⟩

def World.closing (world : World) : World := { world with io := { world.io with done := true } }

theorem carries_closing {world : World} {content : Bytes} (carries : world.Carries content) :
    world.closing.Carries content := by
  obtain ⟨bodies, ⟨count, stored⟩, rest⟩ := carries
  exact ⟨bodies, ⟨count, stored⟩, rest⟩

def World.completed (completes : Outcome) (world : World) : World where
  io := world.io
  bucket := { world.bucket with
    manifest := some (manifest world.io.parts)
    object := if completes.reached then
        some (assembled world.bucket.stored (manifest world.io.parts))
      else world.bucket.object }

theorem close_busy {world : World} (ending : Ending) (undone : world.io.done = false)
    (streaming : world.streaming = true) :
    final (close ending world) = match drain true ending.part world.closing with
      | .ok _ after => after.completed ending.completes
      | .error _ after => after := by
  unfold close
  rw [run_bind, run_get]
  simp only [undone, streaming, Bool.false_eq_true, if_false, if_true, run_bind, run_set]
  unfold finishUpload
  rw [run_bind, World.closing]
  generalize drain true ending.part _ = result
  cases result with
  | error error after => rfl
  | ok _ after =>
      cases ending.completes with
      | done said => rfl
      | lost | refused => rfl

theorem close_idle {world : World} (ending : Ending) (undone : world.io.done = false)
    (streaming : world.streaming = false) :
    (final (close ending world)).bucket = { world.bucket with
      object := if ending.puts.reached then some world.io.buffer else world.bucket.object } := by
  unfold close
  rw [run_bind, run_get]
  simp only [undone, streaming, Bool.false_eq_true, if_false, run_bind, run_set]
  unfold putBuffered
  rw [run_bind, run_modify]
  cases ending.puts with
  | done said => rfl
  | lost | refused => rfl

theorem drain_done {world : World} (final_ : Bool) (tag : Text) :
    ∃ after, drain final_ (.done tag) world = .ok () after := by
  unfold drain
  split_ifs
  · exact ⟨_, rfl⟩
  · exact ⟨_, rfl⟩

/-- A close completes only whole objects, whatever becomes of its requests, exactly
when no write has raised. -/
theorem uploads_whole_iff (chunkSize : Nat) (writes : List (Bytes × Network)) :
    let session := run (Session.step chunkSize) writes {}
    (∀ ending, Whole session.accepted session.world (final (close ending session.world))) ↔
      session.failed = false := by
  intro session
  have sound : session.Sound chunkSize := Session.sound chunkSize writes
  have undone : session.world.io.done = false := sound.frame.done
  have unsent : session.world.bucket.manifest = none := sound.frame.manifest
  have without : session.world.bucket.object = none := sound.frame.object
  constructor
  · intro whole
    have smooth := whole ⟨.done [], .done [], .done []⟩
    by_contra raised
    have failed : session.failed = true := by simpa using raised
    rcases sound.stands with idle | busy
    · have known := close_idle ⟨.done [], .done [], .done []⟩ undone idle.streaming
      have same := smooth.object session.world.io.buffer (by rw [known]; rfl)
      have less := sound.less failed idle.partFailed
      rw [← same, idle.buffer] at less
      exact Nat.lt_irrefl _ less
    · obtain ⟨after, last⟩ := @drain_done session.world.closing true []
      rw [close_busy _ undone busy.streaming, last] at smooth
      have unfailed : session.world.bucket.partFailed = false := by
        refine Bool.eq_false_iff.mpr fun partFailed => ?_
        cases smooth.unfailed partFailed
      obtain ⟨bodies, holds, -, whole⟩ := drain_last (carries_closing (busy.carries unfailed)) last
      have same := smooth.object bodies.flatten (by rw [← assembled_bodies holds]; rfl)
      have less := sound.less failed unfailed
      rw [← same, whole] at less
      exact Nat.lt_irrefl _ less
  · intro fine ending
    obtain ⟨same, unfailed⟩ := sound.kept fine
    rcases sound.stands with idle | busy
    · have known := close_idle ending undone idle.streaming
      refine ⟨fun object found => ?_, fun parts found => ?_, fun failed => ?_⟩
      · rw [known] at found
        dsimp only at found
        split_ifs at found
        · cases found
          rw [idle.buffer, same]
        · rw [without] at found
          cases found
      · rw [known] at found
        dsimp only at found
        rw [unsent] at found
        cases found
      · rw [unfailed] at failed
        cases failed
    · rw [close_busy ending undone busy.streaming]
      have frame := drain_frame true ending.part session.world.closing
      cases last : drain true ending.part session.world.closing with
      | error error after =>
          rw [last] at frame
          refine ⟨fun object found => ?_, fun parts found => ?_, fun failed => ?_⟩
          · cases found.symm.trans (frame.object.trans without)
          · cases found.symm.trans (frame.manifest.trans unsent)
          · cases failed.symm.trans unfailed
      | ok _ after =>
          rw [last] at frame
          obtain ⟨bodies, holds, large, whole⟩ :=
            drain_last (carries_closing (busy.carries unfailed)) last
          refine ⟨fun object found => ?_, fun parts found => ?_, fun failed => ?_⟩
          · change (if ending.completes.reached then some (assembled after.bucket.stored
              (manifest after.io.parts)) else after.bucket.object) = some object at found
            split_ifs at found
            · cases found
              rw [assembled_bodies holds, whole, same]
            · cases found.symm.trans (frame.object.trans without)
          · cases found
            exact ⟨manifest_numbers _, manifest_large holds large⟩
          · cases failed.symm.trans unfailed

/-- Three writes: the first is sent as a part, the second is held, and the part that
holds the second and the third is refused. -/
def threeWrites (first second third : Bytes) : List (Bytes × Network) :=
  [(first, ⟨.done [default], .done []⟩), (second, ⟨.refused, .refused⟩),
    (third, ⟨.refused, .refused⟩)]

theorem second_write_lost {first second third : Bytes} (large : streamAfter 0 < first.length)
    (small : second.length < minPartSize) (enough : minPartSize ≤ (second ++ third).length) :
    let session := run (Session.step 0) (threeWrites first second third) {}
    let after := final (close ⟨.done [], .done [], .done []⟩ session.world)
    session.accepted = first ++ second ∧ after.bucket.object = some first := by
  have least : minPartSize ≤ first.length := by
    rw [streamAfter] at large
    omega
  -- the upload begins, and its first part is sent
  have one : write 0 ⟨.done [default], .done []⟩ first {} = .ok first.length {
      io := { uploadId := [default], parts := [[]], pos := 0 + first.length }
      bucket := { stored := Function.update (fun _ => none) 1 (some first) } } := by
    have full : ¬ (({} : World).io.buffer ++ first).length ≤ streamAfter 0 := Nat.not_le.mpr large
    rw [write_idle rfl, if_neg full, run_bind, begin_upload_starts rfl rfl, drain,
      if_pos (by simp [World.due, World.begun, World.held, least])]
    rfl
  -- the second write waits in hand
  have two : write 0 ⟨.refused, .refused⟩ second {
      io := { uploadId := [default], parts := [[]], pos := 0 + first.length }
      bucket := { stored := Function.update (fun _ => none) 1 (some first) } } =
        .ok second.length {
      io := {
        uploadId := [default]
        parts := [[]]
        pending := second
        pos := 0 + first.length + second.length }
      bucket := { stored := Function.update (fun _ => none) 1 (some first) } } := by
    rw [write_busy rfl, run_bind, drain, if_neg (by simp [World.due, World.queued]; omega)]
    rfl
  -- the third is sent with it, and both are gone
  have three : write 0 ⟨.refused, .refused⟩ third {
      io := {
        uploadId := [default]
        parts := [[]]
        pending := second
        pos := 0 + first.length + second.length }
      bucket := { stored := Function.update (fun _ => none) 1 (some first) } } = .error .io {
      io := { uploadId := [default], parts := [[]], pos := 0 + first.length + second.length }
      bucket := {
        stored := Function.update (fun _ => none) 1 (some first)
        partFailed := true } } := by
    rw [write_busy rfl, run_bind, drain, if_pos (by
      simp only [World.due, World.queued, enough, decide_true, Bool.true_or])]
    rfl
  simp only [threeWrites, run, Session.step, one, two, three, final_ok, final_error, raised_ok,
    raised_error]
  refine ⟨by simp, ?_⟩
  rw [close_busy _ rfl rfl]
  simp [drain, World.due, World.closing, World.completed, Outcome.reached, assembled, manifest,
    minPartSize]

/-- The part that holds the second of three writes is refused; the close sends a
manifest all the same, and the object accepted is the first write alone. -/
theorem refused_part_completed :
    let first : Bytes := List.replicate (6 * 2 ^ 20) 7
    let second : Bytes := List.replicate (3 * 2 ^ 20) 8
    let session := run (Session.step 0) (threeWrites first second second) {}
    let after := final (close ⟨.done [], .done [], .done []⟩ session.world)
    session.accepted = first ++ second ∧ after.bucket.object = some first ∧
      ¬ Whole session.accepted session.world after := by
  have sizes : (List.replicate (6 * 2 ^ 20) (7 : UInt8)).length = 6 * 2 ^ 20 ∧
      (List.replicate (3 * 2 ^ 20) (8 : UInt8)).length = 3 * 2 ^ 20 :=
    ⟨List.length_replicate, List.length_replicate⟩
  generalize List.replicate (6 * 2 ^ 20) (7 : UInt8) = first,
    List.replicate (3 * 2 ^ 20) (8 : UInt8) = second at sizes ⊢
  obtain ⟨long, short⟩ := sizes
  have lost := @second_write_lost first second second (by rw [long]; decide) (by rw [short]; decide)
    (by rw [List.length_append, short]; decide)
  refine ⟨lost.1, lost.2, fun whole => ?_⟩
  have same := congrArg List.length (whole.object first lost.2)
  rw [lost.1, List.length_append] at same
  omega

end XRootDClient.S3
