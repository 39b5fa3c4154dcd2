import XRootDClient.Copy.Parallel
import XRootDClient.Lib.Stateful
import XRootDClient.Lib.Text

/-!
# A copy, or a move

`copy` between files and open streams: continued where an interrupted transfer
stopped, moved as spans, or pumped through; then verified; then, for a move, the
source is deleted. Two URLs may name one file. What the endpoints do in a call is
a parameter: how much a source gives and a stream takes at a time, in which order
the threads go, what raises, and what a server says of a checksum. What a transfer
that raised has left at the target is not followed.
-/

set_option autoImplicit false

namespace XRootDClient.Copy

open Lib Lib.BigEndian Lib.Extent Lib.Run Lib.Stateful Lib.Tiling

inductive Scheme
  | local_
  | root
  | http
  | s3
  | other
  deriving DecidableEq

structure Url (Name : Type) where
  scheme : Scheme
  name : Name

inductive Source (Name : Type)
  | url (url : Url Name)
  | stream (held : Bytes)

inductive Target (Name : Type)
  | url (url : Url Name)
  | stream

structure Call (Name : Type) where
  source : Source Name
  target : Target Name
  chunk : Nat
  inFlight : Nat
  parallelChunks : Nat
  verifyChecksums : Bool
  verify : Option Bool := none
  overwrite : Bool := true
  progress : Bool := false
  dryRun : Bool := false
  removeSource : Bool := false
  resume : Bool := false

/-- The files, what an open stream has been given, and whether the source was
deleted. -/
structure Disk (Name : Type) where
  files : Name → Option Bytes
  stream : Bytes := []
  removed : Bool := false

inductive Stage
  | opensSource
  | opensTarget
  | closesTarget
  | removes
  deriving DecidableEq

structure Circumstances (Name : Type) where
  statable : Name → Bool
  answers : Answers
  takes : Takes
  turns : List Bool
  picks : List (Nat × Option Nat)
  raises : Stage → Bool
  checksum : Name → Bytes → Option Text
  hash : Bytes → Text

inductive Error
  | value
  | zeroDivision
  | unsupported
  | exists_
  | io
  | mismatch
  | unfinished
  deriving DecidableEq

structure CopyResult where
  size : Nat
  resumedAt : Nat := 0
  checksum : Option Text := none

variable {Name : Type} [DecidableEq Name]

abbrev Act (Name : Type) := EStateM Error (Disk Name)

def Source.place : Source Name → Option (Url Name)
  | .url place => some place
  | .stream _ => none

def Target.place : Target Name → Option (Url Name)
  | .url place => some place
  | .stream => none

section Calls

variable (now : Circumstances Name)

def probe (url : Url Name) (disk : Disk Name) : Option Nat :=
  if now.statable url.name then (disk.files url.name).map List.length else none

/-- `_continue_from`: the offset to continue from. -/
def continueFrom (call : Call Name) (disk : Disk Name) : Except Error (Option Nat) :=
  if !call.overwrite then .error .value
  else
    match call.source.place, call.target.place with
    | some source, some target =>
        match probe now target disk with
        | none => .ok none
        | some 0 => .ok none
        | some there =>
            match probe now source disk with
            | none => .ok (some there)
            | some here => if there > here then .error .value else .ok (some there)
    | _, _ => .error .value

def divisible (source target : Url Name) : Bool :=
  (target.scheme = .local_ || target.scheme = .root) &&
    (source.scheme = .local_ || source.scheme = .root || source.scheme = .http)

/-- `_spread`: how many workers, for a file of which size. -/
def spread (call : Call Name) (disk : Disk Name) : Except Error (Option (Nat × Nat)) :=
  match call.source.place, call.target.place with
  | some source, some target =>
      if !divisible source target then .ok none
      else
        match probe now source disk with
        | none => .ok none
        | some size =>
            if call.chunk = 0 then .error .zeroDivision
            else
              let workers := min call.parallelChunks (size / call.chunk)
              .ok (if workers > 1 then some (workers, size) else none)
  | _, _ => .ok none

def openReader (source : Source Name) : Act Name Unit := do
  match source with
  | .stream _ => return ()
  | .url url =>
      if url.scheme = .other then throw .unsupported
      if now.raises .opensSource || ((← get).files url.name).isNone then throw .io

/-- `_writer`. A local file or one at a root server is there, and empty, from now
on; an upload replaces what is there when it ends. -/
def openWriter (url : Url Name) (overwrite : Bool) : Act Name Unit := do
  if url.scheme = .other then throw .unsupported
  if now.raises .opensTarget then throw .io
  let disk ← get
  if !overwrite && (disk.files url.name).isSome then throw .exists_
  if url.scheme = .local_ || url.scheme = .root then
    set { disk with files := Function.update disk.files url.name (some []) }

/-- `_resumer`: a writer that keeps what is there. -/
def openResumer (url : Url Name) (offset : Nat) : Act Name Sink := do
  if url.scheme ≠ .local_ ∧ url.scheme ≠ .root then throw .unsupported
  if now.raises .opensTarget then throw .io
  match (← get).files url.name with
  | none => throw .io
  | some content => return { content := content, position := offset }

def contents (source : Source Name) : Act Name Bytes := do
  match source with
  | .stream held => return held
  | .url url => return ((← get).files url.name).getD []

def settle (target : Target Name) (sink : Sink) : Act Name Unit := do
  match target with
  | .stream => modify fun disk => { disk with stream := sink.content }
  | .url url =>
      if now.raises .closesTarget then throw .io
      modify fun disk => { disk with
        files := Function.update disk.files url.name (some sink.content) }

/-- The writer of a file takes what it is given; a stream takes what it takes. -/
def takesOf (target : Target Name) (chunk : Nat) : Takes :=
  match target with
  | .url _ => fun offered => (now.takes offered).map (max chunk)
  | .stream => now.takes

/-- `_pump`, with the window of the configuration. -/
def pumpThrough (call : Call Name) (source : Bytes) (start : Nat) (sink : Sink) : Act Name Sink :=
  let takes := takesOf now call.target call.chunk
  if call.inFlight > 1 then
    let ahead := Ahead.pumped source call.chunk call.inFlight now.answers takes none start sink
      now.turns
    match ahead.loop with
    | .returned => pure ahead.sink
    | .raised => throw .io
    | .runs => throw .unfinished
  else
    match pump source start call.chunk now.answers takes none sink with
    | some sink => pure sink
    | none => throw .io

def openSink (call : Call Name) (resuming : Option Nat) : Act Name Sink :=
  match call.target, resuming with
  | .url url, some offset => openResumer now url offset
  | .url url, none => do
      openWriter now url call.overwrite
      pure {}
  | .stream, _ => pure {}

def streamed (call : Call Name) (resuming : Option Nat) : Act Name Sink := do
  openReader now call.source
  let sink ← openSink now call resuming
  let source ← contents call.source
  let sink ← pumpThrough now call source (resuming.getD 0) sink
  settle now call.target sink
  return sink

def inParallel (call : Call Name) (source target : Url Name) (workers size : Nat) :
    Act Name Nat := do
  openWriter now target call.overwrite
  let held ← contents (.url source)
  let transfer : Transfer := ⟨held, size, call.chunk, call.progress⟩
  let pool := (launch (spans size workers)).after transfer now.picks
  modify fun disk => { disk with
    files := Function.update disk.files target.name (some pool.shared.target) }
  if !pool.workers.all Worker.idle then throw .unfinished
  if !pool.finished then throw .io
  return pool.moved

/-- `_digest_of`: the server's answer, or ours if the file is local. -/
def digestOf (url : Url Name) (disk : Disk Name) : Option Text :=
  if url.scheme = .local_ then (disk.files url.name).map now.hash
  else (disk.files url.name).bind (now.checksum url.name)

/-- `_compare_ends` and `_compare`, once each side has said what it holds. -/
def compared (ours theirs : Option Text) (strict : Bool) : Act Name (Option Text) :=
  match ours, theirs with
  | some ours, some theirs => if ours = theirs then pure (some theirs) else throw .mismatch
  | _, _ => if strict then throw .io else pure none

/-- The first end that is not local, the target before the source. -/
def checkable (call : Call Name) : Option (Url Name) :=
  [call.target.place, call.source.place].findSome? fun place =>
    place.filter fun url => url.scheme ≠ .local_

def remove (url : Url Name) : Act Name Unit := do
  if now.raises .removes then throw .io
  modify fun disk => { disk with
    files := Function.update disk.files url.name none
    removed := true }

def lift {Value : Type} : Except Error Value → Act Name Value
  | .ok value => pure value
  | .error error => throw error

/-- The transfer itself: what it moved, what it digested on the way, and where it
started. -/
def moved (call : Call Name) (resuming : Option Nat) (spreading : Option (Nat × Nat)) :
    Act Name (Nat × Bytes) :=
  match spreading, call.source, call.target with
  | some (workers, size), .url source, .url target => do
      let count ← inParallel now call source target workers size
      return (count, [])
  | _, _, _ => do
      let sink ← streamed now call resuming
      return (sink.done, sink.digested)

/-- Only a transfer read from the beginning and in order was digested on the way;
the other two ask both ends. -/
def verified (call : Call Name) (apart : Bool) (digested : Bytes) : Act Name (Option Text) := do
  let wanted := call.verify.getD call.verifyChecksums
  let strict := call.verify = some true
  if !wanted then return none
  if apart then
    match call.source.place, call.target.place with
    | some source, some target =>
        let disk ← get
        compared (digestOf now source disk) (digestOf now target disk) strict
    | _, _ => return none
  else
    match checkable call with
    | none => return none
    | some url =>
        let theirs := ((← get).files url.name).bind (now.checksum url.name)
        compared (some (now.hash digested)) theirs strict

/-- `if remove_source and src_url is not None`. -/
def removeSource (call : Call Name) : Act Name Unit :=
  match call.removeSource, call.source.place with
  | true, some url => remove now url
  | _, _ => pure ()

/-- The plan of a call: the offset to continue from, or the workers and the size. -/
def plan (call : Call Name) (disk : Disk Name) :
    Except Error (Option Nat × Option (Nat × Nat)) := do
  let resuming ← if call.resume then continueFrom now call disk else .ok none
  let spreading ← if resuming.isSome then .ok none else spread now call disk
  return (resuming, spreading)

def copy (call : Call Name) : Act Name CopyResult := do
  let disk ← get
  if call.dryRun then
    return { size := (call.source.place.bind fun url => probe now url disk).getD 0 }
  else
    let (resuming, spreading) ← lift (plan now call disk)
    let (size, digested) ← moved now call resuming spreading
    let checksum ← verified now call (resuming.isSome || spreading.isSome) digested
    removeSource now call
    return { size := size, resumedAt := resuming.getD 0, checksum := checksum }

section Returned

variable {now} {call : Call Name} {disk after : Disk Name}

def Scheme.direct (scheme : Scheme) : Bool := scheme = .local_ || scheme = .root

def opened (url : Url Name) (disk : Disk Name) : Disk Name :=
  if url.scheme.direct then
    { disk with files := Function.update disk.files url.name (some []) }
  else disk

omit [DecidableEq Name] in
theorem open_reader_returns {source : Source Name}
    (returned : openReader now source disk = .ok () after) :
    after = disk ∧ ∀ url, source = .url url → (disk.files url.name).isSome = true := by
  unfold openReader at returned
  cases source with
  | stream held =>
      cases returned
      exact ⟨rfl, fun url same => by cases same⟩
  | url url =>
      dsimp only at returned
      by_cases other : url.scheme = .other
      · rw [if_pos other] at returned
        cases returned
      simp only [if_neg other, run_bind, run_get] at returned
      split_ifs at returned with missing
      · cases returned
      · cases returned
        refine ⟨rfl, ?_⟩
        rintro _ ⟨rfl⟩
        simp only [Bool.or_eq_true, not_or, Bool.not_eq_true, Option.isNone_eq_false_iff] at missing
        exact missing.2

theorem open_writer_returns {url : Url Name} {overwrite : Bool}
    (returned : openWriter now url overwrite disk = .ok () after) : after = opened url disk := by
  unfold openWriter at returned
  by_cases other : url.scheme = .other
  · rw [if_pos other] at returned
    cases returned
  rw [if_neg other] at returned
  by_cases fails : now.raises .opensTarget = true
  · rw [if_pos fails] at returned
    cases returned
  simp only [if_neg fails, run_bind, run_get] at returned
  rw [opened, Scheme.direct]
  split_ifs at returned ⊢ <;> cases returned <;> rfl

omit [DecidableEq Name] in
theorem open_resumer_returns {url : Url Name} {offset : Nat} {sink : Sink}
    (returned : openResumer now url offset disk = .ok sink after) :
    after = disk ∧ url.scheme.direct = true ∧ ∃ content, disk.files url.name = some content ∧
      sink = { content := content, position := offset } := by
  unfold openResumer at returned
  by_cases known : url.scheme ≠ .local_ ∧ url.scheme ≠ .root
  · rw [if_pos known] at returned
    cases returned
  rw [if_neg known] at returned
  by_cases fails : now.raises .opensTarget = true
  · rw [if_pos fails] at returned
    cases returned
  simp only [if_neg fails, run_bind, run_get] at returned
  cases found : disk.files url.name with
  | none =>
      rw [found] at returned
      cases returned
  | some content =>
      rw [found] at returned
      cases returned
      refine ⟨rfl, ?_, content, rfl, rfl⟩
      simp only [Scheme.direct, Bool.or_eq_true, decide_eq_true_eq]
      tauto

omit [DecidableEq Name] in
theorem pump_through_returns {source : Bytes} {start : Nat} {sink out : Sink}
    (returned : pumpThrough now call source start sink disk = .ok out after) :
    after = disk ∧ pump source start call.chunk now.answers
      (takesOf now call.target call.chunk) none sink = some out := by
  unfold pumpThrough at returned
  dsimp only at returned
  split_ifs at returned
  · generalize loop : (Ahead.pumped source call.chunk call.inFlight now.answers
      (takesOf now call.target call.chunk) none start sink now.turns).loop = stands at returned
    cases stands with
    | returned =>
        cases returned
        exact ⟨rfl, Ahead.pumped_returns loop⟩
    | raised | runs => cases returned
  · cases pumped : pump source start call.chunk now.answers
        (takesOf now call.target call.chunk) none sink with
    | none =>
        rw [pumped] at returned
        cases returned
    | some done =>
        rw [pumped] at returned
        cases returned
        exact ⟨rfl, rfl⟩

def Source.held (source : Source Name) (disk : Disk Name) : Bytes :=
  match source with
  | .stream held => held
  | .url place => (disk.files place.name).getD []

def Disk.store (disk : Disk Name) (name : Name) (content : Bytes) : Disk Name :=
  { disk with files := Function.update disk.files name (some content) }

variable (now call disk) in
inductive Streams : Option Nat → Sink → Disk Name → Prop
  | given {resuming : Option Nat} {sink : Sink} (onto : call.target = .stream)
      (pumped : pump (call.source.held disk) (resuming.getD 0) call.chunk
        now.answers (takesOf now call.target call.chunk) none {} = some sink) :
      Streams resuming sink { disk with stream := sink.content }
  | written {url : Url Name} {sink : Sink} (onto : call.target = .url url)
      (pumped : pump (call.source.held (opened url disk)) 0 call.chunk
        now.answers (takesOf now call.target call.chunk) none {} = some sink) :
      Streams none sink ((opened url disk).store url.name sink.content)
  | continued {url : Url Name} {offset : Nat} {content : Bytes} {sink : Sink}
      (onto : call.target = .url url) (there : disk.files url.name = some content)
      (pumped : pump (call.source.held disk) offset call.chunk
        now.answers (takesOf now call.target call.chunk) none
        { content := content, position := offset } = some sink) :
      Streams (some offset) sink (disk.store url.name sink.content)

omit [DecidableEq Name] in
theorem contents_run (source : Source Name) (disk : Disk Name) :
    contents source disk = .ok (source.held disk) disk := by
  cases source <;> rfl

def settled (target : Target Name) (sink : Sink) (disk : Disk Name) : Disk Name :=
  match target with
  | .stream => { disk with stream := sink.content }
  | .url url => disk.store url.name sink.content

theorem settle_returns {target : Target Name} {sink : Sink}
    (returned : settle now target sink disk = .ok () after) : after = settled target sink disk := by
  unfold settle at returned
  cases target with
  | stream =>
      cases returned
      rfl
  | url url =>
      dsimp only at returned
      split_ifs at returned <;> cases returned
      rfl

theorem streamed_returns {resuming : Option Nat} {sink : Sink}
    (returned : streamed now call resuming disk = .ok sink after) :
    Streams now call disk resuming sink after ∧
      ∀ url, call.source = .url url → (disk.files url.name).isSome = true := by
  unfold streamed at returned
  obtain ⟨⟨⟩, middle, reader, opening⟩ := bind_returns returned
  obtain ⟨same, there⟩ := open_reader_returns reader
  subst same
  refine ⟨?_, there⟩
  obtain ⟨start, ready, writer, reading⟩ := bind_returns opening
  obtain ⟨source, same, reads, pumps⟩ := bind_returns reading
  rw [contents_run] at reads
  cases reads
  obtain ⟨out, last, pumping, closes⟩ := bind_returns pumps
  obtain ⟨rfl, pumped⟩ := pump_through_returns pumping
  obtain ⟨⟨⟩, done, closing, ends⟩ := bind_returns closes
  cases ends
  have closed := settle_returns closing
  unfold openSink at writer
  cases onto : call.target with
  | stream =>
      rw [onto] at writer closed
      cases writer
      rw [closed]
      exact .given onto pumped
  | url url =>
      rw [onto] at writer closed
      cases resuming with
      | none =>
          obtain ⟨⟨⟩, before, opening, rest⟩ := bind_returns writer
          cases rest
          have same := open_writer_returns opening
          subst same
          rw [closed]
          exact .written onto pumped
      | some offset =>
          obtain ⟨rfl, -, content, found, rfl⟩ := open_resumer_returns writer
          rw [closed]
          exact .continued onto found pumped

theorem in_parallel_returns {source target : Url Name} {workers size count : Nat}
    (returned : inParallel now call source target workers size disk = .ok count after) :
    let transfer : Transfer :=
      ⟨(Source.url source).held (opened target disk), size, call.chunk, call.progress⟩
    let pool := (launch (spans size workers)).after transfer now.picks
    pool.finished = true ∧ count = pool.moved ∧
      after = (opened target disk).store target.name pool.shared.target := by
  unfold inParallel at returned
  obtain ⟨⟨⟩, ready, writer, reading⟩ := bind_returns returned
  have same := open_writer_returns writer
  subst same
  rw [run_bind, contents_run] at reading
  simp only [run_bind, run_modify] at reading
  dsimp only
  generalize (launch (spans size workers)).after
    ⟨(Source.url source).held (opened target disk), size, call.chunk, call.progress⟩ now.picks =
      pool at reading ⊢
  by_cases idle : (!pool.workers.all Worker.idle) = true
  · rw [if_pos idle] at reading
    cases reading
  rw [if_neg idle] at reading
  by_cases finished : (!pool.finished) = true
  · rw [if_pos finished] at reading
    cases reading
  rw [if_neg finished] at reading
  cases reading
  exact ⟨by simpa using finished, rfl, rfl⟩

omit [DecidableEq Name] in
theorem compared_returns {ours theirs : Option Text} {strict : Bool} {checksum : Option Text}
    (returned : compared ours theirs strict disk = .ok checksum after) : after = disk := by
  unfold compared at returned
  split at returned
  · split_ifs at returned <;> cases returned
    rfl
  · split_ifs at returned <;> cases returned
    rfl

omit [DecidableEq Name] in
theorem verified_returns {apart : Bool} {digested : Bytes} {checksum : Option Text}
    (returned : verified now call apart digested disk = .ok checksum after) : after = disk := by
  unfold verified at returned
  dsimp only at returned
  generalize call.source.place = source, call.target.place = target, checkable call = asked
    at returned
  split_ifs at returned
  · cases returned
    rfl
  · rcases source with - | source <;> rcases target with - | target
    · cases returned
      rfl
    · cases returned
      rfl
    · cases returned
      rfl
    · exact compared_returns returned
  · rcases asked with - | url
    · cases returned
      rfl
    · exact compared_returns returned

def swept (call : Call Name) (disk : Disk Name) : Disk Name :=
  match call.removeSource, call.source.place with
  | true, some url => { disk with
      files := Function.update disk.files url.name none
      removed := true }
  | _, _ => disk

theorem remove_source_returns (returned : removeSource now call disk = .ok () after) :
    after = swept call disk := by
  unfold removeSource at returned
  unfold swept
  generalize call.removeSource = wanted, call.source.place = place at returned ⊢
  rcases wanted with - | - <;> rcases place with - | url
  · cases returned
    rfl
  · cases returned
    rfl
  · cases returned
    rfl
  · dsimp only at returned ⊢
    unfold remove at returned
    split_ifs at returned <;> cases returned
    rfl

/-- A copy that returns has made its plan, moved what it moved, checked what it was told
to check and, for a move, deleted the source. -/
theorem copy_checks {result : CopyResult} (live : call.dryRun = false)
    (returned : copy now call disk = .ok result after) :
    ∃ resuming spreading size digested checksum middle,
      plan now call disk = .ok (resuming, spreading) ∧
      moved now call resuming spreading disk = .ok (size, digested) middle ∧
      verified now call (resuming.isSome || spreading.isSome) digested middle = .ok checksum middle ∧
      result = { size := size, resumedAt := resuming.getD 0, checksum := checksum } ∧
      after = swept call middle := by
  unfold copy at returned
  rw [run_bind, run_get] at returned
  simp only [live, Bool.false_eq_true, if_false] at returned
  obtain ⟨⟨resuming, spreading⟩, first, planned, moving⟩ := bind_returns returned
  obtain ⟨⟨size, digested⟩, middle, moves, verifying⟩ := bind_returns moving
  obtain ⟨checksum, same, verifies, removing⟩ := bind_returns verifying
  obtain ⟨⟨⟩, last, removes, done⟩ := bind_returns removing
  have kept := verified_returns verifies
  have gone := remove_source_returns removes
  subst kept
  cases done
  cases plans : plan now call disk with
  | error error =>
      rw [plans] at planned
      cases planned
  | ok both =>
      rw [plans] at planned
      cases planned
      exact ⟨resuming, spreading, size, digested, checksum, same, rfl, moves, verifies, rfl, gone⟩

theorem copy_returns {result : CopyResult} (live : call.dryRun = false)
    (returned : copy now call disk = .ok result after) :
    ∃ resuming spreading size digested middle, plan now call disk = .ok (resuming, spreading) ∧
      moved now call resuming spreading disk = .ok (size, digested) middle ∧
      result.size = size ∧ result.resumedAt = resuming.getD 0 ∧ after = swept call middle := by
  obtain ⟨resuming, spreading, size, digested, checksum, middle, planned, moves, -, rfl, gone⟩ :=
    copy_checks live returned
  exact ⟨resuming, spreading, size, digested, middle, planned, moves, rfl, rfl, gone⟩

end Returned

end Calls

end XRootDClient.Copy
