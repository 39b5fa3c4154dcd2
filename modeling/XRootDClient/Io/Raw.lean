import XRootDClient.Client.File

/-!
# Raw input and output on a remote file

`XRootDRawIO` is set beside the file it stands in for: `io.FileIo` on a local file
of the same content, as the kernel keeps it. Both are devices that take the same
operations, and what can be seen of a device after each operation is its reply,
its position and its content. In append mode the kernel puts every write at the
end; the remote file puts it at the position, so the two agree exactly as long as
every write in append mode is made at the end.
-/

set_option autoImplicit false

namespace XRootDClient.Io

open Lib Lib.BigEndian Lib.Extent Client

inductive Base
  | r
  | w
  | x
  | a
  deriving DecidableEq

structure Mode where
  base : Base
  updating : Bool
  deriving DecidableEq

def Mode.readable (mode : Mode) : Bool := mode.base = .r || mode.updating

def Mode.writable (mode : Mode) : Bool := mode.base ≠ .r || mode.updating

/-- The options of `kXR_open` that decide what becomes of the file. -/
structure OpenFlags where
  read : Bool := false
  update : Bool := false
  delete : Bool := false
  new : Bool := false
  append : Bool := false

def flagsForMode (mode : Mode) : OpenFlags :=
  match mode.base with
  | .r => if mode.updating then { update := true } else { read := true }
  | .w => { update := true, delete := true }
  | .x => { update := true, new := true }
  | .a => { update := true, append := true }

inductive Failure
  | notFound
  | exists_
  | unsupported
  | invalid
  | tooLarge
  deriving DecidableEq

/-- `kXR_open`, as the server answers it: the content the handle is opened on.
Without `kXR_new` or `kXR_delete` nothing is created. -/
def serverOpen (flags : OpenFlags) (existing : Option Bytes) : Except Failure Bytes :=
  match existing with
  | some content =>
      if flags.new then .error .exists_ else .ok (if flags.delete then [] else content)
  | none => if flags.new || flags.delete then .ok [] else .error .notFound

inductive Whence
  | set
  | cur
  | end_

inductive Operation
  | readinto (length : Nat)
  | readall
  | write (data : Bytes)
  | seek (offset : Int) (whence : Whence)
  | tell
  | truncate (size : Option Nat)

/-- What an operation answers. `filled` is what `readinto` put in the buffer, and
`hangs` stands for a loop that does not end. -/
inductive Reply
  | filled (data : Bytes)
  | data (data : Bytes)
  | number (value : Nat)
  | raised (failure : Failure)
  | hangs
  deriving DecidableEq

structure RawIo where
  file : File
  mode : Mode
  pos : Nat := 0

namespace RawIo

/-- `File.open` and the stat the server may volunteer with its answer. -/
def adopt (volunteers : Bool) (content : Bytes) : File :=
  if volunteers then
    { server := content, stat := some content.length, sizeHint := content.length }
  else { server := content }

/-- `_open`: a file to append to that is not there is created on the second try. -/
def openFile (volunteers : Bool) (mode : Mode) (existing : Option Bytes) : Except Failure File :=
  let flags := flagsForMode mode
  match serverOpen flags existing with
  | .ok content => .ok (adopt volunteers content)
  | .error .notFound =>
      if flags.append then
        (serverOpen { flags with new := true } existing).map (adopt volunteers)
      else .error .notFound
  | .error failure => .error failure

def opened (volunteers : Bool) (mode : Mode) (existing : Option Bytes) : Except Failure RawIo := do
  let file ← openFile volunteers mode existing
  if mode.base = .a then
    let (size, file) := file.size
    return { file := file, mode := mode, pos := size }
  else return { file := file, mode := mode }

variable (config : Config)

def seek (offset : Int) (whence : Whence) (raw : RawIo) : Reply × RawIo :=
  let (target, raw) : Int × RawIo := match whence with
    | .set => (offset, raw)
    | .cur => (raw.pos + offset, raw)
    | .end_ =>
        let (size, file) := raw.file.size
        (size + offset, { raw with file := file })
  if target < 0 then (.raised .invalid, raw)
  else (.number target.toNat, { raw with pos := target.toNat })

def readinto (length : Nat) (raw : RawIo) : Reply × RawIo :=
  if !raw.mode.readable then (.raised .unsupported, raw)
  else if length = 0 then (.filled [], raw)
  else
    match raw.file.read config length raw.pos with
    | none => (.hangs, raw)
    | some data => (.filled data, { raw with pos := raw.pos + data.length })

def readall (raw : RawIo) : Reply × RawIo :=
  if !raw.mode.readable then (.raised .unsupported, raw)
  else
    let (size, file) := raw.file.size
    let left := size - raw.pos
    if File.tooLarge config left then (.raised .tooLarge, { raw with file := file })
    else
      match file.read config left raw.pos with
      | none => (.hangs, { raw with file := file })
      | some data => (.data data, { raw with file := file, pos := raw.pos + data.length })

def write (data : Bytes) (raw : RawIo) : Reply × RawIo :=
  if !raw.mode.writable then (.raised .unsupported, raw)
  else if data = [] then (.number 0, raw)
  else
    match raw.file.write config data raw.pos with
    | none => (.hangs, raw)
    | some (written, file) => (.number written, { raw with file := file, pos := raw.pos + written })

def truncate (size : Option Nat) (raw : RawIo) : Reply × RawIo :=
  if !raw.mode.writable then (.raised .unsupported, raw)
  else
    let target := size.getD raw.pos
    (.number target, { raw with file := (raw.file.truncate target).2 })

def step (operation : Operation) (raw : RawIo) : Reply × RawIo :=
  match operation with
  | .readinto length => readinto config length raw
  | .readall => readall config raw
  | .write data => write config data raw
  | .seek offset whence => seek offset whence raw
  | .tell => (.number raw.pos, raw)
  | .truncate size => truncate size raw

end RawIo

structure FileIo where
  content : Bytes
  mode : Mode
  pos : Nat := 0

namespace FileIo

/-- `open(2)` with the flags of the mode; append mode starts at the end. -/
def opened (mode : Mode) (existing : Option Bytes) : Except Failure FileIo :=
  match mode.base, existing with
  | .r, none => .error .notFound
  | .r, some content => .ok { content := content, mode := mode }
  | .w, _ => .ok { content := [], mode := mode }
  | .x, none => .ok { content := [], mode := mode }
  | .x, some _ => .error .exists_
  | .a, existing =>
      .ok { content := existing.getD [], mode := mode, pos := (existing.getD []).length }

def step (operation : Operation) (file : FileIo) : Reply × FileIo :=
  match operation with
  | .readinto length =>
      if !file.mode.readable then (.raised .unsupported, file)
      else
        let data := fetch file.content file.pos length
        (.filled data, { file with pos := file.pos + data.length })
  | .readall =>
      if !file.mode.readable then (.raised .unsupported, file)
      else
        let data := file.content.drop file.pos
        (.data data, { file with pos := file.pos + data.length })
  | .write data =>
      if !file.mode.writable then (.raised .unsupported, file)
      else if data = [] then (.number 0, file)
      else
        -- O_APPEND: the write is made at the end, and leaves the position there
        let start := if file.mode.base = .a then file.content.length else file.pos
        (.number data.length, { file with
          content := patch 0 file.content start data
          pos := start + data.length })
  | .seek offset whence =>
      let target : Int := match whence with
        | .set => offset
        | .cur => file.pos + offset
        | .end_ => file.content.length + offset
      if target < 0 then (.raised .invalid, file)
      else (.number target.toNat, { file with pos := target.toNat })
  | .tell => (.number file.pos, file)
  | .truncate size =>
      if !file.mode.writable then (.raised .unsupported, file)
      else
        let target := size.getD file.pos
        (.number target, { file with content := resize 0 file.content target })

end FileIo

structure Look where
  pos : Nat
  content : Bytes
  deriving DecidableEq

def RawIo.look (raw : RawIo) : Look := ⟨raw.pos, raw.file.server⟩

def FileIo.look (file : FileIo) : Look := ⟨file.pos, file.content⟩

/-- The replies of a device, each with how it looks afterwards. -/
def observe {Device : Type} (step : Operation → Device → Reply × Device) (look : Device → Look) :
    List Operation → Device → List (Reply × Look)
  | [], _ => []
  | operation :: rest, device =>
      let answer := step operation device
      (answer.1, look answer.2) :: observe step look rest answer.2

def RawIo.session (config : Config) (volunteers : Bool) (mode : Mode) (existing : Option Bytes)
    (operations : List Operation) : Except Failure (Look × List (Reply × Look)) :=
  (RawIo.opened volunteers mode existing).map fun raw =>
    (raw.look, observe (RawIo.step config) RawIo.look operations raw)

def FileIo.session (mode : Mode) (existing : Option Bytes) (operations : List Operation) :
    Except Failure (Look × List (Reply × Look)) :=
  (FileIo.opened mode existing).map fun file =>
    (file.look, observe FileIo.step FileIo.look operations file)

def RawIo.lands (operation : Operation) (raw : RawIo) : Bool :=
  match operation with
  | .write data => data = [] || raw.mode.base ≠ .a || raw.pos = raw.file.server.length
  | _ => true

def RawIo.landsAll (config : Config) : List Operation → RawIo → Bool
  | [], _ => true
  | operation :: rest, raw =>
      raw.lands operation && landsAll config rest (raw.step config operation).2

structure Mirrors (raw : RawIo) (file : FileIo) : Prop where
  mode : raw.mode = file.mode
  pos : raw.pos = file.pos
  content : raw.file.server = file.content
  coherent : raw.file.Coherent

theorem Mirrors.look {raw : RawIo} {file : FileIo} (mirrors : Mirrors raw file) :
    raw.look = file.look := by
  rw [RawIo.look, FileIo.look, mirrors.pos, mirrors.content]

/-- The two devices answer alike and mirror each other again. -/
def Alike (raw : Reply × RawIo) (file : Reply × FileIo) : Prop :=
  raw.1 = file.1 ∧ Mirrors raw.2 file.2

section Steps

variable {config : Config} {raw : RawIo} {file : FileIo}

theorem Mirrors.seek (mirrors : Mirrors raw file) (offset : Int) (whence : Whence) :
    Alike (RawIo.seek offset whence raw) (FileIo.step (.seek offset whence) file) := by
  obtain ⟨mode, pos, content, coherent⟩ := mirrors
  obtain ⟨size, server, kept⟩ := File.size_coherent coherent
  -- the target is the same number, and asking the size leaves the content alone
  have landed : ∀ (held : File) (target : Int), held.server = file.content → held.Coherent →
      Alike (if target < 0 then (.raised .invalid, { raw with file := held })
        else (.number target.toNat, { raw with file := held, pos := target.toNat }))
        (if target < 0 then (.raised .invalid, file)
          else (.number target.toNat, { file with pos := target.toNat })) := by
    intro held target same known
    split_ifs
    · exact ⟨rfl, mode, pos, same, known⟩
    · exact ⟨rfl, mode, rfl, same, known⟩
  cases whence with
  | set => exact landed raw.file offset content coherent
  | cur =>
      simp only [RawIo.seek, FileIo.step, pos]
      exact landed raw.file _ content coherent
  | end_ =>
      simp only [RawIo.seek, FileIo.step, size, content]
      exact landed raw.file.size.2 _ (server.trans content) kept

theorem Mirrors.readinto (mirrors : Mirrors raw file) (positive : 0 < config.chunkSize)
    (length : Nat) :
    Alike (RawIo.readinto config length raw) (FileIo.step (.readinto length) file) := by
  obtain ⟨mode, pos, content, coherent⟩ := mirrors
  simp only [RawIo.readinto, FileIo.step, mode, File.read_fetch positive, pos, content]
  split_ifs with closed none
  · exact ⟨rfl, mode, pos, content, coherent⟩
  · rw [none, fetch, List.take_zero]
    exact ⟨rfl, mode, pos, content, coherent⟩
  · exact ⟨rfl, rfl, rfl, content, coherent⟩

theorem Mirrors.readall (mirrors : Mirrors raw file) (positive : 0 < config.chunkSize)
    (unlimited : config.maxReadSize = 0) :
    Alike (RawIo.readall config raw) (FileIo.step .readall file) := by
  obtain ⟨mode, pos, content, coherent⟩ := mirrors
  obtain ⟨size, server, kept⟩ := File.size_coherent coherent
  have whole : fetch file.content file.pos (file.content.length - file.pos) =
      file.content.drop file.pos := fetch_all _ (le_refl _)
  have allowed : File.tooLarge config (file.content.length - file.pos) = false := by
    simp [File.tooLarge, unlimited]
  simp only [RawIo.readall, FileIo.step, mode, size, File.read_fetch positive, pos, content,
    server, whole, allowed, Bool.false_eq_true, if_false]
  split_ifs with closed
  · exact ⟨rfl, mode, pos, content, coherent⟩
  · exact ⟨rfl, rfl, rfl, server.trans content, kept⟩

theorem Mirrors.truncate (mirrors : Mirrors raw file) (size : Option Nat) :
    Alike (RawIo.truncate size raw) (FileIo.step (.truncate size) file) := by
  obtain ⟨mode, pos, content, coherent⟩ := mirrors
  simp only [RawIo.truncate, FileIo.step, mode, pos, File.truncate]
  split_ifs with closed
  · exact ⟨rfl, mode, pos, content, coherent⟩
  · refine ⟨rfl, rfl, rfl, ?_, File.invalidate_coherent _ _⟩
    change resize 0 raw.file.server _ = _
    rw [content]

theorem Mirrors.write (mirrors : Mirrors raw file) (positive : 0 < config.chunkSize)
    {data : Bytes} (lands : raw.lands (.write data) = true) :
    Alike (RawIo.write config data raw) (FileIo.step (.write data) file) := by
  obtain ⟨mode, pos, content, coherent⟩ := mirrors
  simp only [RawIo.write, FileIo.step, mode, File.write_patch positive]
  by_cases closed : (!file.mode.writable) = true
  · rw [if_pos closed, if_pos closed]
    exact ⟨rfl, mode, pos, content, coherent⟩
  by_cases none : data = []
  · rw [if_neg closed, if_neg closed, if_pos none, if_pos none]
    exact ⟨rfl, mode, pos, content, coherent⟩
  simp only [RawIo.lands, Bool.or_eq_true, decide_eq_true_eq, none, false_or] at lands
  have start : (if file.mode.base = .a then file.content.length else file.pos) = raw.pos := by
    split_ifs with appends
    · rcases lands with other | landed
      · rw [mode] at other
        exact absurd appends other
      · rw [landed, content]
    · exact pos.symm
  rw [if_neg closed, if_neg closed, if_neg none, if_neg none, start, ← content]
  exact ⟨rfl, rfl, rfl, rfl, File.invalidate_coherent _ _⟩

theorem Mirrors.step (mirrors : Mirrors raw file) (positive : 0 < config.chunkSize)
    (unlimited : config.maxReadSize = 0) {operation : Operation}
    (lands : raw.lands operation = true) :
    Alike (raw.step config operation) (file.step operation) := by
  cases operation with
  | readinto length => exact mirrors.readinto positive length
  | readall => exact mirrors.readall positive unlimited
  | write data => exact mirrors.write positive lands
  | seek offset whence => exact mirrors.seek offset whence
  | tell => exact ⟨congrArg Reply.number mirrors.pos, mirrors⟩
  | truncate size => exact mirrors.truncate size

/-- A write in append mode that is not made at the end leaves a file of another
length than the local one. -/
theorem Mirrors.strays (mirrors : Mirrors raw file) (positive : 0 < config.chunkSize)
    {operation : Operation} (strays : raw.lands operation = false) :
    (raw.step config operation).2.look ≠ (file.step operation).2.look := by
  obtain ⟨mode, pos, content, -⟩ := mirrors
  cases operation with
  | readinto | readall | seek | tell | truncate => cases strays
  | write data =>
      simp only [RawIo.lands, Bool.or_eq_false_iff, decide_eq_false_iff_not, not_not] at strays
      obtain ⟨⟨some, appends⟩, apart⟩ := strays
      rw [mode] at appends
      have writable : file.mode.writable = true := by simp [Mode.writable, appends]
      simp only [RawIo.step, RawIo.write, FileIo.step, mode, writable, File.write_patch positive,
        Bool.not_true, Bool.false_eq_true, if_false, if_neg some, if_pos appends, RawIo.look,
        FileIo.look]
      intro same
      have lengths := congrArg (fun look => look.content.length) same
      change (patch 0 raw.file.server raw.pos data).length =
        (patch 0 file.content file.content.length data).length at lengths
      have written : data.length ≠ 0 := by simpa using some
      rw [length_patch _ _ _ some, length_patch _ _ _ some, ← content] at lengths
      omega

/-- As long as a remote file mirrors a local one, what is seen of the two is the
same exactly when every write in append mode lands at the end. -/
theorem Mirrors.observe_iff (mirrors : Mirrors raw file) (positive : 0 < config.chunkSize)
    (unlimited : config.maxReadSize = 0) (operations : List Operation) :
    observe (RawIo.step config) RawIo.look operations raw =
        observe FileIo.step FileIo.look operations file ↔
      raw.landsAll config operations = true := by
  induction operations generalizing raw file with
  | nil => exact ⟨fun _ => rfl, fun _ => rfl⟩
  | cons operation rest induction =>
      rw [observe, observe, RawIo.landsAll, Bool.and_eq_true]
      cases lands : raw.lands operation with
      | true =>
          obtain ⟨reply, after⟩ := mirrors.step positive unlimited lands
          rw [reply, after.look, List.cons.injEq]
          refine ⟨fun same => ⟨rfl, (induction after).mp same.2⟩,
            fun landed => ⟨rfl, (induction after).mpr landed.2⟩⟩
      | false =>
          have apart := mirrors.strays positive lands
          refine ⟨fun same => ?_, fun landed => absurd landed.1 (by simp)⟩
          exact absurd (Prod.ext_iff.mp (List.cons.inj same).1).2 apart

end Steps

theorem adopt_coherent (volunteers : Bool) (content : Bytes) :
    (RawIo.adopt volunteers content).server = content ∧
      (RawIo.adopt volunteers content).Coherent := by
  cases volunteers with
  | true => exact ⟨rfl, fun _ => rfl⟩
  | false => exact ⟨rfl, fun known => absurd rfl known⟩

theorem opened_mirrors (volunteers : Bool) (mode : Mode) (existing : Option Bytes) :
    (∃ failure, RawIo.opened volunteers mode existing = .error failure ∧
      FileIo.opened mode existing = .error failure) ∨
    ∃ raw file, RawIo.opened volunteers mode existing = .ok raw ∧
      FileIo.opened mode existing = .ok file ∧ Mirrors raw file := by
  obtain ⟨base, updating⟩ := mode
  have plain : ∀ content, Mirrors
      { file := RawIo.adopt volunteers content, mode := ⟨base, updating⟩ }
      { content := content, mode := ⟨base, updating⟩ } :=
    fun content => ⟨rfl, rfl, (adopt_coherent volunteers content).1,
      (adopt_coherent volunteers content).2⟩
  cases base with
  | r =>
      cases existing with
      | none =>
          refine .inl ⟨.notFound, ?_, rfl⟩
          cases updating <;> rfl
      | some content =>
          refine .inr ⟨_, _, ?_, rfl, plain content⟩
          cases updating <;> rfl
  | w =>
      refine .inr ⟨_, _, ?_, rfl, plain []⟩
      cases existing <;> rfl
  | x =>
      cases existing with
      | none => exact .inr ⟨_, _, rfl, rfl, plain []⟩
      | some content => exact .inl ⟨.exists_, rfl, rfl⟩
  | a =>
      obtain ⟨server, coherent⟩ := adopt_coherent volunteers (existing.getD [])
      obtain ⟨size, kept, after⟩ := File.size_coherent coherent
      refine .inr ⟨{ file := (RawIo.adopt volunteers (existing.getD [])).size.2
                     mode := ⟨.a, updating⟩
                     pos := (RawIo.adopt volunteers (existing.getD [])).size.1 }, _, ?_, rfl,
        ⟨rfl, ?_, kept.trans server, after⟩⟩
      · cases existing <;> rfl
      · rw [size, server]

/-- A session with the remote file looks like one with the local file exactly when
every write in append mode lands at the end. -/
theorem sessions_agree_iff (config : Config) (positive : 0 < config.chunkSize)
    (unlimited : config.maxReadSize = 0) (volunteers : Bool) (mode : Mode)
    (existing : Option Bytes) (operations : List Operation) :
    RawIo.session config volunteers mode existing operations =
        FileIo.session mode existing operations ↔
      ∀ raw, RawIo.opened volunteers mode existing = .ok raw →
        raw.landsAll config operations = true := by
  rw [RawIo.session, FileIo.session]
  rcases opened_mirrors volunteers mode existing with
    ⟨failure, refused, too⟩ | ⟨raw, file, opened, local_, mirrors⟩
  · rw [refused, too]
    exact ⟨fun _ raw same => (by cases same), fun _ => rfl⟩
  · rw [opened, local_]
    simp only [Except.map, Except.ok.injEq, Prod.mk.injEq, mirrors.look, true_and, forall_eq']
    exact mirrors.observe_iff positive unlimited operations

/-- Appending, reading back and truncating in append mode, with the position
brought to the end before every write. -/
theorem appends_agree :
    let config : Config := { chunkSize := 2, maxReadSize := 0 }
    let operations : List Operation :=
      [.write [3, 4, 5], .seek 0 .set, .readall, .truncate (some 2), .seek 0 .end_, .write [9]]
    (FileIo.session ⟨.a, true⟩ (some [1, 2]) operations).map (fun seen => seen.2.getLast?) =
        .ok (some (.number 1, ⟨3, [1, 2, 9]⟩)) ∧
      RawIo.session config false ⟨.a, true⟩ (some [1, 2]) operations =
        FileIo.session ⟨.a, true⟩ (some [1, 2]) operations :=
  ⟨by decide, (sessions_agree_iff _ (by decide) (by decide) _ _ _ _).mpr (by
    rintro raw ⟨rfl⟩
    decide)⟩

/-- After a seek to the start, a write in append mode goes over the first byte. -/
theorem append_after_seek_differs :
    RawIo.session { maxReadSize := 0 } true ⟨.a, false⟩ (some [1, 2]) [.seek 0 .set, .write [9]] ≠
      FileIo.session ⟨.a, false⟩ (some [1, 2]) [.seek 0 .set, .write [9]] := by
  decide

end XRootDClient.Io
