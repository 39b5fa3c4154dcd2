import XRootDClient.Client.Transfer
import XRootDClient.Client.Vectors
import XRootDClient.Crypto.Pages
import XRootDClient.Lib.Run

/-!
# Reading on after a loss

A read-only file whose connection is lost is opened again by the request that finds the
loss. Every operation on the handle that has been modelled so far, and everybody else who
shares its session, may have found it before. `stat`, `readv` and `pgread` go through the
guarded retry in every state; the chunks of a `read` that are spread over data paths look at
the session before they get there.
-/

set_option autoImplicit false

namespace XRootDClient.Client

open Lib Lib.BigEndian Lib.Extent Lib.Stateful Lib.Run Proto Crypto
open Handles (Failure)

structure Arrangement where
  order : Nat → List ReadRange → List ReadRange
  complete : ∀ turn batch, (order turn batch).Perm batch

def Arrangement.server (arrangement : Arrangement) (content : Bytes) : VectorServer :=
  ⟨content, arrangement.order, arrangement.complete⟩

namespace Remote

variable {Value : Type}

def pgreadOrder (size offset : Nat) : Order Bytes where
  build handle pathid := Request.PgRead handle offset size false pathid.toNat
  serve _ content := (packPages (fetch content offset size) offset, content)

/-- `File.pgread`: the data, and the pages that fail. -/
def pgread (size offset : Nat) (verify : Bool) (input : Executed) : Op (Bytes × List Nat) := do
  let data ← execute (pgreadOrder size offset) Remote.pathid input
  if (data.length : Int) > packedLength size offset then
    raise (.protocolError (str "the server answered a " ++ Text.ofNat size ++
      str " byte paged read at offset " ++ Text.ofNat offset ++ str " with " ++
      Text.ofNat data.length ++ str " bytes of pages and checksums"))
  else
    let pages := unpackPages data offset
    return (pages.1, if verify then pages.2 else [])

def readvOrder (arrangement : Arrangement) (turn : Nat) (batch : List ReadRange) :
    Order Bytes where
  build handle pathid := readvFor handle pathid batch
  serve handle content :=
    (((arrangement.order turn batch).map (ReadRange.segment handle content)).flatMap
      ReadVSegment.bytes, content)

def lift : Except Exception Value → Op Value
  | .ok value => return value
  | .error error => raise error

def readvLoop (arrangement : Arrangement) (inputs : Nat → Executed) : Nat →
    List (List ReadRange) → Dict Int (List Bytes) → Op (Dict Int (List Bytes))
  | _, [], out => return out
  | turn, batch :: rest, out => do
      let data ← execute (readvOrder arrangement turn batch) Remote.pathid (inputs turn)
      let segments ← lift (parseReadv data)
      readvLoop arrangement inputs (turn + 1) rest (gather out segments)

def readv (arrangement : Arrangement) (wanted : List ReadRange) (inputs : Nat → Executed) :
    Op (List Bytes) := do
  if wanted.isEmpty then return []
  else
    let generated := batches wanted
    let out ← readvLoop arrangement inputs 0 generated.yielded ∅
    match generated.raised with
    | some error => raise error
    | none => lift (inOrder wanted out)

def checksumOrder (args : Bytes) : Order Unit where
  build _ _ := Request.Query kXR_Qcksum args (Writer.zeros FHANDLE_LEN)
  serve _ content := ((), content)

/-- `File.checksum`; it needs no handle, and its answer is nothing the file keeps. -/
def checksum (args : Bytes) (input : Attempt) : Op Unit :=
  routerExecute (checksumOrder args) [] 0 input

def askOrder (build : Bytes → Request) : Order Unit where
  build handle _ := build handle
  serve _ content := ((), content)

def bindDataPath (answer : Except Exception UInt8) : Op UInt8 := do
  let bound := (← get).pathid
  if bound = 0 then
    session
    let pathid ← lift answer
    modify fun remote => { remote with pathid }
    return pathid
  else return bound

inductive Reply
  | length (length : Nat)
  | data (data : Bytes)
  | segments (segments : List Bytes)
  | pages (data : Bytes) (corrupt : List Nat)

inductive Call
  | stat (refresh : Bool) (input : Executed)
  | read (size : Int) (offset : Nat) (input : Executed) (trips : Nat → Trip)
  | readv (ranges : List ReadRange) (arrangement : Arrangement) (inputs : Nat → Executed)
  | pgread (size offset : Nat) (verify : Bool) (input : Executed)

def Call.program : Call → Op Reply
  | .stat refresh input => Reply.length <$> Remote.stat refresh input
  | .read size offset input trips => Reply.data <$> Remote.read size offset input trips
  | .readv ranges arrangement inputs => Reply.segments <$> Remote.readv arrangement ranges inputs
  | .pgread size offset verify input =>
      (fun pages => Reply.pages pages.1 pages.2) <$> Remote.pgread size offset verify input

/-- What happens to a file that is only read: its own calls, `ask` being `visa`, `getxattr`
or `listxattr`, and that somebody else who shares the session finds it to be over. -/
inductive Operation
  | call (call : Call)
  | ask (build : Bytes → Request) (input : Executed)
  | checksum (args : Bytes) (input : Attempt)
  | bindDataPath (answer : Except Exception UInt8)
  | lose

def Operation.program : Operation → Op Unit
  | .call made => discard made.program
  | .ask build input => execute (askOrder build) (fun _ => 0) input
  | .checksum args input => Remote.checksum args input
  | .bindDataPath answer => discard (Remote.bindDataPath answer)
  | .lose => modify (Remote.lose true)

def step (operation : Operation) (remote : Remote) : Remote := final (operation.program remote)

section Kept

variable {order : Order Value} {start remote : Remote}

def Silent (order : Order Value) : Prop := ∀ handle content, (order.serve handle content).2 = content

/-- What holds of a file that is only read, whatever happens to its connections. A file
whose re-open failed keeps no length and no data path. -/
structure Kept (start remote : Remote) : Prop where
  server : remote.file.server = start.file.server
  told : Told remote.file
  settings : remote.settings = start.settings
  paths : 0 ∉ remote.dataPaths
  gone : remote.handle = none → remote.file.stat = none ∧ remote.dataPaths = []

theorem Kept.lose (kept : Kept start remote) (lost : Bool) : Kept start (remote.lose lost) :=
  ⟨kept.server, kept.told, kept.settings, kept.paths, kept.gone⟩

theorem session_frame (seen : Remote) : Triple (· = seen) session (fun _ now => now = seen)
    (fun _ now => now = seen) := by
  intro now same
  subst same
  unfold session
  rw [run_bind, run_get]
  dsimp only
  split_ifs
  · rfl
  · rfl

theorem apply_silent (silent : Silent order) (handle : Bytes) (seen : Remote) :
    seen.apply order handle = seen := by
  unfold apply
  rw [silent]

theorem attempt_frame (silent : Silent order) (handle : Bytes) (pathid : UInt8) (input : Attempt)
    (seen : Remote) : Triple (· = seen) (attempt order handle pathid input)
      (fun value now => value = (order.serve handle seen.file.server).1 ∧ now = seen)
      (fun _ now => now = seen ∨ ∃ lost, now = seen.lose lost) := by
  intro now same
  subst same
  unfold attempt
  cases encode (order.build handle pathid) 0 with
  | error error => exact .inl rfl
  | ok frame =>
      dsimp only
      rw [run_bind, run_get]
      cases input with
      | served =>
          dsimp only
          rw [apply_silent silent]
          exact ⟨rfl, rfl⟩
      | raises failure applied lost =>
          dsimp only
          rw [apply_silent silent, ite_self]
          exact .inr ⟨lost, rfl⟩

theorem router_execute_frame (silent : Silent order) (handle : Bytes) (pathid : UInt8)
    (input : Attempt) (seen : Remote) :
    Triple (· = seen) (routerExecute order handle pathid input)
      (fun value now => value = (order.serve handle seen.file.server).1 ∧ now = seen)
      (fun _ now => now = seen ∨ ∃ lost, now = seen.lose lost) := by
  unfold routerExecute
  apply triple_look
  intro _
  have asked := triple_weaken (session_frame seen) (fun _ same => same) (fun _ _ same => same)
    (fun _ now same => (.inl same : now = seen ∨ ∃ lost, now = seen.lose lost))
  apply triple_catch (triple_bind asked fun _ => attempt_frame silent handle pathid input seen)
  exact fun _ => triple_throw fun _ same => same

theorem bind_data_streams_kept (binds : List UInt8) :
    Triple (fun now => Kept start now ∧ now.handle ≠ none) (bindDataStreams binds)
      (fun _ now => Kept start now ∧ now.handle ≠ none) fun _ _ => False := by
  induction binds with
  | nil => exact triple_pure fun _ both => both
  | cons pathid rest induction =>
      unfold bindDataStreams
      apply triple_get
      intro seen
      split_ifs with more
      · have bound : Triple (fun now => now = seen ∧ Kept start seen ∧ seen.handle ≠ none)
            (set { seen with dataPaths := seen.dataPaths ++ [pathid] } : Op PUnit)
            (fun _ now => Kept start now ∧ now.handle ≠ none) fun _ _ => False := by
          rintro now ⟨-, kept, held⟩
          refine ⟨⟨kept.server, kept.told, kept.settings, ?_, fun none => absurd none held⟩, held⟩
          rw [List.mem_append, List.mem_singleton, not_or]
          exact ⟨kept.paths, fun zero => more.2.2 zero.symm⟩
        exact triple_bind bound fun _ => induction
      · exact triple_pure fun now both => both.1 ▸ both.2

theorem adopt_kept (opened : Opened) (kept : Kept start remote) :
    Kept start (remote.adopt opened) := by
  have server : (remote.adopt opened).file.server = remote.file.server := by
    unfold adopt
    cases opened.told <;> rfl
  refine ⟨server.trans kept.server, ?_, kept.settings, kept.paths, fun none => by cases none⟩
  unfold adopt
  cases opened.told with
  | true => exact fun length known => ⟨(Option.some.inj known).symm, rfl⟩
  | false => exact fun length known => by cases known

theorem reopen_kept (recovery : Recovery) :
    Triple (Kept start) (reopen recovery) (fun _ now => Kept start now ∧ now.handle ≠ none)
      (fun _ => Kept start) := by
  have cleared : Triple (Kept start) (modify forgotten : Op PUnit) (fun _ => Kept start)
      (fun _ => Kept start) := by
    apply triple_modify
    intro now kept
    exact ⟨kept.server, fun length known => (by cases known), kept.settings, List.not_mem_nil,
      fun _ => ⟨rfl, rfl⟩⟩
  unfold reopen
  apply triple_bind cleared
  intro _
  cases recovery.opening with
  | error failure => exact triple_throw fun _ kept => kept
  | ok opened =>
      have given : Triple (Kept start) (modify (adopt opened) : Op PUnit)
          (fun _ now => Kept start now ∧ now.handle ≠ none) (fun _ => Kept start) :=
        triple_modify fun _ kept => ⟨adopt_kept opened kept, Option.some_ne_none _⟩
      apply triple_bind given
      intro _
      apply triple_bind (triple_weaken (bind_data_streams_kept recovery.binds) (fun _ both => both)
        (fun _ _ both => both) (fun _ _ never => never.elim))
      exact fun _ => triple_pure fun _ both => both

theorem execute_kept (silent : Silent order) (path : Remote → UInt8) (input : Executed) :
    Triple (Kept start) (execute order path input)
      (fun value now => Kept start now ∧ now.handle ≠ none ∧
        ∃ handle, value = (order.serve handle start.file.server).1)
      (fun _ => Kept start) := by
  have routed (handle : Bytes) (pathid : UInt8) (attempt : Attempt) :
      Triple (fun now => Kept start now ∧ now.handle ≠ none)
        (routerExecute order handle pathid attempt)
        (fun value now => Kept start now ∧ now.handle ≠ none ∧
          ∃ handle, value = (order.serve handle start.file.server).1)
        (fun _ => Kept start) := by
    rintro now ⟨kept, held⟩
    have framed := triple_weaken (router_execute_frame silent handle pathid attempt now)
      (fun _ same => same)
      (fun value after (same : _ ∧ after = now) =>
        (⟨same.2 ▸ kept, same.2 ▸ held, handle, by rw [← kept.server]; exact same.1⟩ :
          Kept start after ∧ after.handle ≠ none ∧
            ∃ handle, value = (order.serve handle start.file.server).1))
      (fun _ after (same : after = now ∨ ∃ lost, after = now.lose lost) =>
        (by
          rcases same with same | ⟨lost, same⟩
          · exact same ▸ kept
          · exact same ▸ kept.lose lost : Kept start after))
    exact framed now rfl
  have asked : Triple (Kept start) getHandle (fun _ now => Kept start now ∧ now.handle ≠ none)
      (fun _ => Kept start) := by
    intro now kept
    unfold getHandle
    rw [run_bind, run_get]
    dsimp only
    generalize known : now.handle = handle
    cases handle with
    | none => exact kept
    | some handle => exact ⟨kept, by rw [known]; exact Option.some_ne_none _⟩
  unfold execute
  apply triple_catch (triple_bind asked fun handle => triple_look fun seen => routed handle _ _)
  intro failure
  apply triple_look
  intro seen
  split_ifs
  · apply triple_bind (reopen_kept input.recovery)
    intro handle
    apply triple_look
    exact fun seen => routed handle _ _
  · exact triple_throw fun _ kept => kept

theorem execute_keeps (silent : Silent order) (path : Remote → UInt8) (input : Executed) :
    Triple (Kept start) (execute order path input) (fun _ => Kept start) (fun _ => Kept start) :=
  triple_weaken (execute_kept silent path input) (fun _ kept => kept) (fun _ _ done => done.1)
    (fun _ _ kept => kept)

theorem Kept.latch (kept : Kept start remote) (rr : Nat) (multistream : Bool) :
    Kept start { remote with rr := rr, multistream := multistream } :=
  ⟨kept.server, kept.told, kept.settings, kept.paths, kept.gone⟩

theorem next_path_kept : Triple (Kept start) nextPath
    (fun pathid now => Kept start now ∧ (pathid ≠ 0 → now.handle ≠ none))
    fun _ _ => False := by
  intro now kept
  unfold nextPath
  rw [run_bind, run_get]
  dsimp only
  split_ifs with none
  · exact ⟨kept, fun some => absurd rfl some⟩
  · refine ⟨kept.latch _ _, fun _ closed => none ?_⟩
    rw [(kept.gone closed).2, List.isEmpty_nil, Bool.or_true]

theorem split_bulk_kept (silent : Silent order) (pathid : UInt8) (trip : Trip) :
    Triple (Kept start) (splitBulk order pathid trip) (fun _ => Kept start)
      (fun _ => Kept start) := by
  unfold splitBulk
  apply triple_catch (execute_keeps silent _ _)
  intro failure
  apply triple_look
  intro seen
  split_ifs
  · exact triple_throw fun _ kept => kept
  · have latched : Triple (Kept start)
        (modify fun remote => { remote with multistream := false } : Op PUnit)
        (fun _ => Kept start) (fun _ => Kept start) :=
      triple_modify fun now kept => kept.latch _ _
    exact triple_bind latched fun _ => execute_keeps silent _ _

theorem on_data_path_kept (silent : Silent order) (pathid : UInt8) (input : Attempt) :
    Triple (fun now => Kept start now ∧ now.handle ≠ none) (onDataPath order pathid input)
      (fun _ now => Kept start now ∧ now.handle ≠ none)
      (fun _ now => Kept start now ∧ now.handle ≠ none) := by
  rintro seen ⟨kept, held⟩
  have lost {now : Remote} (same : now = seen ∨ ∃ lost, now = seen.lose lost) :
      Kept start now ∧ now.handle ≠ none := by
    rcases same with rfl | ⟨lost, rfl⟩
    · exact ⟨kept, held⟩
    · exact ⟨kept.lose lost, held⟩
  have handled : Triple (· = seen) getHandle (fun _ now => now = seen)
      (fun _ now => Kept start now ∧ now.handle ≠ none) :=
    triple_weaken (get_handle_amid fun now (same : now = seen) => same ▸ held)
      (fun _ same => same) (fun _ _ same => same) (fun _ _ never => never.elim)
  have asked : Triple (· = seen) (do
      session
      let handle ← getHandle
      return some (← attempt order handle pathid input))
      (fun _ now => Kept start now ∧ now.handle ≠ none)
      (fun _ now => Kept start now ∧ now.handle ≠ none) := by
    apply triple_bind (triple_weaken (session_frame seen) (fun _ same => same)
      (fun _ _ same => same) (fun _ _ same => lost (.inl same)))
    intro _
    apply triple_bind handled
    intro handle
    apply triple_bind (triple_weaken (attempt_frame silent handle pathid input seen)
      (fun _ same => same) (fun _ _ done => lost (.inl done.2)) (fun _ _ same => lost same))
    exact fun value => triple_pure fun _ both => both
  have caught : Triple (· = seen) (onDataPath order pathid input)
      (fun _ now => Kept start now ∧ now.handle ≠ none)
      (fun _ now => Kept start now ∧ now.handle ≠ none) := by
    unfold onDataPath
    apply triple_catch asked
    intro failure
    split_ifs
    · exact triple_pure fun _ both => both
    · exact triple_throw fun _ both => both
  exact caught seen rfl

theorem bulk_kept (silent : Silent order) (trip : Trip) :
    Triple (Kept start) (bulk order trip) (fun _ => Kept start) (fun _ => Kept start) := by
  have chosen : Triple (Kept start) nextPath
      (fun pathid now => Kept start now ∧ (pathid ≠ 0 → now.handle ≠ none))
      (fun _ => Kept start) :=
    triple_weaken next_path_kept (fun _ kept => kept) (fun _ _ both => both)
      (fun _ _ never => never.elim)
  unfold bulk
  apply triple_bind chosen
  intro pathid
  apply triple_look
  intro seen
  by_cases control : (decide (pathid = 0) || seen.checkpoint) = true
  · rw [if_pos control]
    exact triple_weaken (execute_keeps silent _ _) (fun _ both => both.1) (fun _ _ kept => kept)
      (fun _ _ kept => kept)
  rw [if_neg control]
  have some : pathid ≠ 0 := fun zero => control (by rw [zero]; rfl)
  have over_ : Triple (fun now => Kept start now ∧ (pathid ≠ 0 → now.handle ≠ none)) session
      (fun _ now => Kept start now ∧ now.handle ≠ none) (fun _ => Kept start) := by
    intro now both
    exact triple_weaken (session_frame now) (fun _ same => same)
      (fun _ after (same : after = now) => same ▸ ⟨both.1, both.2 some⟩)
      (fun _ after (same : after = now) => same ▸ both.1) now rfl
  apply triple_bind over_
  intro _
  split_ifs
  · apply triple_bind (triple_weaken (on_data_path_kept silent pathid trip.direct)
      (fun _ both => both) (fun _ _ both => both) (fun _ _ both => both.1))
    intro value
    cases value with
    | some value => exact triple_pure fun _ both => both.1
    | none =>
        have erased : Triple (fun now => Kept start now ∧ now.handle ≠ none)
            (modify fun remote => { remote with dataPaths := remote.dataPaths.erase pathid } :
              Op PUnit)
            (fun _ now => Kept start now ∧ now.handle ≠ none) (fun _ => Kept start) := by
          apply triple_modify
          rintro now ⟨kept, held⟩
          exact ⟨⟨kept.server, kept.told, kept.settings,
            fun member => kept.paths (List.mem_of_mem_erase member),
            fun none => absurd none held⟩, held⟩
        apply triple_bind erased
        intro _
        apply triple_bind (triple_weaken (bind_data_streams_kept trip.binds) (fun _ both => both)
          (fun _ _ both => both.1) (fun _ _ never => never.elim))
        intro _
        apply triple_bind chosen
        intro next
        split_ifs
        · exact triple_weaken (execute_keeps silent _ _) (fun _ both => both.1) (fun _ _ kept => kept)
            (fun _ _ kept => kept)
        · exact triple_weaken (split_bulk_kept silent next trip) (fun _ both => both.1)
            (fun _ _ kept => kept) (fun _ _ kept => kept)
  · exact triple_weaken (split_bulk_kept silent pathid trip) (fun _ both => both.1)
      (fun _ _ kept => kept) (fun _ _ kept => kept)

theorem lift_keeps (outcome : Except Exception Value) :
    Triple (Kept start) (lift outcome) (fun _ => Kept start) (fun _ => Kept start) := by
  cases outcome with
  | ok value => exact triple_pure fun _ kept => kept
  | error error => exact triple_throw fun _ kept => kept

theorem ask_stat_kept (input : Executed) :
    Triple (Kept start) (askStat input) (fun _ => Kept start) (fun _ => Kept start) := by
  unfold askStat
  apply triple_bind (execute_kept (fun _ _ => rfl) _ input)
  intro length
  have noted : Triple (fun now => Kept start now ∧ now.handle ≠ none ∧
      ∃ handle, length = (statOrder.serve handle start.file.server).1)
      (modify fun remote => { remote with
        file := { remote.file with stat := some length, sizeHint := length } } : Op PUnit)
      (fun _ => Kept start) (fun _ => Kept start) := by
    apply triple_modify
    rintro now ⟨kept, held, handle, same⟩
    have whole : length = now.file.server.length := by
      rw [kept.server]
      exact same
    exact ⟨kept.server, fun other known => ⟨(Option.some.inj known).symm.trans whole, whole⟩,
      kept.settings, kept.paths, fun none => absurd none held⟩
  apply triple_bind noted
  exact fun _ => triple_pure fun _ kept => kept

theorem stat_kept (refresh : Bool) (input : Executed) :
    Triple (Kept start) (stat refresh input) (fun _ => Kept start) (fun _ => Kept start) := by
  unfold stat
  apply triple_look
  intro seen
  cases seen.file.stat with
  | none => exact ask_stat_kept input
  | some length =>
      cases refresh with
      | true => exact ask_stat_kept input
      | false => exact triple_pure fun _ kept => kept

theorem read_one_kept (offset length : Nat) (trip : Trip) :
    Triple (Kept start) (readOne offset length trip) (fun _ => Kept start)
      (fun _ => Kept start) := by
  unfold readOne
  apply triple_bind (bulk_kept (fun _ _ => rfl) trip)
  intro data
  split_ifs
  · exact triple_throw fun _ kept => kept
  · exact triple_pure fun _ kept => kept

theorem read_loop_kept (limit : Nat) (trips : Nat → Trip) (fuel turn offset remaining : Nat) :
    Triple (Kept start) (readLoop limit trips fuel turn offset remaining) (fun _ => Kept start)
      (fun _ => Kept start) := by
  induction fuel generalizing turn offset remaining with
  | zero =>
      cases remaining with
      | zero => exact triple_pure fun _ kept => kept
      | succ remaining => exact triple_throw fun _ kept => kept
  | succ fuel induction =>
      cases remaining with
      | zero => exact triple_pure fun _ kept => kept
      | succ remaining =>
          unfold readLoop
          apply triple_bind (read_one_kept _ _ _)
          intro chunk
          split_ifs
          · exact triple_pure fun _ kept => kept
          · apply triple_bind (induction _ _ _)
            exact fun rest => triple_pure fun _ kept => kept

theorem read_size_kept (size offset : Nat) (trips : Nat → Trip) :
    Triple (Kept start) (readSize size offset trips) (fun _ => Kept start)
      (fun _ => Kept start) := by
  unfold readSize
  apply triple_look
  intro seen
  dsimp only
  split_ifs
  · exact triple_pure fun _ kept => kept
  · exact read_one_kept _ _ _
  · exact read_loop_kept _ _ _ _ _ _

theorem read_kept (size : Int) (offset : Nat) (input : Executed) (trips : Nat → Trip) :
    Triple (Kept start) (read size offset input trips) (fun _ => Kept start)
      (fun _ => Kept start) := by
  have sized : Triple (Kept start) (Remote.size input) (fun _ => Kept start)
      (fun _ => Kept start) := by
    unfold Remote.size
    apply triple_look
    intro seen
    dsimp only
    split_ifs
    · exact triple_pure fun _ kept => kept
    · exact stat_kept false input
  unfold read
  split_ifs
  · apply triple_bind sized
    intro length
    apply triple_look
    intro seen
    split_ifs
    · exact triple_throw fun _ kept => kept
    · exact read_size_kept _ _ _
  · exact read_size_kept _ _ _

theorem readv_loop_kept (arrangement : Arrangement) (inputs : Nat → Executed) (turn : Nat)
    (parts : List (List ReadRange)) (out : Dict Int (List Bytes)) :
    Triple (Kept start) (readvLoop arrangement inputs turn parts out) (fun _ => Kept start)
      (fun _ => Kept start) := by
  induction parts generalizing turn out with
  | nil => exact triple_pure fun _ kept => kept
  | cons batch rest induction =>
      unfold readvLoop
      apply triple_bind (execute_keeps (fun _ _ => rfl) _ _)
      intro data
      apply triple_bind (lift_keeps _)
      exact fun segments => induction _ _

theorem readv_kept (arrangement : Arrangement) (wanted : List ReadRange)
    (inputs : Nat → Executed) :
    Triple (Kept start) (readv arrangement wanted inputs) (fun _ => Kept start)
      (fun _ => Kept start) := by
  unfold readv
  split_ifs
  · exact triple_pure fun _ kept => kept
  · apply triple_bind (readv_loop_kept _ _ _ _ _)
    intro out
    cases (batches wanted).raised with
    | some error => exact triple_throw fun _ kept => kept
    | none => exact lift_keeps _

theorem pgread_kept (size offset : Nat) (verify : Bool) (input : Executed) :
    Triple (Kept start) (pgread size offset verify input) (fun _ => Kept start)
      (fun _ => Kept start) := by
  unfold pgread
  apply triple_bind (execute_keeps (fun _ _ => rfl) _ _)
  intro data
  by_cases long : (data.length : Int) > packedLength size offset
  · rw [if_pos long]
    exact triple_throw fun _ kept => kept
  · rw [if_neg long]
    exact triple_pure fun _ kept => kept

theorem triple_map {Other : Type} {act : Op Value} (change : Value → Other)
    (keeps : Triple (Kept start) act (fun _ => Kept start) (fun _ => Kept start)) :
    Triple (Kept start) (change <$> act) (fun _ => Kept start) (fun _ => Kept start) := by
  rw [map_eq_pure_bind]
  exact triple_bind keeps fun value => triple_pure fun _ kept => kept

theorem call_kept (call : Call) :
    Triple (Kept start) call.program (fun _ => Kept start) (fun _ => Kept start) := by
  cases call with
  | stat refresh input => exact triple_map _ (stat_kept refresh input)
  | read size offset input trips => exact triple_map _ (read_kept size offset input trips)
  | readv ranges arrangement inputs => exact triple_map _ (readv_kept arrangement ranges inputs)
  | pgread size offset verify input => exact triple_map _ (pgread_kept size offset verify input)

theorem bind_data_path_kept (answer : Except Exception UInt8) :
    Triple (Kept start) (bindDataPath answer) (fun _ => Kept start) (fun _ => Kept start) := by
  have asked : Triple (Kept start) session (fun _ => Kept start) (fun _ => Kept start) :=
    fun seen kept => triple_weaken (session_frame seen) (fun _ same => same)
      (fun _ now (same : now = seen) => same ▸ kept)
      (fun _ now (same : now = seen) => same ▸ kept) seen rfl
  have bound (pathid : UInt8) : Triple (Kept start)
      (modify fun remote => { remote with pathid } : Op PUnit) (fun _ => Kept start)
      (fun _ => Kept start) := by
    apply triple_modify
    exact fun now kept => ⟨kept.server, kept.told, kept.settings, kept.paths, kept.gone⟩
  unfold bindDataPath
  apply triple_look
  intro seen
  dsimp only
  split_ifs
  · apply triple_bind asked
    intro _
    apply triple_bind (lift_keeps answer)
    intro pathid
    apply triple_bind (bound pathid)
    exact fun _ => triple_pure fun _ kept => kept
  · exact triple_pure fun _ kept => kept

theorem operation_kept (operation : Operation) :
    Triple (Kept start) operation.program (fun _ => Kept start) (fun _ => Kept start) := by
  cases operation with
  | call made => exact triple_map _ (call_kept made)
  | ask build input => exact execute_keeps (fun _ _ => rfl) _ input
  | checksum args input =>
      intro seen kept
      have lost {now : Remote} (same : now = seen ∨ ∃ lost, now = seen.lose lost) :
          Kept start now := by
        rcases same with rfl | ⟨lost, rfl⟩
        · exact kept
        · exact kept.lose lost
      exact triple_weaken (router_execute_frame (fun _ _ => rfl) [] 0 input seen)
        (fun _ same => same) (fun _ _ done => lost (.inl done.2)) (fun _ _ same => lost same)
        seen rfl
  | bindDataPath answer => exact triple_map _ (bind_data_path_kept answer)
  | lose => exact triple_modify fun _ kept => kept.lose true

end Kept

section Refused

variable {order : Order Value} {start remote : Remote}

theorem execute_closed (closed : remote.handle = none) (path : Remote → UInt8) (input : Executed) :
    ∃ error after, execute order path input remote = .error error after := by
  have asked : (getHandle : Op Bytes) remote =
      .error (.raised (.valueError (str "I/O operation on closed file"))) remote := by
    unfold getHandle
    rw [run_bind, run_get]
    dsimp only
    rw [closed]
    rfl
  unfold execute
  rw [run_catch, run_bind, asked]
  exact ⟨_, _, rfl⟩

theorem bind_fails {Other : Type} {first : Op Value} {rest : Value → Op Other}
    (fails : ∃ error after, first remote = .error error after) :
    ∃ error after, (first >>= rest) remote = .error error after := by
  obtain ⟨error, after, failed⟩ := fails
  rw [run_bind, failed]
  exact ⟨error, after, rfl⟩

theorem ask_stat_closed (closed : remote.handle = none) (input : Executed) :
    ∃ error after, askStat input remote = .error error after :=
  bind_fails (execute_closed closed _ input)

theorem stat_closed (kept : Kept start remote) (closed : remote.handle = none) (refresh : Bool)
    (input : Executed) : ∃ error after, stat refresh input remote = .error error after := by
  unfold stat
  rw [run_bind, run_get]
  dsimp only
  rw [(kept.gone closed).1]
  exact ask_stat_closed closed input

theorem bulk_closed (kept : Kept start remote) (closed : remote.handle = none) (trip : Trip) :
    ∃ error after, bulk order trip remote = .error error after := by
  have chosen : (nextPath : Op UInt8) remote = .ok 0 remote := by
    unfold nextPath
    rw [run_bind, run_get]
    dsimp only
    rw [(kept.gone closed).2, List.isEmpty_nil, Bool.or_true]
    rfl
  unfold bulk
  rw [run_bind, chosen]
  exact execute_closed closed _ trip.control

/-- Where the session is known to be over, a chunk that would go over a data path fails
before there is anything that could open the file again. -/
theorem bulk_blocked (kept : Kept start remote) (blocked : remote.Blocked) (trip : Trip) :
    ∃ error after, bulk order trip remote = .error error after := by
  obtain ⟨over_, journal, spread, some⟩ := blocked
  have length : 0 < remote.dataPaths.length := List.length_pos_iff.mpr some
  have inside := Nat.mod_lt remote.rr length
  have chosen : (nextPath : Op UInt8) remote =
      .ok (remote.dataPaths.getD (remote.rr % remote.dataPaths.length) 0)
        { remote with rr := remote.rr + 1 } := by
    unfold nextPath
    rw [run_bind, run_get]
    dsimp only
    rw [spread, if_neg (by simpa using some)]
    rfl
  have bound : remote.dataPaths.getD (remote.rr % remote.dataPaths.length) 0 ≠ 0 := by
    intro zero
    apply kept.paths
    rw [List.getD_eq_getElem?_getD, List.getElem?_eq_getElem inside, Option.getD_some] at zero
    rw [← zero]
    exact List.getElem_mem inside
  unfold bulk
  rw [run_bind, chosen]
  dsimp only
  rw [run_bind, run_get]
  dsimp only
  rw [journal, Bool.or_false, if_neg (by simpa using bound)]
  apply bind_fails
  unfold session
  rw [run_bind, run_get]
  dsimp only
  rw [if_pos over_]
  exact ⟨_, _, rfl⟩

theorem read_one_fails {offset length : Nat} {trip : Trip}
    (fails : ∃ error after, bulk (readOrder offset length) trip remote = .error error after) :
    ∃ error after, readOne offset length trip remote = .error error after :=
  bind_fails fails

theorem read_size_fails {size offset : Nat} {trips : Nat → Trip} (some : size ≠ 0)
    (fails : ∀ offset length trip, ∃ error after,
      bulk (readOrder offset length) trip remote = .error error after) :
    ∃ error after, readSize size offset trips remote = .error error after := by
  unfold readSize
  rw [run_bind, run_get]
  dsimp only
  rw [if_neg some]
  split_ifs
  · exact read_one_fails (fails _ _ _)
  · obtain ⟨less, rfl⟩ := Nat.exists_eq_succ_of_ne_zero some
    unfold readLoop
    exact bind_fails (read_one_fails (fails _ _ _))

end Refused

section Calls

variable {start remote : Remote}

theorem pgread_order_fits {size offset : Nat} (near : offset < 2 ^ 63) (short : size < 2 ^ 31) :
    (pgreadOrder size offset).Fits := by
  intro handle pathid
  have params : (Request.PgRead handle offset size false pathid.toNat).params = .ok
      (Writer.padded handle 4 ++ BigEndian.encode 8 (BigEndian.unsigned 8 offset) ++
        BigEndian.encode 4 (BigEndian.unsigned 4 size)) := by
    change (do return Writer.padded handle 4 ++ (← Writer.i64 offset) ++ (← Writer.i32 size)) = _
    rw [written_i64 near, written_i32 short]
    rfl
  have payload : ∃ body : Bytes,
      (Request.PgRead handle offset size false pathid.toNat).payload = .ok body ∧
        body.length ≤ 4 := by
    change ∃ body : Bytes, (if (!false && decide (pathid.toNat = 0)) = true then .ok [] else do
      return (← Writer.u8 pathid.toNat) ++ (← Writer.u8 0) ++ Writer.zeros 2) =
        Except.ok body ∧ body.length ≤ 4
    split_ifs
    · exact ⟨[], rfl, by decide⟩
    · rw [written_u8]
      exact ⟨_, rfl, by simp [Writer.zeros]⟩
  obtain ⟨body, payload, bounded⟩ := payload
  apply encode_writes _ 0 params
  · simp
  · exact payload
  · exact Nat.le_trans bounded (by decide)
  · exact (by decide : kXR_pgread < 0x10000)

theorem pgread_answered {size offset : Nat} (verify : Bool) {input : Executed}
    (near : offset < 2 ^ 63) (short : size < 2 ^ 31) (answered : input.Answered start.recoverable)
    (held : start.handle ≠ none) (survivable : start.closed = true → start.recoverable = true) :
    Triple (· = start) (pgread size offset verify input)
      (fun pages _ => pages = (fetch start.file.server offset size, [])) fun _ _ => False := by
  have done : Triple (· = start) (execute (pgreadOrder size offset) Remote.pathid input)
      (Done (pgreadOrder size offset) start) fun _ _ => False := by
    intro now same
    subst same
    exact execute_answered (fun _ _ _ => rfl) (pgread_order_fits near short) _ answered now
      (.first held survivable)
  unfold pgread
  apply triple_bind done
  intro data now done
  obtain ⟨handle, same, -⟩ := done.answered
  have packed_ : data = packPages (fetch start.file.server offset size) offset := same
  have fits : ¬(data.length : Int) > packedLength size offset := by
    have less : ((fetch start.file.server offset size).length : Int) ≤ size := by
      rw [length_fetch]
      omega
    have bounded := packed_length_mono offset less
    rw [packed_, pack_pages_length]
    omega
  rw [if_neg fits, packed_, unpack_pack_pages]
  exact congrArg (Prod.mk _) (ite_self _)

/-- A batch has room in a request, and its answer is read as the segments of its ranges. -/
theorem readv_order_fits (arrangement : Arrangement) (turn : Nat) {batch : List ReadRange}
    (proper : ∀ range ∈ batch, range.Proper) (short : batch.length ≤ READV_MAX_CHUNKS)
    (wide : ∀ range ∈ batch, range.offset < 2 ^ 63) :
    (readvOrder arrangement turn batch).Fits := by
  intro handle pathid
  obtain ⟨data, done⟩ := (@execute_answers (arrangement.server []) handle pathid batch proper short
    turn).mpr wide
  obtain ⟨frame, encoded, -⟩ := except_returns done
  exact ⟨frame, encoded⟩

theorem readv_order_parsed (arrangement : Arrangement) (turn : Nat) {batch : List ReadRange}
    (content handle : Bytes) (proper : ∀ range ∈ batch, range.Proper)
    (short : batch.length ≤ READV_MAX_CHUNKS) (wide : ∀ range ∈ batch, range.offset < 2 ^ 63) :
    parseReadv ((readvOrder arrangement turn batch).serve handle content).1 =
      .ok ((arrangement.order turn batch).map (ReadRange.segment handle content)) := by
  obtain ⟨data, done⟩ := (@execute_answers (arrangement.server content) handle 0 batch proper short
    turn).mpr wide
  have parsed := execute_parsed proper wide done
  obtain ⟨frame, -, made⟩ := except_returns done
  rw [← Except.ok.inj made] at parsed
  exact parsed

theorem readv_loop_answered (arrangement : Arrangement) {inputs : Nat → Executed}
    {parts : List (List ReadRange)} {arrived : List ReadRange} {out : Dict Int (List Bytes)}
    (proper : ∀ batch ∈ parts, ∀ range ∈ batch, range.Proper)
    (short : ∀ batch ∈ parts, batch.length ≤ READV_MAX_CHUNKS)
    (wide : ∀ batch ∈ parts, ∀ range ∈ batch, range.offset < 2 ^ 63) (turn : Nat)
    (gathered : Gathered start.file.server arrived out)
    (answered : ∀ turn, (inputs turn).Answered start.recoverable) (held : start.handle ≠ none)
    (survivable : start.closed = true → start.recoverable = true) :
    Triple (· = start) (readvLoop arrangement inputs turn parts out)
      (fun after _ => Gathered start.file.server
        (arrived ++ (arrangement.server start.file.server).arrivals turn parts) after)
      fun _ _ => False := by
  induction parts generalizing start turn arrived out with
  | nil =>
      apply triple_pure
      intro now _
      rw [VectorServer.arrivals, List.append_nil]
      exact gathered
  | cons batch rest induction =>
      rw [List.forall_mem_cons] at proper short wide
      have done : Triple (· = start)
          (execute (readvOrder arrangement turn batch) Remote.pathid (inputs turn))
          (Done (readvOrder arrangement turn batch) start) fun _ _ => False := by
        intro now same
        subst same
        exact execute_answered (fun _ _ _ => rfl)
          (readv_order_fits arrangement turn proper.1 short.1 wide.1) _ (answered turn) now
          (.first held survivable)
      unfold readvLoop
      apply triple_bind done
      intro data now done
      have stays := done.stays fun _ => rfl
      obtain ⟨handle, rfl, -⟩ := done.answered
      rw [readv_order_parsed arrangement turn start.file.server handle proper.1 short.1 wide.1]
      have collected := gather_gathered handle gathered (arrangement.order turn batch)
      have later := @induction now _ _ proper.2 short.2 wide.2 (turn + 1)
        (stays.server ▸ collected)
        (fun turn => recoverable_settings stays.settings ▸ answered turn) stays.handle
        stays.startable.survivable
      have all := triple_weaken later (fun _ same => same)
        (fun _ _ gathered => gathered) (fun _ _ never => never) now rfl
      rw [stays.server] at all
      rw [VectorServer.arrivals, ← List.append_assoc]
      exact all

theorem readv_loop_closed (arrangement : Arrangement) (inputs : Nat → Executed)
    (closed : remote.handle = none) (turn : Nat) (batch : List ReadRange)
    (rest : List (List ReadRange)) (out : Dict Int (List Bytes)) : ∃ error after,
      readvLoop arrangement inputs turn (batch :: rest) out remote = .error error after := by
  unfold readvLoop
  exact bind_fails (execute_closed closed _ _)

/-- The segments of each offset arrive with their lengths in the order asked. -/
def InOrder (arrangement : Arrangement) (content : Bytes) (ranges : List ReadRange) : Prop :=
  ∀ offset, (at_ offset ((arrangement.server content).arrivals 0 (batches ranges).yielded)).map
      (ReadRange.available content) = (at_ offset ranges).map (ReadRange.available content)

theorem readv_answered_iff (arrangement : Arrangement) {ranges : List ReadRange}
    {inputs : Nat → Executed} (proper : ∀ range ∈ ranges, range.Proper)
    (wide : ∀ range ∈ ranges, range.offset < 2 ^ 63)
    (answered : ∀ turn, (inputs turn).Answered remote.recoverable)
    (survivable : remote.closed = true → remote.recoverable = true) :
    (∃ after, readv arrangement ranges inputs remote =
        .ok (ranges.map (ReadRange.within remote.file.server)) after) ↔
      ranges = [] ∨ remote.handle ≠ none ∧ InOrder arrangement remote.file.server ranges := by
  by_cases none : ranges = []
  · subst none
    exact iff_of_true ⟨remote, rfl⟩ (.inl rfl)
  have accepted : (batches ranges).raised = .none :=
    batches_from_accepted fun range member => (proper range member).bounded
  have respects := batches_respect accepted
  have within {batch : List ReadRange} (part : batch ∈ (batches ranges).yielded)
      {range : ReadRange} (member : range ∈ batch) : range ∈ ranges := by
    rw [← respects.flat]
    exact List.mem_flatten.mpr ⟨batch, part, member⟩
  unfold readv
  rw [if_neg (by simpa using none), accepted]
  dsimp only
  by_cases held : remote.handle = .none
  · have some : (batches ranges).yielded ≠ [] := by
      intro empty
      have flat := respects.flat
      rw [empty] at flat
      exact none flat.symm
    obtain ⟨batch, rest, split⟩ := List.exists_cons_of_ne_nil some
    obtain ⟨error, after, failed⟩ := readv_loop_closed arrangement inputs held 0 batch rest ∅
    rw [split, run_bind, failed]
    constructor
    · rintro ⟨other, returned⟩
      cases returned
    · rintro (empty | open_)
      · exact absurd empty none
      · exact absurd held open_.1
  · have nothing : Gathered remote.file.server [] ∅ := fun _ => rfl
    obtain ⟨out, now, looped, gathered⟩ := (readv_loop_answered arrangement
      (fun batch part range member => proper range (within part member)) respects.short
      (fun batch part range member => wide range (within part member)) 0 nothing answered held
      survivable).returns rfl
    rw [List.nil_append] at gathered
    have reordered := arrivals_perm (arrangement.server remote.file.server) 0
      (batches ranges).yielded
    rw [respects.flat] at reordered
    have exact_ := (in_order_iff proper (gathered_counted gathered reordered)).trans
      (gathered_meant gathered reordered)
    rw [run_bind, looped]
    dsimp only
    constructor
    · rintro ⟨after, returned⟩
      refine .inr ⟨held, exact_.mp ?_⟩
      cases sorted : inOrder ranges out with
      | error error =>
          rw [sorted] at returned
          cases returned
      | ok segments =>
          rw [sorted] at returned
          cases returned
          rfl
    · rintro (empty | open_)
      · exact absurd empty none
      · rw [exact_.mpr open_.2]
        exact ⟨now, rfl⟩

theorem no_return {act : Op Value} (fails : ∃ error after, act remote = .error error after)
    {value : Value} : ¬∃ after, act remote = .ok value after := by
  obtain ⟨error, after, failed⟩ := fails
  rintro ⟨other, returned⟩
  rw [failed] at returned
  cases returned

/-- When a read returns its range: the file is open, what is read to the end is not over the
ceiling, and the first chunk, if there is one before a `stat`, is not blocked. -/
def Readable (size : Int) (offset : Nat) (remote : Remote) : Prop :=
  if size < 0 then
    remote.handle ≠ none ∧
      File.tooLarge remote.config (remote.file.server.length - offset) = false ∧
      (remote.Blocked → remote.file.stat = none ∨ remote.file.server.length ≤ offset)
  else size = 0 ∨ remote.handle ≠ none ∧ ¬remote.Blocked

section Read

variable {size : Int} {offset : Nat} {input : Executed} {trips : Nat → Trip}

theorem read_some_iff (kept : Kept start remote) (positive : 0 < remote.config.chunkSize)
    (sized : remote.file.server.length < 2 ^ 63) (least : ¬size < 0)
    (askable : remote.Askable (sizeOf remote.file.server size offset) offset)
    (weathered : ∀ turn, (trips turn).Weathered remote.recoverable)
    (survivable : remote.closed = true → remote.recoverable = true) :
    (∃ after, read size offset input trips remote =
        .ok (rangeOf remote.file.server size offset) after) ↔ Readable size offset remote := by
  rw [Readable, if_neg least]
  by_cases none : size = 0
  · subst none
    have nothing : rangeOf remote.file.server 0 offset = [] := by
      rw [rangeOf, if_neg least, fetch]
      exact List.take_zero
    rw [nothing]
    exact iff_of_true ⟨remote, rfl⟩ (.inl rfl)
  have some : size.toNat ≠ 0 := by omega
  constructor
  · intro returned
    unfold read at returned
    rw [if_neg least] at returned
    refine .inr ⟨fun closed => ?_, fun blocked => ?_⟩
    · exact no_return (read_size_fails some fun _ _ trip => bulk_closed kept closed trip) returned
    · exact no_return (read_size_fails some fun _ _ trip => bulk_blocked kept blocked trip) returned
  · rintro (zero | ⟨held, free⟩)
    · exact absurd zero none
    · obtain ⟨data, after, returned, rfl, -⟩ := (read_answered positive sized askable
        (fun negative => absurd negative least) weathered
        (fun negative => absurd negative least) held survivable kept.told
        fun blocked => absurd blocked free).returns rfl
      exact ⟨after, returned⟩

theorem size_closed (kept : Kept start remote) (closed : remote.handle = none) :
    ∃ error after, Remote.size input remote = .error error after := by
  unfold Remote.size
  rw [run_bind, run_get]
  dsimp only
  rw [(kept.gone closed).1]
  exact stat_closed kept closed false input

theorem size_known (kept : Kept start remote) (known : remote.file.stat ≠ none) :
    Remote.size input remote = .ok remote.file.server.length remote := by
  obtain ⟨length, known⟩ := Option.ne_none_iff_exists'.mp known
  unfold Remote.size
  rw [run_bind, run_get]
  dsimp only
  rw [known, ← (kept.told length known).2]
  rfl

theorem read_whole_iff (kept : Kept start remote) (positive : 0 < remote.config.chunkSize)
    (sized : remote.file.server.length < 2 ^ 63) (negative : size < 0)
    (askable : remote.Askable (sizeOf remote.file.server size offset) offset)
    (weathered : ∀ turn, (trips turn).Weathered remote.recoverable)
    (answered : input.Answered remote.recoverable)
    (survivable : remote.closed = true → remote.recoverable = true) :
    (∃ after, read size offset input trips remote =
        .ok (rangeOf remote.file.server size offset) after) ↔ Readable size offset remote := by
  rw [Readable, if_pos negative]
  constructor
  · intro returned
    unfold read at returned
    rw [if_pos negative] at returned
    have held : remote.handle ≠ none :=
      fun closed => no_return (bind_fails (size_closed kept closed)) returned
    refine ⟨held, ?_, fun blocked => ?_⟩
    · obtain ⟨length, now, told, rfl, from_⟩ :=
        (size_answered answered held survivable kept.told).returns rfl
      have same : now.config = remote.config := by
        rcases from_ with ⟨-, rfl⟩ | stays
        · rfl
        · exact config_settings stays.settings
      obtain ⟨after, returned⟩ := returned
      rw [run_bind, told] at returned
      dsimp only at returned
      rw [run_bind, run_get] at returned
      dsimp only at returned
      rw [same] at returned
      by_contra large
      rw [Bool.not_eq_false] at large
      rw [if_pos large] at returned
      cases returned
    · by_contra both
      rw [not_or] at both
      have some : remote.file.server.length - offset ≠ 0 := by omega
      obtain ⟨after, returned⟩ := returned
      rw [run_bind, size_known kept both.1] at returned
      dsimp only at returned
      rw [run_bind, run_get] at returned
      dsimp only at returned
      split_ifs at returned
      · cases returned
      · exact no_return (read_size_fails some fun _ _ trip => bulk_blocked kept blocked trip)
          ⟨after, returned⟩
  · rintro ⟨held, allowed, free⟩
    obtain ⟨data, after, returned, rfl, -⟩ := (read_answered positive sized askable
      (fun _ => allowed) weathered (fun _ => answered) held survivable kept.told
      (by
        intro blocked
        rcases free blocked with unknown | behind
        · exact .inl ⟨negative, unknown⟩
        · refine .inr ?_
          rw [sizeOf, if_pos negative]
          omega)).returns rfl
    exact ⟨after, returned⟩

end Read

def Call.right (content : Bytes) : Call → Reply
  | .stat _ _ => .length content.length
  | .read size offset _ _ => .data (rangeOf content size offset)
  | .readv ranges _ _ => .segments (ranges.map (ReadRange.within content))
  | .pgread size offset _ _ => .pages (fetch content offset size) []

/-- What the call meets: where the connection is gone the file opens again, and the new
connection answers; the data paths do as they like. The range has room in a request. -/
def Call.Met (remote : Remote) : Call → Prop
  | .stat _ input => input.Answered remote.recoverable
  | .read size offset input trips =>
      (∀ turn, (trips turn).Weathered remote.recoverable) ∧ input.Answered remote.recoverable ∧
        remote.Askable (sizeOf remote.file.server size offset) offset
  | .readv ranges _ inputs =>
      (∀ turn, (inputs turn).Answered remote.recoverable) ∧
        ∀ range ∈ ranges, range.Proper ∧ range.offset < 2 ^ 63
  | .pgread size offset _ input =>
      input.Answered remote.recoverable ∧ offset < 2 ^ 63 ∧ size < 2 ^ 31

def Call.Survives (remote : Remote) : Call → Prop
  | .stat _ _ => remote.handle ≠ none
  | .read size offset _ _ => Readable size offset remote
  | .readv ranges arrangement _ =>
      ranges = [] ∨ remote.handle ≠ none ∧ InOrder arrangement remote.file.server ranges
  | .pgread _ _ _ _ => remote.handle ≠ none

theorem map_returns {Other : Type} {act : Op Value} {change : Value → Other} {value : Value}
    (injective : ∀ other, change other = change value → other = value) :
    (∃ after, (change <$> act) remote = .ok (change value) after) ↔
      ∃ after, act remote = .ok value after := by
  rw [map_eq_pure_bind]
  constructor
  · rintro ⟨after, returned⟩
    obtain ⟨other, middle, first, second⟩ := bind_returns returned
    rw [run_pure] at second
    obtain ⟨same, -⟩ := EStateM.Result.ok.inj second
    exact ⟨middle, injective other same ▸ first⟩
  · rintro ⟨after, returned⟩
    rw [run_bind, returned]
    exact ⟨after, rfl⟩

theorem call_survives_iff (kept : Kept start remote) (positive : 0 < remote.config.chunkSize)
    (sized : remote.file.server.length < 2 ^ 63) (can : remote.recoverable = true) {call : Call}
    (met : call.Met remote) :
    (∃ after, call.program remote = .ok (call.right remote.file.server) after) ↔
      call.Survives remote := by
  have survivable : remote.closed = true → remote.recoverable = true := fun _ => can
  cases call with
  | stat refresh input =>
      apply (map_returns fun _ same => Reply.length.inj same).trans
      constructor
      · exact fun returned closed => no_return (stat_closed kept closed refresh input) returned
      · intro held
        obtain ⟨_, after, returned, rfl, -⟩ :=
          (stat_answered refresh met held survivable kept.told).returns rfl
        exact ⟨after, returned⟩
  | read size offset input trips =>
      apply (map_returns fun _ same => Reply.data.inj same).trans
      by_cases negative : size < 0
      · exact read_whole_iff kept positive sized negative met.2.2 met.1 met.2.1 survivable
      · exact read_some_iff kept positive sized negative met.2.2 met.1 survivable
  | readv ranges arrangement inputs =>
      apply (map_returns fun _ same => Reply.segments.inj same).trans
      exact readv_answered_iff arrangement (fun range member => (met.2 range member).1)
        (fun range member => (met.2 range member).2) met.1 survivable
  | pgread size offset verify input =>
      have pages : ∀ other : Bytes × List Nat, Reply.pages other.1 other.2 =
          Reply.pages (fetch remote.file.server offset size) [] →
          other = (fetch remote.file.server offset size, []) :=
        fun other same => Prod.ext (Reply.pages.inj same).1 (Reply.pages.inj same).2
      apply (@map_returns _ remote _ (Remote.pgread size offset verify input)
        (fun pages => Reply.pages pages.1 pages.2) (_, []) pages).trans
      constructor
      · exact fun returned closed => no_return (bind_fails (execute_closed closed _ _)) returned
      · intro held
        obtain ⟨_, after, returned, rfl⟩ := (pgread_answered verify met.2.1 met.2.2 met.1 held
          survivable).returns rfl
        exact ⟨after, returned⟩

end Calls

/-- A file opened for reading, with any number of data paths and a path bound by hand or
none, on whatever its connection has come to. -/
structure ReadOnly (remote : Remote) : Prop where
  held : remote.handle ≠ none
  can : remote.recoverable = true
  told : Told remote.file
  paths : 0 ∉ remote.dataPaths
  positive : 0 < remote.config.chunkSize
  sized : remote.file.server.length < 2 ^ 63

variable {start : Remote}

theorem ReadOnly.kept (opened : start.ReadOnly) : Kept start start :=
  ⟨rfl, opened.told, rfl, opened.paths, fun none => absurd none opened.held⟩

/-- Wherever a run has come to, the next call returns the file's bytes exactly where the
file is still open and the call is not a read whose first chunk is blocked. -/
theorem survives_iff (opened : start.ReadOnly) (operations : List Operation) (call : Call)
    (met : call.Met (run step operations start)) :
    (∃ after, call.program (run step operations start) =
        .ok (call.right start.file.server) after) ↔
      call.Survives (run step operations start) := by
  have kept : Kept start (run step operations start) :=
    run_invariant step (fun _ => True) (Kept start)
      (fun world operation _ kept => (operation_kept operation).final kept) operations start
      (fun _ _ => trivial) opened.kept
  have config := config_settings kept.settings
  rw [← kept.server]
  exact call_survives_iff kept (config ▸ opened.positive) (kept.server ▸ opened.sized)
    ((recoverable_settings kept.settings).trans opened.can) met

/-- A request that finds the connection gone, and the file opened again. -/
def found : Executed where
  first := .raises (.raised (.connectionError (str "connection lost"))) false true
  recovery := { opening := .ok { handle := [0, 0, 0, 2], router := { url := {}, config := {} } } }
  again := .served

def allGone : Trip where
  control := found
  direct := found.first
  fallback := found
  split := found
  last := found

/-- A file of three bytes, opened for reading with one data path. -/
def threeBytes : Remote where
  file := ⟨[97, 98, 99], some 3, 3⟩
  router := { url := {}, config := {}, reconnect := false }
  handle := some [0, 0, 0, 1]
  dataPaths := [1]

theorem found_answered : found.Answered true :=
  ⟨⟨rfl, rfl⟩, fun _ => ⟨_, rfl⟩, rfl⟩

theorem all_gone_weathered : allGone.Weathered true where
  control := found_answered
  direct := ⟨rfl, fun _ => rfl⟩
  fallback := found_answered
  split := ⟨⟨rfl, fun _ => rfl⟩, fun _ => ⟨_, rfl⟩, trivial⟩
  last := found_answered

theorem three_bytes_read_only : threeBytes.ReadOnly where
  held := by decide
  can := rfl
  told := by
    rintro length known
    cases known
    exact ⟨rfl, rfl⟩
  paths := by decide
  positive := by decide
  sized := by decide

theorem unnoticed_loss_survived : ∃ after,
    (Call.read 2 1 found fun _ => allGone).program (run step [.bindDataPath (.ok 7)] threeBytes) =
      .ok (.data [98, 99]) after := by
  have met : (Call.read 2 1 found fun _ => allGone).Met
      (run step [.bindDataPath (.ok 7)] threeBytes) :=
    ⟨fun _ => all_gone_weathered, found_answered, by decide, by decide⟩
  apply (survives_iff three_bytes_read_only [.bindDataPath (.ok 7)] _ met).mpr
  refine .inr ⟨by decide, fun blocked => ?_⟩
  exact absurd blocked.1 (by decide)

/-- `checksum` finds the connection gone, and leaves it at that. The read behind it fails,
with a file that would open again. -/
theorem noticed_loss_fatal :
    (Call.read 2 1 found fun _ => allGone).Met
      (run step [.checksum [] (.raises (.raised (.connectionError [])) false true)] threeBytes) ∧
    ∃ error after, (Call.read 2 1 found fun _ => allGone).program
      (run step [.checksum [] (.raises (.raised (.connectionError [])) false true)] threeBytes) =
        .error error after := by
  constructor
  · exact ⟨fun _ => all_gone_weathered, found_answered, by decide, by decide⟩
  · exact ⟨_, _, rfl⟩

end Remote

end XRootDClient.Client
