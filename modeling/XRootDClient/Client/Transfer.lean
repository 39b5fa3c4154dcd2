import XRootDClient.Client.Bulk

/-!
# Reading and writing over data paths

A read or a write is cut into chunks of `chunk_size` bytes, each of them a bulk request of
its own. Whatever the data paths do, no chunk is left out, repeated elsewhere or put
together from other bytes: a chunk is asked for until it is answered, and asking twice
makes no difference.
-/

set_option autoImplicit false

namespace XRootDClient.Client

open Lib Lib.BigEndian Lib.Extent Lib.Stateful Proto
open Handles (Failure)

namespace Remote

variable {Value : Type}

def statOrder : Order Nat where
  build handle _ := Request.Stat [] 0 handle
  serve _ content := (content.length, content)

def readOrder (offset length : Nat) : Order Bytes where
  build handle pathid := Request.Read handle offset length pathid.toNat
  serve _ content := (fetch content offset length, content)

def writeOrder (offset : Nat) (body : Bytes) : Order Unit where
  build handle pathid := Request.Write handle offset body pathid.toNat
  serve _ content := ((), patch 0 content offset body)

/-- `kXR_stat` on the handle; of the record only the length is kept. -/
def askStat (input : Executed) : Op Nat := do
  let length ← execute statOrder (fun _ => 0) input
  modify fun remote => { remote with
    file := { remote.file with stat := some length, sizeHint := length } }
  return length

def stat (refresh : Bool) (input : Executed) : Op Nat := do
  match (← get).file.stat with
  | none => askStat input
  | some length => if refresh then askStat input else return length

def size (input : Executed) : Op Nat := do
  let file := (← get).file
  if file.stat.isSome then return file.sizeHint else stat false input

def tooLargeError (size limit : Nat) (path : Text) : Exception :=
  .foreign (str "TooLargeError") ((if path = [] then str "that is" else path ++ str " is") ++
    str " " ++ Text.ofNat size ++ str " bytes, over the " ++ Text.ofNat limit ++
    str " byte ceiling on reading a whole file into memory: read it in pieces " ++
    str "(for block in file: ...), copy it to disk with xrd.copy(), or raise config.max_read_size")

def readOne (offset length : Nat) (trip : Trip) : Op Bytes := do
  let data ← bulk (readOrder offset length) trip
  if data.length > length then
    raise (.protocolError (str "the server answered a " ++ Text.ofNat length ++
      str " byte read at offset " ++ Text.ofNat offset ++ str " with " ++
      Text.ofNat data.length ++ str " bytes"))
  else return data

/-- The loop of `read`, which goes on for ever when it asks for nothing at a time. -/
def readLoop (limit : Nat) (trips : Nat → Trip) : Nat → Nat → Nat → Nat → Op Bytes
  | _, _, _, 0 => return []
  | 0, _, _, _ + 1 => throw .running
  | fuel + 1, turn, at_, remaining + 1 => do
      let wanted := min (remaining + 1) limit
      let chunk ← readOne at_ wanted (trips turn)
      if chunk.length < wanted then return chunk
      else
        let rest ← readLoop limit trips fuel (turn + 1) (at_ + wanted) (remaining + 1 - wanted)
        return chunk ++ rest

def readSize (size offset : Nat) (trips : Nat → Trip) : Op Bytes := do
  let limit := (← get).config.chunkSize
  if size = 0 then return []
  else if size ≤ limit then readOne offset size (trips 0)
  else readLoop limit trips size 0 offset size

def read (size : Int) (offset : Nat) (input : Executed) (trips : Nat → Trip) : Op Bytes := do
  if size < 0 then
    let left := (← Remote.size input) - offset
    let remote ← get
    if File.tooLarge remote.config left then
      raise (tooLargeError left remote.config.maxReadSize remote.path)
    else readSize left offset trips
  else readSize size.toNat offset trips

def submit (order : Order Value) (input : Attempt) : Op Value := do
  let handle ← getHandle
  match Request.ChkPoint.execute handle (order.build handle (← get).pathid) with
  | .error error => raise error
  | .ok outer => routerExecute { order with build := fun _ _ => outer } handle 0 input

def writeOne (offset : Nat) (body : Bytes) (trip : Trip) : Op Unit := do
  if (← get).checkpoint then submit (writeOrder offset body) trip.control.first
  else bulk (writeOrder offset body) trip

/-- The loop of `write`, which goes on for ever when it sends nothing at a time. -/
def writeLoop (limit : Nat) (trips : Nat → Trip) : Nat → Nat → Nat → Bytes → Op Unit
  | _, _, _, [] => return
  | 0, _, _, _ :: _ => throw .running
  | fuel + 1, turn, at_, byte :: rest => do
      let piece := (byte :: rest).take limit
      writeOne at_ piece (trips turn)
      writeLoop limit trips fuel (turn + 1) (at_ + piece.length) ((byte :: rest).drop limit)

def write (data : Bytes) (offset : Nat) (trips : Nat → Trip) : Op Nat := do
  writeLoop (← get).config.chunkSize trips data.length 0 offset data
  modify fun remote => { remote with
    file := File.invalidate (offset + data.length) false remote.file }
  return data.length

theorem read_order_stable (offset length : Nat) : (readOrder offset length).Stable :=
  fun _ _ _ => rfl

theorem stat_order_stable : statOrder.Stable := fun _ _ _ => rfl

theorem write_order_stable (offset : Nat) (body : Bytes) : (writeOrder offset body).Stable :=
  fun _ _ content => congrArg (Prod.mk ()) (patch_patch 0 content offset body)

theorem written_i64 {offset : Nat} (small : offset < 2 ^ 63) :
    Writer.i64 offset = .ok (BigEndian.encode 8 (BigEndian.unsigned 8 offset)) := by
  have fits : Writer.fits 8 (offset : Int) = true := decide_eq_true small
  rw [Writer.i64, Writer.signed, if_pos fits]

theorem written_i32 {length : Nat} (small : length < 2 ^ 31) :
    Writer.i32 length = .ok (BigEndian.encode 4 (BigEndian.unsigned 4 length)) := by
  have fits : Writer.fits 4 (length : Int) = true := decide_eq_true small
  rw [Writer.i32, Writer.signed, if_pos fits]

theorem written_u8 (value : UInt8) :
    Writer.u8 value.toNat = .ok (BigEndian.encode 1 value.toNat) := by
  rw [Writer.u8, Writer.unsigned, if_pos (show value.toNat < 256 ^ 1 from value.toNat_lt)]

theorem read_order_fits {offset length : Nat} (near : offset < 2 ^ 63) (short : length < 2 ^ 31) :
    (readOrder offset length).Fits := by
  intro handle pathid
  have params : (Request.Read handle offset length pathid.toNat).params = .ok
      (Writer.padded handle 4 ++ BigEndian.encode 8 (BigEndian.unsigned 8 offset) ++
        BigEndian.encode 4 (BigEndian.unsigned 4 length)) := by
    change (do return Writer.padded handle 4 ++ (← Writer.i64 offset) ++ (← Writer.i32 length)) = _
    rw [written_i64 near, written_i32 short]
    rfl
  have payload : ∃ body : Bytes, (Request.Read handle offset length pathid.toNat).payload = .ok body ∧
      body.length ≤ 8 := by
    change ∃ body : Bytes, (if pathid.toNat = 0 then .ok [] else do
      return (← Writer.u8 pathid.toNat) ++ Writer.zeros 7) = Except.ok body ∧ body.length ≤ 8
    split_ifs
    · exact ⟨[], rfl, by decide⟩
    · rw [written_u8]
      exact ⟨_, rfl, by simp [Writer.zeros]⟩
  obtain ⟨body, payload, bounded⟩ := payload
  apply encode_writes _ 0 params
  · simp
  · exact payload
  · exact Nat.le_trans bounded (by decide)
  · exact (by decide : kXR_read < 0x10000)

theorem stat_order_fits : statOrder.Fits := by
  intro handle _
  have params : (Request.Stat [] 0 handle).params = .ok
      (BigEndian.encode 1 0 ++ Writer.zeros 11 ++ Writer.padded handle 4) := rfl
  apply encode_writes _ 0 params
  · simp [Writer.zeros]
  · rfl
  · exact (by decide : 0 ≤ MAX_FRAME_PAYLOAD)
  · exact (by decide : kXR_stat < 0x10000)

theorem write_order_fits {offset : Nat} {body : Bytes} (near : offset < 2 ^ 63)
    (short : body.length < 2 ^ 31) : (writeOrder offset body).Fits := by
  intro handle pathid
  have params : (Request.Write handle offset body pathid.toNat).params = .ok
      (Writer.padded handle 4 ++ BigEndian.encode 8 (BigEndian.unsigned 8 offset) ++
        BigEndian.encode 1 pathid.toNat ++ Writer.zeros 3) := by
    change (do return Writer.padded handle 4 ++ (← Writer.i64 offset) ++
      (← Writer.u8 pathid.toNat) ++ Writer.zeros 3) = _
    rw [written_i64 near, written_u8]
    rfl
  apply encode_writes _ 0 params
  · simp [Writer.zeros]
  · rfl
  · change (if pathid.toNat = 0 then body else []).length +
      (if pathid.toNat = 0 then [] else body).length ≤ 2147483647
    split_ifs
    · rw [List.length_nil]
      omega
    · rw [List.length_nil]
      omega
  · exact (by decide : kXR_write < 0x10000)

section Reading

variable {start remote : Remote} {trips : Nat → Trip}

/-- The file is the one it was, open and on a connection that is up. -/
structure Stays (start remote : Remote) : Prop where
  server : remote.file.server = start.file.server
  handle : remote.handle ≠ none
  up : remote.closed = false
  settings : remote.settings = start.settings
  pathid : start.pathid = 0 → remote.pathid = 0
  cached : Told start.file → Told remote.file

theorem Stays.refl (held : start.handle ≠ none) (up : start.closed = false) :
    Stays start start :=
  ⟨rfl, held, up, rfl, fun zero => zero, fun told => told⟩

theorem Stays.trans {later : Remote} (first : Stays start remote) (second : Stays remote later) :
    Stays start later where
  server := second.server.trans first.server
  handle := second.handle
  up := second.up
  settings := second.settings.trans first.settings
  pathid := fun zero => second.pathid (first.pathid zero)
  cached := fun told => second.cached (first.cached told)

theorem Done.stays {order : Order Value} {value : Value} (done : Done order start value remote)
    (silent : ∀ handle, (order.serve handle start.file.server).2 = start.file.server) :
    Stays start remote := by
  obtain ⟨handle, -, same⟩ := done.answered
  exact ⟨same.trans (silent handle), done.handle, done.up, done.settings, done.pathid,
    done.cached silent⟩

/-- The connection is up, or the file can be opened again and its next chunk is asked for
where that is noticed. -/
structure Startable (remote : Remote) : Prop where
  held : remote.handle ≠ none
  survivable : remote.closed = true → remote.recoverable = true
  free : ¬remote.Blocked

theorem Stays.startable (stays : Stays start remote) : remote.Startable where
  held := stays.handle
  survivable := fun over_ => absurd (stays.up.symm.trans over_) Bool.false_ne_true
  free := fun blocked => absurd (stays.up.symm.trans blocked.1) Bool.false_ne_true

theorem read_one_answered {offset length : Nat} {trip : Trip} (near : offset < 2 ^ 63)
    (short : length < 2 ^ 31) (weathered : trip.Weathered start.recoverable)
    (startable : start.Startable) :
    Triple (· = start) (readOne offset length trip)
      (fun data now => data = fetch start.file.server offset length ∧ Stays start now)
      fun _ _ => False := by
  unfold readOne
  apply triple_bind (bulk_answered (read_order_stable offset length)
    (read_order_fits near short) weathered startable.held startable.survivable startable.free)
  intro data now done
  obtain ⟨handle, same, -⟩ := done.answered
  have exact_ : data = fetch start.file.server offset length := same
  have bounded : ¬data.length > length := by
    rw [exact_, length_fetch]
    omega
  rw [if_neg bounded]
  exact ⟨exact_, done.stays fun _ => rfl⟩

theorem read_loop_none (limit fuel turn offset : Nat) :
    readLoop limit trips fuel turn offset 0 = pure [] := by
  cases fuel with
  | zero => rfl
  | succ fuel => rfl

theorem read_loop_answered {limit : Nat} (positive : 0 < limit) (fuel turn offset remaining : Nat)
    (enough : remaining ≤ fuel) (near : offset < 2 ^ 63) (short : min remaining limit < 2 ^ 31)
    (sized : start.file.server.length < 2 ^ 63)
    (weathered : ∀ turn, (trips turn).Weathered start.recoverable) (some : remaining ≠ 0)
    (startable : start.Startable) :
    Triple (· = start) (readLoop limit trips fuel turn offset remaining)
      (fun data now => data = fetch start.file.server offset remaining ∧ Stays start now)
      fun _ _ => False := by
  -- Only the first chunk may find the connection gone; behind it the connection is up.
  induction fuel generalizing start turn offset remaining with
  | zero => exact absurd (Nat.le_zero.mp enough) some
  | succ fuel induction =>
      obtain ⟨remaining, rfl⟩ : ∃ less, remaining = less + 1 :=
        Nat.exists_eq_succ_of_ne_zero some
      unfold readLoop
      generalize wanted : min (remaining + 1) limit = count at short ⊢
      have split : remaining + 1 = count + (remaining + 1 - count) := by omega
      apply triple_bind (read_one_answered near short (weathered turn) startable)
      rintro chunk now ⟨exact_, stays⟩
      by_cases ended : chunk.length < count
      · rw [if_pos ended]
        refine ⟨?_, stays⟩
        rw [exact_] at ended
        rw [exact_, split, fetch_short start.file.server ended]
      · rw [if_neg ended]
        have whole : offset + count ≤ start.file.server.length := by
          rw [exact_, length_fetch] at ended
          omega
        by_cases last : remaining + 1 - count = 0
        · rw [last, read_loop_none]
          refine ⟨?_, stays⟩
          rw [split, last]
          exact (List.append_nil _).trans exact_
        · have rest := @induction now (turn + 1) (offset + count) (remaining + 1 - count)
            (by omega) (by omega) (by omega) (stays.server ▸ sized)
            (fun turn => recoverable_settings stays.settings ▸ weathered turn) last stays.startable
          have joined : Triple (· = now) (do
              let rest ← readLoop limit trips fuel (turn + 1) (offset + count)
                (remaining + 1 - count)
              return chunk ++ rest)
              (fun data after => data = fetch start.file.server offset (remaining + 1) ∧
                Stays start after) fun _ _ => False := by
            apply triple_bind rest
            intro behind
            apply triple_pure
            rintro after ⟨same, later⟩
            refine ⟨?_, stays.trans later⟩
            rw [exact_, same, stays.server, fetch_append, ← split]
          exact joined now rfl

def Askable (remote : Remote) (size offset : Nat) : Prop :=
  offset < 2 ^ 63 ∧ min size remote.config.chunkSize < 2 ^ 31

theorem read_size_answered {size offset : Nat} (positive : 0 < start.config.chunkSize)
    (some : size ≠ 0) (askable : start.Askable size offset)
    (sized : start.file.server.length < 2 ^ 63)
    (weathered : ∀ turn, (trips turn).Weathered start.recoverable) (startable : start.Startable) :
    Triple (· = start) (readSize size offset trips)
      (fun data now => data = fetch start.file.server offset size ∧ Stays start now)
      fun _ _ => False := by
  unfold readSize
  apply triple_get
  rintro seen now ⟨rfl, same⟩
  subst same
  rw [if_neg some]
  by_cases single : size ≤ now.config.chunkSize
  · rw [if_pos single]
    have short : size < 2 ^ 31 := Nat.min_eq_left single ▸ askable.2
    exact read_one_answered askable.1 short (weathered 0) startable now rfl
  · rw [if_neg single]
    exact read_loop_answered positive size 0 offset size (Nat.le_refl _) askable.1 askable.2 sized
      weathered some startable now rfl

theorem ask_stat_answered {input : Executed} (answered : input.Answered start.recoverable)
    (held : start.handle ≠ none) (survivable : start.closed = true → start.recoverable = true) :
    Triple (· = start) (askStat input)
      (fun length now => length = start.file.server.length ∧ Stays start now)
      fun _ _ => False := by
  have done : Triple (· = start) (execute statOrder (fun _ => 0) input) (Done statOrder start)
      fun _ _ => False := by
    intro now same
    subst same
    exact execute_answered stat_order_stable stat_order_fits (fun _ => 0) answered now
      (.first held survivable)
  unfold askStat
  apply triple_bind done
  intro length now done
  obtain ⟨handle, same, -⟩ := done.answered
  have exact_ : length = start.file.server.length := same
  have stays := done.stays fun _ => rfl
  refine ⟨exact_, stays.server, stays.handle, stays.up, stays.settings, stays.pathid,
    fun _ other known => ?_⟩
  have whole : length = now.file.server.length := by rw [exact_, stays.server]
  exact ⟨(Option.some.inj known).symm.trans whole, whole⟩

theorem stat_answered (refresh : Bool) {input : Executed}
    (answered : input.Answered start.recoverable) (held : start.handle ≠ none)
    (survivable : start.closed = true → start.recoverable = true) (told : Told start.file) :
    Triple (· = start) (stat refresh input)
      (fun length now => length = start.file.server.length ∧
        (start.file.stat ≠ none ∧ now = start ∨ Stays start now)) fun _ _ => False := by
  have asked : Triple (· = start) (askStat input)
      (fun length now => length = start.file.server.length ∧
        (start.file.stat ≠ none ∧ now = start ∨ Stays start now)) fun _ _ => False :=
    triple_weaken (ask_stat_answered answered held survivable) (fun _ same => same)
      (fun _ _ done => ⟨done.1, .inr done.2⟩) (fun _ _ never => never)
  unfold stat
  apply triple_get
  rintro seen now ⟨rfl, same⟩
  subst same
  have again := asked now rfl
  generalize known : now.file.stat = kept at again ⊢
  cases kept with
  | none => exact again
  | some length =>
      cases refresh with
      | true => exact again
      | false => exact ⟨(told length known).1, .inl ⟨Option.some_ne_none _, rfl⟩⟩

theorem size_answered {input : Executed} (answered : input.Answered start.recoverable)
    (held : start.handle ≠ none) (survivable : start.closed = true → start.recoverable = true)
    (told : Told start.file) :
    Triple (· = start) (size input)
      (fun length now => length = start.file.server.length ∧
        (start.file.stat ≠ none ∧ now = start ∨ Stays start now)) fun _ _ => False := by
  unfold size
  apply triple_get
  rintro seen now ⟨rfl, same⟩
  subst same
  by_cases known : now.file.stat.isSome = true
  · rw [if_pos known]
    obtain ⟨length, known⟩ := Option.isSome_iff_exists.mp known
    exact ⟨(told length known).2, .inl ⟨by rw [known]; exact Option.some_ne_none _, rfl⟩⟩
  · rw [if_neg known]
    exact stat_answered false answered held survivable told now rfl

/-- What a read is to return: the range, or everything behind the offset. -/
def rangeOf (content : Bytes) (size : Int) (offset : Nat) : Bytes :=
  if size < 0 then content.drop offset else fetch content offset size.toNat

def sizeOf (content : Bytes) (size : Int) (offset : Nat) : Nat :=
  if size < 0 then content.length - offset else size.toNat

theorem range_of_size (content : Bytes) (size : Int) (offset : Nat) :
    rangeOf content size offset = fetch content offset (sizeOf content size offset) := by
  unfold rangeOf sizeOf
  split_ifs
  · exact (fetch_all content (Nat.le_refl _)).symm
  · rfl

/-- A read returns its range, unless it is over the ceiling or its first chunk is blocked. -/
theorem read_answered {size : Int} {offset : Nat} {input : Executed}
    (positive : 0 < start.config.chunkSize) (sized : start.file.server.length < 2 ^ 63)
    (askable : start.Askable (sizeOf start.file.server size offset) offset)
    (allowed : size < 0 → File.tooLarge start.config (start.file.server.length - offset) = false)
    (weathered : ∀ turn, (trips turn).Weathered start.recoverable)
    (answered : size < 0 → input.Answered start.recoverable) (held : start.handle ≠ none)
    (survivable : start.closed = true → start.recoverable = true) (told : Told start.file)
    (free : start.Blocked → size < 0 ∧ start.file.stat = none ∨
      sizeOf start.file.server size offset = 0) :
    Triple (· = start) (read size offset input trips)
      (fun data now => data = rangeOf start.file.server size offset ∧
        (now = start ∨ Stays start now)) fun _ _ => False := by
  have chunks : ∀ now, now = start ∧ (size < 0 → start.file.stat ≠ none) ∨ Stays start now →
      Triple (· = now) (readSize (sizeOf start.file.server size offset) offset trips)
        (fun data after => data = rangeOf start.file.server size offset ∧
          (after = start ∨ Stays start after)) fun _ _ => False := by
    intro now from_
    by_cases none : sizeOf start.file.server size offset = 0
    · intro now same
      subst same
      unfold readSize
      rw [run_bind, run_get, none]
      refine ⟨?_, from_.imp (fun both => both.1) fun stays => stays⟩
      rw [range_of_size, none, fetch, List.take_zero]
    · rcases from_ with ⟨rfl, known⟩ | stays
      · have startable : now.Startable := by
          refine ⟨held, survivable, fun blocked => ?_⟩
          rcases free blocked with ⟨negative, unknown⟩ | zero
          · exact known negative unknown
          · exact none zero
        exact triple_weaken (read_size_answered positive none askable sized weathered startable)
          (fun _ same => same) (fun _ _ done => ⟨by rw [range_of_size]; exact done.1, .inr done.2⟩)
          (fun _ _ never => never)
      · have config : now.config = start.config := config_settings stays.settings
        have room : now.Askable (sizeOf start.file.server size offset) offset := by
          unfold Askable
          rw [config]
          exact askable
        exact triple_weaken (read_size_answered (config ▸ positive) none room
          (stays.server ▸ sized)
          (fun turn => recoverable_settings stays.settings ▸ weathered turn) stays.startable)
          (fun _ same => same)
          (fun _ _ done => ⟨by rw [range_of_size]; exact stays.server ▸ done.1,
            .inr (stays.trans done.2)⟩)
          (fun _ _ never => never)
  unfold read
  by_cases negative : size < 0
  · rw [if_pos negative]
    apply triple_bind (size_answered (answered negative) held survivable told)
    rintro length now ⟨rfl, from_⟩
    have same : now.config = start.config := by
      rcases from_ with ⟨-, rfl⟩ | stays
      · rfl
      · exact config_settings stays.settings
    have size_ : sizeOf start.file.server size offset = start.file.server.length - offset :=
      if_pos negative
    rw [run_bind, run_get]
    dsimp only
    rw [same, allowed negative, if_neg Bool.false_ne_true, ← size_]
    exact chunks now (from_.imp (fun both => ⟨both.2, fun _ => both.1⟩) fun stays => stays) now rfl
  · have size_ : sizeOf start.file.server size offset = size.toNat := if_neg negative
    rw [if_neg negative, ← size_]
    exact chunks start (.inl ⟨rfl, fun below => absurd below negative⟩)

end Reading

section Writing

variable {start remote : Remote} {trips : Nat → Trip}

/-- What has been written so far is on the server, and the file can go on. -/
structure Wrote (start : Remote) (offset : Nat) (data : Bytes) (remote : Remote) : Prop where
  server : remote.file.server = patch 0 start.file.server offset data
  handle : remote.handle ≠ none
  up : remote.closed = false
  settings : remote.settings = start.settings
  pathid : start.pathid = 0 → remote.pathid = 0

theorem Wrote.unbound {offset : Nat} {data : Bytes} (wrote : Wrote start offset data remote)
    (unbound : start.checkpoint = true → start.pathid = 0) (journal : remote.checkpoint = true) :
    remote.pathid = 0 :=
  wrote.pathid (unbound (checkpoint_settings wrote.settings ▸ journal))

theorem Done.wrote {offset : Nat} {body : Bytes}
    (done : Done (writeOrder offset body) start () remote) : Wrote start offset body remote := by
  obtain ⟨handle, -, same⟩ := done.answered
  exact ⟨same, done.handle, done.up, done.settings, done.pathid⟩

theorem checkpointed_fits {offset : Nat} {body : Bytes} (near : offset < 2 ^ 63)
    (short : body.length < 2 ^ 31) (handle : Bytes) : ∃ outer frame,
      Request.ChkPoint.execute handle ((writeOrder offset body).build handle 0) = .ok outer ∧
        encode outer 0 = .ok frame := by
  obtain ⟨plain, encoded⟩ := write_order_fits near short handle 0
  obtain ⟨outer, frame, -, -, made, framed, -⟩ :=
    @Journalled.execute_frame (.write handle offset body 0) handle 0 plain encoded
  exact ⟨outer, frame, made, framed⟩

theorem submit_answered {offset : Nat} {body : Bytes} (near : offset < 2 ^ 63)
    (short : body.length < 2 ^ 31) (held : start.handle ≠ none) (up : start.closed = false)
    (unbound : start.pathid = 0) :
    Triple (· = start) (submit (writeOrder offset body) .served)
      (fun _ now => Wrote start offset body now) fun _ _ => False := by
  unfold submit
  apply triple_bind (get_handle_amid fun now (same : now = start) => same ▸ held)
  intro handle
  apply triple_get
  rintro seen now ⟨rfl, same⟩
  subst same
  obtain ⟨outer, frame, made, framed⟩ := checkpointed_fits near short handle
  rw [unbound, made]
  let outside : Order Unit := { writeOrder offset body with build := fun _ _ => outer }
  have survivable : now.closed = true → now.recoverable = true :=
    fun over_ => absurd (up.symm.trans over_) Bool.false_ne_true
  have stable : outside.Stable := write_order_stable offset body
  have served : Triple (fun later => Amid outside now later ∧ later.closed = false)
      (routerExecute outside handle 0 .served) (Done outside now) fun _ _ => False :=
    router_execute_served stable (fun _ _ => ⟨frame, framed⟩) handle 0
  have wrote : Triple (fun later => Amid outside now later ∧ later.closed = false)
      (routerExecute outside handle 0 .served) (fun _ later => Wrote now offset body later)
      fun _ _ => False := by
    apply triple_weaken served (fun _ both => both) _ (fun _ _ never => never)
    intro _ later done
    obtain ⟨_, -, same⟩ := done.answered
    exact ⟨same, done.handle, done.up, done.settings, done.pathid⟩
  exact wrote now ⟨.first held survivable, up⟩

theorem write_one_answered {offset : Nat} {body : Bytes} {trip : Trip} (near : offset < 2 ^ 63)
    (short : body.length < 2 ^ 31) (weathered : trip.Weathered start.recoverable)
    (served : trip.control.first = .served) (held : start.handle ≠ none)
    (up : start.closed = false) (unbound : start.checkpoint = true → start.pathid = 0) :
    Triple (· = start) (writeOne offset body trip) (fun _ now => Wrote start offset body now)
      fun _ _ => False := by
  unfold writeOne
  apply triple_get
  rintro seen now ⟨rfl, same⟩
  subst same
  have startable : now.Startable := (Stays.refl held up).startable
  by_cases journal : now.checkpoint = true
  · rw [if_pos journal, served]
    exact submit_answered near short held up (unbound journal) now rfl
  · rw [if_neg journal]
    exact triple_weaken (bulk_answered (write_order_stable offset body)
      (write_order_fits near short) weathered held startable.survivable startable.free)
      (fun _ same => same) (fun _ _ done => done.wrote) (fun _ _ never => never) now rfl

theorem wrote_nothing (offset : Nat) (held : start.handle ≠ none) (up : start.closed = false) :
    Triple (· = start) (pure () : Op Unit) (fun _ now => Wrote start offset [] now)
      fun _ _ => False := by
  apply triple_pure
  intro now same
  subst same
  exact ⟨rfl, held, up, rfl, fun zero => zero⟩

theorem write_loop_answered {limit : Nat} (positive : 0 < limit) (fuel turn offset : Nat)
    (data : Bytes) (enough : data.length ≤ fuel) (near : offset + data.length ≤ 2 ^ 63)
    (short : min data.length limit < 2 ^ 31)
    (weathered : ∀ turn, (trips turn).Weathered start.recoverable)
    (served : ∀ turn, (trips turn).control.first = .served) (held : start.handle ≠ none)
    (up : start.closed = false) (unbound : start.checkpoint = true → start.pathid = 0) :
    Triple (· = start) (writeLoop limit trips fuel turn offset data)
      (fun _ now => Wrote start offset data now) fun _ _ => False := by
  induction fuel generalizing start turn offset data with
  | zero =>
      rw [List.length_eq_zero_iff.mp (Nat.le_zero.mp enough)]
      exact wrote_nothing offset held up
  | succ fuel induction =>
      cases data with
      | nil => exact wrote_nothing offset held up
      | cons byte rest =>
          rw [List.length_cons] at enough near short
          unfold writeLoop
          have first : ((byte :: rest).take limit).length = min limit (rest.length + 1) := by
            rw [List.length_take, List.length_cons]
          have behind : ((byte :: rest).drop limit).length = rest.length + 1 - limit := by
            rw [List.length_drop, List.length_cons]
          apply triple_bind (write_one_answered (by omega) (by omega) (weathered turn)
            (served turn) held up unbound)
          intro _ now wrote
          have more := @induction now (turn + 1) (offset + ((byte :: rest).take limit).length)
            ((byte :: rest).drop limit) (by omega) (by omega) (by omega)
            (fun turn => recoverable_settings wrote.settings ▸ weathered turn) wrote.handle
            wrote.up (wrote.unbound unbound)
          have joined := triple_weaken more (fun _ same => same)
            (fun _ later (wrote' : Wrote now _ _ later) =>
              (⟨by rw [wrote'.server, wrote.server, patch_append, List.take_append_drop],
                wrote'.handle, wrote'.up, wrote'.settings.trans wrote.settings,
                fun zero => wrote'.pathid (wrote.pathid zero)⟩ :
                Wrote start offset (byte :: rest) later))
            (fun _ _ never => never)
          exact joined now rfl

end Writing

section Transfers

variable {start : Remote} {trips : Nat → Trip}

/-- A file that is open on a connection that is up; in a checkpoint no path is bound by
hand. -/
structure Ready (remote : Remote) : Prop where
  held : remote.handle ≠ none
  up : remote.closed = false
  unbound : remote.checkpoint = true → remote.pathid = 0
  told : Told remote.file
  positive : 0 < remote.config.chunkSize

/-- The control link answers, and so does a path bound by hand; the data paths bound for
the transfer do as they like. -/
def Steady (remote : Remote) (trips : Nat → Trip) : Prop :=
  ∀ turn, (trips turn).Weathered remote.recoverable ∧ (trips turn).control.first = .served

theorem Stays.ready (ready : start.Ready) {now : Remote} (stays : Stays start now) :
    now.Ready where
  held := stays.handle
  up := stays.up
  unbound := fun journal =>
    stays.pathid (ready.unbound (checkpoint_settings stays.settings ▸ journal))
  told := stays.cached ready.told
  positive := config_settings stays.settings ▸ ready.positive

/-- Whatever the data paths do, a read returns its range and a write stores its data, and
the file is as ready for the next one. -/
theorem transfers_exact (ready : start.Ready) (steady : start.Steady trips) :
    (∀ (size : Int) (offset : Nat) (input : Executed), start.file.server.length < 2 ^ 63 →
      start.Askable (sizeOf start.file.server size offset) offset →
      (size < 0 → input.Answered start.recoverable ∧
        File.tooLarge start.config (start.file.server.length - offset) = false) →
      ∃ after, read size offset input trips start =
          .ok (rangeOf start.file.server size offset) after ∧
        after.file.server = start.file.server ∧ after.Ready) ∧
    ∀ (data : Bytes) (offset : Nat), offset + data.length ≤ 2 ^ 63 →
      min data.length start.config.chunkSize < 2 ^ 31 →
      ∃ after, write data offset trips start = .ok data.length after ∧
        after.file.server = patch 0 start.file.server offset data ∧ after.Ready := by
  constructor
  · intro size offset input sized askable whole
    have survivable : start.closed = true → start.recoverable = true :=
      fun over_ => absurd (ready.up.symm.trans over_) Bool.false_ne_true
    have free : ¬start.Blocked :=
      fun blocked => absurd (ready.up.symm.trans blocked.1) Bool.false_ne_true
    obtain ⟨data, after, returned, rfl, from_⟩ := (read_answered ready.positive sized askable
      (fun negative => (whole negative).2) (fun turn => (steady turn).1)
      (fun negative => (whole negative).1) ready.held survivable ready.told
      fun blocked => absurd blocked free).returns rfl
    refine ⟨after, returned, ?_⟩
    rcases from_ with rfl | stays
    · exact ⟨rfl, ready⟩
    · exact ⟨stays.server, stays.ready ready⟩
  · intro data offset near short
    obtain ⟨_, after, returned, wrote⟩ := (write_loop_answered ready.positive data.length 0 offset
      data (Nat.le_refl _) near short (fun turn => (steady turn).1) (fun turn => (steady turn).2)
      ready.held ready.up ready.unbound).returns rfl
    refine ⟨{ after with file := File.invalidate (offset + data.length) false after.file },
      ?_, wrote.server, wrote.handle, wrote.up, wrote.unbound ready.unbound, ?_, ?_⟩
    · unfold write
      rw [run_bind, run_get]
      dsimp only
      rw [run_bind, returned]
      rfl
    · intro length known
      cases known
    · exact config_settings wrote.settings ▸ ready.positive

def atOnce : Executed where
  first := .served
  recovery := { opening := .ok { handle := [0, 0, 0, 2], router := { url := {}, config := {} } } }
  again := .served

def twoPaths : Remote where
  file := ⟨[97, 98], some 2, 2⟩
  config := { chunkSize := 1 }
  router := { url := {}, config := {}, reconnect := false }
  handle := some [0, 0, 0, 1]
  writing := true
  dataPaths := [1, 2]

/-- What arrives on a path is carried out and not answered, and nothing is answered on the
path that is bound in its place. -/
def noPaths : Trip where
  control := atOnce
  direct := .raises (.raised (.timeoutError (str "timed out"))) true false
  binds := [3]
  fallback := atOnce
  split := ⟨.raises (.raised (.serverError .unsupported 3013 [] none)) false false, atOnce.recovery,
    .served⟩
  last := atOnce

theorem two_paths_transferred : ∃ after, write [120, 121, 122] 1 (fun _ => noPaths) twoPaths =
    .ok 3 after ∧ after.file.server = [97, 120, 121, 122] := by
  have never {Opens : Prop} (can : twoPaths.recoverable = true) : Opens := by cases can
  have answered : atOnce.Answered false := ⟨trivial, never, rfl⟩
  have ready : twoPaths.Ready := by
    constructor
    · decide
    · decide
    · decide
    · rintro length known
      cases known
      decide
    · decide
  have steady : twoPaths.Steady fun _ => noPaths := by
    intro turn
    exact ⟨⟨answered, ⟨by decide, by decide⟩, answered,
      ⟨⟨by decide, by decide⟩, never, trivial⟩, answered⟩, rfl⟩
  obtain ⟨after, returned, stored, -⟩ :=
    (transfers_exact ready steady).2 [120, 121, 122] 1 (by decide) (by decide)
  exact ⟨after, returned, stored⟩

/-- A path bound by hand has nothing to fall back on, and a file over the ceiling is not
read to its end. -/
theorem by_hand_and_whole_refused :
    (∃ error after, read 1 0 atOnce (fun _ => { noPaths with control := noPaths.split })
      { twoPaths with dataPaths := [], pathid := 1 } = .error error after) ∧
    ∃ error after, read (-1) 0 atOnce (fun _ => noPaths)
      { twoPaths with config := { chunkSize := 1, maxReadSize := 1 } } = .error error after := by
  exact ⟨⟨_, _, rfl⟩, ⟨_, _, rfl⟩⟩

end Transfers

end Remote

end XRootDClient.Client
