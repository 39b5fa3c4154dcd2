import XRootDClient.Http.Redirects
import XRootDClient.Lib.Chunked
import XRootDClient.Lib.Decimal

/-!
# Uploads over HTTP

The writing half of `HTTPRawIO`: what is small enough to hold goes out in one PUT with its
length when the file closes, anything larger as a chunked PUT that is begun by the write
that no longer fits. What a receiver takes for the body is told by the headers it came
with.
-/

set_option autoImplicit false

namespace XRootDClient.Http

open Lib Lib.BigEndian Lib.Stateful Auth Url
open Client (Raises)

/-- A message as it is on the wire: its header fields, and the bytes behind them. -/
structure Message where
  headers : List (Text × Text)
  body : Bytes

structure HTTPRawIO where
  url : XRootDURL
  mode : Text
  chunkSize : Int
  pos : Nat := 0
  buffer : Bytes := []
  upload : Option Message := none
  done : Bool := false

/-- A file, its client, and the chunked uploads that have come to their end. -/
structure Writing where
  io : HTTPRawIO
  wire : Wire
  uploads : List Message := []

abbrev Io := EStateM Exception Writing

def HTTPRawIO.writable (io : HTTPRawIO) : Bool := io.mode.any fun char => char ∈ str "wxa+"

def HTTPRawIO.conditional (io : HTTPRawIO) : Headers :=
  if 'x' ∈ io.mode then Dict.set ∅ (str "If-None-Match") (str "*") else ∅

def contentLength : Text := str "Content-Length"

def transferEncoding : Text := str "Transfer-Encoding"

def updateIo (change : HTTPRawIO → HTTPRawIO) : Io Unit :=
  modify fun writing => { writing with io := change writing.io }

def onWire {Value : Type} (act : Act Value) : Io Value := fun writing =>
  match act writing.wire with
  | .ok value wire => .ok value { writing with wire := wire }
  | .error raised wire => .error raised { writing with wire := wire }

variable (python : Python) (process : Process) {Body : Type} (installation : Installation Body)
  (netlocs : Reference.Netlocs)

def send (bytes : Bytes) : Io Unit :=
  updateIo fun io => { io with
    upload := io.upload.map fun message => { message with body := message.body ++ bytes } }

def sendChunk (payload : Bytes) : Io Unit := do
  send (Chunked.hex payload.length ++ Chunked.crlf)
  send payload
  send Chunked.crlf

def beginUpload : Io Unit := do
  let writing ← get
  let io := writing.io
  let client := writing.wire.client
  let (_, pool) := client.pool.connection (keyOf io.url)
  set { writing with wire := { writing.wire with client := { client with pool := pool } } }
  let headers ← onWire (lift (client.sentHeaders process (str "PUT") io.url none io.conditional))
  updateIo fun io => { io with
    upload := some ⟨headers.entries ++ [(transferEncoding, str "chunked")], []⟩
    buffer := [] }
  if io.buffer = [] then return ()
  else sendChunk io.buffer

def write (payload : Bytes) : Io Nat := do
  if !(← get).io.writable then
    throw (.foreign (str "UnsupportedOperation") (str "not writable"))
  else if (← get).io.upload.isNone then
    updateIo fun io => { io with buffer := io.buffer ++ payload }
    let io := (← get).io
    if (io.buffer.length : Int) ≤ io.chunkSize then return payload.length
    else
      beginUpload process
      updateIo fun io => { io with pos := io.pos + payload.length }
      return payload.length
  else
    sendChunk payload
    updateIo fun io => { io with pos := io.pos + payload.length }
    return payload.length

def tell : Io Nat := return (← get).io.pos

/-- `write` after `write`: what each returns, and what `tell` says then. -/
def writes : List Bytes → Io (List (Nat × Nat))
  | [] => return []
  | payload :: rest => do
      let count ← write process payload
      let place ← tell
      let later ← writes rest
      return (count, place) :: later

def writeOk : List Int := [200, 201, 204]

/-- `_finish_upload`, with what the server answers or reading it raises. -/
def finishUpload (reply : Raises HttpResponse) : Io Unit := do
  let io := (← get).io
  send Chunked.ending
  modify fun writing => { writing with
    uploads := writing.uploads ++ writing.io.upload.toList
    io := { writing.io with upload := none } }
  match reply with
  | .error raised => throw raised
  | .ok response =>
      if response.status ∈ [307, 308, 302, 301] then
        throw (.protocolError (io.url.host ++ str " redirected a streamed upload to " ++
          response.location.getD (str "None") ++ str "; PUT that URL directly"))
      else
        match checkStatus response io.url writeOk [] with
        | none => return ()
        | some raised => throw raised

def putBuffered : Io Unit := do
  let io := (← get).io
  let headers := (Dict.set ∅ contentLength (Text.ofNat io.buffer.length)).update
    io.conditional.entries
  let response ← onWire (open_ python process installation netlocs (str "PUT") io.url
    (some io.buffer) { headers := headers, expect := writeOk })
  onWire (drain response)
  updateIo fun io => { io with buffer := [] }

def close (reply : Raises HttpResponse) : Io Unit := do
  let io := (← get).io
  if io.done then return ()
  else
    updateIo fun io => { io with done := true }
    if io.writable then
      if io.upload.isSome then finishUpload reply
      else putBuffered python process installation netlocs
    else return ()

def field (headers : List (Text × Text)) (name : Text) : Option Text :=
  (headers.find? fun entry => folded entry.1 = folded name).map Prod.snd

/-- The body a receiver takes a message to have, by its framing, and what follows it. -/
def framed (message : Message) : Option (Bytes × Bytes) :=
  match field message.headers transferEncoding, field message.headers contentLength with
  | some coding, _ => if folded coding = str "chunked" then Chunked.decode message.body else none
  | none, some length => (Decimal.unsigned length).bind fun length =>
      if length ≤ message.body.length then
        some (message.body.take length, message.body.drop length)
      else none
  | none, none => some ([], message.body)

def Writing.puts (writing : Writing) : List Message :=
  writing.uploads ++ (writing.wire.log.filter fun sent => sent.method = str "PUT").map fun sent =>
    ⟨sent.headers.entries, sent.body.getD []⟩

section Fields

variable {python process} {client : HTTPClient} {method : Text} {url : XRootDURL}
  {body : Option Bytes} {extra headers : Headers} {name : Text}

def Unobtrusive (client : HTTPClient) : Prop :=
  ∀ signer, client.signer = some signer → ∀ method url headers body added,
    signer method url headers body = .ok added →
    ¬ Names added contentLength ∧ ¬ Names added transferEncoding

theorem sent_headers_keys (unobtrusive : Unobtrusive client)
    (known : client.sentHeaders process method url body extra = .ok headers) :
    ∀ key ∈ headers.keys, key ∈ [str "User-Agent", str "Accept", authorization] ∨
      key ∈ extra.keys ∨
      (folded key ≠ folded contentLength ∧ folded key ≠ folded transferEncoding) := by
  obtain ⟨given, made, signs⟩ := except_returns known
  have front : ∀ key ∈ given.keys,
      key ∈ [str "User-Agent", str "Accept", authorization] ∨ key ∈ extra.keys := by
    unfold headersFor at made
    cases found : bearerToken process client.config url with
    | error raised =>
        rw [found] at made
        cases made
    | ok token =>
        rw [found] at made
        cases made
        intro key member
        rw [Dict.mem_keys_update] at member
        apply member.imp_left
        intro own
        have standing : ∀ other ∈ standingHeaders.keys,
            other ∈ [str "User-Agent", str "Accept", authorization] := by decide
        split at own
        · rw [Dict.mem_keys_set] at own
          rcases own with rfl | early
          · simp
          · exact standing key early
        · exact standing key own
  unfold HTTPClient.sign at signs
  cases there : client.signer with
  | none =>
      rw [there] at signs
      cases signs
      exact fun key member => (front key member).imp_right .inl
  | some signer =>
      rw [there] at signs
      dsimp only at signs
      cases added : signer method url given body with
      | error raised =>
          rw [added] at signs
          cases signs
      | ok signed =>
          rw [added] at signs
          cases signs
          have apart := unobtrusive signer there _ _ _ _ _ added
          intro key member
          rw [Dict.mem_keys_update] at member
          rcases member with early | late
          · exact (front key early).imp_right .inl
          · exact .inr (.inr ⟨fun same => apart.1 ⟨key, late, same⟩,
              fun same => apart.2 ⟨key, late, same⟩⟩)

theorem sent_headers_length (unobtrusive : Unobtrusive client)
    (known : client.sentHeaders process method url body extra = .ok headers) {value : Text}
    (given : extra.get? contentLength = some value) :
    headers.get? contentLength = some value := by
  obtain ⟨given_, made, signs⟩ := except_returns known
  have front : given_.get? contentLength = some value := by
    unfold headersFor at made
    cases found : bearerToken process client.config url with
    | error raised =>
        rw [found] at made
        cases made
    | ok token =>
        rw [found] at made
        cases made
        exact Dict.get_update_mem _ extra.unique ((Dict.get_eq_some _ _ _).mp given)
  unfold HTTPClient.sign at signs
  cases there : client.signer with
  | none =>
      rw [there] at signs
      cases signs
      exact front
  | some signer =>
      rw [there] at signs
      dsimp only at signs
      cases added : signer method url given_ body with
      | error raised =>
          rw [added] at signs
          cases signs
      | ok signed =>
          rw [added] at signs
          cases signs
          have apart := unobtrusive signer there _ _ _ _ _ added
          rw [Dict.get_update_absent _ fun late => apart.1 ⟨contentLength, late, rfl⟩]
          exact front

theorem field_absent {headers : Headers} (absent : ¬ Names headers name)
    (more : List (Text × Text)) : field (headers.entries ++ more) name = field more name := by
  have none : headers.entries.find? (fun entry => folded entry.1 = folded name) = none := by
    rw [List.find?_eq_none]
    intro entry member same
    exact absent ⟨entry.1, List.mem_map_of_mem member, of_decide_eq_true same⟩
  rw [field, List.find?_append, none, Option.none_or]
  rfl

theorem field_present {headers : Headers} {value : Text} (found : headers.get? name = some value)
    (only : ∀ key ∈ headers.keys, folded key = folded name → key = name) :
    field headers.entries name = some value := by
  have listed := (Dict.get_eq_some headers name value).mp found
  cases first : headers.entries.find? (fun entry => folded entry.1 = folded name) with
  | none =>
      rw [List.find?_eq_none] at first
      exact absurd (decide_eq_true rfl) (first _ listed)
  | some entry =>
      have member := List.mem_of_find?_eq_some first
      have shown := List.find?_some first
      have same := of_decide_eq_true shown
      have key := only entry.1 (List.mem_map_of_mem member) same
      have held : headers.get? name = some entry.2 :=
        (Dict.get_eq_some headers name entry.2).mpr (key ▸ member)
      rw [field, first, Option.map_some, ← held, found]

end Fields

section Framing

variable {python process} {client : HTTPClient} {method : Text} {url : XRootDURL}
  {body : Option Bytes} {headers : Headers} {io : HTTPRawIO}

theorem conditional_keys : ∀ key ∈ io.conditional.keys, key = str "If-None-Match" := by
  intro key member
  unfold HTTPRawIO.conditional at member
  split_ifs at member
  · rw [Dict.mem_keys_set] at member
    exact member.resolve_right List.not_mem_nil
  · exact absurd member List.not_mem_nil

theorem no_coding (unobtrusive : Unobtrusive client) {extra : Headers}
    (known : client.sentHeaders process method url body extra = .ok headers)
    (plain : ∀ key ∈ extra.keys, key = contentLength ∨ key = str "If-None-Match") :
    ¬ Names headers transferEncoding := by
  rintro ⟨key, member, same⟩
  rcases sent_headers_keys unobtrusive known key member with own | named | ⟨-, apart⟩
  · have other : ∀ key ∈ [str "User-Agent", str "Accept", authorization],
        folded key ≠ folded transferEncoding := by decide
    exact other key own same
  · rcases plain key named with rfl | rfl
    · exact absurd same (by decide)
    · exact absurd same (by decide)
  · exact apart same

theorem framed_length (unobtrusive : Unobtrusive client) {data : Bytes}
    (known : client.sentHeaders process method url body
      ((Dict.set ∅ contentLength (Text.ofNat data.length)).update io.conditional.entries) =
        .ok headers) :
    framed ⟨headers.entries, data⟩ = some (data, []) := by
  have extra : ∀ key ∈ ((Dict.set ∅ contentLength (Text.ofNat data.length)).update
      io.conditional.entries).keys, key = contentLength ∨ key = str "If-None-Match" := by
    intro key member
    rw [Dict.mem_keys_update, Dict.mem_keys_set] at member
    rcases member with (rfl | none) | late
    · exact .inl rfl
    · exact absurd none List.not_mem_nil
    · exact .inr (conditional_keys key late)
  have given : ((Dict.set ∅ contentLength (Text.ofNat data.length)).update
      io.conditional.entries).get? contentLength = some (Text.ofNat data.length) := by
    rw [Dict.get_update_absent _ fun late => absurd (conditional_keys _ late) (by decide),
      Dict.get_set_self]
  have length : field headers.entries contentLength = some (Text.ofNat data.length) := by
    apply field_present (sent_headers_length unobtrusive known given)
    intro key member same
    rcases sent_headers_keys unobtrusive known key member with own | named | ⟨apart, -⟩
    · have other : ∀ key ∈ [str "User-Agent", str "Accept", authorization],
          folded key ≠ folded contentLength := by decide
      exact absurd same (other key own)
    · rcases extra key named with rfl | rfl
      · rfl
      · exact absurd same (by decide)
    · exact absurd same apart
  have coding : field headers.entries transferEncoding = none := by
    have gone := field_absent (no_coding unobtrusive known extra) []
    rw [List.append_nil] at gone
    exact gone
  rw [framed, coding, length]
  simp [Decimal.unsigned_of_nat]

theorem framed_chunked (unobtrusive : Unobtrusive client)
    (known : client.sentHeaders process method url body io.conditional = .ok headers)
    (data : Bytes) :
    framed ⟨headers.entries ++ [(transferEncoding, str "chunked")], data⟩ = Chunked.decode data := by
  have absent := no_coding unobtrusive known fun key member => .inr (conditional_keys key member)
  have coding : field (headers.entries ++ [(transferEncoding, str "chunked")]) transferEncoding =
      some (str "chunked") := by
    rw [field_absent absent]
    decide
  rw [framed, coding]
  exact if_pos (by decide)

end Framing

def tells (start : Nat) : List Bytes → List (Nat × Nat)
  | [] => []
  | payload :: rest =>
      (payload.length, start + payload.length) :: tells (start + payload.length) rest

structure Fresh (writing : Writing) : Prop where
  writable : writing.io.writable = true
  pos : writing.io.pos = 0
  buffer : writing.io.buffer = []
  upload : writing.io.upload = none
  done : writing.io.done = false
  uploads : writing.uploads = []
  log : writing.wire.log = []

/-- A file with an upload that has come so far. -/
structure Streams (message : Message) (writing : Writing) : Prop where
  writable : writing.io.writable = true
  upload : writing.io.upload = some message
  done : writing.io.done = false
  uploads : writing.uploads = []
  log : writing.wire.log = []

section Runs

variable {python process installation netlocs} {writing after : Writing} {payload : Bytes}
  {message : Message}

theorem write_held (writable : writing.io.writable = true) (waits : writing.io.upload = none)
    (fits : ((writing.io.buffer ++ payload).length : Int) ≤ writing.io.chunkSize) :
    write process payload writing = .ok payload.length
      { writing with io := { writing.io with buffer := writing.io.buffer ++ payload } } := by
  obtain ⟨⟨url, mode, chunkSize, pos, buffer, upload, done⟩, wire, uploads⟩ := writing
  dsimp only at waits fits
  subst waits
  rw [write, run_bind, run_get]
  dsimp only
  rw [writable, if_neg (by simp), run_bind, run_get]
  dsimp only
  rw [if_pos (by rfl), updateIo, run_bind, run_modify]
  dsimp only
  rw [run_bind, run_get]
  dsimp only
  rw [if_pos fits]
  rfl

theorem send_chunk_run (begun : writing.io.upload = some message) (payload : Bytes) :
    sendChunk payload writing = .ok () { writing with io := { writing.io with
      upload := some { message with body := message.body ++ Chunked.chunk payload } } } := by
  simp only [sendChunk, send, updateIo, run_bind, run_modify, begun, Option.map_some]
  simp only [Chunked.chunk, List.append_assoc]

theorem write_streaming (writable : writing.io.writable = true)
    (begun : writing.io.upload = some message) :
    write process payload writing = .ok payload.length { writing with io := { writing.io with
      upload := some { message with body := message.body ++ Chunked.chunk payload }
      pos := writing.io.pos + payload.length } } := by
  simp only [write, run_bind, run_get, writable]
  simp only [Bool.not_true, Bool.false_eq_true, if_false, run_bind, run_get, begun,
    Option.isNone_some, send_chunk_run begun]
  rfl

theorem writes_cons {count : Nat} {rest : List Bytes}
    (wrote : write process payload writing = .ok count after) :
    writes process (payload :: rest) writing = match writes process rest after with
      | .ok later last => .ok ((count, after.io.pos) :: later) last
      | .error raised last => .error raised last := by
  rw [writes, run_bind, wrote]
  simp only [tell, run_bind, run_get, run_pure]
  cases writes process rest after with
  | ok later last => rfl
  | error raised last => rfl

theorem write_begins (fresh : Fresh writing) (large : writing.io.chunkSize < payload.length)
    {headers : Headers} (known : writing.wire.client.sentHeaders process (str "PUT") writing.io.url
      none writing.io.conditional = .ok headers) :
    ∃ next, write process payload writing = .ok payload.length next ∧
      next.io.pos = payload.length ∧
      Streams ⟨headers.entries ++ [(transferEncoding, str "chunked")],
        (if payload = [] then [] else [payload]).flatMap Chunked.chunk⟩ next := by
  obtain ⟨writable, start, empty, waits, undone, uploads_, log⟩ := fresh
  obtain ⟨⟨url, mode, chunkSize, pos, buffer, upload, done⟩, wire, uploads⟩ := writing
  dsimp only at start waits empty undone uploads_ log large known
  subst start waits empty undone uploads_
  rw [write, run_bind, run_get]
  dsimp only
  rw [writable, if_neg (by simp), run_bind, run_get]
  dsimp only
  rw [if_pos (by rfl), updateIo, run_bind, run_modify]
  dsimp only
  rw [run_bind, run_get]
  dsimp only
  rw [if_neg (by simpa using large), run_bind]
  have conditional : (⟨url, mode, chunkSize, 0, [] ++ payload, none, false⟩ :
      HTTPRawIO).conditional = (⟨url, mode, chunkSize, 0, [], none, false⟩ :
      HTTPRawIO).conditional := rfl
  simp only [beginUpload, run_bind, run_get, run_set, onWire, conditional, known, lift, run_pure,
    updateIo, run_modify]
  by_cases none : payload = []
  · subst none
    exact ⟨_, rfl, rfl, writable, rfl, rfl, rfl, log⟩
  · rw [if_neg none, if_neg (by simpa using none), send_chunk_run rfl]
    exact ⟨_, rfl, by simp, writable, by simp, rfl, rfl, log⟩

theorem writes_streaming (payloads : List Bytes) (streams : Streams message writing) :
    ∃ after, writes process payloads writing = .ok (tells writing.io.pos payloads) after ∧
      Streams { message with body := message.body ++ payloads.flatMap Chunked.chunk } after := by
  induction payloads generalizing writing message with
  | nil =>
      rw [List.flatMap_nil, List.append_nil]
      exact ⟨writing, rfl, streams⟩
  | cons payload rest induction =>
      have wrote := @write_streaming process writing payload message streams.writable streams.upload
      have next : Streams { message with body := message.body ++ Chunked.chunk payload }
          { writing with io := { writing.io with
            upload := some { message with body := message.body ++ Chunked.chunk payload }
            pos := writing.io.pos + payload.length } } :=
        ⟨streams.writable, rfl, streams.done, streams.uploads, streams.log⟩
      obtain ⟨after, later, goes⟩ := induction next
      refine ⟨after, ?_, ?_⟩
      · rw [writes_cons wrote, later]
        rfl
      · rw [List.flatMap_cons, ← List.append_assoc]
        exact goes

theorem close_streaming (reply : Raises HttpResponse) (streams : Streams message writing) :
    (final (close python process installation netlocs reply writing)).puts =
      [{ message with body := message.body ++ Chunked.ending }] := by
  obtain ⟨writable, begun, undone, uploads_, log⟩ := streams
  obtain ⟨⟨url, mode, chunkSize, pos, buffer, upload, done⟩, wire, uploads⟩ := writing
  dsimp only at begun undone uploads_ log
  subst begun undone uploads_
  rw [close, run_bind, run_get]
  dsimp only
  rw [if_neg (by simp), updateIo, run_bind, run_modify]
  dsimp only
  rw [writable, if_pos rfl, if_pos (by rfl)]
  simp only [finishUpload, send, updateIo, run_bind, run_get, run_modify, Option.map_some]
  have puts (io : HTTPRawIO) : Writing.puts ⟨io, wire, [] ++
      (some { message with body := message.body ++ Chunked.ending }).toList⟩ =
      [{ message with body := message.body ++ Chunked.ending }] := by
    rw [Writing.puts, log]
    rfl
  cases reply with
  | error raised => exact puts _
  | ok response =>
      dsimp only
      split_ifs
      · exact puts _
      · cases checkStatus response url writeOk [] with
        | none => exact puts _
        | some raised => exact puts _

theorem close_held (reply : Raises HttpResponse) (writable : writing.io.writable = true)
    (waits : writing.io.upload = none) (undone : writing.io.done = false) :
    (final (close python process installation netlocs reply writing)).uploads = writing.uploads ∧
      (final (close python process installation netlocs reply writing)).wire.log =
        (final (open_ python process installation netlocs (str "PUT") writing.io.url
          (some writing.io.buffer)
          { headers := (Dict.set ∅ contentLength (Text.ofNat writing.io.buffer.length)).update
              writing.io.conditional.entries
            expect := writeOk } writing.wire)).log := by
  obtain ⟨⟨url, mode, chunkSize, pos, buffer, upload, done⟩, wire, uploads⟩ := writing
  dsimp only at waits undone
  subst waits undone
  rw [close, run_bind, run_get]
  dsimp only
  rw [if_neg (by simp), updateIo, run_bind, run_modify]
  dsimp only
  rw [writable, if_pos rfl, if_neg (by simp)]
  have conditional : (⟨url, mode, chunkSize, pos, buffer, none, true⟩ :
      HTTPRawIO).conditional = (⟨url, mode, chunkSize, pos, buffer, none, false⟩ :
      HTTPRawIO).conditional := rfl
  simp only [putBuffered, run_bind, run_get, onWire, conditional]
  cases open_ python process installation netlocs (str "PUT") url (some buffer)
      { headers := (Dict.set ∅ contentLength (Text.ofNat buffer.length)).update
          (⟨url, mode, chunkSize, pos, buffer, none, false⟩ : HTTPRawIO).conditional.entries
        expect := writeOk } wire with
  | error raised after => exact ⟨rfl, rfl⟩
  | ok response after =>
      dsimp only
      unfold drain
      cases response.unreadable with
      | some raised => exact ⟨rfl, rfl⟩
      | none => exact ⟨rfl, rfl⟩

/-- A request can be made: the headers can, for a body and for none, a connection, and the
limit allows for one. -/
structure Ready (process : Process) (writing : Writing) : Prop where
  headers : ∀ body extra, ∃ headers,
    writing.wire.client.sentHeaders process (str "PUT") writing.io.url body extra = .ok headers
  opens : writing.wire.opens writing.io.url = true
  limit : 0 ≤ writing.wire.client.config.redirectLimit

theorem put_body {options : Options} {fuel : Nat} {url : XRootDURL} {data : Bytes} {wire : Wire} :
    ∀ stop ∈ course python process installation netlocs options fuel
        { method := str "PUT", body := some data, target := url } wire,
      (stop.1.method = str "PUT" → stop.1.body = some data) ∧
        stop.2.client.signer = wire.client.signer := by
  apply @course_all python process _ installation netlocs _ options wire
    (fun call now => (call.method = str "PUT" → call.body = some data) ∧
      now.client.signer = wire.client.signer) fuel ⟨fun _ => rfl, rfl⟩
  intro call now next after outcome known
  have kept := @turn_signer python process _ installation netlocs call options now
  rw [outcome] at kept
  refine ⟨fun put => ?_, kept.trans known.2⟩
  rcases (turn_follows outcome).asks with ⟨method, body⟩ | ⟨method, -⟩
  · rw [body]
    exact known.1 (method ▸ put)
  · rw [method] at put
    exact absurd put (by decide)

theorem held_puts (reply : Raises HttpResponse) (fresh : writing.uploads = [])
    (quiet : writing.wire.log = []) (writable : writing.io.writable = true)
    (waits : writing.io.upload = none) (undone : writing.io.done = false)
    (unobtrusive : Unobtrusive writing.wire.client) (ready : Ready process writing) :
    (final (close python process installation netlocs reply writing)).puts ≠ [] ∧
      ∀ message ∈ (final (close python process installation netlocs reply writing)).puts,
        framed message = some (writing.io.buffer, []) := by
  obtain ⟨none, log⟩ := @close_held python process _ installation netlocs writing reply writable
    waits undone
  rw [open_, run_bind, run_get] at log
  dsimp only at log
  generalize str "more than " ++ _ ++ _ ++ _ = limit at log
  obtain ⟨requests, made, goes, sends, -⟩ := @open_from_made python process _ installation netlocs
    { headers := (Dict.set ∅ contentLength (Text.ofNat writing.io.buffer.length)).update
        writing.io.conditional.entries
      expect := writeOk } limit (writing.wire.client.config.redirectLimit + 1).toNat
    { method := str "PUT", body := some writing.io.buffer, target := writing.io.url } writing.wire
  rw [made, quiet, List.nil_append] at log
  have framing : ∀ sent ∈ requests, sent.method = str "PUT" →
      framed ⟨sent.headers.entries, sent.body.getD []⟩ = some (writing.io.buffer, []) := by
    intro sent member put
    obtain ⟨stop, listed, going, -⟩ := goes sent member
    obtain ⟨body, signer⟩ := put_body stop listed
    rw [going.body, body (going.method ▸ put), Option.getD_some]
    apply framed_length _ going.headers
    intro other there
    exact unobtrusive other (signer ▸ there)
  have puts : (final (close python process installation netlocs reply writing)).puts =
      (requests.filter fun sent => sent.method = str "PUT").map fun sent =>
        ⟨sent.headers.entries, sent.body.getD []⟩ := by
    rw [Writing.puts, none, fresh, log, List.nil_append]
  rw [puts]
  constructor
  · obtain ⟨headers, known⟩ := ready.headers (some writing.io.buffer)
      ((Dict.set ∅ contentLength (Text.ofNat writing.io.buffer.length)).update
        writing.io.conditional.entries)
    obtain ⟨more, count⟩ : ∃ more, (writing.wire.client.config.redirectLimit + 1).toNat = more + 1 :=
      ⟨writing.wire.client.config.redirectLimit.toNat, by have limit := ready.limit; omega⟩
    rw [count] at sends
    obtain ⟨sent, member, going⟩ := sends _ List.mem_cons_self ready.opens headers known
    have put : sent.method = str "PUT" := going.method
    exact List.ne_nil_of_mem (List.mem_map_of_mem (List.mem_filter.mpr
      ⟨member, decide_eq_true put⟩))
  · intro message member
    obtain ⟨sent, kept, rfl⟩ := List.mem_map.mp member
    rw [List.mem_filter] at kept
    exact framing sent kept.1 (of_decide_eq_true kept.2)

end Runs

/-- The writes return and tell what they should, and what a receiver takes for the body of
the PUT is all that was written, with nothing behind it. -/
def Carries (reply : Raises HttpResponse) (writing : Writing) (payloads : List Bytes) : Prop :=
  ∃ after, writes process payloads writing = .ok (tells 0 payloads) after ∧
    (final (close python process installation netlocs reply after)).puts ≠ [] ∧
    ∀ message ∈ (final (close python process installation netlocs reply after)).puts,
      framed message = some (payloads.flatten, [])

/-- Nothing but empty payloads is held, and none is empty behind the one that is too large
to be. -/
def Steady (chunkSize : Int) : List Bytes → Prop
  | [] => True
  | payload :: rest =>
      if chunkSize < payload.length then ∀ later ∈ rest, later ≠ []
      else payload = [] ∧ Steady chunkSize rest

instance steadyDecidable (chunkSize : Int) :
    ∀ payloads : List Bytes, Decidable (Steady chunkSize payloads)
  | [] => isTrue trivial
  | payload :: rest =>
      have := steadyDecidable chunkSize rest
      inferInstanceAs (Decidable (if chunkSize < payload.length then ∀ later ∈ rest, later ≠ []
        else payload = [] ∧ Steady chunkSize rest))

section Uploads

variable {python process installation netlocs} {writing : Writing} {payload : Bytes}
  {rest : List Bytes} {reply : Raises HttpResponse}

theorem carries_begun (fresh : Fresh writing) (unobtrusive : Unobtrusive writing.wire.client)
    (ready : Ready process writing) (large : writing.io.chunkSize < payload.length) :
    Carries python process installation netlocs reply writing (payload :: rest) ↔
      ∀ later ∈ rest, later ≠ [] := by
  obtain ⟨headers, known⟩ := ready.headers none writing.io.conditional
  obtain ⟨next, wrote, pos, begun⟩ := write_begins fresh large known
  obtain ⟨after, later, streams⟩ := @writes_streaming process next _ rest begun
  generalize held : (if payload = [] then [] else [payload]) = front at streams
  have whole : (front ++ rest).flatten = (payload :: rest).flatten := by
    rw [← held]
    split_ifs with none
    · rw [none]
      rfl
    · rfl
  have some : ∀ piece ∈ front, piece ≠ [] := by
    rw [← held]
    split_ifs with none
    · exact nofun
    · simpa using none
  have written : writes process (payload :: rest) writing = .ok (tells 0 (payload :: rest)) after := by
    rw [writes_cons wrote, later, tells, pos, Nat.zero_add]
  have puts := @close_streaming python process _ installation netlocs after _ reply streams
  dsimp only at puts
  rw [← List.flatMap_append] at puts
  unfold Carries
  rw [written]
  constructor
  · rintro ⟨_, ⟨⟩, -, framing⟩
    have body := framing _ (puts ▸ List.mem_singleton_self _)
    rw [framed_chunked unobtrusive known, ← whole, Chunked.decode_whole_iff] at body
    exact fun later member => body later (List.mem_append_right _ member)
  · intro more
    refine ⟨after, rfl, by rw [puts]; exact List.cons_ne_nil _ _, fun message member => ?_⟩
    rw [puts, List.mem_singleton] at member
    rw [member, framed_chunked unobtrusive known, ← whole, Chunked.decode_whole_iff]
    intro piece inside
    exact (List.mem_append.mp inside).elim (some piece) (more piece)

/-- An HTTP upload carries what was written exactly when nothing but empty payloads is held
and none is empty once it has begun. -/
theorem upload_carries_iff (fresh : Fresh writing) (unobtrusive : Unobtrusive writing.wire.client)
    (ready : Ready process writing) (payloads : List Bytes) :
    Carries python process installation netlocs reply writing payloads ↔
      Steady writing.io.chunkSize payloads := by
  induction payloads with
  | nil =>
      refine iff_of_true ⟨writing, rfl, ?_⟩ trivial
      have puts := @held_puts python process _ installation netlocs writing reply fresh.uploads
        fresh.log fresh.writable fresh.upload fresh.done unobtrusive ready
      rw [fresh.buffer] at puts
      exact puts
  | cons payload rest induction =>
      rw [Steady]
      by_cases large : writing.io.chunkSize < payload.length
      · rw [if_pos large]
        exact carries_begun fresh unobtrusive ready large
      · rw [if_neg large]
        have held := @write_held process writing payload fresh.writable fresh.upload
          (by rw [fresh.buffer]; simpa using large)
        by_cases none : payload = []
        · subst none
          have same : ({ writing with
              io := { writing.io with buffer := writing.io.buffer ++ [] } } : Writing) = writing := by
            rw [List.append_nil]
          rw [same] at held
          rw [← induction]
          simp only [true_and]
          unfold Carries
          rw [writes_cons held, fresh.pos]
          cases writes process rest writing with
          | error raised after => simp
          | ok results after => simp [tells]
        · -- what is held is not told
          refine iff_of_false ?_ fun steady => none steady.1
          rintro ⟨after, written, -⟩
          rw [writes_cons held] at written
          dsimp only at written
          rw [fresh.pos] at written
          split at written
          · have length := List.length_pos_iff.mpr none
            simp only [tells, EStateM.Result.ok.injEq, List.cons.injEq, Prod.mk.injEq] at written
            omega
          · cases written

end Uploads

/-- A file opened for writing, on a client without a credential. -/
def opened (chunkSize : Int) : Writing where
  io := { url := secureUrl, mode := str "wb", chunkSize := chunkSize }
  wire := { client := ⟨{}, .empty, none⟩, attempts := [] }

theorem opened_fresh (chunkSize : Int) : Fresh (opened chunkSize) :=
  ⟨rfl, rfl, rfl, rfl, rfl, rfl, rfl⟩

theorem opened_ready (chunkSize : Int) : Ready (.bearer []) (opened chunkSize) where
  headers body extra := by
    have token : bearerToken (.bearer []) (opened chunkSize).wire.client.config
        (opened chunkSize).io.url = .ok none := rfl
    unfold HTTPClient.sentHeaders headersFor
    rw [token]
    exact ⟨_, rfl⟩
  opens := rfl
  limit := Int.natCast_nonneg 16

theorem opened_unobtrusive (chunkSize : Int) : Unobtrusive (opened chunkSize).wire.client :=
  fun _ there => by cases there

theorem two_chunks_carried :
    Carries asciiOnly (.bearer []) (.bare Unit) allNetlocs (.ok { status := 201 }) (opened 1)
      [[], [1, 2], [3]] := by
  apply (upload_carries_iff (opened_fresh 1) (opened_unobtrusive 1) (opened_ready 1) _).mpr
  decide +kernel

def received (payloads : List Bytes) (writing : Writing) : List (Option (Bytes × Bytes)) :=
  match writes (.bearer []) payloads writing with
  | .ok _ after => (final (close asciiOnly (.bearer []) (.bare Unit) allNetlocs
      (.ok { status := 201 }) after)).puts.map framed
  | .error _ _ => []

theorem carries_received {writing : Writing} {payloads : List Bytes}
    (carries : Carries asciiOnly (.bearer []) (.bare Unit) allNetlocs (.ok { status := 201 }) writing
      payloads) : ∀ body ∈ received payloads writing, body = some (payloads.flatten, []) := by
  obtain ⟨after, written, -, framing⟩ := carries
  intro body member
  rw [received, written] at member
  obtain ⟨message, sent, rfl⟩ := List.mem_map.mp member
  exact framing message sent

/-- An empty payload ends the body in front of what is written behind it; and of what is
held `tell` does not know. -/
theorem upload_cut_short :
    received [[1, 2], [], [3]] (opened 1) =
      [some ([1, 2], Chunked.chunk [3] ++ Chunked.ending)] ∧
    ¬ Carries asciiOnly (.bearer []) (.bare Unit) allNetlocs (.ok { status := 201 }) (opened 1)
      [[1, 2], [], [3]] ∧
    ¬ Carries asciiOnly (.bearer []) (.bare Unit) allNetlocs (.ok { status := 201 }) (opened 4)
      [[1]] := by
  have cut : received [[1, 2], [], [3]] (opened 1) =
      [some ([1, 2], Chunked.chunk [3] ++ Chunked.ending)] := by decide +kernel
  refine ⟨cut, fun carries => ?_, fun ⟨after, written, _⟩ => ?_⟩
  · have body := carries_received carries _ (cut ▸ List.mem_singleton_self _)
    revert body
    decide +kernel
  · have told : (match writes (.bearer []) [[1]] (opened 4) with
        | .ok results _ => results
        | .error _ _ => []) = [(1, 0)] := by decide +kernel
    rw [written] at told
    have wrong : tells 0 [[1]] ≠ [(1, 0)] := by decide
    exact wrong told

end XRootDClient.Http
