import Mathlib.Data.List.Infix
import XRootDClient.Errors
import XRootDClient.Lib.BigEndian

/-!
# Downloads over HTTP

The reading half of `HTTPRawIO`: a GET that stays open is read on from, and one that is
not open is begun at the position, with a range unless that is the start. A server may
honour the range or answer with the whole of the content, a connection may hand out less
than it was asked for or end early, and a request may be refused. Whatever it is, what is
read is the content at the position.
-/

set_option autoImplicit false

namespace XRootDClient.Http.Download

open Lib Lib.BigEndian

/-- A response of the client: its status, and what of its body the connection delivers. -/
structure Served where
  status : Int
  body : Bytes
  deriving DecidableEq

/-- What the requests of one handle come to, numbered in order: what `client.open` or
`client.request` raises, or what is answered. `get` is told the first byte of the range,
`head` gives the content length where there is one, and `draws` decides how much of what
it could take a read of the response takes. -/
structure Server where
  get : Nat → Option Nat → Except Exception Served
  head : Nat → Except Exception (Option Nat)
  draws : Nat → Nat

inductive Raised
  | refused (exception : Exception)
  | unsupported
  | negativeSeek (target : Int)
  | invalidWhence (whence : Int)
  | tooLarge (size limit : Nat)
  deriving DecidableEq

/-- `HTTPRawIO`, as far as it is read from. The response is what is left of its body. -/
structure Reader where
  readable : Bool := true
  chunkSize : Nat
  maxReadSize : Nat := 0
  pos : Nat := 0
  size : Option Nat := none
  body : Option Bytes := none
  requests : Nat := 0
  reads : Nat := 0
  deriving DecidableEq

inductive Operation
  | readinto (count : Nat)
  | readall
  | seek (offset whence : Int)
  | tell
  | size
  deriving DecidableEq

inductive Reply
  | data (data : Bytes)
  | place (place : Nat)
  deriving DecidableEq

namespace Reader

variable (server : Server)

/-- How many bytes a read of the response takes: some, where there are any. -/
def taken (reads count : Nat) (left : Bytes) : Nat :=
  if count = 0 ∨ left = [] then 0 else server.draws reads % min count left.length + 1

def stream (reader : Reader) : Except Raised Bytes × Reader :=
  match reader.body with
  | some left => (.ok left, reader)
  | none =>
      let range := if reader.pos = 0 then none else some reader.pos
      match server.get reader.requests range with
      | .error exception =>
          (.error (.refused exception), { reader with requests := reader.requests + 1 })
      | .ok served =>
          -- a server that ignored the range has the start skipped
          let left := if reader.pos ≠ 0 ∧ served.status = 200 then served.body.drop reader.pos
            else served.body
          (.ok left, { reader with body := some left, requests := reader.requests + 1 })

def readinto (count : Nat) (reader : Reader) : Except Raised Bytes × Reader :=
  if !reader.readable then (.error .unsupported, reader)
  else
    match reader.stream server with
    | (.error raised, reader) => (.error raised, reader)
    | (.ok left, reader) =>
        let number := taken server reader.reads count left
        (.ok (left.take number), { reader with
          pos := reader.pos + number
          body := some (left.drop number)
          reads := reader.reads + 1 })

theorem taken_some {reads count : Nat} {left : Bytes} (some_ : ¬ taken server reads count left = 0) :
    left ≠ [] := by
  intro empty
  exact some_ (if_pos (.inr empty))

/-- The loop of `readall`, once its response is open: what it returns or raises, how far
it got, and what is left. -/
def readLoop (chunk limit total reads : Nat) (left : Bytes) : Except Raised Bytes × Nat × Nat × Bytes :=
  let number := taken server reads chunk left
  if none_ : number = 0 then (.ok [], 0, reads + 1, left)
  else if limit ≠ 0 ∧ limit < total + number then
    (.error (.tooLarge (total + number) limit), number, reads + 1, left.drop number)
  else
    have : left.length - number < left.length := by
      have positive := List.length_pos_of_ne_nil (taken_some server none_)
      omega
    let (result, got, reads, rest) :=
      readLoop chunk limit (total + number) (reads + 1) (left.drop number)
    (result.map (left.take number ++ ·), number + got, reads, rest)
termination_by left.length
decreasing_by simpa using this

def readall (reader : Reader) : Except Raised Bytes × Reader :=
  if !reader.readable then (.error .unsupported, reader)
  else
    match reader.stream server with
    | (.error raised, reader) => (.error raised, reader)
    | (.ok left, reader) =>
        let (result, got, reads, rest) :=
          readLoop server reader.chunkSize reader.maxReadSize 0 reader.reads left
        (result, { reader with pos := reader.pos + got, body := some rest, reads := reads })

def askSize (reader : Reader) : Except Raised Nat × Reader :=
  match reader.size with
  | some size => (.ok size, reader)
  | none =>
      let asked := { reader with body := none, requests := reader.requests + 1 }
      match server.head reader.requests with
      | .error exception => (.error (.refused exception), asked)
      | .ok length => (.ok (length.getD 0), { asked with size := some (length.getD 0) })

def seekFrom (offset : Int) (base : Nat) (reader : Reader) : Except Raised Nat × Reader :=
  let target := base + offset
  if target < 0 then (.error (.negativeSeek target), reader)
  else if target ≠ reader.pos then
    (.ok target.toNat, { reader with body := none, pos := target.toNat })
  else (.ok reader.pos, reader)

def seek (offset whence : Int) (reader : Reader) : Except Raised Nat × Reader :=
  if !reader.readable then (.error .unsupported, reader)
  else if whence = 0 then reader.seekFrom offset 0
  else if whence = 1 then reader.seekFrom offset reader.pos
  else if whence = 2 then
    match reader.askSize server with
    | (.error raised, reader) => (.error raised, reader)
    | (.ok size, reader) => reader.seekFrom offset size
  else (.error (.invalidWhence whence), reader)

def step (reader : Reader) : Operation → Except Raised Reply × Reader
  | .readinto count =>
      let (result, reader) := reader.readinto server count
      (result.map .data, reader)
  | .readall =>
      let (result, reader) := reader.readall server
      (result.map .data, reader)
  | .seek offset whence =>
      let (result, reader) := reader.seek server offset whence
      (result.map .place, reader)
  | .tell => (.ok (.place reader.pos), reader)
  | .size =>
      let (result, reader) := reader.askSize server
      (result.map .place, reader)

/-- Operations one after the other: what each comes to, and the position behind it. -/
def run (reader : Reader) : List Operation → List (Except Raised Reply × Nat)
  | [] => []
  | operation :: rest =>
      let (result, after) := reader.step server operation
      (result, after.pos) :: after.run rest

end Reader

/-- A server that has the content: it answers a range from within it or ignores the range,
and tells how long the content is. A connection that may be cut delivers a beginning. -/
structure Server.Has (server : Server) (content : Bytes) (cut : Bool) : Prop where
  plain : ∀ number served, server.get number none = .ok served →
    served.status = 200 ∧ served.body <+: content ∧ (cut = false → served.body = content)
  ranged : ∀ number start served, server.get number (some start) = .ok served →
    served.status = 206 ∧ start < content.length ∧ served.body <+: content.drop start ∧
        (cut = false → served.body = content.drop start) ∨
      served.status = 200 ∧ served.body <+: content ∧ (cut = false → served.body = content)
  long : ∀ number length, server.head number = .ok length → length = some content.length

/-- The request for what is at a position was refused, or the one for the length. -/
def Server.Refuses (server : Server) (pos : Nat) (exception : Exception) : Prop :=
  ∃ number, server.get number (if pos = 0 then none else some pos) = .error exception ∨
    server.head number = .error exception

def Base (content : Bytes) (pos : Nat) (whence : Int) (base : Nat) : Prop :=
  whence = 0 ∧ base = 0 ∨ whence = 1 ∧ base = pos ∨ whence = 2 ∧ base = content.length

/-- What an operation on a position over a content may come to, and where it leaves it. -/
def Permits (server : Server) (content : Bytes) (cut : Bool) (limit pos : Nat) :
    Operation → Except Raised Reply → Nat → Prop
  | .readinto count, .ok (.data data), after =>
      data <+: content.drop pos ∧ data.length ≤ count ∧ after = pos + data.length ∧
        (cut = false → 0 < count → data = [] → content.length ≤ pos)
  | .readall, .ok (.data data), after =>
      data <+: content.drop pos ∧ (cut = false → data = content.drop pos) ∧
        after = pos + data.length ∧ (limit ≠ 0 → data.length ≤ limit)
  | .readall, .error (.tooLarge size most), after =>
      most = limit ∧ limit ≠ 0 ∧ limit < size ∧ pos + size ≤ content.length ∧ after = pos + size
  | .seek offset whence, .ok (.place place), after =>
      after = place ∧ ∃ base, Base content pos whence base ∧ (place : Int) = base + offset
  | .seek offset whence, .error (.negativeSeek target), after =>
      after = pos ∧ target < 0 ∧ ∃ base, Base content pos whence base ∧ target = base + offset
  | .seek _ whence, .error (.invalidWhence other), after =>
      after = pos ∧ other = whence ∧ whence ∉ [0, 1, 2]
  | .tell, .ok (.place place), after => place = pos ∧ after = pos
  | .size, .ok (.place place), after => place = content.length ∧ after = pos
  | .tell, .error _, _ => False
  | _, .error (.refused exception), after => after = pos ∧ server.Refuses pos exception
  | _, _, _ => False

/-- Every operation comes to what it may, from the position the one before it left. -/
def Follows (server : Server) (content : Bytes) (cut : Bool) (limit : Nat) :
    Nat → List Operation → List (Except Raised Reply × Nat) → Prop
  | _, [], [] => True
  | pos, operation :: operations, (result, after) :: results =>
      Permits server content cut limit pos operation result after ∧
        Follows server content cut limit after operations results
  | _, _, _ => False

/-- What the stream has left is the content from the position on, or a beginning of it. -/
structure Reader.Aligned (reader : Reader) (content : Bytes) (cut : Bool) : Prop where
  readable : reader.readable = true
  chunk : 0 < reader.chunkSize
  body : ∀ left, reader.body = some left →
    left <+: content.drop reader.pos ∧ (cut = false → left = content.drop reader.pos)
  size : ∀ size, reader.size = some size → size = content.length

section Runs

variable {server : Server} {content : Bytes} {cut : Bool}

theorem taken_le (server : Server) (reads count : Nat) (left : Bytes) :
    Reader.taken server reads count left ≤ count ∧
      Reader.taken server reads count left ≤ left.length := by
  rw [Reader.taken]
  by_cases none_ : count = 0 ∨ left = []
  · rw [if_pos none_]
    exact ⟨Nat.zero_le _, Nat.zero_le _⟩
  · rw [if_neg none_]
    obtain ⟨some_, more⟩ := not_or.mp none_
    have room : 0 < min count left.length :=
      lt_min (Nat.pos_of_ne_zero some_) (List.length_pos_of_ne_nil more)
    have below := Nat.mod_lt (server.draws reads) room
    omega

theorem taken_none {reads count : Nat} {left : Bytes} (some_ : 0 < count)
    (none_ : Reader.taken server reads count left = 0) : left = [] := by
  by_contra more
  rw [Reader.taken, if_neg (not_or.mpr ⟨by omega, more⟩)] at none_
  omega

theorem prefix_taken {left : Bytes} {pos : Nat} (number : Nat)
    (stands : left <+: content.drop pos ∧ (cut = false → left = content.drop pos)) :
    left.take number <+: content.drop pos ∧
      left.drop number <+: content.drop (pos + number) ∧
      (cut = false → left.drop number = content.drop (pos + number)) := by
  obtain ⟨inside, whole⟩ := stands
  have behind : content.drop (pos + number) = (content.drop pos).drop number := List.drop_drop.symm
  refine ⟨(List.take_prefix _ _).trans inside, ?_, ?_⟩
  · rw [behind]
    exact inside.drop number
  · intro uncut
    rw [behind, ← whole uncut]

theorem joined_whole {part : Bytes} {pos number : Nat} (size : part.length = number)
    (here : part <+: content.drop pos) : part ++ content.drop (pos + number) = content.drop pos := by
  obtain ⟨rest, parted⟩ := here
  rw [← List.drop_drop, ← parted, List.drop_left' size]

theorem prefix_joined {part data : Bytes} {pos number : Nat} (size : part.length = number)
    (here : part <+: content.drop pos) (behind : data <+: content.drop (pos + number)) :
    part ++ data <+: content.drop pos := by
  rw [← joined_whole size here]
  exact (List.prefix_append_right_inj part).mpr behind

theorem stream_stands (has : server.Has content cut) {reader : Reader}
    (aligned : reader.Aligned content cut) :
    (∃ left after, reader.stream server = (.ok left, after) ∧ after.pos = reader.pos ∧
      after.maxReadSize = reader.maxReadSize ∧ after.Aligned content cut ∧
        after.body = some left) ∨
    ∃ exception after, reader.stream server = (.error (.refused exception), after) ∧
      after.pos = reader.pos ∧ after.maxReadSize = reader.maxReadSize ∧
        after.Aligned content cut ∧ server.Refuses reader.pos exception := by
  cases body : reader.body with
  | some left =>
      left
      rw [Reader.stream, body]
      exact ⟨left, reader, rfl, rfl, rfl, aligned, body⟩
  | none =>
      rw [Reader.stream, body]
      dsimp only
      cases reply : server.get reader.requests (if reader.pos = 0 then none else some reader.pos) with
      | error exception =>
          right
          refine ⟨exception, _, rfl, rfl, rfl, ?_, reader.requests, .inl reply⟩
          refine ⟨aligned.readable, aligned.chunk, ?_, aligned.size⟩
          intro left found
          cases found
      | ok served =>
          left
          refine ⟨_, _, rfl, rfl, rfl, ⟨aligned.readable, aligned.chunk, ?_, aligned.size⟩, rfl⟩
          intro left found
          cases found
          by_cases start : reader.pos = 0
          · rw [if_pos start] at reply
            obtain ⟨-, inside, whole⟩ := has.plain _ _ reply
            rw [if_neg (fun both => both.1 start), start]
            exact ⟨inside, whole⟩
          · rw [if_neg start] at reply
            rcases has.ranged _ _ _ reply with ⟨partial_, -, inside, whole⟩ | ⟨ignored, inside, whole⟩
            · rw [if_neg (fun both => by rw [partial_] at both; cases both.2)]
              exact ⟨inside, whole⟩
            · rw [if_pos ⟨start, ignored⟩]
              refine ⟨inside.drop _, fun uncut => ?_⟩
              rw [whole uncut]

/-- A read in pieces gives what is at the position, all of it unless the connection was
cut, and stops at the limit. -/
theorem read_loop_stands (server : Server) (reads : Nat) {chunk limit total pos : Nat}
    {left : Bytes} (some_ : 0 < chunk)
    (under : limit ≠ 0 → total ≤ limit)
    (stands : left <+: content.drop pos ∧ (cut = false → left = content.drop pos)) :
    ∃ result got after rest,
      Reader.readLoop server chunk limit total reads left = (result, got, after, rest) ∧
      (rest <+: content.drop (pos + got) ∧ (cut = false → rest = content.drop (pos + got))) ∧
      ((∃ data, result = .ok data ∧ data <+: content.drop pos ∧
          (cut = false → data = content.drop pos) ∧ got = data.length ∧
            (limit ≠ 0 → total + data.length ≤ limit)) ∨
        result = .error (.tooLarge (total + got) limit) ∧ limit ≠ 0 ∧ limit < total + got ∧
          got ≤ left.length) := by
  generalize length : left.length = count
  induction count using Nat.strongRecOn generalizing total reads pos left with
  | ind count induction =>
      subst length
      rw [Reader.readLoop]
      dsimp only
      obtain ⟨-, inside⟩ := taken_le server reads chunk left
      by_cases none_ : Reader.taken server reads chunk left = 0
      · rw [dif_pos none_]
        refine ⟨_, _, _, _, rfl, stands, .inl ⟨[], rfl, List.nil_prefix, ?_, rfl, under⟩⟩
        intro uncut
        rw [← stands.2 uncut, taken_none some_ none_]
      · rw [dif_neg none_]
        generalize Reader.taken server reads chunk left = number at none_ inside
        obtain ⟨here, behind⟩ := prefix_taken number stands
        have size : (left.take number).length = number := List.length_take_of_le inside
        by_cases over_ : limit ≠ 0 ∧ limit < total + number
        · rw [if_pos over_]
          exact ⟨_, _, _, _, rfl, behind, .inr ⟨rfl, over_.1, over_.2, inside⟩⟩
        · rw [if_neg over_]
          have room : limit ≠ 0 → total + number ≤ limit :=
            fun bounded => Nat.not_lt.mp fun past => over_ ⟨bounded, past⟩
          have less : (left.drop number).length < left.length := by
            rw [List.length_drop]
            omega
          obtain ⟨result, got, after, rest, read, stands_, outcome⟩ :=
            induction _ less (reads + 1) room behind rfl
          rw [read]
          dsimp only
          rw [Nat.add_assoc] at stands_
          refine ⟨_, _, _, _, rfl, stands_, ?_⟩
          rcases outcome with ⟨data, rfl, inside_, whole, rfl, fits⟩ | ⟨rfl, bounded, past, within⟩
          · left
            refine ⟨left.take number ++ data, rfl, ?_, ?_, ?_, ?_⟩
            · exact prefix_joined size here inside_
            · intro uncut
              rw [whole uncut]
              exact joined_whole size here
            · rw [List.length_append, size]
            · rw [List.length_append, size, ← Nat.add_assoc]
              exact fits
          · right
            rw [List.length_drop] at within
            refine ⟨?_, bounded, by omega, by omega⟩
            rw [Nat.add_assoc]
            rfl

/-- What an operation does to a reader that stands at its position. -/
def Kept (server : Server) (content : Bytes) (cut : Bool) (reader : Reader) (operation : Operation)
    (outcome : Except Raised Reply × Reader) : Prop :=
  Permits server content cut reader.maxReadSize reader.pos operation outcome.1 outcome.2.pos ∧
    outcome.2.maxReadSize = reader.maxReadSize ∧ outcome.2.Aligned content cut

variable {reader : Reader}

theorem readinto_kept (has : server.Has content cut) (aligned : reader.Aligned content cut)
    (count : Nat) : Kept server content cut reader (.readinto count)
      (reader.step server (.readinto count)) := by
  rw [Reader.step, Reader.readinto, aligned.readable, if_neg (by decide)]
  rcases stream_stands has aligned with ⟨left, after, opened, same, limit, stood, body⟩ |
    ⟨exception, after, opened, same, limit, stood, refused⟩
  · rw [opened]
    dsimp only
    obtain ⟨few, inside⟩ := taken_le server after.reads count left
    have stands := stood.body left body
    obtain ⟨here, behind⟩ := prefix_taken (Reader.taken server after.reads count left) stands
    rw [same] at here
    refine ⟨⟨here, ?_, ?_, ?_⟩, limit, ⟨stood.readable, stood.chunk, ?_, stood.size⟩⟩
    · rw [List.length_take_of_le inside]
      exact few
    · rw [List.length_take_of_le inside]
      exact congrArg (· + _) same
    · intro uncut some_ empty
      have none_ : Reader.taken server after.reads count left = 0 := by
        rw [← List.length_take_of_le inside, empty]
        rfl
      have whole := stands.2 uncut
      rw [taken_none some_ none_, same] at whole
      exact List.drop_eq_nil_iff.mp whole.symm
    · intro rest found
      cases found
      exact behind
  · rw [opened]
    exact ⟨⟨same, refused⟩, limit, stood⟩

theorem readall_kept (has : server.Has content cut) (aligned : reader.Aligned content cut) :
    Kept server content cut reader .readall (reader.step server .readall) := by
  rw [Reader.step, Reader.readall, aligned.readable, if_neg (by decide)]
  rcases stream_stands has aligned with ⟨left, after, opened, same, limit, stood, body⟩ |
    ⟨exception, after, opened, same, limit, stood, refused⟩
  · rw [opened]
    dsimp only
    have stands := stood.body left body
    obtain ⟨result, got, reads, rest, read, behind, outcome⟩ :=
      read_loop_stands server after.reads stood.chunk
        (fun _ => Nat.zero_le after.maxReadSize) stands
    rw [read]
    have stood_ : Reader.Aligned { after with pos := after.pos + got, body := some rest, reads := reads }
        content cut := by
      refine ⟨stood.readable, stood.chunk, ?_, stood.size⟩
      intro left found
      cases found
      exact behind
    rcases outcome with ⟨data, rfl, inside, whole, rfl, fits⟩ | ⟨rfl, bounded, past, within⟩
    · rw [same] at inside whole
      rw [limit, Nat.zero_add] at fits
      exact ⟨⟨inside, whole, congrArg (· + data.length) same, fits⟩, limit, stood_⟩
    · have room := stands.1.length_le
      rw [List.length_drop] at room
      rw [limit] at bounded past
      have inside : reader.pos + (0 + got) ≤ content.length := by omega
      exact ⟨⟨limit, bounded, past, inside, by rw [same, Nat.zero_add]⟩, limit, stood_⟩
  · rw [opened]
    exact ⟨⟨same, refused⟩, limit, stood⟩

theorem size_kept (has : server.Has content cut) (aligned : reader.Aligned content cut) :
    (∃ after, reader.askSize server = (.ok content.length, after) ∧ after.pos = reader.pos ∧
      after.maxReadSize = reader.maxReadSize ∧ after.Aligned content cut) ∨
    ∃ exception after, reader.askSize server = (.error (.refused exception), after) ∧
      after.pos = reader.pos ∧ after.maxReadSize = reader.maxReadSize ∧
        after.Aligned content cut ∧ server.Refuses reader.pos exception := by
  rw [Reader.askSize]
  cases known : reader.size with
  | some size =>
      have same := aligned.size size known
      exact .inl ⟨reader, by rw [same], rfl, rfl, aligned⟩
  | none =>
      dsimp only
      cases reply : server.head reader.requests with
      | error exception =>
          refine .inr ⟨exception, _, rfl, rfl, rfl, ⟨aligned.readable, aligned.chunk, ?_, ?_⟩,
            reader.requests, .inr reply⟩
          · intro left found
            cases found
          · intro size found
            cases found
      | ok length =>
          have same := has.long _ _ reply
          subst same
          refine .inl ⟨_, rfl, rfl, rfl, ⟨aligned.readable, aligned.chunk, ?_, ?_⟩⟩
          · intro left found
            cases found
          · intro size found
            cases found
            rfl

theorem seek_from_kept (server : Server) (offset : Int) (aligned : reader.Aligned content cut)
    {pos base : Nat} {whence : Int} (stays : reader.pos = pos) (based : Base content pos whence base) :
    Permits server content cut reader.maxReadSize pos (.seek offset whence)
      ((reader.seekFrom offset base).1.map .place) (reader.seekFrom offset base).2.pos ∧
    (reader.seekFrom offset base).2.maxReadSize = reader.maxReadSize ∧
    (reader.seekFrom offset base).2.Aligned content cut := by
  rw [Reader.seekFrom]
  by_cases negative : (base : Int) + offset < 0
  · rw [if_pos negative]
    exact ⟨⟨stays, negative, base, based, rfl⟩, rfl, aligned⟩
  · rw [if_neg negative]
    by_cases moves : (base : Int) + offset ≠ reader.pos
    · rw [if_pos moves]
      refine ⟨⟨rfl, base, based, Int.toNat_of_nonneg (by omega)⟩, rfl,
        ⟨aligned.readable, aligned.chunk, ?_, aligned.size⟩⟩
      intro left found
      cases found
    · rw [if_neg moves]
      exact ⟨⟨rfl, base, based, (not_not.mp moves).symm⟩, rfl, aligned⟩

theorem seek_kept (has : server.Has content cut) (aligned : reader.Aligned content cut)
    (offset whence : Int) : Kept server content cut reader (.seek offset whence)
      (reader.step server (.seek offset whence)) := by
  rw [Reader.step, Reader.seek, aligned.readable, if_neg (by decide)]
  by_cases set_ : whence = 0
  · rw [if_pos set_]
    exact seek_from_kept server offset aligned rfl (.inl ⟨set_, rfl⟩)
  rw [if_neg set_]
  by_cases current : whence = 1
  · rw [if_pos current]
    exact seek_from_kept server offset aligned rfl (.inr (.inl ⟨current, rfl⟩))
  rw [if_neg current]
  by_cases end_ : whence = 2
  · rw [if_pos end_]
    rcases size_kept has aligned with ⟨after, asked, same, limit, stood⟩ |
      ⟨exception, after, asked, same, limit, stood, refused⟩
    · rw [asked]
      have moved := seek_from_kept server offset stood same
        (.inr (.inr ⟨end_, rfl⟩))
      rw [limit] at moved
      exact moved
    · rw [asked]
      exact ⟨⟨same, refused⟩, limit, stood⟩
  · rw [if_neg end_]
    refine ⟨⟨rfl, rfl, ?_⟩, rfl, aligned⟩
    simp only [List.mem_cons, List.not_mem_nil, or_false, not_or]
    exact ⟨set_, current, end_⟩

theorem step_kept (has : server.Has content cut) (aligned : reader.Aligned content cut)
    (operation : Operation) :
    Kept server content cut reader operation (reader.step server operation) := by
  cases operation with
  | readinto count => exact readinto_kept has aligned count
  | readall => exact readall_kept has aligned
  | seek offset whence => exact seek_kept has aligned offset whence
  | tell => exact ⟨⟨rfl, rfl⟩, rfl, aligned⟩
  | size =>
      rw [Reader.step]
      rcases size_kept has aligned with ⟨after, asked, same, limit, stood⟩ |
        ⟨exception, after, asked, same, limit, stood, refused⟩
      · rw [asked]
        exact ⟨⟨rfl, same⟩, limit, stood⟩
      · rw [asked]
        exact ⟨⟨same, refused⟩, limit, stood⟩

theorem run_kept (has : server.Has content cut) (aligned : reader.Aligned content cut)
    (operations : List Operation) :
    Follows server content cut reader.maxReadSize reader.pos operations
      (reader.run server operations) := by
  induction operations generalizing reader with
  | nil => trivial
  | cons operation rest induction =>
      obtain ⟨permitted, limit, stood⟩ := step_kept has aligned operation
      have later := induction stood
      rw [limit] at later
      exact ⟨permitted, later⟩

end Runs

def tenBytes : Bytes := [0, 1, 2, 3, 4, 5, 6, 7, 8, 9]

/-- A server that answers every other range with the whole, and none from the end on. -/
def tenServer : Server where
  get number range := match range with
    | none => .ok ⟨200, tenBytes⟩
    | some start =>
        if 10 ≤ start then .error (.foreign (str "ServerError") (str "HTTP 416"))
        else if number % 2 = 0 then .ok ⟨206, tenBytes.drop start⟩
        else .ok ⟨200, tenBytes⟩
  head _ := .ok (some 10)
  draws number := number

theorem ten_server_has : tenServer.Has tenBytes false where
  plain := by
    intro number served answered
    cases answered
    exact ⟨rfl, List.prefix_rfl, fun _ => rfl⟩
  ranged := by
    intro number start served answered
    simp only [tenServer] at answered
    by_cases past : 10 ≤ start
    · rw [if_pos past] at answered
      cases answered
    · rw [if_neg past] at answered
      by_cases even : number % 2 = 0
      · rw [if_pos even] at answered
        cases answered
        exact .inl ⟨rfl, Nat.not_le.mp past, List.prefix_rfl, fun _ => rfl⟩
      · rw [if_neg even] at answered
        cases answered
        exact .inr ⟨rfl, List.prefix_rfl, fun _ => rfl⟩
  long := by
    intro number length answered
    cases answered
    rfl

end XRootDClient.Http.Download
