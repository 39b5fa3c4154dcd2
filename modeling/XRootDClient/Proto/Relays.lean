import XRootDClient.Proto.Answers

/-!
# What a turn relays of an answer

A turn reports one event at most. An event that names a stream is for the submission its id was
last issued to, and comes before that submission is told to wait or sent elsewhere. The data
and the status it carries were sent in answer to that submission.
-/

set_option autoImplicit false

namespace XRootDClient.Proto

open Lib Lib.BigEndian Lib.Stateful Lib.Run Auth

variable {Body : Type}

def Event.mark : Event → Standing
  | .waiting _ _ _ _ true => .waits
  | .redirected _ _ _ => .redirected
  | _ => .asked

namespace Machine

theorem on_status_data_statuses (sid : Nat) (data : Bytes) (machine : Machine Body)
    {other : Nat} {pending : Pending}
    (found : (onStatusData sid data machine).pending.get? other = some pending) :
    ∃ old, machine.pending.get? other = some old ∧ old.status = pending.status := by
  unfold onStatusData at found
  cases held : machine.pending.get? sid with
  | none =>
      rw [held] at found
      exact ⟨pending, found, rfl⟩
  | some old =>
      rw [held] at found
      dsimp only at found
      cases status : old.status with
      | none =>
          rw [status] at found
          exact ⟨pending, found, rfl⟩
      | some info =>
          rw [status] at found
          dsimp only at found
          split_ifs at found
          · change (release sid machine).pending.get? other = _ at found
            rw [release_pending, Dict.get_erase] at found
            split_ifs at found
            exact ⟨pending, found, rfl⟩
          · change (machine.pending.set sid _).get? other = _ at found
            by_cases same : other = sid
            · subst same
              rw [Dict.get_set_self] at found
              cases found
              exact ⟨old, held, status⟩
            · rw [Dict.get_set_other _ same] at found
              exact ⟨pending, found, rfl⟩

theorem emit_release_events (event : Event) (sid : Nat) (machine : Machine Body) :
    (emit event (release sid machine)).events = machine.events ++ [event] := by
  rw [release_frame]
  rfl

/-- A status on record was there before, or is the one a response has just brought. -/
theorem StreamMove.statuses {before after : Machine Body} {header : ResponseHeader} {body : Bytes}
    {pending : Pending} {framer left : Framer}
    (held : before.pending.get? header.streamid = some pending)
    (move : StreamMove before header body pending framer after left) {other : Nat}
    {record : Pending} {info : StatusInfo} (found : after.pending.get? other = some record)
    (status : record.status = some info) :
    (∃ old, before.pending.get? other = some old ∧ old.status = some info) ∨
      other = header.streamid ∧ header.status = kXR_status ∧ parseStatus body = .ok info := by
  have released : (release header.streamid before).pending.get? other = some record →
      before.pending.get? other = some record := by
    intro found
    rw [release_pending, Dict.get_erase] at found
    split_ifs at found
    exact found
  have updated : ∀ new record : Pending,
      (updatePending header.streamid new before).pending.get? other = some record →
      before.pending.get? other = some record ∨ other = header.streamid ∧ record = new := by
    intro new record found
    change (before.pending.set header.streamid new).get? other = _ at found
    by_cases same : other = header.streamid
    · subst same
      rw [Dict.get_set_self] at found
      cases found
      exact Or.inr ⟨rfl, rfl⟩
    · rw [Dict.get_set_other _ same] at found
      exact Or.inl found
  cases move with
  | raised | redirected | waiting => exact Or.inl ⟨record, found, status⟩
  | completed | failed | unexpected => exact Or.inl ⟨record, released found, status⟩
  | chunk =>
      rcases updated _ _ found with old | ⟨rfl, rfl⟩
      · exact Or.inl ⟨record, old, status⟩
      · exact Or.inl ⟨pending, held, status⟩
  | collecting known brought parsed =>
      rcases updated _ _ found with old | ⟨rfl, rfl⟩
      · exact Or.inl ⟨record, old, status⟩
      · cases status
        exact Or.inr ⟨rfl, brought, parsed⟩
  | settled known brought parsed =>
      obtain ⟨middle, between, same⟩ := on_status_data_statuses _ _ _ found
      rw [← same] at status
      rcases updated _ _ between with old | ⟨rfl, rfl⟩
      · exact Or.inl ⟨middle, old, status⟩
      · cases status
        exact Or.inr ⟨rfl, brought, parsed⟩

end Machine

namespace World

def Documents (world : World Body) (tag : Nat) (info : StatusInfo) : Prop :=
  ∃ frame ∈ world.answers tag, ∃ inner body,
    Machine.content frame.header frame.body = .ok (.response inner body) ∧
    inner.status = kXR_status ∧ parseStatus body = .ok info

/-- A status on record was sent in answer to the submission that holds the stream. -/
def Documented (world : World Body) : Prop :=
  ∀ sid pending info, world.machine.pending.get? sid = some pending →
    pending.status = some info → ∃ tag, world.live sid = some tag ∧ Documents world tag info

/-- What an event carries was sent in answer to a submission. -/
def Relays (world : World Body) (tag : Nat) : Event → Prop
  | .completed _ _ data status => data = (world.answers tag).flatMap ServerFrame.payload ∧
      (∃ frame ∈ world.answers tag, frame.closes = true) ∧
      ∀ info, status = some info → Documents world tag info
  | .chunk _ _ data => ∃ frame ∈ world.answers tag, data = frame.payload
  | _ => True

/-- What a turn reports: one event at most, for the submission that holds its stream. -/
def Conveys (world : World Body) (noted : List Event) : Prop :=
  noted = [] ∨ ∃ event, noted = [event] ∧ ∀ sid, event.stream = some sid →
    ∃ tag submission, world.live sid = some tag ∧ world.asked[tag]? = some submission ∧
      submission.sid = sid ∧ world.standing tag = .asked ∧ Relays world tag event

section Turn

variable {world : World Body} {rests : Nat → List Sent} {link tag : Nat} {sent : Sent}
  {later : List Sent} {submission : Submission} {inner : ResponseHeader} {body : Bytes}
  {pending : Pending} {left : Framer}

namespace Taking

theorem asking (taking : Taking world rests link sent later tag submission inner body pending) :
    world.standing tag = .asked := by
  obtain ⟨-, present, due⟩ := taking.sound.front taking.head taking.tagged taking.asked
  by_contra told
  exact (taking.sound.accounts tag submission taking.asked present).settled told due

theorem conveys (taking : Taking world rests link sent later tag submission inner body pending)
    {event : Event} (named : event.stream = some submission.sid)
    (relays : Relays world tag event) : Conveys world [event] := by
  refine Or.inr ⟨event, rfl, fun sid same => ?_⟩
  rw [named, Option.some.injEq] at same
  subst same
  exact ⟨tag, submission, taking.tenant.live, taking.asked, rfl, taking.asking, relays⟩

theorem documents (taking : Taking world rests link sent later tag submission inner body pending)
    (status : inner.status = kXR_status) {info : StatusInfo}
    (parsed : parseStatus body = .ok info) : Documents world tag info :=
  ⟨sent.frame, taking.logged, inner, body, taking.opened, status, parsed⟩

theorem status_conveys
    (taking : Taking world rests link sent later tag submission inner body pending)
    (status : inner.status = kXR_status) {info : StatusInfo}
    (parsed : parseStatus body = .ok info) {machine : Machine Body}
    (held : machine.pending.get? submission.sid = some { pending with status := some info }) :
    ∃ noted, (Machine.onStatusData submission.sid sent.frame.data machine).events =
      machine.events ++ noted ∧ Conveys world noted := by
  have payload : sent.frame.payload = sent.frame.data := by
    rw [ServerFrame.payload_response taking.opened, status]
    rfl
  have closes : sent.frame.closes = info.isFinal := by
    rw [ServerFrame.closes_response taking.opened, lastPiece, status, parsed]
    rfl
  rw [Machine.onStatusData, held]
  dsimp only
  cases final : info.isFinal with
  | true =>
      rw [if_pos rfl]
      refine ⟨_, Machine.emit_release_events _ _ _, taking.conveys rfl ?_⟩
      refine ⟨?_, ⟨sent.frame, taking.logged, closes.trans final⟩, fun other same => ?_⟩
      · rw [taking.whole (closes.trans final), payload]
      · cases same
        exact taking.documents status parsed
  | false =>
      rw [if_neg (by simp)]
      refine ⟨[_], rfl, taking.conveys rfl ?_⟩
      exact ⟨sent.frame, taking.logged, payload.symm⟩

theorem stream_conveys
    (taking : Taking world rests link sent later tag submission inner body pending)
    (documented : Documented world) {after : Machine Body} {answered : Framer}
    (move : Machine.StreamMove (Machine.storeFramer link left world.machine) inner body pending left
      after answered) :
    ∃ noted, after.events = world.machine.events ++ noted ∧ Conveys world noted := by
  have piece := ServerFrame.payload_response taking.opened
  have last := ServerFrame.closes_response taking.opened
  have named := taking.named
  have plain : inner.status ≠ kXR_status → sent.frame.data = [] := fun other =>
    ServerFrame.data_none taking.opened fun status => absurd status other
  cases move with
  | raised => exact ⟨[], (List.append_nil _).symm, Or.inl rfl⟩
  | completed status =>
      have none := plain (by rw [status]; decide)
      rw [if_pos (.inl status), none, List.append_nil] at piece
      have closes : sent.frame.closes = true := by
        rw [last, lastPiece, status]
        rfl
      refine ⟨_, Machine.emit_release_events _ _ _, taking.conveys (congrArg some named) ?_⟩
      refine ⟨by rw [taking.whole closes, piece], ⟨sent.frame, taking.logged, closes⟩, ?_⟩
      intro info recorded
      obtain ⟨owner, live, sent⟩ := documented submission.sid pending info taking.held recorded
      rw [taking.tenant.live, Option.some.injEq] at live
      rw [live]
      exact sent
  | chunk status =>
      have none := plain (by rw [status]; decide)
      rw [if_pos (.inr status), none, List.append_nil] at piece
      exact ⟨[_], rfl, taking.conveys (congrArg some named) ⟨sent.frame, taking.logged, piece.symm⟩⟩
  | failed | unexpected =>
      exact ⟨_, Machine.emit_release_events _ _ _, taking.conveys (congrArg some named) trivial⟩
  | redirected | waiting => exact ⟨[_], rfl, taking.conveys (congrArg some named) trivial⟩
  | collecting => exact ⟨[], (List.append_nil _).symm, Or.inl rfl⟩
  | settled info status parsed short =>
      have none : sent.frame.data = [] := by
        have length := ServerFrame.data_length taking.opened status parsed
        rw [short] at length
        exact List.length_eq_zero_iff.mp (by omega)
      have held : (Machine.updatePending submission.sid { pending with status := some info }
          (Machine.storeFramer link left world.machine)).pending.get? submission.sid =
            some { pending with status := some info } := Dict.get_set_self _ _ _
      have conveys := taking.status_conveys status parsed held
      rw [none] at conveys
      rw [named]
      exact conveys

end Taking

variable [Exchange Body] (installation : Installation Body)

theorem Sound.turn_conveys (sound : Sound world rests) (documented : Documented world) (link : Nat) :
    ∃ noted, (Machine.step installation (.turn link) world.machine).events =
      world.machine.events ++ noted ∧ Conveys world noted := by
  have running : world.machine.state.bringingUp = false := by
    rw [sound.ready]
    rfl
  have takes := (sound.links link).reads.next
  have moved := Machine.turn_move installation link world.machine
  change ∃ noted, (final (Machine.turn installation link world.machine)).events = _ ∧ _
  generalize final (Machine.turn installation link world.machine) = after at moved
  generalize rest : rests link = remaining at takes
  have silent : ∃ noted, world.machine.events = world.machine.events ++ noted ∧
      Conveys world noted := ⟨[], (List.append_nil _).symm, Or.inl rfl⟩
  cases moved with
  | refused | waited | orphan | garbled | unknown => exact silent
  | trailer sid data left cut =>
      rw [cut] at takes
      cases takes with
      | trailer due owner =>
          obtain ⟨first, others, tag, inner, body, info, pending, shape, tagged, opened, status,
            parsed, same, flying, recorded⟩ := (sound.links link).collects due
          rw [owner, Option.some.injEq] at same
          rw [rest, List.cons.injEq] at shape
          obtain ⟨rfl, rfl⟩ := shape
          obtain ⟨_, submission, held, taking⟩ := sound.taking rest opened
          rw [taking.named, taking.held, Option.some.injEq] at flying
          subst flying
          rw [same, taking.named]
          apply taking.status_conveys status parsed
          rw [← recorded]
          exact taking.held
  | notice header body left info cut opened =>
      exact ⟨[_], rfl, Or.inr ⟨_, rfl, fun sid named => by cases named⟩⟩
  | bringup outer inner whole body left cut opened waiting =>
      rw [running] at waiting
      cases waiting
  | stream outer inner whole body left answered pending cut opened idle found move =>
      rw [cut] at takes
      cases takes with
      | frame =>
          obtain ⟨tag, submission, held, taking⟩ := sound.taking rest opened
          rw [taking.named, taking.held, Option.some.injEq] at found
          subst found
          have conveys := taking.stream_conveys documented move
          exact conveys

theorem Sound.turn_documented (sound : Sound world rests) (documented : Documented world)
    (link : Nat) : Documented (step installation (.client (.turn link)) world) := by
  intro sid record info found status
  change (final (Machine.turn installation link world.machine)).pending.get? sid = _ at found
  change ∃ tag, world.live sid = some tag ∧ Documents world tag info
  have running : world.machine.state.bringingUp = false := by
    rw [sound.ready]
    rfl
  have takes := (sound.links link).reads.next
  have moved := Machine.turn_move installation link world.machine
  generalize final (Machine.turn installation link world.machine) = after at moved found
  generalize rest : rests link = remaining at takes
  cases moved with
  | refused | waited | orphan | garbled | notice | unknown =>
      exact documented sid record info found status
  | trailer other data left cut =>
      obtain ⟨old, before, same⟩ := Machine.on_status_data_statuses other data _ found
      exact documented sid old info before (same.trans status)
  | bringup outer inner whole body left cut opened waiting =>
      rw [running] at waiting
      cases waiting
  | stream outer inner whole body left answered pending cut opened idle held move =>
      have kept : (Machine.storeFramer link left world.machine).pending.get? inner.streamid =
          some pending := held
      rcases move.statuses kept found status with ⟨old, before, same⟩ | ⟨rfl, brought, parsed⟩
      · exact documented sid old info before same
      · rw [cut] at takes
        cases takes with
        | frame =>
            obtain ⟨tag, submission, _, taking⟩ := sound.taking rest opened
            refine ⟨tag, ?_, taking.documents brought parsed⟩
            rw [taking.named]
            exact taking.tenant.live

end Turn

/-- What a submission is told, in order: nothing more once it has to wait or go elsewhere. -/
inductive Ordered (Holds : Event → Prop) : Standing → List Event → Standing → Prop
  | nil (standing : Standing) : Ordered Holds standing [] standing
  | cons {event : Event} {rest : List Event} {last : Standing} (holds : Holds event)
      (later : Ordered Holds event.mark rest last) : Ordered Holds .asked (event :: rest) last

theorem Ordered.append {Holds : Event → Prop} {first middle last : Standing}
    {early late : List Event} (one : Ordered Holds first early middle)
    (two : Ordered Holds middle late last) : Ordered Holds first (early ++ late) last := by
  induction one with
  | nil => exact two
  | cons holds later induction => exact .cons holds (induction two)

/-- The same submissions, and the same frames sent. -/
structure Alike (before after : World Body) : Prop where
  asked : after.asked = before.asked
  live : after.live = before.live
  sent : after.sent = before.sent

theorem Alike.trans {first second third : World Body} (one : Alike first second)
    (two : Alike second third) : Alike first third :=
  ⟨two.asked.trans one.asked, two.live.trans one.live, two.sent.trans one.sent⟩

theorem Alike.answers {before after : World Body} (alike : Alike before after) (tag : Nat) :
    after.answers tag = before.answers tag := by
  rw [World.answers, World.answers, alike.sent]

theorem Alike.relays {before after : World Body} (alike : Alike before after) (tag : Nat) :
    Relays after tag = Relays before tag := by
  funext event
  cases event <;> simp only [Relays, Documents, alike.answers]

section Turns

variable {world : World Body} {sid tag : Nat} {submission : Submission}

theorem told_mark (live : world.live sid = some tag) {event : Event}
    (named : event.stream = some sid) (asking : world.standing tag = .asked) :
    told world.live world.standing event tag = event.mark := by
  cases event with
  | waiting other request seconds message resend =>
      cases named
      cases resend with
      | false => exact asking
      | true =>
          rw [told, live]
          exact Function.update_self _ _ _
  | redirected other request target =>
      cases named
      rw [told, live]
      exact Function.update_self _ _ _
  | completed | chunk | failed | negotiated | needTls | ready | attention | disconnected
    | pathLost => exact asking

theorem told_other {event : Event} (others : ∀ other owner, event.stream = some other →
      world.live other = some owner → owner ≠ tag) :
    told world.live world.standing event tag = world.standing tag := by
  unfold told
  split
  · next other _ _ _ =>
      cases live : world.live other with
      | none => rfl
      | some owner => exact Function.update_of_ne (others other owner rfl live).symm _ _
  · next other _ _ =>
      cases live : world.live other with
      | none => rfl
      | some owner => exact Function.update_of_ne (others other owner rfl live).symm _ _
  · rfl

variable [Exchange Body] (installation : Installation Body)

theorem turn_heard (kept : Kept world) (documented : Documented world) (link : Nat)
    (live : world.live sid = some tag) (asked : world.asked[tag]? = some submission)
    (named : submission.sid = sid) :
    let after := step installation (.client (.turn link)) world
    Kept after ∧ Documented after ∧ Alike world after ∧
      ∃ noted, after.machine.events = world.machine.events ++ noted ∧
        Ordered (Relays world tag) (world.standing tag)
          (noted.filter fun event => event.stream = some sid) (after.standing tag) := by
  intro after
  obtain ⟨rests, sound⟩ := kept.1
  obtain ⟨noted, queued, conveys⟩ := sound.turn_conveys installation documented link
  refine ⟨(kept.step installation (.client (.turn link)) rfl rfl).1,
    sound.turn_documented installation documented link, ⟨rfl, rfl, rfl⟩, noted, queued, ?_⟩
  have stands : after.standing = noted.foldl (told world.live) world.standing := by
    change (Machine.reported ⟨world.machine, .turn link,
      Machine.step installation (.turn link) world.machine⟩).foldl _ _ = _
    rw [Machine.reported_append queued]
  rw [stands]
  rcases conveys with rfl | ⟨event, rfl, held⟩
  · exact .nil _
  rw [List.foldl_cons, List.foldl_nil]
  by_cases mine : event.stream = some sid
  · obtain ⟨owner, holder, issued, -, -, asking, relays⟩ := held sid mine
    rw [live, Option.some.injEq] at issued
    subst issued
    rw [List.filter_cons_of_pos (by simpa using mine), told_mark live mine asking, asking]
    exact .cons relays (.nil _)
  · rw [List.filter_cons_of_neg (by simpa using mine), told_other]
    · exact .nil _
    · rintro other owner streams issued rfl
      obtain ⟨found, holder, same, known, here, -⟩ := held other streams
      rw [issued, Option.some.injEq] at same
      subst same
      rw [asked, Option.some.injEq] at known
      subst known
      rw [streams, ← here, named] at mine
      exact mine rfl

theorem turns_heard (count link : Nat) (kept : Kept world) (documented : Documented world)
    (live : world.live sid = some tag) (asked : world.asked[tag]? = some submission)
    (named : submission.sid = sid) :
    let after := run (step installation) (List.replicate count (.client (.turn link))) world
    Kept after ∧ Documented after ∧ Alike world after ∧
      ∃ noted, after.machine.events = world.machine.events ++ noted ∧
        Ordered (Relays world tag) (world.standing tag)
          (noted.filter fun event => event.stream = some sid) (after.standing tag) := by
  induction count generalizing world with
  | zero =>
      exact ⟨kept, documented, ⟨rfl, rfl, rfl⟩, [], (List.append_nil _).symm, .nil _⟩
  | succ count induction =>
      obtain ⟨keeps, documents, alike, early, queued, first⟩ :=
        turn_heard installation kept documented link live asked named
      obtain ⟨still, recorded, same, late, behind, second⟩ := induction keeps documents
        (by rw [alike.live]; exact live) (by rw [alike.asked]; exact asked)
      rw [alike.relays] at second
      refine ⟨still, recorded, alike.trans same, early ++ late, ?_, ?_⟩
      · rw [← List.append_assoc, ← queued]
        exact behind
      · rw [List.filter_append]
        exact first.append second

theorem receive_heard {data : Bytes} {link : Nat} (some : data ≠ [])
    (next : data.isPrefixOf (world.wire link) = true) (kept : Kept world)
    (documented : Documented world) (live : world.live sid = Option.some tag)
    (asked : world.asked[tag]? = Option.some submission) (named : submission.sid = sid) :
    let after := run (step installation)
      (moves installation (.call (.receiveData data link)) world) world
    Kept after ∧ Documented after ∧ Alike world after ∧
      ∃ noted, after.machine.events = world.machine.events ++ noted ∧
        Ordered (Relays world tag) (world.standing tag)
          (noted.filter fun event => event.stream = Option.some sid) (after.standing tag) := by
  rw [moves, Machine.moves, if_neg some, List.map_cons, List.map_replicate]
  have fed := (kept.step installation (.client (.feed data link)) next rfl).1
  obtain ⟨keeps, documents, alike, noted, queued, ordered⟩ :=
    turns_heard installation _ link fed documented live asked named
  exact ⟨keeps, documents, ⟨alike.asked, alike.live, alike.sent⟩, noted, queued, ordered⟩

end Turns

end World

end XRootDClient.Proto
