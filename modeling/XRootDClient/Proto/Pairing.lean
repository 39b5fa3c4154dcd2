import XRootDClient.Proto.Sound

/-!
# A turn and the answer it takes

The first frame of a link is for the submission that holds its stream. Each kind
of response either ends the stream with the last piece of its answer, or adds a
piece, or only tells something of it; the events it reports carry the
submission's request and what was sent in answer to it.
-/

set_option autoImplicit false

namespace XRootDClient.Proto.World

open Lib Lib.BigEndian Lib.Stateful Lib.Run Auth

variable {Body : Type}

section Turn

variable {world : World Body} {rests : Nat → List Sent} {link tag : Nat} {sent : Sent}
  {later : List Sent} {submission : Submission}

/-- The world once a turn on a link has left the machine like this. -/
def turned (link : Nat) (world : World Body) (machine : Machine Body) : World Body :=
  { world with
    machine := machine
    standing := (Machine.reported ⟨world.machine, .turn link, machine⟩).foldl (told world.live)
      world.standing }

/-- The turn keeps the invariant, and every event it reports is paired. -/
def Carries (link : Nat) (world : World Body) (machine : Machine Body) : Prop :=
  (∃ left, Sound (turned link world machine) left) ∧
    ∀ event ∈ Machine.reported ⟨world.machine, .turn link, machine⟩, Paired world event

theorem Spare.store {machine : Machine Body} (spare : Spare machine) (link : Nat)
    (left : Framer) : Spare (Machine.storeFramer link left machine) :=
  ⟨spare.distinct, spare.absent⟩

theorem Spare.release {machine : Machine Body} (spare : Spare machine) (sid : Nat) :
    Spare (Machine.release sid machine) := by
  unfold Machine.release
  cases found : machine.pending.get? sid with
  | none => exact spare
  | some pending =>
      have absent : ∀ other ∈ machine.free, (machine.pending.erase sid).get? other = none := by
        intro other member
        rw [Dict.get_erase, spare.absent other member, ite_self]
      dsimp only
      split_ifs
      · refine ⟨List.nodup_cons.mpr ⟨fun member => ?_, spare.distinct⟩, fun other member => ?_⟩
        · rw [spare.absent sid member] at found
          cases found
        · rcases List.mem_cons.mp member with rfl | known
          · exact Dict.get_erase_self _ _
          · exact absent other known
      · exact ⟨spare.distinct, absent⟩

theorem Spare.update {machine : Machine Body} (spare : Spare machine) {sid : Nat}
    {before : Pending} (held : machine.pending.get? sid = some before) (after : Pending) :
    Spare (Machine.updatePending sid after machine) := by
  refine ⟨spare.distinct, fun other member => ?_⟩
  have absent := spare.absent other member
  have different : other ≠ sid := by
    intro same
    rw [same, held] at absent
    cases absent
  exact (Dict.get_set_other _ different _).trans absent

theorem Sound.answered (sound : Sound world rests) (head : rests link = sent :: later)
    (tagged : sent.tag = some tag) (asked : world.asked[tag]? = some submission)
    {machine : Machine Body} (ready : machine.state = .READY) (spare : Spare machine)
    (others : ∀ sid, sid ≠ submission.sid →
      machine.pending.get? sid = world.machine.pending.get? sid)
    (own : Settled world machine submission.sid sent.frame)
    (cursors : ∀ place, place ≠ link → machine.framer place = world.machine.framer place)
    (reads : Reads (world.wire link) later (machine.framer link))
    (idle : (machine.framer link).needTrailer = 0) {noted : List Event}
    (events : machine.events = world.machine.events ++ noted)
    (stands : noted.foldl (told world.live) world.standing = world.standing ∨
      (sent.frame.closes = true ∧ ∃ mark, noted.foldl (told world.live) world.standing =
        Function.update world.standing tag mark))
    (paired : ∀ event ∈ noted, Paired world event) : Carries link world machine := by
  rw [Carries, turned, Machine.reported_append events]
  exact ⟨⟨_, sound.consume head tagged asked ready spare others own cursors reads idle stands⟩,
    paired⟩

/-- A turn has come to a piece of an answer: the first frame of a link, for the
submission that holds its stream. -/
structure Taking (world : World Body) (rests : Nat → List Sent) (link : Nat) (sent : Sent)
    (later : List Sent) (tag : Nat) (submission : Submission) (inner : ResponseHeader)
    (body : Bytes) (pending : Pending) : Prop where
  sound : Sound world rests
  head : rests link = sent :: later
  tagged : sent.tag = some tag
  asked : world.asked[tag]? = some submission
  opened : Machine.content sent.frame.header sent.frame.body = .ok (.response inner body)
  named : inner.streamid = submission.sid
  held : world.machine.pending.get? submission.sid = some pending

namespace Taking

variable {inner : ResponseHeader} {body : Bytes} {pending : Pending} {left : Framer}

theorem logged (taking : Taking world rests link sent later tag submission inner body pending) :
    sent.frame ∈ world.answers tag := by
  refine List.mem_map_of_mem (List.mem_filter.mpr ⟨?_, by simpa using taking.tagged⟩)
  exact (taking.sound.links link).logged sent (by simp [taking.head])

theorem tenant (taking : Taking world rests link sent later tag submission inner body pending) :
    Tenant world rests submission.sid pending tag submission :=
  taking.sound.tenant taking.head taking.tagged taking.asked taking.held

theorem whole (taking : Taking world rests link sent later tag submission inner body pending)
    (closes : sent.frame.closes = true) :
    (world.answers tag).flatMap ServerFrame.payload = pending.buffer ++ sent.frame.payload := by
  obtain ⟨placed, present, -⟩ := taking.sound.front taking.head taking.tagged taking.asked
  obtain ⟨-, none⟩ := (taking.sound.accounts tag submission taking.asked present).last [] sent
    later (by rw [placed, taking.head]; rfl) taking.tagged closes
  have nothing : remains later tag = [] := by
    rw [remains, List.filter_eq_nil_iff.mpr, List.flatMap_nil]
    intro other member
    simpa using none other member
  rw [taking.tenant.bytes, placed, taking.head, remains_cons, if_pos taking.tagged, nothing,
    List.append_nil]

theorem cursors (link : Nat) (left : Framer) (machine : Machine Body) {place : Nat}
    (there : place ≠ link) :
    (Machine.storeFramer link left machine).framer place = machine.framer place :=
  Machine.framer_store_other there left machine

theorem ends (taking : Taking world rests link sent later tag submission inner body pending)
    (reads : Reads (world.wire link) later left) (idle : left.needTrailer = 0)
    (closes : sent.frame.closes = true) {event : Event}
    (quiet : told world.live world.standing event = world.standing) (paired : Paired world event) :
    Carries link world (Machine.emit event
      (Machine.release submission.sid (Machine.storeFramer link left world.machine))) := by
  have frame := Machine.release_frame submission.sid (Machine.storeFramer link left world.machine)
  have pendings := Machine.release_pending submission.sid
    (Machine.storeFramer link left world.machine)
  have spare : Spare (Machine.release submission.sid
      (Machine.storeFramer link left world.machine)) :=
    (taking.sound.spare.store link left).release _
  have framers : ∀ place, (Machine.emit event (Machine.release submission.sid
      (Machine.storeFramer link left world.machine))).framer place =
        (Machine.storeFramer link left world.machine).framer place := by
    intro place
    rw [frame]
    rfl
  refine taking.sound.answered taking.head taking.tagged taking.asked ?_
    ⟨spare.distinct, spare.absent⟩ (fun sid different => ?_) (.inl ⟨?_, closes⟩)
    (fun place there => ?_) ?_ ?_ (show _ = world.machine.events ++ [event] by rw [frame]; rfl)
    (.inl quiet) (fun other member => by rw [List.mem_singleton.mp member]; exact paired)
  · rw [frame]
    exact taking.sound.ready
  · change (Machine.release _ _).pending.get? sid = _
    rw [pendings]
    exact Dict.get_erase_other _ different
  · change (Machine.release _ _).pending.get? _ = _
    rw [pendings]
    exact Dict.get_erase_self _ _
  · rw [framers]
    exact cursors link left world.machine there
  · rw [framers, Machine.framer_store_self]
    exact reads
  · rw [framers, Machine.framer_store_self]
    exact idle

theorem goes (taking : Taking world rests link sent later tag submission inner body pending)
    (reads : Reads (world.wire link) later left) (idle : left.needTrailer = 0) (after : Pending)
    (request : after.request = pending.request) (routed : after.pathid = pending.pathid)
    (buffer : after.buffer = pending.buffer ++ sent.frame.payload) {event : Event}
    (quiet : told world.live world.standing event = world.standing) (paired : Paired world event) :
    Carries link world (Machine.emit event (Machine.updatePending submission.sid after
      (Machine.storeFramer link left world.machine))) := by
  have spare : Spare (Machine.updatePending submission.sid after
      (Machine.storeFramer link left world.machine)) :=
    (taking.sound.spare.store link left).update taking.held after
  refine taking.sound.answered taking.head taking.tagged taking.asked taking.sound.ready
    ⟨spare.distinct, spare.absent⟩ (fun sid different => ?_)
    (.inr ⟨pending, after, taking.held, Dict.get_set_self _ _ _, request, routed, buffer⟩)
    (fun place there => cursors link left world.machine there) ?_ ?_ rfl (.inl quiet)
    (fun other member => by rw [List.mem_singleton.mp member]; exact paired)
  · exact Dict.get_set_other _ different _
  · rw [show (Machine.emit event (Machine.updatePending submission.sid after
      (Machine.storeFramer link left world.machine))).framer link = left from
      Machine.framer_store_self link left world.machine]
    exact reads
  · rw [show (Machine.emit event (Machine.updatePending submission.sid after
      (Machine.storeFramer link left world.machine))).framer link = left from
      Machine.framer_store_self link left world.machine]
    exact idle

theorem stays (taking : Taking world rests link sent later tag submission inner body pending)
    (reads : Reads (world.wire link) later left) (idle : left.needTrailer = 0)
    (empty : sent.frame.payload = []) (noted : List Event)
    (stands : noted.foldl (told world.live) world.standing = world.standing ∨
      (sent.frame.closes = true ∧ ∃ mark, noted.foldl (told world.live) world.standing =
        Function.update world.standing tag mark))
    (paired : ∀ event ∈ noted, Paired world event) :
    Carries link world { Machine.storeFramer link left world.machine with
      events := world.machine.events ++ noted } := by
  refine taking.sound.answered taking.head taking.tagged taking.asked taking.sound.ready
    ⟨taking.sound.spare.distinct, taking.sound.spare.absent⟩ (fun sid _ => rfl)
    (.inr ⟨pending, pending, taking.held, taking.held, rfl, rfl, by rw [empty, List.append_nil]⟩)
    (fun place there => cursors link left world.machine there) ?_ ?_ rfl stands paired
  · rw [show Machine.framer { Machine.storeFramer link left world.machine with
      events := world.machine.events ++ noted } link = left from
      Machine.framer_store_self link left world.machine]
    exact reads
  · rw [show Machine.framer { Machine.storeFramer link left world.machine with
      events := world.machine.events ++ noted } link = left from
      Machine.framer_store_self link left world.machine]
    exact idle

theorem update_same (machine : Machine Body) {sid : Nat} {pending : Pending}
    (held : machine.pending.get? sid = some pending) :
    Machine.updatePending sid pending machine = machine := by
  simp only [Machine.updatePending, Dict.set_same machine.pending held]

theorem release_updated (machine : Machine Body) {sid : Nat} {before : Pending}
    (held : machine.pending.get? sid = some before) (after : Pending) :
    Machine.release sid (Machine.updatePending sid after machine) = Machine.release sid machine := by
  simp only [Machine.release, Machine.updatePending, Dict.get_set_self, held, Dict.erase_set]

theorem status_data (taking : Taking world rests link sent later tag submission inner body pending)
    (reads : Reads (world.wire link) later left) (idle : left.needTrailer = 0)
    (status : inner.status = kXR_status) {info : StatusInfo} (parsed : parseStatus body = .ok info) :
    Carries link world (Machine.onStatusData submission.sid sent.frame.data
      (Machine.updatePending submission.sid { pending with status := some info }
        (Machine.storeFramer link left world.machine))) := by
  have payload : sent.frame.payload = sent.frame.data := by
    rw [ServerFrame.payload_response taking.opened, status]
    rfl
  have closes : sent.frame.closes = info.isFinal := by
    rw [ServerFrame.closes_response taking.opened, lastPiece, status, parsed]
    rfl
  have found : (Machine.updatePending submission.sid { pending with status := some info }
      (Machine.storeFramer link left world.machine)).pending.get? submission.sid =
        some { pending with status := some info } := Dict.get_set_self _ _ _
  rw [Machine.onStatusData, found]
  dsimp only
  cases final : info.isFinal with
  | true =>
      rw [if_pos rfl,
        release_updated (Machine.storeFramer link left world.machine) taking.held]
      refine taking.ends reads idle (closes.trans final) rfl ?_
      refine ⟨tag, submission, taking.tenant.live, taking.asked, rfl, taking.tenant.request, ?_,
        sent.frame, taking.logged, closes.trans final⟩
      rw [taking.whole (closes.trans final), payload]
  | false =>
      rw [if_neg (by simp)]
      simp only [Machine.updatePending, Dict.set_set]
      refine taking.goes reads idle { pending with
        status := some info, buffer := pending.buffer ++ sent.frame.data } rfl rfl
        (by rw [payload]) rfl ?_
      exact ⟨tag, submission, taking.tenant.live, taking.asked, rfl, taking.tenant.request,
        sent.frame, taking.logged, payload.symm⟩

theorem silent {machine : Machine Body} (events : machine.events = world.machine.events)
    {rest : Nat → List Sent} (sound : Sound { world with machine := machine } rest) :
    Carries link world machine := by
  rw [Carries, turned, Machine.reported_append (by rw [events, List.append_nil])]
  exact ⟨⟨rest, sound⟩, by simp⟩

theorem collects (taking : Taking world rests link sent later tag submission inner body pending)
    (fresh : left.header = none)
    (bytes : left.buffer ++ world.wire link = sent.frame.data ++ later.flatMap Sent.bytes)
    (status : inner.status = kXR_status) {info : StatusInfo} (parsed : parseStatus body = .ok info)
    (long : info.dlen ≠ 0) :
    Carries link world (Machine.storeFramer link
      { left with needTrailer := info.dlen, trailerFor := some submission.sid }
      (Machine.updatePending submission.sid { pending with status := some info }
        (Machine.storeFramer link left world.machine))) := by
  have length := ServerFrame.data_length taking.opened status parsed
  have some : sent.frame.data ≠ [] := by
    intro none
    rw [none] at length
    exact long length.symm
  obtain ⟨placed, present, due⟩ := taking.sound.front taking.head taking.tagged taking.asked
  have others : ∀ sid, sid ≠ submission.sid →
      (world.machine.pending.set submission.sid { pending with status := Option.some info }).get?
        sid = world.machine.pending.get? sid := fun sid different => Dict.get_set_other _ different _
  refine silent rfl (taking.sound.keep taking.sound.ready
    ⟨taking.sound.spare.distinct, ((taking.sound.spare.store link left).update taking.held _).absent⟩
    (fun sid => ?_) (fun place => ?_) (fun place => List.suffix_refl _) (fun _ _ => rfl))
  · by_cases same : sid = submission.sid
    · subst same
      change Option.map essence ((world.machine.pending.set _ _).get? _) = _
      rw [Dict.get_set_self, taking.held]
      rfl
    · exact congrArg (Option.map essence) (others sid same)
  · by_cases here : place = link
    · subst here
      refine ⟨?_, (taking.sound.links place).logged, (taking.sound.links place).tagged, fun _ => ?_⟩
      · rw [taking.head]
        change Reads _ _ (Machine.framer (Machine.storeFramer place _ _) place)
        rw [Machine.framer_store_self]
        exact .behind _ fresh length.symm some bytes
      · refine ⟨sent, later, tag, inner, body, info, { pending with status := Option.some info },
          taking.head, taking.tagged, taking.opened, status, parsed, ?_, ?_, rfl⟩
        · change (Machine.framer (Machine.storeFramer place _ _) place).trailerFor = _
          rw [Machine.framer_store_self, taking.named]
        · rw [taking.named]
          exact Dict.get_set_self _ _ _
    · refine taking.sound.elsewhere taking.asked present due (by rw [placed]; exact Ne.symm here)
        others ?_
      rw [Machine.framer_store_other here]
      exact cursors link left world.machine here

theorem stream (taking : Taking world rests link sent later tag submission inner body pending)
    (fresh : left.header = none) (idle : left.needTrailer = 0)
    (bytes : left.buffer ++ world.wire link = sent.frame.data ++ later.flatMap Sent.bytes)
    {after : Machine Body} {answered : Framer}
    (move : Machine.StreamMove (Machine.storeFramer link left world.machine) inner body pending left
      after answered) : Carries link world (Machine.storeFramer link answered after) := by
  have reads : sent.frame.data = [] → Reads (world.wire link) later left := fun none =>
    .between left fresh idle (by rw [bytes, none, List.nil_append])
  have stored : ∀ machine : Machine Body,
      machine.framers = (Machine.storeFramer link left world.machine).framers →
      Machine.storeFramer link left machine = machine := by
    intro machine same
    refine Machine.store_framer_same link left machine ?_
    rw [same]
    exact Dict.get_set_self _ _ _
  have frame := move.frame
  have piece := ServerFrame.payload_response taking.opened
  have last := ServerFrame.closes_response taking.opened
  have named := taking.named
  have plain : inner.status ≠ kXR_status → sent.frame.data = [] := fun other =>
    ServerFrame.data_none taking.opened fun status => absurd status other
  cases move with
  | raised complete partly garbled =>
      have none := ServerFrame.data_none taking.opened garbled
      rw [if_neg (by simp [complete, partly]), none] at piece
      rw [stored _ rfl]
      have stays := taking.stays (reads none) idle piece [] (.inl rfl) (by simp)
      rw [List.append_nil] at stays
      exact stays
  | completed status =>
      have none := plain (by rw [status]; decide)
      rw [if_pos (.inl status), none, List.append_nil] at piece
      rw [named, stored _ (by rw [Machine.release_frame]; rfl)]
      have closes : sent.frame.closes = true := by
        rw [last, lastPiece, status]
        rfl
      refine taking.ends (reads none) idle closes rfl ⟨tag, submission, taking.tenant.live,
        taking.asked, rfl, taking.tenant.request, ?_, sent.frame, taking.logged, closes⟩
      rw [taking.whole closes, piece]
  | chunk status =>
      have none := plain (by rw [status]; decide)
      rw [if_pos (.inr status), none, List.append_nil] at piece
      rw [named, stored (Machine.emit _ _) rfl]
      refine taking.goes (reads none) idle { pending with buffer := pending.buffer ++ body } rfl rfl
        (by rw [piece]) rfl ?_
      exact ⟨tag, submission, taking.tenant.live, taking.asked, rfl, taking.tenant.request,
        sent.frame, taking.logged, piece.symm⟩
  | failed info status parsed =>
      have none := plain (by rw [status]; decide)
      rw [named, stored _ (by rw [Machine.release_frame]; rfl)]
      have closes : sent.frame.closes = true := by
        rw [last, lastPiece, status]
        rfl
      exact taking.ends (reads none) idle closes rfl (.inr ⟨tag, submission, taking.tenant.live,
        taking.asked, rfl, taking.tenant.request, sent.frame, taking.logged, inner, body, info, _,
        taking.opened, status, parsed, rfl⟩)
  | unexpected message unknown =>
      simp only [List.mem_cons, List.not_mem_nil, or_false, not_or] at unknown
      obtain ⟨-, sofar, -, -, -, later, other⟩ := unknown
      have none := plain other
      rw [named, stored _ (by rw [Machine.release_frame]; rfl)]
      have closes : sent.frame.closes = true := by
        rw [last, lastPiece, if_neg (by simp [sofar, later]), if_neg other]
      exact taking.ends (reads none) idle closes rfl (.inl ⟨message, .inl rfl⟩)
  | redirected target status =>
      have none := plain (by rw [status]; decide)
      rw [if_neg (by rw [status]; decide), none] at piece
      rw [named, stored (Machine.emit _ _) rfl]
      have closes : sent.frame.closes = true := by
        rw [last, lastPiece, status]
        rfl
      refine taking.stays (reads none) idle piece
        [.redirected submission.sid pending.request target]
        (.inr ⟨closes, .redirected, ?_⟩) (fun event member => ?_)
      · simp only [List.foldl_cons, List.foldl_nil, told, taking.tenant.live]
      · rw [List.mem_singleton.mp member]
        trivial
  | waiting seconds message resend status =>
      have none := plain (by rw [status]; cases resend <;> decide)
      rw [if_neg (by rw [status]; cases resend <;> decide), none] at piece
      rw [named, stored (Machine.emit _ _) rfl]
      refine taking.stays (reads none) idle piece
        [.waiting submission.sid pending.request seconds message resend] ?_ (fun event member => ?_)
      · cases resend with
        | false => exact .inl rfl
        | true =>
            refine .inr ⟨?_, .waits, ?_⟩
            · rw [last, lastPiece, status]
              rfl
            · simp only [List.foldl_cons, List.foldl_nil, told, taking.tenant.live]
      · rw [List.mem_singleton.mp member]
        trivial
  | collecting info status parsed long =>
      rw [named]
      exact taking.collects fresh bytes status parsed long
  | settled info status parsed short =>
      have none : sent.frame.data = [] := by
        have length := ServerFrame.data_length taking.opened status parsed
        rw [short] at length
        exact List.length_eq_zero_iff.mp (by omega)
      rw [stored _ (by rw [frame]), named]
      have settles := taking.status_data (reads none) idle status parsed
      rw [none] at settles
      exact settles

end Taking

theorem Sound.waited (sound : Sound world rests) {left : Framer}
    (reads : Reads (world.wire link) (rests link) left)
    (due : left.needTrailer = (world.machine.framer link).needTrailer)
    (owner : left.trailerFor = (world.machine.framer link).trailerFor) :
    Carries link world (Machine.storeFramer link left world.machine) := by
  refine Taking.silent rfl (sound.keep sound.ready (sound.spare.store link left) (fun _ => rfl)
    (fun place => ?_) (fun place => List.suffix_refl _) (fun _ _ => rfl))
  by_cases here : place = link
  · subst here
    have known := sound.links place
    have cursor : (Machine.storeFramer place left world.machine).framer place = left :=
      Machine.framer_store_self place left world.machine
    refine ⟨?_, known.logged, known.tagged, fun nonzero => ?_⟩
    · change Reads _ _ ((Machine.storeFramer place left world.machine).framer place)
      rw [cursor]
      exact reads
    · change ((Machine.storeFramer place left world.machine).framer place).needTrailer ≠ 0
        at nonzero
      rw [cursor, due] at nonzero
      obtain ⟨first, rest, other, inner, body, info, found, shape, marked, content, status, parsed,
        held, flying, recorded⟩ := known.collects nonzero
      refine ⟨first, rest, other, inner, body, info, found, shape, marked, content, status, parsed,
        ?_, flying, recorded⟩
      change ((Machine.storeFramer place left world.machine).framer place).trailerFor = _
      rw [cursor, owner]
      exact held
  · exact (sound.links place).same rfl (Machine.framer_store_other here left world.machine) rfl

theorem Sound.noticed (sound : Sound world rests) (head : rests link = sent :: later)
    {info : AttnInfo}
    (opened : Machine.content sent.frame.header sent.frame.body = .ok (.notice info))
    {left : Framer} (idle : left.needTrailer = 0)
    (reads : Reads (world.wire link) later left) (event : AttnInfo) :
    Carries link world
      (Machine.emit (.attention event) (Machine.storeFramer link left world.machine)) := by
  have untagged : ∀ other, sent.tag ≠ some other := by
    intro other same
    have known := (sound.links link).tagged sent (by simp [head])
    rw [Tagged, same] at known
    obtain ⟨_, _, _, -, -, -, content, -⟩ := known
    rw [opened] at content
    cases content
  rw [Carries, turned, Machine.reported_append (show _ = _ ++ [Event.attention event] from rfl)]
  refine ⟨⟨Function.update rests link later, ?_⟩, fun other member => ?_⟩
  · refine sound.keep sound.ready ⟨sound.spare.distinct, sound.spare.absent⟩ (fun _ => rfl)
      (fun place => ?_) (fun place => ?_) (fun place other => remains_other head (untagged other) place)
    · by_cases here : place = link
      · subst here
        have known := sound.links place
        have cursor : (Machine.storeFramer place left world.machine).framer place = left :=
          Machine.framer_store_self place left world.machine
        rw [Function.update_self]
        refine ⟨?_, fun frame member => known.logged frame (by simp [head, member]),
          fun frame member => known.tagged frame (by simp [head, member]), fun nonzero => ?_⟩
        · change Reads _ _ ((Machine.storeFramer place left world.machine).framer place)
          rw [cursor]
          exact reads
        · change ((Machine.storeFramer place left world.machine).framer place).needTrailer ≠ 0
            at nonzero
          rw [cursor] at nonzero
          exact absurd idle nonzero
      · rw [Function.update_of_ne here]
        exact (sound.links place).same rfl (Machine.framer_store_other here left world.machine) rfl
    · by_cases here : place = link
      · rw [here, Function.update_self, head]
        exact List.suffix_cons _ _
      · have same : Function.update rests link later place = rests place :=
          Function.update_of_ne here later rests
        exact same ▸ List.suffix_refl _
  · rw [List.mem_singleton.mp member]
    trivial

theorem Sound.taking (sound : Sound world rests) (head : rests link = sent :: later)
    {inner : ResponseHeader} {body : Bytes}
    (opened : Machine.content sent.frame.header sent.frame.body = .ok (.response inner body)) :
    ∃ tag submission pending,
      Taking world rests link sent later tag submission inner body pending := by
  have known := (sound.links link).tagged sent (by simp [head])
  rw [Tagged] at known
  cases tagged : sent.tag with
  | none =>
      rw [tagged] at known
      obtain ⟨info, content⟩ := known
      rw [opened] at content
      cases content
  | some tag =>
      rw [tagged] at known
      obtain ⟨submission, inner', body', asked, placed, present, content, named⟩ := known
      rw [opened] at content
      cases content
      obtain ⟨-, -, due⟩ := sound.front head tagged asked
      obtain ⟨-, pending, held⟩ := (sound.accounts tag submission asked present).holds due
      exact ⟨tag, submission, pending, ⟨sound, head, tagged, asked, opened, named, held⟩⟩

variable [Exchange Body] (installation : Installation Body)

theorem Sound.turn (sound : Sound world rests) (link : Nat) :
    Carries link world (Machine.step installation (.turn link) world.machine) := by
  have running : world.machine.state.bringingUp = false := by
    rw [sound.ready]
    rfl
  have takes := (sound.links link).reads.next
  have moved := Machine.turn_move installation link world.machine
  change Carries link world (final (Machine.turn installation link world.machine))
  generalize final (Machine.turn installation link world.machine) = after at moved
  generalize rest : rests link = remaining at takes
  cases moved with
  | refused error cut => exact Taking.silent rfl sound
  | waited left cut =>
      rw [cut] at takes
      cases takes with
      | waits reads due owner =>
          rw [← rest] at reads
          exact sound.waited reads due owner
  | orphan data left cut =>
      rw [cut] at takes
      cases takes with
      | trailer due owner =>
          obtain ⟨_, _, _, _, _, _, _, -, -, -, -, -, same, -⟩ := (sound.links link).collects due
          rw [owner] at same
          cases same
  | trailer sid data left cut =>
      rw [cut] at takes
      cases takes with
      | trailer due owner fresh idle bytes =>
          obtain ⟨first, others, tag, inner, body, info, pending, shape, tagged, opened, status,
            parsed, same, flying, recorded⟩ := (sound.links link).collects due
          rw [owner, Option.some.injEq] at same
          rw [rest, List.cons.injEq] at shape
          obtain ⟨rfl, rfl⟩ := shape
          obtain ⟨_, submission, held, taking⟩ := sound.taking rest opened
          rw [taking.named, taking.held, Option.some.injEq] at flying
          subst flying
          have carries := taking.status_data (.between left fresh idle bytes) idle status parsed
          have whole : { held with status := some info } = held := by
            rw [← recorded]
          rw [whole, Taking.update_same (Machine.storeFramer link left world.machine) taking.held]
            at carries
          rw [same, taking.named]
          exact carries
  | garbled header body left error cut opened =>
      rw [cut] at takes
      cases takes with
      | frame =>
          have known := (sound.links link).tagged _ (by rw [rest]; exact List.mem_cons_self)
          rw [Tagged] at known
          split at known
          · obtain ⟨info, content⟩ := known
            rw [opened] at content
            cases content
          · obtain ⟨_, _, _, -, -, -, content, -⟩ := known
            rw [opened] at content
            cases content
  | notice header body left info cut opened =>
      rw [cut] at takes
      cases takes with
      | frame fresh idle bytes =>
          refine sound.noticed rest opened idle (.between left fresh idle ?_) info
          rw [bytes, ServerFrame.data_notice opened, List.nil_append]
  | bringup outer inner whole body left cut opened waiting =>
      rw [running] at waiting
      cases waiting
  | unknown outer inner whole body left cut opened idle absent =>
      rw [cut] at takes
      cases takes with
      | frame =>
          obtain ⟨tag, submission, pending, taking⟩ := sound.taking rest opened
          rw [taking.named, taking.held] at absent
          cases absent
  | stream outer inner whole body left answered pending cut opened idle found move =>
      rw [cut] at takes
      cases takes with
      | frame fresh idle bytes =>
          obtain ⟨tag, submission, held, taking⟩ := sound.taking rest opened
          rw [taking.named, taking.held, Option.some.injEq] at found
          subst found
          exact taking.stream fresh idle bytes move

end Turn

end XRootDClient.Proto.World
