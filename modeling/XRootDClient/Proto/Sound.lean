import XRootDClient.Proto.World

/-!
# What keeps answers paired

A stream id is free only when nothing can come for its last holder any more:
whatever the server still owes, or has sent and nobody has taken, is for a
submission that holds its stream. The invariant says this of every submission
whose link is not gone, and that the data collected for a stream is what has
been taken of its answer. Taking one frame off one link keeps it.
-/

set_option autoImplicit false

namespace XRootDClient.Proto.World

open Lib Lib.BigEndian Lib.Stateful Lib.Run Auth

variable {Body : Type}

/-- A frame on its way is a notice, or a piece of the answer to a submission whose
link is there. -/
def Tagged (world : World Body) (link : Nat) (sent : Sent) : Prop :=
  match sent.tag with
  | none => ∃ info, Machine.content sent.frame.header sent.frame.body = .ok (.notice info)
  | some tag => ∃ submission inner body, world.asked[tag]? = some submission ∧
      submission.link = link ∧ world.lost tag = false ∧
      Machine.content sent.frame.header sent.frame.body = .ok (.response inner body) ∧
      inner.streamid = submission.sid

/-- A link with these frames to take. The data it is collecting is that of the
first, whose status is on record. -/
structure LinkSound (world : World Body) (link : Nat) (rest : List Sent) : Prop where
  reads : Reads (world.wire link) rest (world.machine.framer link)
  logged : ∀ sent ∈ rest, sent ∈ world.sent
  tagged : ∀ sent ∈ rest, Tagged world link sent
  collects : (world.machine.framer link).needTrailer ≠ 0 →
    ∃ sent later tag inner body info pending, rest = sent :: later ∧ sent.tag = some tag ∧
      Machine.content sent.frame.header sent.frame.body = .ok (.response inner body) ∧
      inner.status = kXR_status ∧ parseStatus body = .ok info ∧
      (world.machine.framer link).trailerFor = some inner.streamid ∧
      world.machine.pending.get? inner.streamid = some pending ∧ pending.status = some info

/-- Something can still come for a submission: the server owes it an answer, or a
piece of one is on its way. -/
def Due (world : World Body) (rests : Nat → List Sent) (tag : Nat) (submission : Submission) :
    Prop :=
  world.owes tag = true ∨ ∃ sent ∈ rests submission.link, sent.tag = some tag

/-- A submission whose link is there is owed one answer at most, and holds its
stream as long as something can come for it; the last piece of an answer is the
last to come. -/
structure Account (world : World Body) (rests : Nat → List Sent) (tag : Nat)
    (submission : Submission) : Prop where
  once : world.receipts tag ≤ (world.answers tag).countP ServerFrame.closes + 1
  holds : Due world rests tag submission → world.live submission.sid = some tag ∧
    ∃ pending, world.machine.pending.get? submission.sid = some pending
  settled : world.standing tag ≠ .asked → ¬Due world rests tag submission
  last : ∀ first sent later, rests submission.link = first ++ sent :: later →
    sent.tag = some tag → sent.frame.closes = true →
    world.owes tag = false ∧ ∀ other ∈ later, other.tag ≠ some tag

def remains (rest : List Sent) (tag : Nat) : Bytes :=
  (rest.filter fun sent => sent.tag = some tag).flatMap fun sent => sent.frame.payload

/-- A stream in flight: the submission that holds it, and the data collected of
its answer. -/
structure Tenant (world : World Body) (rests : Nat → List Sent) (sid : Nat) (pending : Pending)
    (tag : Nat) (submission : Submission) : Prop where
  live : world.live sid = some tag
  asked : world.asked[tag]? = some submission
  named : submission.sid = sid
  request : submission.request = pending.request
  routed : pending.pathid = submission.request.pathid
  present : world.lost tag = false
  bytes : (world.answers tag).flatMap ServerFrame.payload =
    pending.buffer ++ remains (rests submission.link) tag

/-- A released stream id is free, and released once. -/
structure Spare (machine : Machine Body) : Prop where
  distinct : machine.free.Nodup
  absent : ∀ sid ∈ machine.free, machine.pending.get? sid = none

structure Sound (world : World Body) (rests : Nat → List Sent) : Prop where
  ready : world.machine.state = .READY
  spare : Spare world.machine
  links : ∀ link, LinkSound world link (rests link)
  accounts : ∀ tag submission, world.asked[tag]? = some submission → world.lost tag = false →
    Account world rests tag submission
  tenants : ∀ sid pending, world.machine.pending.get? sid = some pending →
    ∃ tag submission, Tenant world rests sid pending tag submission
  routes : ∀ submission ∈ world.asked,
    submission.link = 0 ∨ submission.link = submission.request.pathid

theorem remains_cons (sent : Sent) (later : List Sent) (tag : Nat) :
    remains (sent :: later) tag =
      (if sent.tag = some tag then sent.frame.payload else []) ++ remains later tag := by
  by_cases same : sent.tag = some tag <;> simp [remains, same]

theorem Sound.apart {world : World Body} {rests : Nat → List Sent} (sound : Sound world rests)
    {one two : Nat} {first second : Submission} (askedOne : world.asked[one]? = some first)
    (askedTwo : world.asked[two]? = some second) (hereOne : world.lost one = false)
    (hereTwo : world.lost two = false) (dueOne : Due world rests one first)
    (dueTwo : Due world rests two second) (different : one ≠ two) : first.sid ≠ second.sid := by
  intro same
  have live := ((sound.accounts one first askedOne hereOne).holds dueOne).1
  rw [same, ((sound.accounts two second askedTwo hereTwo).holds dueTwo).1] at live
  exact different (Option.some.inj live).symm

section Consume

variable {world : World Body} {rests : Nat → List Sent} {link tag : Nat} {sent : Sent}
  {later : List Sent} {submission : Submission}

/-- The stream a frame is for, once the frame is taken: gone with the last piece,
or there with the frame's data added. -/
def Settled (world : World Body) (machine : Machine Body) (sid : Nat) (frame : ServerFrame) :
    Prop :=
  (machine.pending.get? sid = none ∧ frame.closes = true) ∨
    ∃ before after, world.machine.pending.get? sid = some before ∧
      machine.pending.get? sid = some after ∧ after.request = before.request ∧
      after.pathid = before.pathid ∧ after.buffer = before.buffer ++ frame.payload

theorem due_later (due : Due world (Function.update rests link later) tag submission)
    (head : rests link = sent :: later) : Due world rests tag submission := by
  rcases due with owed | ⟨other, member, same⟩
  · exact .inl owed
  · refine .inr ⟨other, ?_, same⟩
    by_cases here : submission.link = link
    · rw [here, Function.update_self] at member
      rw [here, head]
      exact List.mem_cons_of_mem _ member
    · rwa [Function.update_of_ne here] at member

theorem remains_other {other : Nat} (head : rests link = sent :: later)
    (different : sent.tag ≠ some other) (place : Nat) :
    remains (Function.update rests link later place) other = remains (rests place) other := by
  by_cases here : place = link
  · rw [here, Function.update_self, head, remains_cons, if_neg different, List.nil_append]
  · rw [Function.update_of_ne here]

theorem Sound.front (sound : Sound world rests) (head : rests link = sent :: later)
    (tagged : sent.tag = some tag) (asked : world.asked[tag]? = some submission) :
    submission.link = link ∧ world.lost tag = false ∧ Due world rests tag submission := by
  have front : Tagged world link sent := (sound.links link).tagged sent (by simp [head])
  rw [Tagged, tagged] at front
  obtain ⟨found, inner, body, same, placed, present, -, -⟩ := front
  rw [asked, Option.some.injEq] at same
  subst same
  exact ⟨placed, present, .inr ⟨sent, by simp [placed, head], tagged⟩⟩

theorem Sound.ends (sound : Sound world rests) (head : rests link = sent :: later)
    (tagged : sent.tag = some tag) (asked : world.asked[tag]? = some submission)
    (closes : sent.frame.closes = true) :
    ¬Due world (Function.update rests link later) tag submission := by
  obtain ⟨placed, present, -⟩ := sound.front head tagged asked
  obtain ⟨paid, none⟩ := (sound.accounts tag submission asked present).last [] sent later
    (by rw [placed, head]; rfl) tagged closes
  rintro (owed | ⟨other, member, marked⟩)
  · rw [paid] at owed
    cases owed
  · rw [placed, Function.update_self] at member
    exact none other member marked

theorem Sound.elsewhere (sound : Sound world rests) (asked : world.asked[tag]? = some submission)
    (present : world.lost tag = false) (due : Due world rests tag submission) {place : Nat}
    (there : submission.link ≠ place) {machine : Machine Body} {standing : Nat → Standing}
    (others : ∀ sid, sid ≠ submission.sid →
      machine.pending.get? sid = world.machine.pending.get? sid)
    (cursor : machine.framer place = world.machine.framer place) :
    LinkSound { world with machine := machine, standing := standing } place (rests place) := by
  obtain ⟨reads, logged, tags, collects⟩ := sound.links place
  refine ⟨?_, logged, tags, ?_⟩
  · change Reads _ _ (machine.framer place)
    rw [cursor]
    exact reads
  · change (machine.framer place).needTrailer ≠ 0 → _
    rw [cursor]
    intro nonzero
    obtain ⟨first, rest, other, inner, body, info, pending, shape, marked, content, status, parsed,
      owner, flying, recorded⟩ := collects nonzero
    have known := tags first (by simp [shape])
    rw [Tagged, marked] at known
    obtain ⟨second, inner', body', askedToo, put, here, content', named⟩ := known
    rw [content] at content'
    cases content'
    have different : other ≠ tag := by
      intro same
      rw [same, asked, Option.some.injEq] at askedToo
      rw [← askedToo] at put
      exact there put
    have apart := sound.apart askedToo asked here present
      (.inr ⟨first, by simp [put, shape], marked⟩) due different
    refine ⟨first, rest, other, inner, body, info, pending, shape, marked, content, status, parsed,
      owner, ?_, recorded⟩
    rw [← flying]
    exact others _ (by rw [named]; exact apart)

theorem Sound.tenant (sound : Sound world rests) (head : rests link = sent :: later)
    (tagged : sent.tag = some tag) (asked : world.asked[tag]? = some submission)
    {pending : Pending} (held : world.machine.pending.get? submission.sid = some pending) :
    Tenant world rests submission.sid pending tag submission := by
  obtain ⟨placed, present, due⟩ := sound.front head tagged asked
  obtain ⟨owner, second, tenant⟩ := sound.tenants _ _ held
  have itself : owner = tag := by
    have live := ((sound.accounts tag submission asked present).holds due).1
    rw [tenant.live, Option.some.injEq] at live
    exact live
  subst itself
  have recorded := tenant.asked
  rw [asked, Option.some.injEq] at recorded
  rw [← recorded] at tenant
  exact tenant

theorem Sound.consume_account (sound : Sound world rests) (head : rests link = sent :: later)
    (tagged : sent.tag = some tag) (asked : world.asked[tag]? = some submission)
    {machine : Machine Body} {standing : Nat → Standing}
    (others : ∀ sid, sid ≠ submission.sid →
      machine.pending.get? sid = world.machine.pending.get? sid)
    (own : Settled world machine submission.sid sent.frame)
    (stands : standing = world.standing ∨
      (sent.frame.closes = true ∧ ∃ told, standing = Function.update world.standing tag told))
    {other : Nat} {second : Submission} (askedToo : world.asked[other]? = some second)
    (here : world.lost other = false) :
    Account { world with machine := machine, standing := standing }
      (Function.update rests link later) other second := by
  obtain ⟨placed, present, due⟩ := sound.front head tagged asked
  have before := sound.accounts other second askedToo here
  have itself : other = tag → second = submission := by
    rintro rfl
    rw [asked, Option.some.injEq] at askedToo
    exact askedToo.symm
  refine ⟨before.once, fun dueToo => ?_, fun told dueToo => ?_,
    fun first frame rest shape marked closes => ?_⟩
  · have earlier := due_later dueToo head
    obtain ⟨live, pending, flying⟩ := before.holds earlier
    refine ⟨live, ?_⟩
    by_cases same : other = tag
    · rcases own with ⟨-, closes⟩ | ⟨_, after, -, stays, -⟩
      · rw [itself same, same] at dueToo
        exact absurd dueToo (sound.ends head tagged asked closes)
      · rw [itself same]
        exact ⟨after, stays⟩
    · have apart := sound.apart askedToo asked here present earlier due same
      exact ⟨pending, (others _ apart).trans flying⟩
  · by_cases same : other = tag
    · rcases stands with unchanged | ⟨closes, -⟩
      · refine before.settled ?_ (by rw [same, itself same]; exact due)
        rw [← unchanged]
        exact told
      · rw [itself same, same] at dueToo
        exact sound.ends head tagged asked closes dueToo
    · refine before.settled ?_ (due_later dueToo head)
      rcases stands with unchanged | ⟨-, mark, changed⟩
      · rw [← unchanged]
        exact told
      · change standing other ≠ .asked at told
        rwa [changed, Function.update_of_ne same] at told
  · by_cases there : second.link = link
    · rw [there, Function.update_self] at shape
      refine before.last (sent :: first) frame rest ?_ marked closes
      rw [there, head, shape]
      rfl
    · rw [Function.update_of_ne there] at shape
      exact before.last first frame rest shape marked closes

theorem Sound.consume_tenant (sound : Sound world rests) (head : rests link = sent :: later)
    (tagged : sent.tag = some tag) (asked : world.asked[tag]? = some submission)
    {machine : Machine Body} {standing : Nat → Standing}
    (others : ∀ sid, sid ≠ submission.sid →
      machine.pending.get? sid = world.machine.pending.get? sid)
    (own : Settled world machine submission.sid sent.frame) {sid : Nat} {pending : Pending}
    (flying : machine.pending.get? sid = some pending) :
    ∃ owner second, Tenant { world with machine := machine, standing := standing }
      (Function.update rests link later) sid pending owner second := by
  obtain ⟨placed, present, due⟩ := sound.front head tagged asked
  by_cases same : sid = submission.sid
  · subst same
    rcases own with ⟨gone, -⟩ | ⟨earlier, after, held, stays, request, routed, buffer⟩
    · rw [flying] at gone
      cases gone
    · rw [flying, Option.some.injEq] at stays
      subst stays
      have tenant := sound.tenant head tagged asked held
      refine ⟨tag, submission, ⟨tenant.live, asked, rfl, ?_, ?_, present, ?_⟩⟩
      · rw [request, tenant.request]
      · rw [routed, tenant.routed]
      · change (world.answers tag).flatMap ServerFrame.payload = _
        rw [tenant.bytes, buffer, placed, Function.update_self, head, remains_cons, if_pos tagged,
          List.append_assoc]
  · rw [others sid same] at flying
    obtain ⟨owner, second, tenant⟩ := sound.tenants sid pending flying
    refine ⟨owner, second, ⟨tenant.live, tenant.asked, tenant.named, tenant.request,
      tenant.routed, tenant.present, ?_⟩⟩
    have different : sent.tag ≠ some owner := by
      rw [tagged]
      intro equal
      have recorded := tenant.asked
      rw [← Option.some.inj equal, asked, Option.some.injEq] at recorded
      rw [recorded] at same
      exact same tenant.named.symm
    change (world.answers owner).flatMap ServerFrame.payload = _
    rw [tenant.bytes, remains_other head different]

/-- Taking the first frame of a link: the stream it is for has its data, or is
gone with the last piece, and nothing else has changed. -/
theorem Sound.consume (sound : Sound world rests) (head : rests link = sent :: later)
    (tagged : sent.tag = some tag) (asked : world.asked[tag]? = some submission)
    {machine : Machine Body} {standing : Nat → Standing} (ready : machine.state = .READY)
    (spare : Spare machine)
    (others : ∀ sid, sid ≠ submission.sid →
      machine.pending.get? sid = world.machine.pending.get? sid)
    (own : Settled world machine submission.sid sent.frame)
    (cursors : ∀ place, place ≠ link → machine.framer place = world.machine.framer place)
    (reads : Reads (world.wire link) later (machine.framer link))
    (idle : (machine.framer link).needTrailer = 0)
    (stands : standing = world.standing ∨
      (sent.frame.closes = true ∧ ∃ told, standing = Function.update world.standing tag told)) :
    Sound { world with machine := machine, standing := standing }
      (Function.update rests link later) := by
  obtain ⟨placed, present, due⟩ := sound.front head tagged asked
  refine ⟨ready, spare, fun place => ?_,
    fun other second askedToo here => sound.consume_account head tagged asked others own stands
      askedToo here,
    fun sid pending flying => sound.consume_tenant head tagged asked others own flying,
    sound.routes⟩
  by_cases here : place = link
  · subst here
    rw [Function.update_self]
    refine ⟨reads, fun frame member => ?_, fun frame member => ?_, fun due => absurd idle due⟩
    · exact (sound.links place).logged frame (by simp [head, member])
    · exact (sound.links place).tagged frame (by simp [head, member])
  · rw [Function.update_of_ne here]
    exact sound.elsewhere asked present due (by rw [placed]; exact Ne.symm here) others
      (cursors place here)

end Consume

section Keep

variable {world : World Body} {rests left : Nat → List Sent}

def essence (pending : Pending) : Request × Nat × Bytes :=
  (pending.request, pending.pathid, pending.buffer)

theorem LinkSound.same {place : Nat} {rest : List Sent} (known : LinkSound world place rest)
    {machine : Machine Body} {wire : Nat → Bytes}
    (pending : machine.pending = world.machine.pending)
    (cursor : machine.framer place = world.machine.framer place)
    (way : wire place = world.wire place) :
    LinkSound { world with machine := machine, wire := wire } place rest := by
  obtain ⟨reads, logged, tags, collects⟩ := known
  refine ⟨?_, logged, tags, ?_⟩
  · change Reads (wire place) rest (machine.framer place)
    rw [cursor, way]
    exact reads
  · change (machine.framer place).needTrailer ≠ 0 → _
    rw [cursor]
    intro nonzero
    obtain ⟨first, rest, other, inner, body, info, found, shape, marked, content, status, parsed,
      owner, flying, recorded⟩ := collects nonzero
    refine ⟨first, rest, other, inner, body, info, found, shape, marked, content, status, parsed,
      owner, ?_, recorded⟩
    change machine.pending.get? _ = _
    rw [pending]
    exact flying

/-- A move that leaves the essence of every stream alone, and takes nothing but
notices off the links. -/
theorem Sound.keep (sound : Sound world rests) {machine : Machine Body} {wire : Nat → Bytes}
    (ready : machine.state = .READY) (spare : Spare machine)
    (kept : ∀ sid, (machine.pending.get? sid).map essence =
      (world.machine.pending.get? sid).map essence)
    (links : ∀ place, LinkSound { world with machine := machine, wire := wire } place (left place))
    (suffix : ∀ place, left place <:+ rests place)
    (whole : ∀ place tag, remains (left place) tag = remains (rests place) tag) :
    Sound { world with machine := machine, wire := wire } left := by
  have earlier : ∀ tag submission, Due world left tag submission →
      Due world rests tag submission := by
    rintro tag submission (owed | ⟨sent, member, marked⟩)
    · exact .inl owed
    · exact .inr ⟨sent, (suffix _).subset member, marked⟩
  refine ⟨ready, spare, links, fun tag submission asked here => ?_, fun sid pending flying => ?_,
    sound.routes⟩
  · have before := sound.accounts tag submission asked here
    refine ⟨before.once, fun due => ?_, fun told due => before.settled told (earlier _ _ due),
      fun first sent later shape marked closes => ?_⟩
    · obtain ⟨live, pending, flying⟩ := before.holds (earlier _ _ due)
      refine ⟨live, ?_⟩
      have same := kept submission.sid
      rw [flying, Option.map_some, Option.map_eq_some_iff] at same
      obtain ⟨after, found, -⟩ := same
      exact ⟨after, found⟩
    · obtain ⟨gone, split⟩ := suffix submission.link
      refine before.last (gone ++ first) sent later ?_ marked closes
      rw [← split, shape, List.append_assoc]
  · have same := kept sid
    rw [show machine.pending.get? sid = some pending from flying, Option.map_some, eq_comm,
      Option.map_eq_some_iff] at same
    obtain ⟨before, found, equal⟩ := same
    simp only [essence, Prod.mk.injEq] at equal
    obtain ⟨request, routed, buffer⟩ := equal
    obtain ⟨tag, submission, tenant⟩ := sound.tenants sid before found
    refine ⟨tag, submission, ⟨tenant.live, tenant.asked, tenant.named, ?_, ?_, tenant.present, ?_⟩⟩
    · rw [tenant.request, request]
    · rw [← routed, tenant.routed]
    · change (world.answers tag).flatMap ServerFrame.payload = _
      rw [tenant.bytes, whole, buffer]

theorem Sound.idle (sound : Sound world rests) {machine : Machine Body}
    (ready : machine.state = world.machine.state) (free : machine.free = world.machine.free)
    (pending : machine.pending = world.machine.pending)
    (cursors : ∀ place, machine.framer place = world.machine.framer place) :
    Sound { world with machine := machine } rests := by
  refine sound.keep (ready.trans sound.ready) ⟨?_, ?_⟩ (fun sid => by rw [pending])
    (fun place => (sound.links place).same pending (cursors place) rfl)
    (fun place => List.suffix_refl _) (fun _ _ => rfl)
  · rw [free]
    exact sound.spare.distinct
  · rw [free, pending]
    exact sound.spare.absent

end Keep

end XRootDClient.Proto.World
