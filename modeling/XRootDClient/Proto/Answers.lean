import XRootDClient.Proto.Pairing

/-!
# Answers are paired with their requests

Every move of the client and of a lawful server keeps the invariant, as long as
nobody drops a path with an answer due elsewhere and nobody asks again before
being told to wait. Where a path is dropped with a write on it, the stream id
goes back while the answer is still to come on the control link, and the answer
is given to whoever gets the id next.
-/

set_option autoImplicit false

namespace XRootDClient.Proto.World

open Lib Lib.BigEndian Lib.Stateful Lib.Run Auth

variable {Body : Type}

section Sends

variable {world : World Body} {rests : Nat → List Sent} (sent : Sent)

def sending (sent : Sent) (world : World Body) : World Body :=
  { world with
    wire := Function.update world.wire sent.link (world.wire sent.link ++ sent.bytes)
    sent := world.sent ++ [sent] }

theorem answers_sending (world : World Body) (tag : Nat) :
    (sending sent world).answers tag =
      world.answers tag ++ if sent.tag = some tag then [sent.frame] else [] := by
  simp only [answers, sending, List.filter_append, List.map_append]
  by_cases same : sent.tag = some tag <;> simp [same]

theorem owes_sending {tag : Nat} (owed : (sending sent world).owes tag = true) :
    world.owes tag = true := by
  rw [owes, decide_eq_true_eq, answers_sending, List.countP_append] at owed
  rw [owes, decide_eq_true_eq]
  change _ < world.receipts tag at owed
  omega

theorem remains_append (rest : List Sent) (tag : Nat) :
    remains (rest ++ [sent]) tag =
      remains rest tag ++ if sent.tag = some tag then sent.frame.payload else [] := by
  simp only [remains, List.filter_append, List.flatMap_append]
  by_cases same : sent.tag = some tag <;> simp [same]

/-- What a lawful server sends: a notice, or a piece of an answer it owes. -/
def Lawful (world : World Body) (sent : Sent) : Prop :=
  match sent.tag with
  | none => ∃ info, Machine.content sent.frame.header sent.frame.body = .ok (.notice info)
  | some tag => ∃ submission inner body, world.asked[tag]? = some submission ∧
      sent.link = submission.link ∧ world.lost tag = false ∧ world.owes tag = true ∧
      Machine.content sent.frame.header sent.frame.body = .ok (.response inner body) ∧
      inner.streamid = submission.sid

variable {sent}

theorem Lawful.piece (known : Lawful world sent) {tag : Nat} {submission : Submission}
    (tagged : sent.tag = some tag) (asked : world.asked[tag]? = some submission) :
    sent.link = submission.link ∧ world.owes tag = true := by
  rw [Lawful, tagged] at known
  obtain ⟨found, _, _, same, link, -, owed, -⟩ := known
  rw [asked, Option.some.injEq] at same
  exact ⟨same ▸ link, owed⟩

theorem due_sending (known : Lawful world sent) {tag : Nat} {submission : Submission}
    (asked : world.asked[tag]? = some submission)
    (due : Due (sending sent world)
      (Function.update rests sent.link (rests sent.link ++ [sent])) tag submission) :
    Due world rests tag submission := by
  rcases due with owed | ⟨other, member, marked⟩
  · exact .inl (owes_sending sent owed)
  · by_cases here : submission.link = sent.link
    · rw [here, Function.update_self, List.mem_append, List.mem_singleton] at member
      rcases member with earlier | same
      · exact .inr ⟨other, by rw [here]; exact earlier, marked⟩
      · rw [same] at marked
        exact .inl (known.piece marked asked).2
    · rw [Function.update_of_ne here] at member
      exact .inr ⟨other, member, marked⟩

theorem Sound.sending_account (sound : Sound world rests) (known : Lawful world sent) {tag : Nat}
    {submission : Submission} (asked : world.asked[tag]? = some submission)
    (here : world.lost tag = false) :
    Account (sending sent world) (Function.update rests sent.link (rests sent.link ++ [sent])) tag
      submission := by
  have before := sound.accounts tag submission asked here
  have unpaid : world.owes tag = false → (sending sent world).owes tag = false := by
    intro paid
    rw [← Bool.not_eq_true]
    intro owed
    rw [owes_sending sent owed] at paid
    cases paid
  refine ⟨?_, fun due => before.holds (due_sending known asked due),
    fun told due => before.settled told (due_sending known asked due),
    fun first frame later shape marked closes => ?_⟩
  · rw [answers_sending, List.countP_append]
    exact le_trans before.once (by omega)
  · by_cases place : submission.link = sent.link
    · rw [place, Function.update_self] at shape
      rcases List.eq_nil_or_concat later with none | ⟨rest, last, concat⟩
      · rw [none] at shape ⊢
        obtain ⟨-, same⟩ := List.append_inj' shape rfl
        rw [List.cons.injEq] at same
        refine ⟨?_, by simp⟩
        rw [← same.1] at marked closes
        rw [owes, decide_eq_false_iff_not, answers_sending, if_pos marked, List.countP_append,
          List.countP_singleton, if_pos closes]
        exact Nat.not_lt.mpr before.once
      · rw [concat, List.concat_eq_append, ← List.cons_append, ← List.append_assoc] at shape
        obtain ⟨earlier, same⟩ := List.append_inj' shape rfl
        obtain ⟨paid, none⟩ := before.last first frame rest (by rw [place, earlier]) marked closes
        refine ⟨unpaid paid, fun other member => ?_⟩
        rw [concat, List.concat_eq_append, List.mem_append, List.mem_singleton] at member
        rcases member with inside | new
        · exact none other inside
        · rw [List.cons.injEq] at same
          rw [new, ← same.1]
          intro tagged
          rw [(known.piece tagged asked).2] at paid
          cases paid
    · rw [Function.update_of_ne place] at shape
      obtain ⟨paid, none⟩ := before.last first frame later shape marked closes
      exact ⟨unpaid paid, none⟩

theorem Sound.sending_link (sound : Sound world rests) (known : Lawful world sent) (place : Nat) :
    LinkSound (sending sent world) place
      (Function.update rests sent.link (rests sent.link ++ [sent]) place) := by
  obtain ⟨reads, logged, tags, collects⟩ := sound.links place
  by_cases here : place = sent.link
  · subst here
    rw [Function.update_self]
    refine ⟨?_, fun other member => ?_, fun other member => ?_, fun nonzero => ?_⟩
    · change Reads (Function.update world.wire sent.link _ sent.link) _ _
      rw [Function.update_self]
      exact reads.sends sent
    · rcases List.mem_append.mp member with earlier | same
      · exact List.mem_append_left _ (logged other earlier)
      · exact List.mem_append_right _ same
    · rcases List.mem_append.mp member with earlier | same
      · exact tags other earlier
      · rw [List.mem_singleton.mp same]
        cases marked : sent.tag with
        | none =>
            simp only [Lawful, marked] at known
            simp only [Tagged, marked]
            exact known
        | some tag =>
            simp only [Lawful, marked] at known
            simp only [Tagged, marked]
            obtain ⟨submission, inner, body, asked, link, present, -, opened, named⟩ := known
            exact ⟨submission, inner, body, asked, link.symm, present, opened, named⟩
    · obtain ⟨first, rest, other, inner, body, info, found, shape, marked, content, status, parsed,
        owner, flying, recorded⟩ := collects nonzero
      exact ⟨first, rest ++ [sent], other, inner, body, info, found, by rw [shape]; rfl, marked,
        content, status, parsed, owner, flying, recorded⟩
  · rw [Function.update_of_ne here]
    refine ⟨?_, fun other member => List.mem_append_left _ (logged other member), tags, collects⟩
    change Reads (Function.update world.wire sent.link _ place) _ _
    rw [Function.update_of_ne here]
    exact reads

theorem Sound.sends (sound : Sound world rests) (known : Lawful world sent) :
    Sound (sending sent world)
      (Function.update rests sent.link (rests sent.link ++ [sent])) := by
  refine ⟨sound.ready, sound.spare, sound.sending_link known,
    fun tag submission asked here => sound.sending_account known asked here,
    fun sid pending flying => ?_, sound.routes⟩
  obtain ⟨tag, submission, tenant⟩ := sound.tenants sid pending flying
  refine ⟨tag, submission, ⟨tenant.live, tenant.asked, tenant.named, tenant.request,
    tenant.routed, tenant.present, ?_⟩⟩
  rw [answers_sending, List.flatMap_append, tenant.bytes]
  by_cases tagged : sent.tag = some tag
  · rw [← (known.piece tagged tenant.asked).1, Function.update_self, remains_append, if_pos tagged,
      if_pos tagged, List.flatMap_singleton, List.append_assoc]
  · rw [if_neg tagged, List.flatMap_nil, List.append_nil]
    by_cases here : submission.link = sent.link
    · rw [here, Function.update_self, remains_append, if_neg tagged, List.append_nil]
    · rw [Function.update_of_ne here]

end Sends

section Calls

variable {world : World Body} {rests left : Nat → List Sent}

theorem Sound.feed (sound : Sound world rests) {data : Bytes} {link : Nat}
    (next : data <+: world.wire link) :
    Sound { world with
      machine := Machine.feed data link world.machine
      wire := Function.update world.wire link ((world.wire link).drop data.length) } rests := by
  refine sound.keep sound.ready ⟨sound.spare.distinct, sound.spare.absent⟩ (fun _ => rfl)
    (fun place => ?_) (fun place => List.suffix_refl _) (fun _ _ => rfl)
  by_cases here : place = link
  · subst here
    obtain ⟨reads, logged, tags, collects⟩ := sound.links place
    obtain ⟨rest, split⟩ := next
    refine ⟨?_, logged, tags, ?_⟩
    · change Reads (Function.update world.wire place _ place) _
        ((Machine.feed data place world.machine).framer place)
      rw [Function.update_self, Machine.feed_cursor, ← split, List.drop_left]
      rw [← split] at reads
      exact reads.arrives
    · change ((Machine.feed data place world.machine).framer place).needTrailer ≠ 0 →
        ∃ _ _ _ _ _ _ _, _ ∧ _ ∧ _ ∧ _ ∧ _ ∧
          ((Machine.feed data place world.machine).framer place).trailerFor = _ ∧ _
      rw [Machine.feed_cursor]
      exact collects
  · refine (sound.links place).same rfl ?_ (Function.update_of_ne here _ _)
    change (Machine.storeFramer link _ _).framer place = _
    rw [Machine.framer_store_other here, Machine.framer_set_default]

/-- A submission still to come has no entry in the ledger. -/
structure Blank (world : World Body) : Prop where
  issued : ∀ sid tag, world.live sid = some tag → tag < world.asked.length
  unsent : ∀ sent ∈ world.sent, ∀ tag, sent.tag = some tag → tag < world.asked.length
  entry : ∀ tag, world.asked.length ≤ tag →
    world.receipts tag = 1 ∧ world.standing tag = .asked ∧ world.lost tag = false

theorem Spare.acquired {machine : Machine Body} (spare : Spare machine) {sid next : Nat}
    {free : List Nat} (acquired : Machine.Acquired machine sid free next) :
    machine.pending.get? sid = none ∧ free.Nodup ∧
      ∀ other ∈ free, other ≠ sid ∧ machine.pending.get? other = none := by
  cases acquired with
  | recycled _ _ head =>
      have distinct := spare.distinct
      rw [head, List.nodup_cons] at distinct
      refine ⟨spare.absent sid (by rw [head]; exact List.mem_cons_self), distinct.2,
        fun other member => ⟨?_, spare.absent other ?_⟩⟩
      · rintro rfl
        exact distinct.1 member
      · rw [head]
        exact List.mem_cons_of_mem _ member
  | fresh spent absent => exact ⟨absent, List.nodup_nil, by simp⟩

def issuing (sid : Nat) (request : Request) (link : Nat) (machine : Machine Body)
    (world : World Body) : World Body :=
  { world with
    machine := machine
    asked := world.asked ++ [⟨sid, request, link⟩]
    live := Function.update world.live sid (some world.asked.length) }

theorem asked_issuing {sid link tag : Nat} {request : Request} {machine : Machine Body}
    {submission : Submission}
    (asked : (issuing sid request link machine world).asked[tag]? = some submission) :
    world.asked[tag]? = some submission ∨
      tag = world.asked.length ∧ submission = ⟨sid, request, link⟩ := by
  change (world.asked ++ [_])[tag]? = _ at asked
  rcases Nat.lt_trichotomy tag world.asked.length with earlier | same | later
  · rw [List.getElem?_append_left earlier] at asked
    exact .inl asked
  · subst same
    rw [List.getElem?_concat_length, Option.some.injEq] at asked
    exact .inr ⟨rfl, asked.symm⟩
  · rw [List.getElem?_eq_none (by simp; omega)] at asked
    cases asked

theorem asked_before {sid link tag : Nat} {request : Request} {machine : Machine Body}
    {submission : Submission} (asked : world.asked[tag]? = some submission) :
    (issuing sid request link machine world).asked[tag]? = some submission := by
  change (world.asked ++ [_])[tag]? = _
  rw [List.getElem?_append_left (List.getElem?_eq_some_iff.mp asked).1]
  exact asked

theorem Blank.silent (blank : Blank world) : world.answers world.asked.length = [] := by
  rw [answers, List.map_eq_nil_iff, List.filter_eq_nil_iff]
  intro sent member tagged
  exact absurd (blank.unsent sent member _ (of_decide_eq_true tagged)) (Nat.lt_irrefl _)

theorem Blank.unseen (blank : Blank world) (sound : Sound world rests) {link : Nat} {sent : Sent}
    (member : sent ∈ rests link) : sent.tag ≠ some world.asked.length := by
  intro tagged
  exact absurd (blank.unsent sent ((sound.links link).logged sent member) _ tagged)
    (Nat.lt_irrefl _)

section Issue

variable {sid link : Nat} {request : Request} {pending : Pending} {machine : Machine Body}

theorem Sound.issued_link (sound : Sound world rests)
    (absent : world.machine.pending.get? sid = none)
    (table : machine.pending = world.machine.pending.set sid pending)
    (cursors : ∀ place, machine.framer place = world.machine.framer place) (place : Nat) :
    LinkSound (issuing sid request link machine world) place (rests place) := by
  obtain ⟨reads, logged, tags, collects⟩ := sound.links place
  refine ⟨?_, logged, fun sent member => ?_, ?_⟩
  · change Reads _ _ (machine.framer place)
    rw [cursors]
    exact reads
  · have known := tags sent member
    rw [Tagged] at known ⊢
    split at known
    · exact known
    · obtain ⟨submission, inner, body, asked, rest⟩ := known
      exact ⟨submission, inner, body, asked_before asked, rest⟩
  · change (machine.framer place).needTrailer ≠ 0 → _
    rw [cursors]
    intro nonzero
    obtain ⟨first, rest, other, inner, body, info, found, shape, marked, content, status, parsed,
      owner, flying, recorded⟩ := collects nonzero
    refine ⟨first, rest, other, inner, body, info, found, shape, marked, content, status, parsed,
      ?_, ?_, recorded⟩
    · change (machine.framer place).trailerFor = _
      rw [cursors]
      exact owner
    · change machine.pending.get? _ = _
      have different : inner.streamid ≠ sid := by
        intro same
        rw [same, absent] at flying
        cases flying
      rw [table, Dict.get_set_other _ different]
      exact flying

theorem Sound.issued_account (sound : Sound world rests) (blank : Blank world)
    (absent : world.machine.pending.get? sid = none)
    (table : machine.pending = world.machine.pending.set sid pending) {tag : Nat}
    {submission : Submission}
    (asked : (issuing sid request link machine world).asked[tag]? = some submission)
    (here : world.lost tag = false) :
    Account (issuing sid request link machine world) rests tag submission := by
  rcases asked_issuing asked with earlier | ⟨rfl, rfl⟩
  · have before := sound.accounts tag submission earlier here
    refine ⟨before.once, fun due => ?_, before.settled, before.last⟩
    obtain ⟨live, found, flying⟩ := before.holds due
    have different : submission.sid ≠ sid := by
      intro same
      rw [same, absent] at flying
      cases flying
    refine ⟨?_, found, ?_⟩
    · exact (Function.update_of_ne different _ _).trans live
    · change machine.pending.get? _ = _
      rw [table, Dict.get_set_other _ different]
      exact flying
  · obtain ⟨received, stands, -⟩ := blank.entry world.asked.length (le_refl _)
    refine ⟨?_, fun _ => ⟨Function.update_self _ _ _, pending, ?_⟩,
      fun told => absurd stands told, fun first sent later shape marked => ?_⟩
    · change world.receipts _ ≤ _
      rw [received]
      exact Nat.le_add_left _ _
    · change machine.pending.get? sid = _
      rw [table, Dict.get_set_self]
    · have member : sent ∈ rests link := by
        rw [shape]
        simp
      exact absurd marked (blank.unseen sound member)

theorem Sound.issued (sound : Sound world rests) (blank : Blank world)
    (ready : machine.state = .READY) (spare : Spare machine)
    (absent : world.machine.pending.get? sid = none)
    (table : machine.pending = world.machine.pending.set sid pending)
    (cursors : ∀ place, machine.framer place = world.machine.framer place)
    (named : pending.request = request) (routed : pending.pathid = request.pathid)
    (empty : pending.buffer = []) (designated : link = 0 ∨ link = request.pathid) :
    Sound (issuing sid request link machine world) rests := by
  refine ⟨ready, spare, sound.issued_link absent table cursors,
    fun tag submission asked here => sound.issued_account blank absent table asked here,
    fun other found flying => ?_, fun submission member => ?_⟩
  · change machine.pending.get? other = _ at flying
    by_cases same : other = sid
    · subst same
      rw [table, Dict.get_set_self, Option.some.injEq] at flying
      subst flying
      refine ⟨world.asked.length, ⟨other, request, link⟩, ⟨Function.update_self _ _ _,
        List.getElem?_concat_length, rfl, named.symm, routed,
        (blank.entry _ (le_refl _)).2.2, ?_⟩⟩
      change (world.answers world.asked.length).flatMap ServerFrame.payload =
        _ ++ remains (rests link) _
      rw [blank.silent, empty, remains, List.filter_eq_nil_iff.mpr]
      · rfl
      · intro sent member
        rw [decide_eq_true_eq]
        exact blank.unseen sound member
    · rw [table, Dict.get_set_other _ same] at flying
      obtain ⟨tag, submission, tenant⟩ := sound.tenants other found flying
      exact ⟨tag, submission, ⟨(Function.update_of_ne same _ _).trans tenant.live,
        asked_before tenant.asked, tenant.named, tenant.request, tenant.routed, tenant.present,
        tenant.bytes⟩⟩
  · rcases List.mem_append.mp member with earlier | new
    · exact sound.routes submission earlier
    · rw [List.mem_singleton.mp new]
      exact designated

end Issue

theorem enqueue_frame (request : Request) (sid : Nat) (path : Text) (arriveOnPath : Bool)
    (frame : Bytes) (machine : Machine Body) :
    let queued := Machine.enqueue request sid path arriveOnPath frame machine
    queued.state = machine.state ∧ queued.free = machine.free ∧
      queued.framers = machine.framers := by
  unfold Machine.enqueue
  dsimp only
  split_ifs <;> exact ⟨rfl, rfl, rfl⟩

theorem answer_link_cases (request : Request) (arriveOnPath : Bool) :
    answerLink request arriveOnPath = 0 ∨ answerLink request arriveOnPath = request.pathid := by
  unfold answerLink
  split_ifs
  · exact .inr rfl
  · exact .inl rfl

variable [Exchange Body] (installation : Installation Body)

theorem Sound.submit (sound : Sound world rests) (blank : Blank world) (request : Request)
    (path : Text) (arriveOnPath : Bool) :
    Sound (step installation (.client (.submit request path arriveOnPath)) world) rests := by
  have moved := Machine.submit_move request path arriveOnPath world.machine
  simp only [step, Machine.step] at moved ⊢
  generalize Machine.returned (Machine.submit request path arriveOnPath world.machine) = issued,
    final (Machine.submit request path arriveOnPath world.machine) = after at moved ⊢
  cases moved with
  | refused => exact sound
  | exhausted => exact sound.idle rfl rfl rfl (fun _ => rfl)
  | raised acquired =>
      obtain ⟨-, distinct, others⟩ := sound.spare.acquired acquired
      exact sound.keep sound.ready ⟨distinct, fun other member => (others other member).2⟩
        (fun _ => rfl) (fun place => (sound.links place).same rfl rfl rfl)
        (fun place => List.suffix_refl _) (fun _ _ => rfl)
  | @issued sid free next frame signer ready acquired made =>
      obtain ⟨absent, distinct, others⟩ := sound.spare.acquired acquired
      have table := (Machine.enqueue_table request sid path arriveOnPath frame
        { world.machine with free := free, nextSid := next, signer := signer }).2
      obtain ⟨state, kept, framers⟩ := enqueue_frame request sid path arriveOnPath frame
        { world.machine with free := free, nextSid := next, signer := signer }
      refine sound.issued blank (state.trans ready) ⟨?_, fun other member => ?_⟩ absent table
        (fun place => ?_) rfl rfl rfl (answer_link_cases request arriveOnPath)
      · rw [kept]
        exact distinct
      · rw [kept] at member
        rw [table, Dict.get_set_other _ (others other member).1]
        exact (others other member).2
      · rw [Machine.framer, framers]
        rfl

omit [Exchange Body] in
theorem Sound.holder (sound : Sound world rests) {sid : Nat} {pending : Pending}
    (flying : world.machine.pending.get? sid = some pending) :
    ∃ tag submission, Tenant world rests sid pending tag submission ∧
      World.holder world sid = some (tag, submission) := by
  obtain ⟨tag, submission, tenant⟩ := sound.tenants sid pending flying
  refine ⟨tag, submission, tenant, ?_⟩
  rw [World.holder, tenant.live, Option.bind_some, tenant.asked, Option.map_some]

omit [Exchange Body] in
theorem Sound.resent (sound : Sound world rests) {sid tag : Nat} {pending : Pending}
    {submission : Submission} (flying : world.machine.pending.get? sid = some pending)
    (tenant : Tenant world rests sid pending tag submission)
    (quiet : ¬Due world rests tag submission) :
    Sound { world with
      receipts := Function.update world.receipts tag (world.receipts tag + 1)
      standing := Function.update world.standing tag .asked } rests := by
  refine ⟨sound.ready, sound.spare, fun place => ?_, fun other second asked here => ?_,
    fun found held flies => ?_, sound.routes⟩
  · obtain ⟨reads, logged, tags, collects⟩ := sound.links place
    exact ⟨reads, logged, tags, collects⟩
  · have before := sound.accounts other second asked here
    by_cases same : other = tag
    · subst same
      rw [tenant.asked, Option.some.injEq] at asked
      subst asked
      refine ⟨?_, fun _ => ⟨?_, pending, ?_⟩, fun told => absurd (Function.update_self _ _ _) told,
        fun first sent later shape marked => ?_⟩
      · have paid : ¬world.owes other = true := fun owed => quiet (.inl owed)
        rw [owes, decide_eq_true_eq] at paid
        change Function.update world.receipts other _ other ≤ (world.answers other).countP _ + 1
        rw [Function.update_self]
        omega
      · rw [tenant.named]
        exact tenant.live
      · rw [tenant.named]
        exact flying
      · exact absurd (Or.inr ⟨sent, by rw [shape]; simp, marked⟩) quiet
    · have owed : owes { world with
          receipts := Function.update world.receipts tag (world.receipts tag + 1)
          standing := Function.update world.standing tag .asked } other = world.owes other := by
        change decide (_ < Function.update world.receipts tag _ other) = _
        rw [Function.update_of_ne same]
        rfl
      refine ⟨?_, fun due => before.holds ?_, fun told due => before.settled ?_ ?_,
        fun first sent later shape marked closes => ?_⟩
      · change Function.update world.receipts tag _ other ≤ _
        rw [Function.update_of_ne same]
        exact before.once
      · rwa [Due, owed] at due
      · change Function.update world.standing tag _ other ≠ _ at told
        rwa [Function.update_of_ne same] at told
      · rwa [Due, owed] at due
      · rw [owed]
        exact before.last first sent later shape marked closes
  · obtain ⟨owner, second, kept⟩ := sound.tenants found held flies
    exact ⟨owner, second, ⟨kept.live, kept.asked, kept.named, kept.request, kept.routed,
      kept.present, kept.bytes⟩⟩

omit [Exchange Body] in
theorem Sound.quiet (sound : Sound world rests) {sid tag : Nat} {pending : Pending}
    {submission : Submission} (tenant : Tenant world rests sid pending tag submission)
    (told : world.standing tag ≠ .asked) : ¬Due world rests tag submission :=
  (sound.accounts tag submission tenant.asked tenant.present).settled told

theorem Sound.resume (sound : Sound world rests) {sid : Nat}
    (waits : world.machine.pending.contains sid = true →
      ∃ held, World.holder world sid = some held ∧ world.standing held.1 = .waits) :
    Sound (step installation (.client (.resume sid)) world) rests := by
  have moved := Machine.resume_move sid world.machine
  simp only [step, Machine.step]
  generalize final (Machine.resume sid world.machine) = after at moved ⊢
  cases moved with
  | refused absent =>
      have unknown : world.machine.pending.contains sid = false := by
        simp [Dict.contains, absent]
      rw [unknown]
      exact sound
  | resent pending found =>
      have known : world.machine.pending.contains sid = true := by
        simp [Dict.contains, found]
      obtain ⟨tag, submission, tenant, held⟩ := sound.holder found
      obtain ⟨_, same, told⟩ := waits known
      rw [held, Option.some.injEq] at same
      subst same
      have quiet := sound.quiet tenant (by rw [told]; decide)
      have again := sound.resent found tenant quiet
      rw [if_pos known, tenant.live]
      dsimp only
      split_ifs
      · exact again.idle rfl rfl rfl (fun _ => rfl)
      · exact again.idle rfl rfl rfl (fun _ => rfl)

omit [Exchange Body] in
theorem Sound.sheds (sound : Sound world rests) {machine : Machine Body} {wire : Nat → Bytes}
    {lost : Nat → Bool} (ready : machine.state = .READY) (spare : Spare machine)
    (fewer : ∀ sid pending, machine.pending.get? sid = some pending →
      world.machine.pending.get? sid = some pending ∧
      ∀ tag submission, Tenant world rests sid pending tag submission → lost tag = false)
    (stays : ∀ tag submission, world.asked[tag]? = some submission → lost tag = false →
      world.lost tag = false ∧ left submission.link = rests submission.link ∧
      (Due world rests tag submission →
        machine.pending.get? submission.sid = world.machine.pending.get? submission.sid))
    (places : ∀ place, (left place = [] ∧ machine.framer place = {} ∧ wire place = []) ∨
      (left place = rests place ∧ machine.framer place = world.machine.framer place ∧
        wire place = world.wire place ∧
        ∀ tag submission, world.asked[tag]? = some submission → submission.link = place →
          world.lost tag = false → lost tag = false)) :
    Sound { world with machine := machine, wire := wire, lost := lost } left := by
  refine ⟨ready, spare, fun place => ?_, fun tag submission asked here => ?_,
    fun sid pending flying => ?_, sound.routes⟩
  · rcases places place with ⟨none, cursor, silent⟩ | ⟨same, cursor, way, there⟩
    · rw [none]
      refine ⟨?_, by simp, by simp, ?_⟩
      · change Reads (wire place) [] (machine.framer place)
        rw [cursor, silent]
        exact .between _ rfl rfl rfl
      · change (machine.framer place).needTrailer ≠ 0 → _
        rw [cursor]
        exact fun nonzero => absurd rfl nonzero
    · obtain ⟨reads, logged, tags, collects⟩ := sound.links place
      have kept : ∀ sent ∈ rests place,
          Tagged { world with machine := machine, wire := wire, lost := lost } place sent := by
        intro sent member
        have known := tags sent member
        rw [Tagged] at known ⊢
        split at known
        · exact known
        · obtain ⟨submission, inner, body, asked, put, here, rest⟩ := known
          exact ⟨submission, inner, body, asked, put, there _ _ asked put here, rest⟩
      rw [same]
      refine ⟨?_, logged, kept, ?_⟩
      · change Reads (wire place) _ (machine.framer place)
        rw [cursor, way]
        exact reads
      · change (machine.framer place).needTrailer ≠ 0 → _
        rw [cursor]
        intro nonzero
        obtain ⟨first, rest, other, inner, body, info, found, shape, marked, content, status,
          parsed, owner, flying, recorded⟩ := collects nonzero
        have member : first ∈ rests place := by simp [shape]
        have known := kept first member
        rw [Tagged, marked] at known
        obtain ⟨submission, inner', body', asked, put, here, content', named⟩ := known
        rw [content] at content'
        cases content'
        refine ⟨first, rest, other, inner, body, info, found, shape, marked, content, status,
          parsed, owner, ?_, recorded⟩
        change machine.pending.get? _ = _
        rw [named, (stays other submission asked here).2.2
          (.inr ⟨first, by rw [put]; exact member, marked⟩), ← named]
        exact flying
  · obtain ⟨before, same, kept⟩ := stays tag submission asked here
    have account := sound.accounts tag submission asked before
    have earlier : Due { world with machine := machine, wire := wire, lost := lost } left tag
        submission → Due world rests tag submission := by
      rw [Due, Due, same]
      exact id
    refine ⟨account.once, fun due => ?_, fun told due => account.settled told (earlier due), ?_⟩
    · obtain ⟨live, pending, flying⟩ := account.holds (earlier due)
      exact ⟨live, pending, (kept (earlier due)).trans flying⟩
    · rw [same]
      exact account.last
  · obtain ⟨held, there⟩ := fewer sid pending flying
    obtain ⟨tag, submission, tenant⟩ := sound.tenants sid pending held
    have here := there tag submission tenant
    refine ⟨tag, submission, ⟨tenant.live, tenant.asked, tenant.named, tenant.request,
      tenant.routed, here, ?_⟩⟩
    rw [(stays tag submission tenant.asked here).2.1]
    exact tenant.bytes

theorem Sound.release (sound : Sound world rests) {sid : Nat}
    (redirected : world.machine.pending.contains sid = true →
      ∃ held, World.holder world sid = some held ∧ world.standing held.1 = .redirected) :
    Sound (step installation (.client (.release sid)) world) rests := by
  have table : (Machine.release sid world.machine).pending = world.machine.pending.erase sid :=
    Machine.release_pending sid world.machine
  have frame := Machine.release_frame sid world.machine
  refine sound.sheds ?_ (sound.spare.release sid) (fun other pending flying => ?_)
    (fun tag submission asked here => ⟨here, rfl, fun due => ?_⟩)
    (fun place => .inr ⟨rfl, ?_, rfl, fun _ _ _ _ here => here⟩)
  · change (Machine.release sid world.machine).state = _
    rw [frame]
    exact sound.ready
  · change (Machine.release sid world.machine).pending.get? other = _ at flying
    rw [table, Dict.get_erase] at flying
    split_ifs at flying
    exact ⟨flying, fun _ _ tenant => tenant.present⟩
  · change (Machine.release sid world.machine).pending.get? submission.sid = _
    rw [table, Dict.get_erase]
    split_ifs with same
    · obtain ⟨live, pending, flying⟩ := (sound.accounts tag submission asked here).holds due
      rw [same] at live flying
      obtain ⟨owner, second, tenant, held⟩ := sound.holder flying
      obtain ⟨_, known, told⟩ := redirected (by simp [Dict.contains, flying])
      rw [held, Option.some.injEq] at known
      subst known
      have itself : owner = tag := Option.some.inj (tenant.live.symm.trans live)
      subst itself
      have recorded := tenant.asked
      rw [asked, Option.some.injEq] at recorded
      subst recorded
      exact absurd due (sound.quiet tenant (by rw [told]; decide))
    · rfl
  · change (Machine.release sid world.machine).framer place = _
    rw [frame]
    rfl

omit [Exchange Body] in
theorem Spare.release_all {machine : Machine Body} (spare : Spare machine)
    (streams : List (Nat × Pending)) :
    Spare (streams.foldl (fun machine entry => Machine.release entry.1 machine) machine) := by
  induction streams generalizing machine with
  | nil => exact spare
  | cons entry rest induction => exact induction (spare.release entry.1)

omit [Exchange Body] in
theorem Sound.drop (sound : Sound world rests) {link : Nat} (path : link ≠ 0)
    (due : ∀ sid ∈ (Machine.streamsOn link world.machine).map Prod.fst,
      ∃ held, World.holder world sid = some held ∧ held.2.link = link)
    {machine : Machine Body} (ready : machine.state = .READY) (spare : Spare machine)
    (table : ∀ sid, machine.pending.get? sid =
      if sid ∈ (Machine.streamsOn link world.machine).map Prod.fst then none
      else world.machine.pending.get? sid)
    (gone : machine.framer link = {})
    (cursors : ∀ place, place ≠ link → machine.framer place = world.machine.framer place) :
    Sound (World.drop link { world with machine := machine })
      (Function.update rests link []) := by
  have elsewhere : ∀ tag submission, world.asked[tag]? = some submission →
      submission.link ≠ link → world.lost tag = false →
      (world.lost tag || (world.asked[tag]?).any fun submission => submission.link = link) =
        false := by
    intro tag submission asked apart here
    simp [asked, here, apart]
  refine sound.sheds ready spare (fun sid pending flying => ?_)
    (fun tag submission asked here => ?_) (fun place => ?_)
  · rw [table] at flying
    split_ifs at flying with listed
    refine ⟨flying, fun tag submission tenant => ?_⟩
    refine elsewhere tag submission tenant.asked ?_ tenant.present
    rcases sound.routes submission (List.mem_of_getElem? tenant.asked) with control | named
    · rw [control]
      exact Ne.symm path
    · rw [named, ← tenant.routed]
      intro routed
      exact listed ((Machine.mem_streams_on link sid world.machine).mpr ⟨pending, flying, routed⟩)
  · simp only [asked, Option.any_some, Bool.or_eq_false_iff, decide_eq_false_iff_not] at here
    obtain ⟨before, apart⟩ := here
    refine ⟨before, Function.update_of_ne apart _ _, fun soon => ?_⟩
    rw [table]
    split_ifs with listed
    · obtain ⟨_, held, placed⟩ := due _ listed
      have live := ((sound.accounts tag submission asked before).holds soon).1
      rw [World.holder, live, Option.bind_some, asked, Option.map_some, Option.some.injEq] at held
      subst held
      exact absurd placed apart
    · rfl
  · by_cases here : place = link
    · subst here
      exact .inl ⟨Function.update_self _ _ _, gone, Function.update_self _ _ _⟩
    · refine .inr ⟨Function.update_of_ne here _ _, cursors place here,
        Function.update_of_ne here _ _, fun tag submission asked put present => ?_⟩
      exact elsewhere tag submission asked (by rw [put]; exact here) present

theorem Sound.forget_path (sound : Sound world rests) {link : Nat} (path : link ≠ 0)
    (due : ∀ sid ∈ (Machine.streamsOn link world.machine).map Prod.fst,
      ∃ held, World.holder world sid = some held ∧ held.2.link = link) :
    Sound (step installation (.client (.forgetPath link)) world)
      (Function.update rests link []) := by
  have frame := Machine.forget_path_frame link world.machine
  have spare := sound.spare.release_all (Machine.streamsOn link world.machine)
  refine sound.drop path due ?_ ⟨spare.distinct, spare.absent⟩
    (fun sid => Machine.forget_path_pending link sid world.machine) ?_
    (fun place apart => Machine.forget_path_cursor_other apart world.machine)
  · change (Machine.forgetPath link world.machine).state = _
    rw [frame]
    exact sound.ready
  · change (Machine.forgetPath link world.machine).framer link = _
    rw [frame, Machine.framer, Dict.getD, Dict.get_erase_self, Option.getD_none]

omit [Exchange Body] in
theorem eof_path {link : Nat} (path : link ≠ 0) (machine : Machine Body) :
    ∃ held events, held.pending = machine.pending ∧ held.free = machine.free ∧
      held.state = machine.state ∧
      Machine.eof link machine = { Machine.forgetPath link held with events := events } ∧
      ∃ news, events = machine.events ++ news ∧
        ∀ event ∈ news, (∃ sid request reason,
          event = .failed (some sid) (some request) (.connectionError reason)) ∨
          ∃ reason, event = .pathLost link reason := by
  let reason := str "data path " ++ Text.ofNat link ++ str " closed by peer"
  let failed := (Machine.streamsOn link machine).map fun entry =>
    Event.failed (some entry.1) (some entry.2.request) (.connectionError reason)
  let held := { machine with
    framers := machine.framers.setDefault link {}
    events := machine.events ++ failed }
  have shape : Machine.eof link machine = { Machine.forgetPath link held with
      events := (Machine.forgetPath link held).events ++ [.pathLost link reason] } := if_neg path
  refine ⟨held, _, rfl, rfl, rfl, shape, failed ++ [.pathLost link reason], ?_, ?_⟩
  · rw [Machine.forget_path_frame]
    exact List.append_assoc _ _ _
  · intro event member
    rcases List.mem_append.mp member with listed | lost
    · obtain ⟨entry, -, rfl⟩ := List.mem_map.mp listed
      exact .inl ⟨_, _, _, rfl⟩
    · exact .inr ⟨_, List.mem_singleton.mp lost⟩

theorem Sound.eof (sound : Sound world rests) {link : Nat} (path : link ≠ 0)
    (due : ∀ sid ∈ (Machine.streamsOn link world.machine).map Prod.fst,
      ∃ held, World.holder world sid = some held ∧ held.2.link = link) :
    Sound (step installation (.client (.eof link)) world) (Function.update rests link []) := by
  obtain ⟨held, events, table, free, state, shape, -⟩ := eof_path path world.machine
  have streams : Machine.streamsOn link held = Machine.streamsOn link world.machine := by
    rw [Machine.streamsOn, table]
    rfl
  have spare : Spare held := ⟨by rw [free]; exact sound.spare.distinct,
    by rw [free, table]; exact sound.spare.absent⟩
  have released := spare.release_all (Machine.streamsOn link held)
  refine sound.drop path due ?_ ?_ (fun sid => ?_) ?_
    (fun place apart => Machine.eof_cursor_other apart world.machine)
  · change (Machine.eof link world.machine).state = _
    rw [shape, Machine.forget_path_frame]
    exact state.trans sound.ready
  · change Spare (Machine.eof link world.machine)
    rw [shape]
    exact ⟨released.distinct, released.absent⟩
  · change (Machine.eof link world.machine).pending.get? sid = _
    rw [shape, ← streams, ← table]
    exact Machine.forget_path_pending link sid held
  · change (Machine.eof link world.machine).framer link = _
    rw [shape, Machine.forget_path_frame]
    change (Dict.erase _ link).getD link _ = _
    rw [Dict.getD, Dict.get_erase_self, Option.getD_none]

omit [Exchange Body] in
theorem told_later {live : Nat → Option Nat} {count : Nat}
    (issued : ∀ sid tag, live sid = some tag → tag < count) {tag : Nat} (later : count ≤ tag)
    (events : List Event) (standing : Nat → Standing) :
    events.foldl (told live) standing tag = standing tag := by
  have made : ∀ sid owner mark, live sid = some owner →
      ∀ standing : Nat → Standing, Function.update standing owner mark tag = standing tag := by
    intro sid owner mark known standing
    have earlier := issued sid owner known
    exact Function.update_of_ne (by omega) _ _
  induction events generalizing standing with
  | nil => rfl
  | cons event rest induction =>
      rw [List.foldl_cons, induction]
      unfold told
      split
      · next sid _ _ _ =>
          cases known : live sid with
          | none => rfl
          | some owner => exact made sid owner .waits known standing
      · next sid _ _ =>
          cases known : live sid with
          | none => rfl
          | some owner => exact made sid owner .redirected known standing
      · rfl

omit [Exchange Body] in
theorem Blank.drop (blank : Blank world) (link : Nat) (machine : Machine Body) :
    Blank (World.drop link { world with machine := machine }) := by
  refine ⟨blank.issued, blank.unsent, fun tag later => ?_⟩
  obtain ⟨received, stands, here⟩ := blank.entry tag later
  refine ⟨received, stands, ?_⟩
  have unasked : world.asked[tag]? = none := List.getElem?_eq_none later
  change (world.lost tag || (world.asked[tag]?).any _) = false
  rw [here, unasked]
  rfl

/-- Every client move, and every frame for a submission that has been made, keeps
the ledger. -/
theorem Blank.step (blank : Blank world) (move : WorldMove)
    (known : ∀ sent, move = .server sent → ∀ tag, sent.tag = some tag → tag < world.asked.length) :
    Blank (World.step installation move world) := by
  cases move with
  | server sent =>
      refine ⟨blank.issued, fun other member tag tagged => ?_, blank.entry⟩
      rcases List.mem_append.mp member with earlier | new
      · exact blank.unsent other earlier tag tagged
      · rw [List.mem_singleton.mp new] at tagged
        exact known sent rfl tag tagged
  | client move =>
      have moved : ∀ machine : Machine Body, Blank { world with machine := machine } :=
        fun machine => ⟨blank.issued, blank.unsent, blank.entry⟩
      cases move with
      | submit request path arriveOnPath =>
          simp only [World.step]
          split
          · exact moved _
          · next sid _ =>
              have one : (world.asked ++
                  [Submission.mk sid request (answerLink request arriveOnPath)]).length =
                    world.asked.length + 1 := List.length_append
              have longer : ∀ tag, tag < world.asked.length → tag < (world.asked ++
                  [Submission.mk sid request (answerLink request arriveOnPath)]).length := by
                intro tag earlier
                rw [one]
                exact Nat.lt_succ_of_lt earlier
              refine ⟨fun other tag live => ?_, fun sent member tag tagged => ?_,
                fun tag later => blank.entry tag ?_⟩
              · change Function.update world.live sid _ other = _ at live
                by_cases same : other = sid
                · rw [same, Function.update_self, Option.some.injEq] at live
                  rw [← live]
                  exact (Nat.lt_succ_self _).trans_eq one.symm
                · rw [Function.update_of_ne same] at live
                  exact longer tag (blank.issued other tag live)
              · exact longer tag (blank.unsent sent member tag tagged)
              · by_contra earlier
                exact absurd (longer tag (Nat.lt_of_not_le earlier)) (Nat.not_lt.mpr later)
      | resume sid =>
          simp only [World.step]
          split
          · split
            · next tag live =>
                have issued := blank.issued sid tag live
                refine ⟨blank.issued, blank.unsent, fun other later => ?_⟩
                obtain ⟨received, stands, here⟩ := blank.entry other later
                have different : other ≠ tag := by
                  rintro rfl
                  exact absurd issued (Nat.not_lt.mpr later)
                refine ⟨?_, ?_, here⟩
                · exact (Function.update_of_ne different _ _).trans received
                · exact (Function.update_of_ne different _ _).trans stands
            · exact moved _
          · exact moved _
      | turn link =>
          refine ⟨blank.issued, blank.unsent, fun tag later => ?_⟩
          obtain ⟨received, stands, here⟩ := blank.entry tag later
          exact ⟨received, (told_later blank.issued later _ _).trans stands, here⟩
      | feed data link => exact ⟨blank.issued, blank.unsent, blank.entry⟩
      | forgetPath link | eof link => exact blank.drop link _
      | start | release | close | tlsEstablished | dataToSend | pathDataToSend | nextEvent =>
          exact moved _

omit [Exchange Body] in
theorem lawful_sent {after : World Body} {sent : Sent}
    (lawful : World.lawful ⟨world, .server sent, after⟩ = true) : Lawful world sent := by
  unfold World.lawful at lawful
  cases marked : sent.tag with
  | none =>
      simp only [Lawful, marked] at lawful ⊢
      split at lawful
      · next info opened => exact ⟨info, opened⟩
      · cases lawful
  | some tag =>
      simp only [Lawful, marked] at lawful ⊢
      split at lawful
      · next submission inner body asked opened =>
          simp only [Bool.and_eq_true, decide_eq_true_eq, Bool.not_eq_true'] at lawful
          obtain ⟨⟨⟨link, here⟩, owed⟩, named⟩ := lawful
          exact ⟨submission, inner, body, asked, link, here, owed, opened, named⟩
      · cases lawful

omit [Exchange Body] in
theorem Lawful.asked {sent : Sent} (known : Lawful world sent) {tag : Nat}
    (tagged : sent.tag = some tag) : tag < world.asked.length := by
  rw [Lawful, tagged] at known
  obtain ⟨_, _, _, asked, -⟩ := known
  exact (List.getElem?_eq_some_iff.mp asked).1

omit [Exchange Body] in
theorem guarded {sid : Nat} {test : Nat × Submission → Bool}
    (passed : (!world.machine.pending.contains sid || (World.holder world sid).any test) = true)
    (known : world.machine.pending.contains sid = true) :
    ∃ held, World.holder world sid = some held ∧ test held = true := by
  rw [known] at passed
  exact (Option.any_eq_true test _).mp passed

omit [Exchange Body] in
theorem due_on_path {after : World Body} {link : Nat} {move : Move}
    (drops : move = .eof link ∨ move = .forgetPath link)
    (careful : World.careful ⟨world, .client move, after⟩ = true) :
    ∀ sid ∈ (Machine.streamsOn link world.machine).map Prod.fst,
      ∃ held, World.holder world sid = some held ∧ held.2.link = link := by
  have every : (Machine.streamsOn link world.machine).all (fun stream =>
      (World.holder world stream.1).any fun held => held.2.link = link) = true := by
    rcases drops with rfl | rfl <;> exact careful
  intro sid member
  obtain ⟨stream, listed, rfl⟩ := List.mem_map.mp member
  have found := List.all_eq_true.mp every stream listed
  obtain ⟨held, same, placed⟩ := (Option.any_eq_true _ _).mp found
  exact ⟨held, same, of_decide_eq_true placed⟩

def Kept (world : World Body) : Prop := (∃ rests, Sound world rests) ∧ Blank world

theorem step_machine (move : Move) : (World.step installation (.client move) world).machine =
    Machine.step installation move world.machine := by
  cases move <;> simp only [World.step, World.drop]
  · split <;> rfl
  · split
    · split <;> rfl
    · rfl

theorem unreported {move : Move} (fewer :
    (Machine.step installation move world.machine).events.length ≤ world.machine.events.length) :
    ∀ event ∈ news ⟨world, .client move, World.step installation (.client move) world⟩,
      Paired world event := by
  intro event member
  change event ∈ (World.step installation (.client move) world).machine.events.drop _ at member
  rw [step_machine, List.drop_eq_nil_of_le fewer] at member
  cases member

theorem step_events (move : Move) (quiet : match move with
      | .submit _ _ _ | .resume _ | .release _ | .feed _ _ | .forgetPath _ | .dataToSend
      | .pathDataToSend _ | .nextEvent => True
      | _ => False) (machine : Machine Body) :
    (Machine.step installation move machine).events.length ≤ machine.events.length := by
  cases move with
  | submit request path arriveOnPath =>
      exact le_of_eq (congrArg List.length
        (Machine.submit_move request path arriveOnPath machine).reports.1)
  | resume sid =>
      have moved := Machine.resume_move sid machine
      change (final (Machine.resume sid machine)).events.length ≤ _
      generalize final (Machine.resume sid machine) = after at moved ⊢
      cases moved with
      | refused => exact le_refl _
      | resent => split_ifs <;> exact le_refl _
  | release sid =>
      change (Machine.release sid machine).events.length ≤ _
      rw [Machine.release_frame]
  | forgetPath link =>
      change (Machine.forgetPath link machine).events.length ≤ _
      rw [Machine.forget_path_frame]
  | nextEvent => exact le_of_eq_of_le List.length_tail (Nat.sub_le _ _)
  | feed | dataToSend | pathDataToSend => exact le_refl _
  | start | close | tlsEstablished | turn | eof => cases quiet

/-- A move of a careful client or of a lawful server keeps the invariant, and every
event it reports is paired. -/
theorem Kept.step (kept : Kept world) (move : WorldMove)
    (lawful : World.lawful ⟨world, move, World.step installation move world⟩ = true)
    (careful : World.careful ⟨world, move, World.step installation move world⟩ = true) :
    Kept (World.step installation move world) ∧
      ∀ event ∈ news ⟨world, move, World.step installation move world⟩, Paired world event := by
  obtain ⟨⟨rests, sound⟩, blank⟩ := kept
  cases move with
  | server sent =>
      have known := lawful_sent lawful
      refine ⟨⟨⟨_, sound.sends known⟩, blank.step installation _ ?_⟩, fun event member => ?_⟩
      · rintro other same tag tagged
        cases same
        exact known.asked tagged
      · cases member
  | client move =>
      have ledger := blank.step installation (.client move) (fun _ same => by cases same)
      cases move with
      | start | close | tlsEstablished => cases lawful
      | submit request path arriveOnPath =>
          exact ⟨⟨⟨_, sound.submit installation blank request path arriveOnPath⟩, ledger⟩,
            unreported installation (step_events installation _ trivial _)⟩
      | resume sid =>
          have waits := guarded careful
          refine ⟨⟨⟨_, sound.resume installation fun known => ?_⟩, ledger⟩,
            unreported installation (step_events installation _ trivial _)⟩
          obtain ⟨held, found, told⟩ := waits known
          exact ⟨held, found, of_decide_eq_true told⟩
      | release sid =>
          have gone := guarded lawful
          refine ⟨⟨⟨_, sound.release installation fun known => ?_⟩, ledger⟩,
            unreported installation (step_events installation _ trivial _)⟩
          obtain ⟨held, found, told⟩ := gone known
          exact ⟨held, found, of_decide_eq_true told⟩
      | feed data link =>
          have next : data <+: world.wire link := List.isPrefixOf_iff_prefix.mp lawful
          exact ⟨⟨⟨_, sound.feed next⟩, ledger⟩,
            unreported installation (step_events installation _ trivial _)⟩
      | forgetPath link =>
          have due := due_on_path (.inr rfl) careful
          exact ⟨⟨⟨_, sound.forget_path installation (of_decide_eq_true lawful) due⟩, ledger⟩,
            unreported installation (step_events installation _ trivial _)⟩
      | dataToSend | pathDataToSend | nextEvent =>
          exact ⟨⟨⟨_, sound.idle rfl rfl rfl (fun _ => rfl)⟩, ledger⟩,
            unreported installation (step_events installation _ trivial _)⟩
      | turn link =>
          obtain ⟨after, paired⟩ := sound.turn installation link
          exact ⟨⟨after, ledger⟩, paired⟩
      | eof link =>
          have path : link ≠ 0 := of_decide_eq_true lawful
          have due := due_on_path (.inl rfl) careful
          refine ⟨⟨⟨_, sound.eof installation path due⟩, ledger⟩, fun event member => ?_⟩
          obtain ⟨held, events, -, -, -, shape, fresh, queued, only⟩ :=
            eof_path path world.machine
          change event ∈ (Machine.eof link world.machine).events.drop _ at member
          rw [shape] at member
          dsimp only at member
          rw [queued, List.drop_left] at member
          rcases only event member with ⟨sid, request, reason, rfl⟩ | ⟨reason, rfl⟩
          · exact .inl ⟨reason, .inr rfl⟩
          · trivial

omit [Exchange Body] in
/-- A session that is up, with nothing in flight and nothing half read. -/
def idle (machine : Machine Body) : Bool :=
  machine.state = .READY && machine.pending.entries.isEmpty && machine.free.isEmpty &&
    machine.framers.entries.all fun entry => entry.2 = {}

omit [Exchange Body] in
theorem idle_kept {machine : Machine Body} (fresh : idle machine = true) :
    Kept { machine := machine } := by
  simp only [idle, Bool.and_eq_true, decide_eq_true_eq, List.isEmpty_iff, List.all_eq_true] at fresh
  obtain ⟨⟨⟨ready, empty⟩, free⟩, cursors⟩ := fresh
  have absent : ∀ sid, machine.pending.get? sid = none := by
    intro sid
    cases found : machine.pending.get? sid with
    | none => rfl
    | some pending =>
        have listed := (Dict.get_eq_some _ _ _).mp found
        rw [empty] at listed
        cases listed
  have quiet : ∀ link, machine.framer link = {} := by
    intro link
    rw [Machine.framer, Dict.getD]
    cases found : machine.framers.get? link with
    | none => rfl
    | some framer => exact cursors _ ((Dict.get_eq_some _ _ _).mp found)
  refine ⟨⟨fun _ => [], ready, ⟨by rw [free]; exact List.nodup_nil, by rw [free]; simp⟩,
    fun link => ⟨?_, by simp, by simp, ?_⟩, by simp, fun sid pending flying => ?_, by simp⟩,
    by simp, by simp, fun _ _ => ⟨rfl, rfl, rfl⟩⟩
  · change Reads [] [] (machine.framer link)
    rw [quiet]
    exact .between _ rfl rfl rfl
  · change (machine.framer link).needTrailer ≠ 0 → _
    rw [quiet]
    exact fun nonzero => absurd rfl nonzero
  · rw [absent sid] at flying
    cases flying

/-- In every run of a lawful server and a careful client, from an idle session,
every event is paired with the submission it answers. -/
theorem answers_paired {machine : Machine Body} (fresh : idle machine = true) (deeds : List Deed)
    (lawful : ∀ entry ∈ traced installation deeds { machine := machine },
      World.lawful entry = true)
    (careful : ∀ entry ∈ traced installation deeds { machine := machine },
      World.careful entry = true) :
    ∀ entry ∈ traced installation deeds { machine := machine },
      ∀ event ∈ news entry, Paired entry.before event := by
  intro entry member event told
  have kept : Kept entry.before :=
    history_invariant (World.step installation)
      (fun entry => World.lawful entry = true ∧ World.careful entry = true) Kept
      (fun world move allowed kept => (kept.step installation move allowed.1 allowed.2).1)
      (movesOf installation deeds { machine := machine }) { machine := machine }
      (fun entry inside => ⟨lawful entry inside, careful entry inside⟩) (idle_kept fresh) entry
      member
  obtain ⟨_, _, -, -, stepped⟩ := mem_history _ member
  obtain ⟨before, move, after⟩ := entry
  dsimp only at stepped
  subst stepped
  exact (kept.step installation move (lawful _ member) (careful _ member)).2 event told

end Calls

def acknowledged : ServerFrame where
  header := ⟨firstSid, kXR_ok, 0⟩
  body := []
  data := []
  streamid := by decide
  status := by decide
  dlen := rfl
  bounded := by decide
  behind := by decide

def postponed : ServerFrame where
  header := ⟨firstSid, kXR_wait, 4⟩
  body := [0, 0, 0, 1]
  data := []
  streamid := by decide
  status := by decide
  dlen := rfl
  bounded := by decide
  behind := by decide

/-- A ping is put off, sent again and answered; a read on a path is lost with the
path, whose stream goes to a second ping. -/
theorem answers_paired_past_wait :
    let deeds : List Deed :=
      [.call (.submit Request.Ping [] false), .sends ⟨0, some 0, postponed⟩,
        .call (.receiveData postponed.bytes 0), .call (.resume firstSid),
        .sends ⟨0, some 0, acknowledged⟩, .call (.receiveData acknowledged.bytes 0),
        .call (.submit (Request.Read [0, 0, 0, 1] 0 8 1) [] false), .call (.forgetPath 1),
        .call (.submit Request.Ping [] false), .sends ⟨0, some 2, acknowledged⟩,
        .call (.receiveData acknowledged.bytes 0)]
    let run := traced (Installation.bare OneShot) deeds { machine := Machine.plainMachine }
    (run.flatMap news).length = 3 ∧
      ∀ entry ∈ run, ∀ event ∈ news entry, Paired entry.before event :=
  ⟨by decide +kernel, answers_paired (Installation.bare OneShot) (by decide +kernel) _
    (by decide +kernel) (by decide +kernel)⟩

/-- A write on a path, whose answer is due on the control link, loses its path; a
ping gets its stream, and then the answer to the write. -/
def lateAnswer : List Deed :=
  [.call (.submit (Request.Write [0, 0, 0, 1] 0 [7] 1) [] false), .call (.forgetPath 1),
    .call (.submit Request.Ping [] false), .sends ⟨0, some 0, acknowledged⟩,
    .call (.receiveData acknowledged.bytes 0)]

def pingAnswered (events : List Event) : Bool :=
  match events with
  | [.completed sid request data none] =>
      sid = firstSid && request.typeName = Request.Ping.typeName && data = []
  | _ => false

theorem late_answer_mispaired :
    let run := traced (Installation.bare OneShot) lateAnswer { machine := Machine.plainMachine }
    idle Machine.plainMachine = true ∧ (∀ entry ∈ run, lawful entry = true) ∧
      ∃ entry ∈ run, ∃ event ∈ news entry, ¬Paired entry.before event := by
  refine ⟨by decide +kernel, by decide +kernel, ?_⟩
  have turn : ((traced (Installation.bare OneShot) lateAnswer
      { machine := Machine.plainMachine })[5]?).any (fun entry =>
        pingAnswered (news entry) &&
        (entry.before.asked.map fun submission => submission.request.typeName) =
          [str "Write", str "Ping"] &&
        (entry.before.answers 1).isEmpty) = true := by decide +kernel
  obtain ⟨entry, found, facts⟩ := (Option.any_eq_true _ _).mp turn
  simp only [Bool.and_eq_true, decide_eq_true_eq, List.isEmpty_iff] at facts
  obtain ⟨⟨event, names⟩, silent⟩ := facts
  unfold pingAnswered at event
  split at event
  · next sid request data same =>
      simp only [Bool.and_eq_true, decide_eq_true_eq] at event
      obtain ⟨⟨-, pinged⟩, -⟩ := event
      refine ⟨entry, List.mem_of_getElem? found, .completed sid request data none, ?_, ?_⟩
      · rw [same]
        exact List.mem_singleton_self _
      · rintro ⟨tag, submission, -, asked, -, equal, -, frame, answer, -⟩
        have named : (entry.before.asked.map fun submission =>
            submission.request.typeName)[tag]? = some Request.Ping.typeName := by
          rw [List.getElem?_map, asked, Option.map_some, equal, pinged]
        rw [names] at named
        rcases tag with _ | _ | tag
        · exact absurd named (by decide)
        · rw [silent] at answer
          cases answer
        · cases named
  · cases event

end XRootDClient.Proto.World
