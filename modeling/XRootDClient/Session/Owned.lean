import XRootDClient.Session.Ledger

/-!
# Whose answer a call returns

While a call waits, what it is told of its stream was sent in answer to its own submission, in
order, and it resends and releases only when told to. Events of other streams are parked, and
stay parked when their call is long gone. As long as no answer of an abandoned call ends while
a later call waits, what is parked belongs to streams still in flight, whose ids are not given
out; so every call starts with nothing parked for its id, and returns its own answer.
-/

set_option autoImplicit false

namespace XRootDClient.Proto.World

open Lib Lib.BigEndian Lib.Stateful Lib.Run Auth

variable {Body : Type}

theorem Documented.fewer {before after : World Body} (documented : Documented before)
    (alike : Alike before after)
    (fewer : ∀ sid pending, after.machine.pending.get? sid = some pending →
      before.machine.pending.get? sid = some pending) : Documented after := by
  intro sid pending info found status
  obtain ⟨tag, live, sent⟩ := documented sid pending info (fewer sid pending found) status
  refine ⟨tag, by rw [alike.live]; exact live, ?_⟩
  rw [Documents, alike.answers]
  exact sent

end XRootDClient.Proto.World

namespace XRootDClient.Proto

open Lib Lib.BigEndian Lib.Stateful Lib.Run Auth

variable {Body : Type}

def Call.reads : Call → Bool
  | .dataToSend | .pathDataToSend _ | .nextEvent => true
  | _ => false

namespace World

variable [Exchange Body] (installation : Installation Body)

theorem read_done {call : Call} (reads : call.reads = true) (world : World Body) :
    done installation [.call call] world =
      { world with machine := Machine.perform installation call world.machine } ∧
    (Machine.perform installation call world.machine).pending = world.machine.pending := by
  rw [done_one]
  cases call with
  | dataToSend | pathDataToSend | nextEvent => exact ⟨rfl, rfl⟩
  | start | submit | resume | release | close | tlsEstablished | receiveData | forgetPath =>
      cases reads

theorem reads_done {calls : List Call} (reads : ∀ call ∈ calls, call.reads = true)
    {world : World Body} (kept : Kept world) :
    let after := done installation (calls.map .call) world
    Kept after ∧ after.machine.pending = world.machine.pending ∧
      after = { world with machine := Machine.after installation calls world.machine } := by
  induction calls generalizing world with
  | nil => exact ⟨kept, rfl, rfl⟩
  | cons call rest induction =>
      obtain ⟨first, others⟩ := List.forall_mem_cons.mp reads
      obtain ⟨shape, pending⟩ := read_done installation first world
      have keeps : Kept (done installation [.call call] world) := by
        rw [done_one]
        cases call with
        | dataToSend => exact (kept.step installation (.client .dataToSend) rfl rfl).1
        | pathDataToSend pathid =>
            exact (kept.step installation (.client (.pathDataToSend pathid)) rfl rfl).1
        | nextEvent => exact (kept.step installation (.client .nextEvent) rfl rfl).1
        | start | submit | resume | release | close | tlsEstablished | receiveData | forgetPath =>
            cases first
      rw [List.map_cons, ← List.singleton_append, done_append]
      obtain ⟨still, same, final⟩ := induction others keeps
      refine ⟨still, ?_, ?_⟩
      · rw [same, shape]
        exact pending
      · rw [final, shape]
        rfl

end World

end XRootDClient.Proto

namespace XRootDClient.Sync

open Lib Lib.BigEndian Lib.Stateful Lib.Run Auth Proto

variable {Body : Type}

namespace Session

theorem flush_path_reads (paths : List Nat) (fault : Option Fault) (machine : Machine Body) :
    ∀ call ∈ flushPathCalls paths fault machine, call.reads = true := by
  induction paths generalizing fault machine with
  | nil => simp [flushPathCalls]
  | cons pathid rest induction =>
      unfold flushPathCalls
      refine List.forall_mem_cons.mpr ⟨rfl, ?_⟩
      cases transmit (Machine.pathDataToSend pathid machine).1 fault with
      | error error => simp
      | ok left => exact induction left _

theorem flush_reads (fault : Option Fault) (session : Session Body) :
    ∀ call ∈ flushCalls fault session, call.reads = true := by
  unfold flushCalls
  refine List.forall_mem_cons.mpr ⟨rfl, ?_⟩
  cases transmit (Machine.dataToSend session.machine).1 fault with
  | error error => simp
  | ok left => exact flush_path_reads _ _ _

variable [Exchange Body] (installation : Installation Body)

theorem flush_path_after (paths : List Nat) (fault : Option Fault) (machine : Machine Body) :
    Machine.after installation (flushPathCalls paths fault machine) machine =
      final (flushPaths paths fault machine) := by
  induction paths generalizing fault machine with
  | nil => rfl
  | cons pathid rest induction =>
      unfold flushPathCalls flushPaths
      rw [run_bind]
      change Machine.after installation _ (Machine.pathDataToSend pathid machine).2 =
        final ((Machine.attempt (transmit (Machine.pathDataToSend pathid machine).1 fault) >>=
          fun fault => flushPaths rest fault) (Machine.pathDataToSend pathid machine).2)
      rw [run_bind]
      cases transmit (Machine.pathDataToSend pathid machine).1 fault with
      | error error => rfl
      | ok left => exact induction left _

theorem flush_after (fault : Option Fault) (session : Session Body) :
    final (flush fault session) = { session with
      machine := Machine.after installation (flushCalls fault session) session.machine } := by
  unfold flush
  rw [run_bind, run_get]
  dsimp only
  rw [on_machine_final]
  congr 1
  unfold flushCalls
  rw [run_bind]
  change final ((Machine.attempt (transmit (Machine.dataToSend session.machine).1 fault) >>=
    fun fault => flushPaths session.paths fault) (Machine.dataToSend session.machine).2) =
      Machine.after installation _ (Machine.dataToSend session.machine).2
  rw [run_bind]
  cases transmit (Machine.dataToSend session.machine).1 fault with
  | error error => rfl
  | ok left => exact (flush_path_after installation _ _ _).symm

end Session

/-- A session, and the world its machine is in. -/
structure Watch (session : Session Body) (world : World Body) : Prop where
  machine : world.machine = session.machine
  kept : World.Kept world
  documented : World.Documented world
  read : session.machine.events = []

structure Issued (sid tag : Nat) (world : World Body) : Prop where
  live : world.live sid = some tag
  asked : ∃ submission, world.asked[tag]? = some submission ∧ submission.sid = sid

def Excerpt (world : World Body) (tag : Nat) (data : Bytes) : Prop :=
  ∃ frames : List ServerFrame, (∀ frame ∈ frames, frame ∈ world.answers tag) ∧
    data <:+ frames.flatMap ServerFrame.payload

/-- A result is what was sent in answer to a submission, to its last frame. -/
structure Built (world : World Body) (tag : Nat) (result : Result) : Prop where
  data : result.data = (world.answers tag).flatMap ServerFrame.payload
  closed : ∃ frame ∈ world.answers tag, frame.closes = true
  status : ∀ info, result.status = some info → World.Documents world tag info

/-- What a call leaves to its world: what it returns and has passed on is of its own answer,
and it touches no other stream. -/
structure Owns (sid tag : Nat) (session : Session Body) (world : World Body)
    (outcome : Outcome Body) (after : World Body) : Prop where
  watch : Watch outcome.2.2 after
  alike : World.Alike world after
  result : ∀ result, outcome.1 = some (.returned result) → Built after tag result
  passed : ∀ piece ∈ pieces outcome.2.1.trace, Excerpt after tag piece
  inbox : outcome.2.2.inbox = session.inbox
  others : ∀ other, other ≠ sid →
    outcome.2.2.machine.pending.get? other = session.machine.pending.get? other

section Heed

variable {caller : Caller} {sid tag : Nat} {session : Session Body} {world : World Body}
  {progress : Progress}

theorem pass_pieces (caller : Caller) (data : Bytes) (progress : Progress) :
    ∀ piece ∈ pieces (pass caller data progress).2.trace,
      piece ∈ pieces progress.trace ∨ piece = data := by
  intro piece member
  unfold pass at member
  cases told : caller.onChunk with
  | none =>
      rw [told] at member
      exact Or.inl member
  | some onChunk =>
      rw [told] at member
      simpa [pieces] using member

theorem pieces_slept (trace : List Action) (seconds : ℚ) :
    pieces (trace ++ [.slept seconds]) = pieces trace := by
  simp [pieces]

theorem pieces_resent (trace : List Action) : pieces (trace ++ [.resent]) = pieces trace := by
  simp [pieces]

theorem Owns.still (watch : Watch session world) {exit : Option Exit} {later : Progress}
    (result : ∀ result, exit = some (.returned result) → Built world tag result)
    (told : ∀ piece ∈ pieces later.trace, Excerpt world tag piece) :
    Owns sid tag session world (exit, later, session) world :=
  ⟨watch, ⟨rfl, rfl, rfl⟩, result, told, rfl, fun _ _ => rfl⟩

theorem Ordered.stopped {Holds : Event → Prop} {first last : Standing} {events : List Event}
    (ordered : World.Ordered Holds first events last) (told : first ≠ .asked) :
    events = [] ∧ last = first := by
  cases ordered with
  | nil => exact ⟨rfl, rfl⟩
  | cons => exact absurd rfl told

theorem Issued.holder (issued : Issued sid tag world) :
    ∃ submission, World.holder world sid = some (tag, submission) := by
  obtain ⟨submission, asked, -⟩ := issued.asked
  refine ⟨submission, ?_⟩
  rw [World.holder, issued.live, Option.bind_some, asked, Option.map_some]

theorem Issued.alike {after : World Body} (issued : Issued sid tag world)
    (alike : World.Alike world after) : Issued sid tag after := by
  constructor
  · rw [alike.live]
    exact issued.live
  · rw [alike.asked]
    exact issued.asked

variable [Exchange Body] (installation : Installation Body)

theorem release_watched (watch : Watch session world) (issued : Issued sid tag world)
    (told : world.standing tag = .redirected) :
    let after := World.done installation [.call (.release sid)] world
    Watch { session with machine := Machine.release sid session.machine } after ∧
      World.Alike world after := by
  intro after
  obtain ⟨submission, holder⟩ := issued.holder
  have lawful : World.lawful ⟨world, .client (.release sid),
      World.step installation (.client (.release sid)) world⟩ = true := by
    simp [World.lawful, holder, told]
  have alike : World.Alike world after := ⟨rfl, rfl, rfl⟩
  have machine : after.machine = Machine.release sid session.machine := by
    rw [← watch.machine]
    rfl
  refine ⟨⟨machine, (watch.kept.step installation _ lawful rfl).1, watch.documented.fewer alike ?_,
    ?_⟩, alike⟩
  · intro other pending found
    rw [machine, Machine.release_pending, Dict.get_erase] at found
    split_ifs at found
    rw [watch.machine]
    exact found
  · change (Machine.release sid session.machine).events = []
    rw [Machine.release_frame]
    exact watch.read

theorem resume_watched (watch : Watch session world) (issued : Issued sid tag world)
    (told : world.standing tag = .waits) :
    let after := World.done installation [.call (.resume sid)] world
    Watch (final (Session.onMachine (Machine.resume sid) session)) after ∧
      World.Alike world after := by
  intro after
  obtain ⟨submission, holder⟩ := issued.holder
  have careful : World.careful ⟨world, .client (.resume sid),
      World.step installation (.client (.resume sid)) world⟩ = true := by
    simp [World.careful, holder, told]
  have alike : World.Alike world after := by
    change World.Alike world (World.step installation (.client (.resume sid)) world)
    simp only [World.step]
    split_ifs
    · split
      · exact ⟨rfl, rfl, rfl⟩
      · exact ⟨rfl, rfl, rfl⟩
    · exact ⟨rfl, rfl, rfl⟩
  obtain ⟨machine, only, left⟩ := Session.resume_final sid session
  have same : after.machine = machine := by
    have resumed : final (Machine.resume sid session.machine) = machine := by
      rw [Session.on_machine_final] at left
      exact congrArg Session.machine left
    rw [← resumed, ← watch.machine]
    exact World.step_machine installation (.resume sid)
  rw [left]
  refine ⟨⟨same, (watch.kept.step installation _ rfl careful).1, watch.documented.fewer alike ?_,
    ?_⟩, alike⟩
  · intro other pending found
    rw [same, only.pending, ← watch.machine] at found
    exact found
  · exact only.events.trans watch.read

theorem flush_watched (watch : Watch session world) (fault : Option Fault) :
    let after := World.done installation ((Session.flushCalls fault session).map .call) world
    Watch (final (Session.flush fault session)) after ∧ World.Alike world after ∧
      after.standing = world.standing := by
  intro after
  obtain ⟨kept, pending, shape⟩ := World.reads_done installation
    (Session.flush_reads fault session) watch.kept
  obtain ⟨machine, only, left⟩ := Session.flush_final fault session
  have alike : World.Alike world after := by
    rw [show after = _ from shape]
    exact ⟨rfl, rfl, rfl⟩
  refine ⟨⟨?_, kept, watch.documented.fewer alike ?_, ?_⟩, alike, ?_⟩
  · rw [Session.flush_after installation, show after = _ from shape, watch.machine]
  · intro other record found
    rw [show after.machine.pending = _ from pending] at found
    exact found
  · rw [left]
    exact only.events.trans watch.read
  · rw [show after = _ from shape]

omit [Exchange Body] in
theorem Excerpt.alike {world after : World Body} {data : Bytes} (excerpt : Excerpt world tag data)
    (alike : World.Alike world after) : Excerpt after tag data := by
  rw [Excerpt, alike.answers]
  exact excerpt

theorem resend_owned (watch : Watch session world) (issued : Issued sid tag world)
    (told : world.standing tag = .waits)
    (passed : ∀ piece ∈ pieces progress.trace, Excerpt world tag piece) {seconds : ℚ}
    (forward : ¬seconds < 0) :
    Owns sid tag session world (resend caller sid seconds progress session)
      (World.done installation ((Call.resume sid ::
        match Session.onMachine (Machine.resume sid) session with
        | .error _ _ => []
        | .ok _ session =>
            Session.flushCalls (caller.resends progress.waits) session).map .call) world) := by
  obtain ⟨resumed, alike⟩ := resume_watched installation watch issued told
  obtain ⟨machine, only, left⟩ := Session.resume_final sid session
  have others : ∀ other, machine.pending.get? other = session.machine.pending.get? other :=
    fun other => by rw [only.pending]
  rw [List.map_cons, ← List.singleton_append, World.done_append]
  generalize World.done installation [.call (.resume sid)] world = middle at resumed alike ⊢
  have kept : ∀ trace, pieces trace = pieces progress.trace →
      ∀ piece ∈ pieces trace, Excerpt middle tag piece := by
    intro trace same piece member
    rw [same] at member
    exact (passed piece member).alike alike
  unfold resend
  rw [if_neg forward]
  cases done : Session.onMachine (Machine.resume sid) session with
  | error error after =>
      rw [done, final_error] at left resumed
      subst left
      refine ⟨resumed, alike, nofun, ?_, rfl, fun other _ => others other⟩
      exact kept _ (pieces_slept _ _)
  | ok value after =>
      rw [done, final_ok] at left resumed
      subst left
      obtain ⟨flushed, sent, -⟩ := flush_watched installation resumed
        (caller.resends progress.waits)
      obtain ⟨later, again, gone⟩ := Session.flush_final (caller.resends progress.waits)
        { session with machine }
      have same : ∀ other, later.pending.get? other = session.machine.pending.get? other :=
        fun other => by rw [again.pending]; exact others other
      have pieces : pieces ((progress.trace ++ [.slept seconds]) ++ [.resent]) =
          pieces progress.trace := by
        rw [pieces_resent, pieces_slept]
      dsimp only
      cases went : Session.flush (caller.resends progress.waits) { session with machine } with
      | error error after =>
          rw [went, final_error] at flushed gone
          subst gone
          refine ⟨flushed, alike.trans sent, nofun, ?_, rfl,
            fun other _ => same other⟩
          exact fun piece member => (kept _ pieces piece member).alike sent
      | ok value after =>
          rw [went, final_ok] at flushed gone
          subst gone
          refine ⟨flushed, alike.trans sent, nofun, ?_, rfl,
            fun other _ => same other⟩
          exact fun piece member => (kept _ pieces piece member).alike sent

omit [Exchange Body] in
theorem Excerpt.chunk {frame : ServerFrame} {data : Bytes} (sent : frame ∈ world.answers tag)
    (same : data = frame.payload) : Excerpt world tag data := by
  have whole : [frame].flatMap ServerFrame.payload = data := by
    rw [List.flatMap_singleton, same]
  exact ⟨[frame], by simpa using sent, whole ▸ List.suffix_refl _⟩

/-- What the loop makes of one event: unless the call leaves, the rest still comes in order. -/
theorem heed_owned {event : Event} {rest : List Event} (watch : Watch session world)
    (issued : Issued sid tag world)
    (passed : ∀ piece ∈ pieces progress.trace, Excerpt world tag piece)
    (relays : World.Relays world tag event)
    (later : World.Ordered (World.Relays world tag) event.mark rest (world.standing tag)) :
    let outcome := heed caller sid event progress session
    let after := World.done installation
      ((heedCalls caller sid event progress session).map .call) world
    Owns sid tag session world outcome after ∧ (outcome.1 = none →
      ∃ first, World.Ordered (World.Relays after tag) first rest (after.standing tag)) := by
  have still : ∀ exit : Exit, (∀ result, exit ≠ .returned result) → ∀ trace : List Action,
      ∀ waits streamed, pieces trace = pieces progress.trace →
      Owns sid tag session world (some exit, ⟨waits, streamed, trace⟩, session) world := by
    intro exit other trace waits streamed same
    refine Owns.still watch (fun result given => absurd (Option.some.inj given) (other result)) ?_
    intro piece member
    rw [same] at member
    exact passed piece member
  have goes : Owns sid tag session world (none, progress, session) world ∧
      ((none : Option Exit) = none →
        ∃ first, World.Ordered (World.Relays world tag) first rest (world.standing tag)) :=
    ⟨Owns.still watch nofun passed, fun _ => ⟨_, later⟩⟩
  cases event with
  | completed streamid request data status =>
      obtain ⟨whole, closed, recorded⟩ := relays
      have built : Built world tag ⟨data, status⟩ := ⟨whole, closed, recorded⟩
      have more : ∀ piece ∈ pieces (pass caller (data.drop progress.streamed) progress).2.trace,
          Excerpt world tag piece := by
        intro piece member
        rcases pass_pieces _ _ _ piece member with old | rfl
        · exact passed piece old
        · exact ⟨world.answers tag, fun _ sent => sent, by rw [← whole]; exact List.drop_suffix _ _⟩
      have returns : ∀ result, some (Exit.returned ⟨data, status⟩) = some (.returned result) →
          Built world tag result := by
        intro result same
        cases same
        exact built
      unfold heed
      dsimp only
      split_ifs
      · cases told : pass caller (data.drop progress.streamed) progress with
        | mk raises left =>
            rw [told] at more
            cases raises with
            | some error => exact ⟨Owns.still watch nofun more, nofun⟩
            | none => exact ⟨Owns.still watch returns more, nofun⟩
      · exact ⟨Owns.still watch returns passed, nofun⟩
  | failed streamid request error => exact ⟨Owns.still watch nofun passed, nofun⟩
  | chunk streamid request data =>
      obtain ⟨frame, sent, same⟩ := relays
      have more : ∀ piece ∈ pieces (pass caller data progress).2.trace,
          Excerpt world tag piece := by
        intro piece member
        rcases pass_pieces _ _ _ piece member with old | rfl
        · exact passed piece old
        · exact Excerpt.chunk sent same
      unfold heed
      dsimp only
      cases told : pass caller data progress with
      | mk raises left =>
          rw [told] at more
          cases raises with
          | some error => exact ⟨Owns.still watch nofun more, nofun⟩
          | none => exact ⟨Owns.still watch nofun more, fun _ => ⟨_, later⟩⟩
  | redirected streamid request target =>
      obtain ⟨-, told⟩ := Ordered.stopped later nofun
      obtain ⟨released, alike⟩ := release_watched installation watch issued told
      refine ⟨⟨released, alike, nofun, ?_, rfl, fun other apart => ?_⟩, nofun⟩
      · exact fun piece member => (passed piece member).alike alike
      · change (Machine.release sid session.machine).pending.get? other = _
        rw [Machine.release_pending, Dict.get_erase_other _ apart]
  | waiting streamid request seconds message resend =>
      cases resend with
      | false => exact goes
      | true =>
          obtain ⟨rfl, told⟩ := Ordered.stopped later nofun
          unfold heed heedCalls
          dsimp only
          by_cases spent : session.machine.config.redirectLimit < (progress.waits + 1 : Nat)
          · rw [if_pos spent, if_pos (Or.inl spent)]
            exact ⟨still (.waitLimitError _ _) nofun _ _ _ rfl, nofun⟩
          by_cases negative : seconds < 0
          · rw [if_neg spent, if_pos (Or.inr negative)]
            unfold Sync.resend
            rw [if_pos negative]
            exact ⟨still (.raised _) nofun _ _ _ (pieces_slept _ _), nofun⟩
          · rw [if_neg spent, if_neg (not_or.mpr ⟨spent, negative⟩)]
            refine ⟨resend_owned installation watch issued told ?_ negative, fun _ => ⟨_, .nil _⟩⟩
            exact passed
  | negotiated | needTls | ready | attention | pathLost | disconnected => exact goes

omit [Exchange Body] in
theorem Owns.trans {middle : Session Body} {between after : World Body} {exit : Option Exit}
    {outcome : Outcome Body} (one : Owns sid tag session world (exit, progress, middle) between)
    (two : Owns sid tag middle between outcome after) :
    Owns sid tag session world outcome after where
  watch := two.watch
  alike := one.alike.trans two.alike
  result := two.result
  passed := two.passed
  inbox := two.inbox.trans one.inbox
  others := fun other apart => (two.others other apart).trans (one.others other apart)

theorem handle_owned {events : List Event} {first : Standing} (watch : Watch session world)
    (issued : Issued sid tag world)
    (passed : ∀ piece ∈ pieces progress.trace, Excerpt world tag piece)
    (ordered : World.Ordered (World.Relays world tag) first events (world.standing tag)) :
    Owns sid tag session world (handle caller sid events progress session)
      (World.done installation
        ((handleCalls caller sid events progress session).map .call) world) := by
  induction events generalizing first session world progress with
  | nil => exact Owns.still watch nofun passed
  | cons event rest induction =>
      cases ordered with
      | cons relays later =>
          obtain ⟨owns, next⟩ := @heed_owned Body caller sid tag session world progress _
            installation event rest watch issued passed relays later
          unfold handle handleCalls
          rw [List.map_append, World.done_append]
          generalize World.done installation
            ((heedCalls caller sid event progress session).map .call) world = between at owns next ⊢
          rcases outcome : heed caller sid event progress session with ⟨exit, after, left⟩
          rw [outcome] at owns next
          cases exit with
          | some exit => exact owns
          | none =>
              obtain ⟨standing, still⟩ := next rfl
              exact owns.trans (induction owns.watch (issued.alike owns.alike) owns.passed still)

end Heed

structure Grows (before after : World Body) : Prop where
  asked : after.asked = before.asked
  live : after.live = before.live
  sent : before.sent <+: after.sent

namespace Grows

variable {before after : World Body}

theorem refl (world : World Body) : Grows world world := ⟨rfl, rfl, List.prefix_refl _⟩

theorem trans {first second third : World Body} (one : Grows first second)
    (two : Grows second third) : Grows first third :=
  ⟨two.asked.trans one.asked, two.live.trans one.live, one.sent.trans two.sent⟩

theorem of_alike (alike : World.Alike before after) : Grows before after := by
  have same : before.sent <+: after.sent := alike.sent ▸ List.prefix_refl _
  exact ⟨alike.asked, alike.live, same⟩

theorem answers (grows : Grows before after) {tag : Nat} {frame : ServerFrame}
    (sent : frame ∈ before.answers tag) : frame ∈ after.answers tag := by
  obtain ⟨more, shape⟩ := grows.sent
  rw [World.answers, ← shape, List.filter_append, List.map_append]
  exact List.mem_append_left _ sent

theorem documents (grows : Grows before after) {tag : Nat} {info : StatusInfo}
    (documents : World.Documents before tag info) : World.Documents after tag info := by
  obtain ⟨frame, sent, rest⟩ := documents
  exact ⟨frame, grows.answers sent, rest⟩

theorem excerpt (grows : Grows before after) {tag : Nat} {data : Bytes}
    (excerpt : Excerpt before tag data) : Excerpt after tag data := by
  obtain ⟨frames, sent, suffix⟩ := excerpt
  exact ⟨frames, fun frame member => grows.answers (sent frame member), suffix⟩

theorem issued (grows : Grows before after) {sid tag : Nat} (issued : Issued sid tag before) :
    Issued sid tag after := by
  constructor
  · rw [grows.live]
    exact issued.live
  · rw [grows.asked]
    exact issued.asked

end Grows

section Listen

variable {sid tag : Nat} {session : Session Body} {world : World Body}
variable [Exchange Body] (installation : Installation Body)

theorem sends_watched (sends : List Sent) (watch : Watch session world)
    (fair : ∀ entry ∈ World.traced installation (sends.map .sends) world,
      World.fair installation entry = true) :
    let after := World.done installation (sends.map .sends) world
    Watch session after ∧ Grows world after ∧ after.standing = world.standing := by
  induction sends generalizing world with
  | nil => exact ⟨watch, Grows.refl world, rfl⟩
  | cons sent rest induction =>
      rw [List.map_cons, ← List.singleton_append, World.traced_append,
        List.forall_mem_append] at fair
      obtain ⟨first, others⟩ := fair
      have lawful : World.lawful ⟨world, .server sent,
          World.step installation (.server sent) world⟩ = true := first _ List.mem_cons_self
      have grows : Grows world (World.step installation (.server sent) world) :=
        ⟨rfl, rfl, List.prefix_append _ _⟩
      have watched : Watch session (World.step installation (.server sent) world) := by
        refine ⟨watch.machine, (watch.kept.step installation _ lawful rfl).1, ?_, watch.read⟩
        intro other pending info found status
        obtain ⟨owner, live, documents⟩ := watch.documented other pending info found status
        exact ⟨owner, live, grows.documents documents⟩
      rw [List.map_cons, ← List.singleton_append, World.done_append]
      obtain ⟨still, more, same⟩ := induction watched others
      exact ⟨still, grows.trans more, same⟩

theorem next_events (machine : Machine Body) (count : Nat) :
    Machine.after installation (List.replicate count .nextEvent) machine =
      { machine with events := machine.events.drop count } := by
  induction count generalizing machine with
  | zero => rfl
  | succ count induction =>
      rw [List.replicate_succ, Machine.after, run]
      refine (induction _).trans ?_
      change { machine with events := machine.events.tail.drop count } = _
      rw [List.drop_tail]

theorem turns_timely (count link : Nat) (kept : World.Kept world)
    (timed : ∀ entry ∈ history (World.step installation)
      (List.replicate count (.client (.turn link))) world, timely sid entry = true) :
    ∃ noted, (run (World.step installation)
        (List.replicate count (.client (.turn link))) world).machine.events =
          world.machine.events ++ noted ∧
      ∀ event ∈ noted, ∀ other, other ≠ sid → event.ends other = false := by
  induction count generalizing world with
  | zero => exact ⟨[], (List.append_nil _).symm, by simp⟩
  | succ count induction =>
      obtain ⟨first, others⟩ := List.forall_mem_cons.mp timed
      have running : world.machine.state.bringingUp = false := by
        obtain ⟨rests, sound⟩ := kept.1
        rw [sound.ready]
        rfl
      have keeps := (kept.step installation (.client (.turn link)) rfl rfl).1
      obtain ⟨early, hears, -⟩ := @Machine.turn_hears Body _ installation link world.machine running
      obtain ⟨late, queued, quiet⟩ := induction keeps others
      refine ⟨early ++ late, ?_, ?_⟩
      · rw [← List.append_assoc, ← hears.queued]
        exact queued
      · refine List.forall_mem_append.mpr ⟨fun event member other apart => ?_, quiet⟩
        rw [← Bool.not_eq_true]
        intro ends
        have concludes := Machine.turn_concludes installation running hears.queued member ends
        change (world.machine.concludes link).all (· = sid) = true at first
        rw [concludes] at first
        exact apart (of_decide_eq_true first)

theorem received_whole {machine fed : Machine Body} (running : machine.state.bringingUp = false)
    {data : Bytes} (apart : data ≠ [])
    (taken : Machine.receiveData installation data 0 machine = .ok () fed) :
    ∃ events, Machine.Hears machine fed events ∧ ∀ event ∈ events, event.losesPath = false := by
  rw [Machine.receive_data_run, if_neg apart] at taken
  have still : (Machine.feed data 0 machine).state.bringingUp = false := running
  obtain ⟨events, received, whole⟩ := Machine.parse_received installation 0
    (Machine.parseFuel ((Machine.feed data 0 machine).framer 0)) still
  rw [taken] at received
  have fed : Machine.Hears machine (Machine.feed data 0 machine) [] :=
    Machine.Hears.silent rfl fun _ => rfl
  exact ⟨events, fed.trans received.hears, whole⟩

theorem feed_watched (watch : Watch session world) (issued : Issued sid tag world)
    {received : Except Exception Bytes} {data : Bytes} (arrived : received = .ok data)
    (fair : ∀ entry ∈ World.traced installation
      ((Session.feedCalls installation received session.machine).map .call) world,
      World.fair installation entry = true) :
    let after := World.done installation
      ((Session.feedCalls installation received session.machine).map .call) world
    ∃ fed, Machine.receiveData installation data 0 session.machine = .ok () fed ∧
      Machine.Hears session.machine fed fed.events ∧
      (∀ event ∈ fed.events, event.losesPath = false) ∧
      Watch { session with machine := { fed with events := [] } } after ∧
      World.Alike world after ∧
      World.Ordered (World.Relays world tag) (world.standing tag)
        (Session.ofStream sid fed.events) (after.standing tag) ∧
      ((∀ entry ∈ World.traced installation
          ((Session.feedCalls installation received session.machine).map .call) world,
          timely sid entry = true) →
        ∀ event ∈ fed.events, ∀ other, other ≠ sid → event.ends other = false) := by
  subst arrived
  have apart : data ≠ [] := by
    rintro rfl
    cases fair ⟨world, .client (.eof 0), World.step installation (.client (.eof 0)) world⟩
      List.mem_cons_self
  have fed : World.fair installation ⟨world, .client (.feed data 0),
      World.step installation (.client (.feed data 0)) world⟩ = true := by
    apply fair
    rw [Session.feedCalls, List.map_cons, ← List.singleton_append, World.traced_append,
      World.traced_one, World.moves, Machine.moves, if_neg apart]
    exact List.mem_append_left _ List.mem_cons_self
  simp only [World.fair, Bool.and_eq_true, Option.isNone_iff_eq_none] at fed
  obtain ⟨next, readable⟩ := fed
  rw [World.step_machine, watch.machine] at readable
  change raised (Machine.parse installation 0 (Machine.parseFuel ((Machine.feed data 0
    session.machine).framer 0)) (Machine.feed data 0 session.machine)) = none at readable
  obtain ⟨submission, asked, named⟩ := issued.asked
  obtain ⟨kept, documented, alike, noted, queued, ordered⟩ := World.receive_heard installation apart
    next watch.kept watch.documented issued.live asked named
  have fed : ∃ fed, Machine.receiveData installation data 0 session.machine = .ok () fed := by
    have taken := Machine.receive_data_run installation data 0 session.machine
    rw [if_neg apart] at taken
    rw [taken]
    cases parsed : Machine.parse installation 0 (Machine.parseFuel ((Machine.feed data 0
        session.machine).framer 0)) (Machine.feed data 0 session.machine) with
    | error error left =>
        rw [parsed] at readable
        cases readable
    | ok value left => exact ⟨left, rfl⟩
  obtain ⟨fed, taken⟩ := fed
  have running : session.machine.state.bringingUp = false := by
    obtain ⟨rests, sound⟩ := watch.kept.1
    rw [← watch.machine, sound.ready]
    rfl
  obtain ⟨events, received, whole⟩ := received_whole installation running apart taken
  have told : events = fed.events := by
    rw [received.queued, watch.read]
    rfl
  subst told
  have reached : (run (World.step installation)
      (World.moves installation (.call (.receiveData data 0)) world) world).machine = fed := by
    rw [World.moves, World.run_client, Machine.perform_moves, watch.machine]
    change final (Machine.receiveData installation data 0 session.machine) = fed
    rw [taken]
    rfl
  have same : noted = fed.events := by
    rw [← reached, queued, watch.machine, watch.read]
    rfl
  subst same
  have calls : Session.feedCalls installation (.ok data) session.machine =
      .receiveData data 0 :: List.replicate fed.events.length .nextEvent := by
    rw [Session.feedCalls, taken]
  rw [calls, List.map_cons, ← List.singleton_append, World.done_append, World.done_one,
    World.traced_append, World.traced_one]
  generalize shape : run (World.step installation)
    (World.moves installation (.call (.receiveData data 0)) world) world = middle at *
  obtain ⟨keeps, pending, after⟩ := World.reads_done installation
    (fun call member => by rw [List.eq_of_mem_replicate member]; rfl :
      ∀ call ∈ List.replicate fed.events.length Call.nextEvent, call.reads = true) kept
  rw [next_events, reached, List.drop_length] at after
  have same : World.Alike middle (World.done installation
      ((List.replicate fed.events.length Call.nextEvent).map .call) middle) := by
    rw [after]
    exact ⟨rfl, rfl, rfl⟩
  refine ⟨fed, taken, received, whole, ⟨?_, keeps, documented.fewer same ?_, rfl⟩,
    alike.trans same, ?_, fun timed => ?_⟩
  · rw [after]
  · intro other record found
    rw [pending] at found
    exact found
  · rw [after]
    exact ordered
  · have early := (List.forall_mem_append.mp timed).1
    rw [World.moves, Machine.moves, if_neg apart, List.map_cons, List.map_replicate] at early shape
    obtain ⟨first, others⟩ := List.forall_mem_cons.mp early
    have fresh := (watch.kept.step installation (.client (.feed data 0)) next rfl).1
    obtain ⟨noted, queue, quiet⟩ := turns_timely installation _ 0 fresh others
    have events : fed.events = noted := by
      rw [← reached, ← shape]
      refine queue.trans ?_
      change world.machine.events ++ noted = noted
      rw [watch.machine, watch.read]
      rfl
    rw [events]
    exact quiet

omit [Exchange Body] in
theorem sort_parks (sid : Nat) (events : List Event) (session : Session Body)
    (whole : ∀ event ∈ events, event.losesPath = false) :
    ∀ other, ∀ event ∈ (final (Session.sort sid events session)).parked other,
      event ∈ session.parked other ∨
        event ∈ events ∧ event.stream = some other ∧ other ≠ sid := by
  induction events generalizing session with
  | nil => exact fun other event member => Or.inl member
  | cons head rest induction =>
      obtain ⟨first, others⟩ := List.forall_mem_cons.mp whole
      intro other event member
      unfold Session.sort at member
      split_ifs at member with mine
      · have later := induction session others other event
        rw [run_bind] at member
        have kept : event ∈ (final (Session.sort sid rest session)).parked other := by
          cases sorted : Session.sort sid rest session with
          | ok value left =>
              rw [sorted] at member
              exact member
          | error error left =>
              rw [sorted] at member
              exact member
        rcases later kept with old | ⟨new, names⟩
        · exact Or.inl old
        · exact Or.inr ⟨List.mem_cons_of_mem _ new, names⟩
      · have cleared : Session.Cleared [head] session := by
          intro pathid reason lost
          rw [← List.mem_singleton.mp lost] at first
          cases first
        have aside := (Session.set_aside_aside cleared).inbox other event
        have put : event ∈ (final (Session.setAside head session)).parked other →
            event ∈ session.parked other ∨
              event ∈ head :: rest ∧ event.stream = some other ∧ other ≠ sid := by
          intro member
          rcases aside member with old | ⟨new, names⟩
          · exact Or.inl old
          · rw [List.mem_singleton.mp new] at names ⊢
            refine Or.inr ⟨List.mem_cons_self, names, ?_⟩
            rintro rfl
            exact mine names
        rw [run_bind] at member
        cases done : Session.setAside head session with
        | ok value left =>
            rw [done] at member put
            rcases induction left others other event member with old | ⟨new, names⟩
            · exact put old
            · exact Or.inr ⟨List.mem_cons_of_mem _ new, names⟩
        | error error left =>
            rw [done] at member put
            exact put member

theorem pump_run (arrival : Arrival) (session : Session Body) :
    Session.pump installation 0 arrival session =
      match Session.flush arrival.fault session with
      | .error error session => .error error session
      | .ok _ session =>
          match arrival.received with
          | .error error => .error error session
          | .ok data =>
              match Machine.receiveData installation data 0 session.machine with
              | .error error machine => .error error { session with machine }
              | .ok _ machine =>
                  .ok machine.events { session with machine := { machine with events := [] } } := by
  unfold Session.pump
  rw [run_bind]
  cases Session.flush arrival.fault session with
  | error error left => rfl
  | ok value left =>
      dsimp only
      rw [run_bind, run_get]
      dsimp only
      rw [if_neg (by simp)]
      cases arrival.received with
      | error error => rfl
      | ok data =>
          dsimp only
          rw [run_bind, Session.onMachine]
          cases Machine.receiveData installation data 0 left.machine with
          | error error machine => rfl
          | ok value machine => rfl

omit [Exchange Body] in
def Parked (session : Session Body) : Prop :=
  ∀ other, session.parked other ≠ [] → session.machine.inFlight other

theorem listen_watched (watch : Watch session world) (issued : Issued sid tag world) (beat : Beat)
    (fair : ∀ entry ∈ World.traced installation (session.pumpDeeds installation beat) world,
      World.fair installation entry = true) :
    let after := World.done installation (session.pumpDeeds installation beat) world
    let outcome := session.listen installation sid 0 beat.arrival
    Grows world after ∧ Watch (final outcome) after ∧
      (∀ mine left, outcome = .ok mine left →
        ∃ first, World.Ordered (World.Relays after tag) first mine (after.standing tag)) ∧
      ((∀ entry ∈ World.traced installation (session.pumpDeeds installation beat) world,
          timely sid entry = true) →
        Parked session → session.parked sid = [] →
        Parked (final outcome) ∧ (final outcome).parked sid = []) := by
  unfold Session.pumpDeeds at fair ⊢
  rw [List.append_assoc, World.traced_append, List.forall_mem_append, World.traced_append,
    List.forall_mem_append] at fair
  obtain ⟨sends, -, feeds⟩ := fair
  obtain ⟨first, sent, -⟩ := sends_watched installation beat.sends watch sends
  rw [List.append_assoc, World.done_append, World.done_append, World.traced_append,
    World.traced_append, List.forall_mem_append, List.forall_mem_append]
  generalize World.done installation (beat.sends.map .sends) world = begun at *
  obtain ⟨second, alike, -⟩ := flush_watched installation first beat.arrival.fault
  generalize World.done installation
    ((session.flushCalls beat.arrival.fault).map .call) begun = ready at *
  have grown : Grows world ready := sent.trans (Grows.of_alike alike)
  obtain ⟨machine, only, left⟩ := Session.flush_final beat.arrival.fault session
  have flushed : Parked session → Parked { session with machine } := fun parked other some =>
    (only.inFlight other).mpr (parked other some)
  unfold Session.listen
  rw [run_bind, pump_run]
  cases went : Session.flush beat.arrival.fault session with
  | error error after =>
      rw [went, final_error] at left second
      subst left
      refine ⟨grown, second, fun _ _ same => ?_, fun _ parked own => ⟨flushed parked, own⟩⟩
      cases same
  | ok value after =>
      rw [went, final_ok] at left second
      subst left
      rw [went] at feeds
      dsimp only at feeds ⊢
      cases received : beat.arrival.received with
      | error error =>
          refine ⟨grown, second, fun _ _ same => ?_, fun _ parked own => ⟨flushed parked, own⟩⟩
          cases same
      | ok data =>
          rw [received] at feeds
          obtain ⟨fed, taken, hears, whole, third, same, ordered, quiet⟩ :=
            feed_watched installation second (grown.issued issued) rfl feeds
          generalize World.done installation ((Session.feedCalls installation (.ok data)
            machine).map .call) ready = after at *
          dsimp only at taken ⊢
          rw [taken]
          dsimp only
          have kept := Session.sort_machine sid fed.events
            { session with machine := { fed with events := [] } } whole
          have parks := sort_parks sid fed.events
            { session with machine := { fed with events := [] } } whole
          refine ⟨grown.trans (Grows.of_alike same), ⟨?_, third.kept, third.documented, ?_⟩,
            fun mine left sorted => ?_, fun timed parked own => ⟨fun other some => ?_, ?_⟩⟩
          · rw [kept]
            exact third.machine
          · rw [kept]
          · rw [Session.sort_mine sid _ sorted, same.relays]
            exact ⟨_, ordered⟩
          · obtain ⟨event, member⟩ := List.exists_mem_of_ne_nil _ some
            rw [Machine.inFlight, kept]
            change fed.inFlight other
            rw [hears.ends]
            have flying : machine.inFlight other := by
              rcases parks other event member with old | ⟨new, names, -⟩
              · exact flushed parked other (List.ne_nil_of_mem old)
              · exact hears.named event new other names
            have apart : other ≠ sid := by
              rintro rfl
              rcases parks other event member with old | ⟨-, -, apart⟩
              · change event ∈ session.parked other at old
                rw [own] at old
                cases old
              · exact apart rfl
            exact ⟨flying, fun event told => quiet timed.2.2 event told other apart⟩
          · rw [List.eq_nil_iff_forall_not_mem]
            intro event member
            rcases parks sid event member with old | ⟨-, -, apart⟩
            · change event ∈ session.parked sid at old
              rw [own] at old
              cases old
            · exact apart rfl

end Listen

section Call

variable {caller : Caller} {sid tag : Nat} {session : Session Body} {world : World Body}
  {progress : Progress}

/-- What a call that waits for a stream leaves: what it returns and has passed on is of its
own answer; and where every answer was in time, nothing is parked for the stream and what is
parked is for streams in flight. -/
structure Ends (tag sid : Nat) (timed : Prop) (session : Session Body) (world : World Body)
    (outcome : Outcome Body) (after : World Body) : Prop where
  watch : Watch outcome.2.2 after
  grows : Grows world after
  result : ∀ result, outcome.1 = some (.returned result) → Built after tag result
  passed : ∀ piece ∈ pieces outcome.2.1.trace, Excerpt after tag piece
  parked : timed → Parked session → session.parked sid = [] →
    Parked outcome.2.2 ∧ outcome.2.2.parked sid = []

theorem Owns.parked {outcome : Outcome Body} {after : World Body}
    (owns : Owns sid tag session world outcome after) (parked : Parked session)
    (own : session.parked sid = []) : Parked outcome.2.2 ∧ outcome.2.2.parked sid = [] := by
  have same : ∀ other, outcome.2.2.parked other = session.parked other := by
    intro other
    rw [Session.parked, owns.inbox]
    rfl
  refine ⟨fun other some => ?_, by rw [same]; exact own⟩
  have apart : other ≠ sid := by
    rintro rfl
    exact some (by rw [same]; exact own)
  rw [same] at some
  have flying := parked other some
  rw [Machine.inFlight, Dict.mem_keys] at flying ⊢
  rw [owns.others other apart]
  exact flying

theorem Owns.ends {outcome : Outcome Body} {after : World Body} {timed : Prop}
    (owns : Owns sid tag session world outcome after) :
    Ends tag sid timed session world outcome after :=
  ⟨owns.watch, Grows.of_alike owns.alike, owns.result, owns.passed,
    fun _ parked own => owns.parked parked own⟩

variable [Exchange Body] (installation : Installation Body)

theorem await_owned (beats : List Beat) {events : List Event} {first : Standing}
    (watch : Watch session world) (issued : Issued sid tag world)
    (passed : ∀ piece ∈ pieces progress.trace, Excerpt world tag piece)
    (ordered : World.Ordered (World.Relays world tag) first events (world.standing tag))
    (fair : ∀ entry ∈ World.traced installation
      (awaitDeeds caller sid installation beats events progress session) world,
      World.fair installation entry = true) :
    Ends tag sid (∀ entry ∈ World.traced installation
        (awaitDeeds caller sid installation beats events progress session) world,
        timely sid entry = true) session world
      (await caller sid installation 0 (beats.map Beat.arrival) events progress session)
      (World.done installation
        (awaitDeeds caller sid installation beats events progress session) world) := by
  induction beats generalizing events first progress session world with
  | nil => exact (handle_owned installation watch issued passed ordered).ends
  | cons beat rest induction =>
      have owns := @handle_owned Body caller sid tag session world progress _ installation events
        first watch issued passed ordered
      rw [List.map_cons]
      unfold awaitDeeds at fair ⊢
      unfold await
      rw [World.traced_append, List.forall_mem_append] at fair
      rw [World.traced_append, World.done_append, List.forall_mem_append]
      generalize World.done installation
        ((handleCalls caller sid events progress session).map .call) world = handled at *
      rcases outcome : handle caller sid events progress session with ⟨exit, later, left⟩
      rw [outcome] at owns fair
      cases exit with
      | some exit => exact owns.ends
      | none =>
          dsimp only at fair ⊢
          rw [World.traced_append, List.forall_mem_append] at fair
          rw [World.traced_append, World.done_append, List.forall_mem_append]
          obtain ⟨-, pumps, waits⟩ := fair
          obtain ⟨grows, heard, told, kept⟩ := listen_watched installation owns.watch
            (issued.alike owns.alike) beat pumps
          have grown : Grows world (World.done installation
              (Session.pumpDeeds installation beat left) handled) :=
            (Grows.of_alike owns.alike).trans grows
          generalize World.done installation (Session.pumpDeeds installation beat left) handled =
            listened at *
          have known : ∀ piece ∈ pieces later.trace, Excerpt listened tag piece :=
            fun piece member => grows.excerpt (owns.passed piece member)
          cases ran : Session.listen installation sid 0 beat.arrival left with
          | error error after =>
              rw [ran, final_error] at heard kept
              refine ⟨heard, grown, fun _ same => ?_, known, fun timed parked own => ?_⟩
              · cases same
              · obtain ⟨parked, own⟩ := owns.parked parked own
                exact kept timed.2.1 parked own
          | ok mine after =>
              rw [ran, final_ok] at heard kept
              rw [ran] at waits
              obtain ⟨standing, still⟩ := told mine after ran
              have ends := induction heard (grown.issued issued) known still waits
              refine ⟨ends.watch, grown.trans ends.grows, ends.result, ends.passed,
                fun timed parked own => ?_⟩
              obtain ⟨parked, own⟩ := owns.parked parked own
              obtain ⟨parked, own⟩ := kept timed.2.1 parked own
              exact ends.parked timed.2.2 parked own

omit [Exchange Body] in
theorem submit_streams {machine : Machine Body} (spare : World.Spare machine) (request : Request)
    (path : Text) (onPath : Bool) :
    (Machine.returned (Machine.submit request path onPath machine) = none ∧
      (final (Machine.submit request path onPath machine)).pending = machine.pending) ∨
    ∃ sid pending, Machine.returned (Machine.submit request path onPath machine) = some sid ∧
      machine.pending.get? sid = none ∧ pending.status = none ∧
      (final (Machine.submit request path onPath machine)).pending =
        machine.pending.set sid pending := by
  have move := Machine.submit_move request path onPath machine
  dsimp only at move
  generalize Machine.returned (Machine.submit request path onPath machine) = given,
    final (Machine.submit request path onPath machine) = after at move ⊢
  cases move with
  | refused | exhausted | raised => exact Or.inl ⟨rfl, rfl⟩
  | @issued sid free next frame signer ready acquired made =>
      refine Or.inr ⟨sid, _, rfl, (spare.acquired acquired).1, ?_, (Machine.enqueue_table request sid
        path onPath frame { machine with free := free, nextSid := next, signer := signer }).2⟩
      rfl

/-- A request is submitted: the id it is given was not in flight, and stands for it. -/
theorem submit_watched (watch : Watch session world) (request : Request) (path : Text)
    (onPath : Bool) :
    let after := World.done installation [.call (.submit request path onPath)] world
    let left := { session with machine := final (Machine.submit request path onPath session.machine) }
    Watch left after ∧ (Parked session → Parked left) ∧
      ∀ sid, Machine.returned (Machine.submit request path onPath session.machine) = some sid →
        ¬session.machine.inFlight sid ∧ Issued sid world.asked.length after ∧
        after.asked = world.asked ++ [⟨sid, request, answerLink request onPath⟩] := by
  intro after left
  have kept := (watch.kept.step installation (.client (.submit request path onPath)) rfl rfl).1
  have machine : after.machine = left.machine := by
    change (World.step installation (.client (.submit request path onPath)) world).machine = _
    rw [World.step_machine, watch.machine]
    rfl
  have events := (Machine.submit_move request path onPath session.machine).reports.1
  have refused : Machine.returned (Machine.submit request path onPath session.machine) = none →
      after = { world with machine := left.machine } := by
    intro given
    change World.step installation (.client (.submit request path onPath)) world = _
    simp only [World.step, watch.machine, given]
    rfl
  have noted : ∀ sid, Machine.returned (Machine.submit request path onPath session.machine) = some sid →
      after = { world with
        machine := left.machine
        asked := world.asked ++ [⟨sid, request, answerLink request onPath⟩]
        live := Function.update world.live sid (some world.asked.length) } := by
    intro sid given
    change World.step installation (.client (.submit request path onPath)) world = _
    simp only [World.step, watch.machine, given]
    rfl
  obtain ⟨rests, sound⟩ := watch.kept.1
  have spare := sound.spare
  rw [watch.machine] at spare
  rcases submit_streams spare request path onPath with
    ⟨given, table⟩ | ⟨sid, pending, given, absent, empty, table⟩
  · have shape := refused given
    rw [given]
    refine ⟨⟨machine, kept, watch.documented.fewer ?_ ?_, events.trans watch.read⟩, ?_, ?_⟩
    · rw [shape]
      exact ⟨rfl, rfl, rfl⟩
    · intro other record found
      rw [machine, show left.machine.pending = _ from table] at found
      rw [watch.machine]
      exact found
    · intro parked other some
      rw [Machine.inFlight, show left.machine.pending = _ from table]
      exact parked other some
    · intro other none_
      cases none_
  · have shape := noted sid given
    rw [given]
    refine ⟨⟨machine, kept, ?_, events.trans watch.read⟩, fun parked other some => ?_, ?_⟩
    · intro other record info found status
      rw [machine, show left.machine.pending = _ from table] at found
      by_cases same : other = sid
      · rw [same, Dict.get_set_self, Option.some.injEq] at found
        rw [← found, empty] at status
        cases status
      · rw [Dict.get_set_other _ same, ← watch.machine] at found
        obtain ⟨owner, live, documents⟩ := watch.documented other record info found status
        rw [shape]
        exact ⟨owner, (Function.update_of_ne same _ _).trans live, documents⟩
    · have flying := parked other some
      rw [Machine.inFlight, Dict.mem_keys] at flying ⊢
      rw [show left.machine.pending = _ from table, Dict.get_set]
      split_ifs
      · simp
      · exact flying
    · intro other same
      rw [Option.some.injEq] at same
      subst same
      refine ⟨?_, ⟨?_, ⟨⟨sid, request, answerLink request onPath⟩, ?_, rfl⟩⟩, by rw [shape]⟩
      · rw [Machine.inFlight, Dict.mem_keys, absent]
        simp
      · rw [shape]
        exact Function.update_self _ _ _
      · rw [shape]
        exact List.getElem?_concat_length

end Call

namespace Round

variable {session left : Session Body} {world : World Body} {sid : Nat}
variable [Exchange Body] (installation : Installation Body) (round : Round)

omit [Exchange Body] in
theorem issues_some (issued : round.issues session = some (sid, left)) :
    (session.closed || round.request.pathid ≠ 0 && round.request.pathid ∉ session.paths) = false ∧
      Machine.returned (Machine.submit round.request round.path
        (session.onPath round.request round.arriveOnPath) session.machine) = some sid ∧
      left = { session with machine := final (Machine.submit round.request round.path
        (session.onPath round.request round.arriveOnPath) session.machine) } := by
  unfold issues Session.issues at issued
  split_ifs at issued with refused
  refine ⟨Bool.eq_false_iff.mpr refused, ?_⟩
  cases done : Session.onMachine (Machine.submit round.request round.path
      (session.onPath round.request round.arriveOnPath)) session with
  | error error after =>
      rw [done] at issued
      cases issued
  | ok value after =>
      rw [done] at issued
      cases issued
      exact Session.on_machine_returned done

theorem deeds_some (issued : round.issues session = some (sid, left)) :
    round.deeds installation session = .call (.submit round.request round.path
      (session.onPath round.request round.arriveOnPath)) :: awaitDeeds round.caller sid installation
        round.beats (left.parked sid) {} (left.unpark sid) := by
  rw [deeds, (round.issues_some issued).1, issued]
  rfl

theorem outcome_some (issued : round.issues session = some (sid, left)) :
    round.outcome installation session = Session.awaited installation round.caller round.request
      (session.onPath round.request round.arriveOnPath) (round.beats.map Beat.arrival) sid left := by
  obtain ⟨open_, given, same⟩ := round.issues_some issued
  rw [Bool.or_eq_false_iff] at open_
  unfold outcome Session.execute
  rw [if_neg (by simp [open_.1]), if_neg (by simpa using open_.2)]
  dsimp only
  rw [Session.onMachine]
  cases done : Machine.submit round.request round.path
      (session.onPath round.request round.arriveOnPath) session.machine with
  | error error after =>
      rw [done] at given
      cases given
  | ok value after =>
      rw [done] at given same
      cases given
      rw [same]
      rfl

omit [Exchange Body] in
theorem off_path (control : round.onControl session = true) :
    session.onPath round.request round.arriveOnPath = false ∧
      answerLink round.request (session.onPath round.request round.arriveOnPath) = 0 := by
  rw [onControl, decide_eq_true_eq, Session.answersOn] at control
  cases onPath : session.onPath round.request round.arriveOnPath with
  | true =>
      rw [onPath, if_pos rfl] at control
      simp [Session.onPath, control] at onPath
  | false =>
      rw [onPath] at control
      exact ⟨rfl, by simpa [answerLink] using control⟩

omit [Exchange Body] in
theorem unparked (watch : Watch session world) (parked : Parked session)
    (issued : round.issues session = some (sid, left)) : left.parked sid = [] := by
  obtain ⟨-, given, same⟩ := round.issues_some issued
  obtain ⟨rests, sound⟩ := watch.kept.1
  have spare := sound.spare
  rw [watch.machine] at spare
  by_contra some
  have flying := parked sid (by rw [same] at some; exact some)
  rw [Machine.inFlight, Dict.mem_keys] at flying
  obtain ⟨pending, found⟩ := flying
  rcases submit_streams spare round.request round.path
      (session.onPath round.request round.arriveOnPath) with
    ⟨none, -⟩ | ⟨other, _, one, absent, -⟩
  · rw [given] at none
    cases none
  · rw [given, Option.some.injEq] at one
    rw [one, absent] at found
    cases found

omit [Exchange Body] in
theorem unpark_parked (parked : Parked session) : Parked (session.unpark sid) ∧
    (session.unpark sid).parked sid = [] := by
  have erased : ∀ other, (session.unpark sid).parked other =
      if other = sid then [] else session.parked other := by
    intro other
    unfold Session.parked Session.unpark
    rw [Dict.getD, Dict.get_erase, Dict.getD]
    split_ifs <;> rfl
  refine ⟨fun other some => parked other ?_, by rw [erased, if_pos rfl]⟩
  rw [erased] at some
  split_ifs at some with same
  · exact absurd rfl some
  · exact some

theorem awaited_off_path (caller : Caller) (request : Request) (arrivals : List Arrival) (sid : Nat)
    (left : Session Body) :
    Session.awaited installation caller request false arrivals sid left =
      await caller sid installation (Session.answersOn request false) arrivals (left.parked sid) {}
        (left.unpark sid) := by
  unfold Session.awaited
  rcases await caller sid installation (Session.answersOn request false) arrivals (left.parked sid)
    {} (left.unpark sid) with ⟨exit, progress, session⟩
  rfl

theorem owned (watch : Watch session world) (parked : Parked session)
    (control : round.onControl session = true)
    (fair : ∀ entry ∈ World.traced installation (round.deeds installation session) world,
      World.fair installation entry = true)
    (issued : round.issues session = some (sid, left)) :
    let outcome := round.outcome installation session
    let after := World.done installation (round.deeds installation session) world
    Watch outcome.2.2 after ∧
      after.asked = world.asked ++ [⟨sid, round.request, 0⟩] ∧
      (∀ result, outcome.1 = some (.returned result) → Built after world.asked.length result) ∧
      (∀ piece ∈ pieces outcome.2.1.trace, Excerpt after world.asked.length piece) ∧
      ((∀ entry ∈ World.traced installation (round.deeds installation session) world,
        timely sid entry = true) → Parked outcome.2.2) := by
  have none := round.unparked watch parked issued
  obtain ⟨-, given, same⟩ := round.issues_some issued
  obtain ⟨offPath, link⟩ := round.off_path control
  have answers : Session.answersOn round.request false = 0 := by
    rw [Round.onControl, offPath, decide_eq_true_eq] at control
    exact control
  rw [offPath] at given same link
  obtain ⟨submitted, kept, stands⟩ := submit_watched installation watch round.request round.path
    false
  obtain ⟨-, standing, asked⟩ := stands sid given
  rw [link] at asked
  rw [round.deeds_some installation issued, ← List.singleton_append, World.traced_append,
    List.forall_mem_append, offPath] at fair
  rw [round.deeds_some installation issued, ← List.singleton_append, World.traced_append,
    World.done_append, List.forall_mem_append, round.outcome_some installation issued, offPath,
    awaited_off_path, answers]
  generalize World.done installation [.call (.submit round.request round.path false)] world =
    begun at *
  rw [← same] at submitted kept
  obtain ⟨still, own⟩ := @unpark_parked Body left sid (kept parked)
  have waiting : Watch (left.unpark sid) begun :=
    ⟨submitted.machine, submitted.kept, submitted.documented, submitted.read⟩
  rw [none] at fair ⊢
  have ends := await_owned installation round.beats waiting standing
    (by simp [pieces] : ∀ piece ∈ pieces ({} : Progress).trace, Excerpt begun _ piece)
    (.nil _) fair.2
  refine ⟨ends.watch, ?_, ends.result, ends.passed, fun timed => (ends.parked timed.2 still own).1⟩
  rw [ends.grows.asked, asked]

theorem refused (watch : Watch session world) (parked : Parked session)
    (none : round.issues session = none) :
    Watch (round.outcome installation session).2.2
        (World.done installation (round.deeds installation session) world) ∧
      Parked (round.outcome installation session).2.2 := by
  unfold outcome Session.execute
  by_cases ended : session.closed = true
  · rw [if_pos ended, deeds, if_pos (by simp [ended])]
    exact ⟨watch, parked⟩
  by_cases unbound : round.request.pathid ≠ 0 ∧ round.request.pathid ∉ session.paths
  · rw [if_neg ended, if_pos unbound, deeds, if_pos (by simp [unbound])]
    exact ⟨watch, parked⟩
  have open_ : ¬(session.closed || round.request.pathid ≠ 0 &&
      round.request.pathid ∉ session.paths) = true := by
    simpa [ended] using unbound
  rw [if_neg ended, if_neg unbound, deeds, if_neg open_, none]
  obtain ⟨submitted, kept, -⟩ := submit_watched installation watch round.request round.path
    (session.onPath round.request round.arriveOnPath)
  unfold issues Session.issues at none
  rw [if_neg open_] at none
  dsimp only
  rw [Session.onMachine] at none ⊢
  cases done : Machine.submit round.request round.path
      (session.onPath round.request round.arriveOnPath) session.machine with
  | ok value machine =>
      rw [done] at none
      cases none
  | error error machine =>
      rw [done] at submitted kept
      exact ⟨submitted, kept parked⟩

end Round

section Runs

variable {session left : Session Body} {world : World Body} {sid : Nat}
variable [Exchange Body] (installation : Installation Body)

theorem Served.watched (served : Served installation timely session world) :
    Watch session world ∧ Parked session := by
  induction served with
  | connected fresh read =>
      refine ⟨⟨rfl, World.idle_kept fresh, ?_, read⟩, fun other some => absurd rfl some⟩
      intro sid pending info found
      simp only [World.idle, Bool.and_eq_true, List.isEmpty_iff] at fresh
      have listed := (Dict.get_eq_some _ _ _).mp found
      rw [fresh.1.1.2] at listed
      cases listed
  | bound pathid served induction =>
      obtain ⟨watch, parked⟩ := induction
      exact ⟨⟨watch.machine, watch.kept, watch.documented, watch.read⟩, parked⟩
  | noticed served induction =>
      obtain ⟨watch, parked⟩ := induction
      exact ⟨⟨watch.machine, watch.kept, watch.documented, watch.read⟩, parked⟩
  | executed round control fair held served induction =>
      obtain ⟨watch, parked⟩ := induction
      cases issued : round.issues _ with
      | none => exact round.refused installation watch parked issued
      | some given =>
          obtain ⟨watched, -, -, -, keeps⟩ := round.owned installation watch parked control fair
            issued
          exact ⟨watched, keeps (held given.1 given.2 issued)⟩

/-- After calls during which no answer of another call has ended, a call starts with nothing
parked for the id it is given, and what it returns and passes on was sent in answer to its own
request. -/
theorem own_answers (served : Served installation timely session world) (round : Round)
    (control : round.onControl session = true)
    (fair : ∀ entry ∈ World.traced installation (round.deeds installation session) world,
      World.fair installation entry = true)
    (issued : round.issues session = some (sid, left)) :
    let outcome := round.outcome installation session
    let after := World.done installation (round.deeds installation session) world
    left.parked sid = [] ∧ after.asked = world.asked ++ [⟨sid, round.request, 0⟩] ∧
      (∀ result, outcome.1 = some (.returned result) → Built after world.asked.length result) ∧
      ∀ piece ∈ pieces outcome.2.1.trace, Excerpt after world.asked.length piece := by
  obtain ⟨watch, parked⟩ := served.watched
  obtain ⟨-, asked, result, passed, -⟩ := round.owned installation watch parked control fair issued
  exact ⟨round.unparked watch parked issued, asked, result, passed⟩

end Runs

namespace Round

/-- `kXR_ok` with a byte of data, on the stream of the first call. -/
def toFirst : ServerFrame where
  header := ⟨4, kXR_ok, 1⟩
  body := [1]
  data := []
  streamid := by decide
  status := by decide
  dlen := rfl
  bounded := by decide
  behind := by decide

def toSecond : ServerFrame where
  header := ⟨5, kXR_ok, 1⟩
  body := [2]
  data := []
  streamid := by decide
  status := by decide
  dlen := rfl
  bounded := by decide
  behind := by decide

def timedOut : Round where
  request := Request.Ping
  beats := [{ arrival := { received := .error (.foreign (str "TimeoutError") []) } }]

/-- A ping during which the server sends these frames, and they arrive together. -/
def during (sends : List Sent) : Round where
  caller := Session.taker
  request := Request.Ping
  beats := [{ sends, arrival := { received := .ok (sends.flatMap Sent.bytes) } }]

def spent : Session OneShot :=
  (timedOut.outcome (Installation.bare OneShot) (Session.idle {})).2.2

def spentWorld : World OneShot :=
  World.done (Installation.bare OneShot)
    (timedOut.deeds (Installation.bare OneShot) (Session.idle {}))
    { machine := (Session.idle {}).machine }

/-- A second ping, with whose answer that of the first arrives. -/
def mixed : Round := during [⟨0, some 1, toSecond⟩, ⟨0, some 0, toFirst⟩]

def belated : Session OneShot := (mixed.outcome (Installation.bare OneShot) spent).2.2

def belatedWorld : World OneShot :=
  World.done (Installation.bare OneShot) (mixed.deeds (Installation.bare OneShot) spent) spentWorld

theorem spent_served (condition : Nat → Entry WorldMove (World OneShot) → Bool)
    (held : (World.traced (Installation.bare OneShot)
      (timedOut.deeds (Installation.bare OneShot) (Session.idle {}))
      { machine := (Session.idle {}).machine }).all (condition 4) = true) :
    Served (Installation.bare OneShot) condition spent spentWorld := by
  have fresh : Served (Installation.bare OneShot) condition (Session.idle {})
      { machine := (Session.idle {}).machine } :=
    .connected (by decide +kernel) (by decide +kernel)
  unfold spent spentWorld
  refine Served.executed timedOut (by decide +kernel) (by decide +kernel) ?_ fresh
  intro sid left issued
  have four : ((timedOut.issues (Session.idle {})).all fun issued => issued.1 = 4) = true := by
    decide +kernel
  rw [issued] at four
  rw [show sid = 4 from of_decide_eq_true four]
  exact List.all_eq_true.mp held

theorem next_answer_own :
    let round := during [⟨0, some 1, toSecond⟩]
    Served (Installation.bare OneShot) timely spent spentWorld ∧
      (round.outcome (Installation.bare OneShot) spent).1 = some (.returned ⟨[2], none⟩) ∧
      Built (World.done (Installation.bare OneShot)
        (round.deeds (Installation.bare OneShot) spent) spentWorld) 1 ⟨[2], none⟩ := by
  intro round
  have served := spent_served timely (by decide +kernel)
  have returned : (round.outcome (Installation.bare OneShot) spent).1 =
      some (.returned ⟨[2], none⟩) := by
    decide +kernel
  have issued : (round.issues spent).isSome = true := by decide +kernel
  obtain ⟨⟨sid, left⟩, issued⟩ := Option.isSome_iff_exists.mp issued
  have own := own_answers (Installation.bare OneShot) served round (by decide +kernel)
    (by decide +kernel) issued
  have count : spentWorld.asked.length = 1 := by decide +kernel
  rw [count] at own
  exact ⟨served, returned, own.2.2.1 _ returned⟩

/-- The answer to a ping that has timed out arrives during the second; the third is given the
id of the first, finds that answer parked, and returns it. -/
theorem parked_answer_returned :
    let round := during []
    Served (Installation.bare OneShot) (fun _ _ => true) belated belatedWorld ∧
      round.onControl belated = true ∧
      (∀ entry ∈ World.traced (Installation.bare OneShot)
        (round.deeds (Installation.bare OneShot) belated) belatedWorld,
        World.fair (Installation.bare OneShot) entry = true) ∧
      (∃ sid left, round.issues belated = some (sid, left) ∧ left.parked sid ≠ []) ∧
      ∃ result, (round.outcome (Installation.bare OneShot) belated).1 = some (.returned result) ∧
        ¬Built (World.done (Installation.bare OneShot)
          (round.deeds (Installation.bare OneShot) belated) belatedWorld)
          belatedWorld.asked.length result := by
  intro round
  have served := spent_served (fun _ _ => true) (by decide +kernel)
  have found : ((round.issues belated).any fun issued =>
      !(issued.2.parked issued.1).isEmpty) = true := by
    decide +kernel
  have silent : ((World.done (Installation.bare OneShot)
      (round.deeds (Installation.bare OneShot) belated) belatedWorld).answers
        belatedWorld.asked.length).isEmpty = true := by
    decide +kernel
  obtain ⟨⟨sid, left⟩, issued, some⟩ := (Option.any_eq_true _ _).mp found
  have again : Served (Installation.bare OneShot) (fun _ _ => true) belated belatedWorld := by
    unfold belated belatedWorld
    exact Served.executed mixed (by decide +kernel) (by decide +kernel) (fun _ _ _ _ _ => rfl) served
  have returned : (round.outcome (Installation.bare OneShot) belated).1 =
      Option.some (.returned ⟨[1], none⟩) := by
    decide +kernel
  refine ⟨again, by decide +kernel, by decide +kernel, ⟨sid, left, issued, fun none => ?_⟩,
    ⟨[1], none⟩, returned, fun built => ?_⟩
  · rw [none] at some
    cases some
  · obtain ⟨frame, member, -⟩ := built.closed
    rw [List.isEmpty_iff.mp silent] at member
    cases member

end Round

end XRootDClient.Sync
