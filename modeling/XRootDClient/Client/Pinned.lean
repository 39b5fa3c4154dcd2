import XRootDClient.Client.Handles

/-!
# A handle stays where it was given out

The router that is pinned for a handle keeps its session: it has one, so it dials none, and
it does not reconnect. The one way it is moved is a redirect. Where no request that goes
through it is redirected, every frame with the handle in it goes out on the session that
gave the handle out, whatever is lost and opened again on the way.
-/

set_option autoImplicit false

namespace XRootDClient.Handles

open Lib Lib.BigEndian Lib.Run Lib.Stateful Routing

variable {Ambient : Type} {python : Builtins}

/-- The router is pinned to where the handle was given out. -/
structure Fast (handle : Handle) (router : Router) : Prop where
  session : router.session = some handle.issuer
  url : router.url = handle.home
  reconnect : router.reconnect = false

/-- A handle in use is used through a router pinned for it. -/
def Sight.Firm (sight : Sight) : Prop :=
  ∀ handle, sight.handle = some handle → ∃ router, sight.router = some router ∧ Fast handle router

/-- Every handle went out on the session that gave it out, and its router was never moved
while it was in use. -/
structure Kept (process : Process Ambient) : Prop where
  sent : ∀ sending ∈ process.sent, sending.session = sending.handle.issuer
  seen : ∀ sight ∈ process.seen, sight.Firm

/-- What holds between the steps of an operation, and how many redirects are followed. -/
structure Sound (limit : Int) (process : Process Ambient) : Prop where
  kept : Kept process
  firm : process.sight.Firm
  config : process.file.config.redirectLimit ≤ limit
  router : ∀ router, process.world.routers[process.file.router]? = some router →
    router.config.redirectLimit ≤ limit

def Idle (limit : Int) (process : Process Ambient) : Prop :=
  Sound limit process ∧ process.file.handle = none

/-- The file's router is pinned for the handle, and no other handle is in use. -/
structure Stays (limit : Int) (handle : Handle) (process : Process Ambient) : Prop where
  sound : Sound limit process
  fast : ∃ router, process.world.routers[process.file.router]? = some router ∧ Fast handle router
  only : process.file.handle = none ∨ process.file.handle = some handle

theorem firm_none {sight : Sight} (none : sight.handle = none) : sight.Firm := by
  intro handle some
  rw [none] at some
  cases some

theorem Kept.note {process : Process Ambient} (kept : Kept process) (firm : process.sight.Firm) :
    Kept process.note := by
  refine ⟨kept.sent, fun sight member => ?_⟩
  rcases List.mem_append.mp member with old | new
  · exact kept.seen sight old
  · rw [List.mem_singleton.mp new]
    exact firm

theorem Sound.note {limit : Int} {process : Process Ambient} (sound : Sound limit process) :
    Sound limit process.note :=
  ⟨sound.kept.note sound.firm, sound.firm, sound.config, sound.router⟩

theorem Stays.idle {limit : Int} {handle : Handle} {process : Process Ambient}
    (stays : Stays limit handle process) (none : process.file.handle = none) :
    Idle limit process :=
  ⟨stays.sound, none⟩

theorem Sound.stays {limit : Int} {handle : Handle} {process : Process Ambient}
    (sound : Sound limit process) (used : process.file.handle = some handle) :
    Stays limit handle process :=
  ⟨sound, sound.firm handle used, Or.inr used⟩

theorem session_fast {handle : Handle} {router : Router} (fast : Fast handle router) (index : Nat)
    (world : World Ambient) (dial : Option Exception) :
    (world.session python index router dial).2 = world ∧
      ∀ sid, (world.session python index router dial).1 = .ok sid → sid = handle.issuer := by
  unfold World.session
  rw [fast.session]
  dsimp only
  split_ifs with lost again
  · rw [fast.reconnect] at again
    cases again
  · exact ⟨rfl, fun sid never => by cases never⟩
  · exact ⟨rfl, fun sid same => by cases same; rfl⟩

theorem session_found {world : World Ambient} {index sid : Nat} {router : Router}
    (found : world.routers[index]? = some router) {dial : Option Exception}
    (got : (world.session python index router dial).1 = .ok sid) :
    ∃ owns, (world.session python index router dial).2.routers[index]? =
      some { router with session := some sid, owns } := by
  rcases @World.session_cases Ambient python world index router dial with ⟨stays, same⟩ | ⟨-, renewed⟩
  · rw [same]
    unfold World.renews at stays
    unfold World.session at got
    cases held : router.session with
    | none =>
        rw [held] at stays
        cases stays
    | some other =>
        rw [held] at stays got
        dsimp only at stays got
        cases ended : world.closed other with
        | true =>
            rw [ended, Bool.true_and] at stays
            rw [ended, if_pos rfl, stays] at got
            cases got
        | false =>
            rw [ended] at got
            cases got
            exact ⟨router.owns, by rw [found, ← held]⟩
  · have kept : (world.acquire python router.url router.config).2.routers[index]? =
        some router := by
      rw [World.acquire_routers]
      exact found
    generalize world.session python index router dial = result at *
    cases renewed with
    | taken other =>
        cases got
        exact ⟨true, put_get kept _⟩
    | dialled =>
        cases got
        exact ⟨true, @put_get _ (World.joined _ _ _) _ _ kept _⟩
    | failed error => cases got

variable {world : World Ambient} {index hops failed : Nat} {path : Text} {request : Request}
  {round : Round} {router : Router}

theorem turn_ends {ending : Ending}
    (finished : (turn python index path request hops failed round router world).next = .error ending) :
    (turn python index path request hops failed round router world).moves =
      tried index (world.session python index router round.dial).1 round := by
  unfold turn at *
  dsimp only at *
  cases answer : answered (world.session python index router round.dial).1 round with
  | returns => rfl
  | waitsTooLong => rfl
  | redirects target =>
      rw [answer] at finished
      dsimp only at finished ⊢
      split_ifs at finished ⊢
      rfl
  | raises error =>
      rw [answer] at finished
      dsimp only at finished ⊢
      split_ifs at finished ⊢
      · rfl
      · rfl

theorem turn_returned
    (finished : (turn python index path request hops failed round router world).next =
      .error .returned) :
    ∃ sid, (world.session python index router round.dial).1 = .ok sid := by
  cases found : (world.session python index router round.dial).1 with
  | ok sid => exact ⟨sid, rfl⟩
  | error error =>
      unfold turn answered at finished
      dsimp only at finished
      rw [found] at finished
      dsimp only at finished
      unfold Routing.failure at finished
      split_ifs at finished <;> cases finished

/-- None of these answers is a redirect, or none is followed. -/
def Talk.Straight (limit : Int) (talk : Talk) : Prop :=
  limit < 1 ∨ ∀ round ∈ talk.rounds, ∀ target, round.answer ≠ .redirects target

theorem turn_fast {handle : Handle} {limit : Int} (fast : Fast handle router)
    (bounded : router.config.redirectLimit ≤ limit)
    (straight : limit < 1 ∨ ∀ target, round.answer ≠ .redirects target) :
    ∃ ending, (turn python index path request hops failed round router world).next =
      .error ending := by
  rcases @turn_cases Ambient python world index hops failed path request round router with
    finished | continues
  · exact finished
  · exfalso
    generalize turn python index path request hops failed round router world = turned at continues
    generalize given : answered (world.session python index router round.dial).1 round = answer
      at continues
    cases continues with
    | follows target asked within =>
        rcases straight with none | straight
        · omega
        · rw [asked] at given
          unfold answered at given
          split at given
          · exact straight target given
          · cases given
    | retries error lost broken reconnects =>
        rw [fast.reconnect] at reconnects
        cases reconnects

section Moves

variable {limit : Int} {handle : Handle} {process : Process Ambient}

theorem Stays.moved (stays : Stays limit handle process) {single : Move Ambient}
    (same : (step python single process.world).routers[process.file.router]? =
      process.world.routers[process.file.router]?) :
    Stays limit handle
      (Process.note { process with world := step python single process.world }) := by
  have firm : Sight.Firm ⟨process.file.handle,
      (step python single process.world).routers[process.file.router]?⟩ := by
    rw [same]
    exact stays.sound.firm
  have sound : Sound limit { process with world := step python single process.world } := by
    refine ⟨⟨stays.sound.kept.sent, stays.sound.kept.seen⟩, firm, stays.sound.config, ?_⟩
    rw [same]
    exact stays.sound.router
  refine ⟨sound.note, ?_, stays.only⟩
  change ∃ router, (step python single process.world).routers[process.file.router]? = some router ∧ _
  rw [same]
  exact stays.fast

theorem step_session (stays : Stays limit handle process) (dial : Option Exception) :
    step python (.session process.file.router dial) process.world = process.world := by
  obtain ⟨router, found, fast⟩ := stays.fast
  rw [step, World.onRouter, found]
  exact (session_fast fast _ _ dial).1

theorem Stays.asked (stays : Stays limit handle process) (dial : Option Exception) :
    Stays limit handle (Process.note { process with
      world := step python (.session process.file.router dial) process.world }) :=
  stays.moved (by rw [step_session stays])

theorem tried_stays (stays : Stays limit handle process) (found : Except Exception Nat)
    (round : Round) : ∃ after, moveAll python (tried process.file.router found round) process =
      .ok () after ∧ Stays limit handle after ∧ after.file = process.file := by
  have asked := @Stays.asked Ambient python limit handle process stays round.dial
  unfold tried
  cases found with
  | error error => exact ⟨_, rfl, asked, rfl⟩
  | ok sid =>
      dsimp only
      split_ifs
      · exact ⟨_, rfl, @Stays.moved Ambient python limit handle _ asked (.lose sid) rfl, rfl⟩
      · exact ⟨_, rfl, asked, rfl⟩

theorem move_all_idle (moves : List (Move Ambient)) (kept : Kept process)
    (none : process.file.handle = none) :
    ∃ after, moveAll python moves process = .ok () after ∧
      after.world = run (step python) moves process.world ∧ after.file = process.file ∧
      Kept after := by
  induction moves generalizing process with
  | nil => exact ⟨process, rfl, rfl, rfl, kept⟩
  | cons single rest induction =>
      have moved : Kept { process with world := step python single process.world } :=
        ⟨kept.sent, kept.seen⟩
      have noted := moved.note (firm_none none)
      exact induction noted none

theorem Kept.send (kept : Kept process) {sid : Nat} {bearing : Option Handle}
    (issued : ∀ handle, bearing = some handle → sid = handle.issuer) :
    Kept { process with
      sent := process.sent ++ bearing.toList.map fun handle => ⟨sid, handle⟩ } := by
  refine ⟨fun sending member => ?_, kept.seen⟩
  rcases List.mem_append.mp member with old | new
  · exact kept.sent sending old
  · obtain ⟨handle, given, rfl⟩ := List.mem_map.mp new
    exact issued handle (Option.mem_toList.mp given)

theorem Stays.send (stays : Stays limit handle process) {bearing : Option Handle}
    (mine : bearing = none ∨ bearing = some handle) :
    Stays limit handle { process with
      sent := process.sent ++ bearing.toList.map fun bearer => ⟨handle.issuer, bearer⟩ } := by
  have kept : Kept { process with
      sent := process.sent ++ bearing.toList.map fun bearer => ⟨handle.issuer, bearer⟩ } := by
    apply stays.sound.kept.send
    intro other given
    rcases mine with none | some
    · rw [none] at given
      cases given
    · rw [some] at given
      cases given
      rfl
  exact ⟨⟨kept, stays.sound.firm, stays.sound.config, stays.sound.router⟩, stays.fast, stays.only⟩

/-- A request through a router pinned for the handle: it is tried once, where the handle was
given out. -/
theorem execute_stays (rounds : List Round) (request : Request) (hops failed : Nat)
    {bearing : Option Handle} (mine : bearing = none ∨ bearing = some handle)
    (straight : limit < 1 ∨ ∀ round ∈ rounds, ∀ target, round.answer ≠ .redirects target)
    (held : Option Handle) :
    Triple (fun process => Stays limit handle process ∧ process.file.handle = held)
      (execute python path bearing request hops failed rounds : Op Ambient Nat)
      (fun _ process => Stays limit handle process ∧ process.file.handle = held)
      (fun _ process => Stays limit handle process ∧ process.file.handle = held) := by
  rintro process ⟨stays, used⟩
  cases rounds with
  | nil => exact ⟨stays, used⟩
  | cons round rest =>
      obtain ⟨router, found, fast⟩ := stays.fast
      obtain ⟨-, issued⟩ := @session_fast Ambient python handle router fast process.file.router
        process.world round.dial
      obtain ⟨ending, finished⟩ := @turn_fast Ambient python process.world process.file.router hops
        failed path request round router handle limit fast (stays.sound.router router found)
        (straight.imp id fun none => none round List.mem_cons_self)
      have moves := turn_ends finished
      unfold execute
      rw [run_bind, run_get]
      dsimp only
      rw [found]
      dsimp only
      rw [finished, moves]
      generalize (process.world.session python process.file.router router round.dial).1 = got at *
      cases got with
      | error error =>
          obtain ⟨after, done, left, file⟩ := @tried_stays Ambient python limit handle process
            stays (.error error) round
          have still : after.file.handle = held := by rw [file, used]
          rw [run_bind, bear, run_pure]
          dsimp only
          rw [run_bind, done]
          dsimp only
          cases ending <;> exact ⟨left, still⟩
      | ok sid =>
          cases issued sid rfl
          obtain ⟨after, done, left, file⟩ := @tried_stays Ambient python limit handle _
            (stays.send mine) (.ok handle.issuer) round
          have still : after.file.handle = held := by rw [file, used]
          rw [run_bind, bear, Handles.send, run_modify]
          dsimp only
          rw [run_bind, done]
          dsimp only
          cases ending <;> exact ⟨left, still⟩

def Answered (limit : Int) (sid : Nat) (process : Process Ambient) : Prop :=
  Idle limit process ∧ ∃ router, process.world.routers[process.file.router]? = some router ∧
    router.session = some sid

theorem idle_after {after : Process Ambient} (idle : Idle limit process) (kept : Kept after)
    (file : after.file = process.file)
    (bounded : ∀ router, after.world.routers[process.file.router]? = some router →
      router.config.redirectLimit ≤ limit) : Idle limit after := by
  have none : after.file.handle = none := by
    rw [file]
    exact idle.2
  refine ⟨⟨kept, firm_none none, ?_, ?_⟩, none⟩
  · rw [file]
    exact idle.1.config
  · rw [file]
    exact bounded

theorem bear_none (found : Except Exception Nat) :
    bear none found process = .ok () process := by
  cases found with
  | error error => rfl
  | ok sid =>
      rw [bear, Handles.send, run_modify]
      simp

theorem execute_idle (rounds : List Round) (request : Request) (hops failed : Nat) :
    Triple (Idle limit)
      (execute python path none request hops failed rounds : Op Ambient Nat)
      (fun sid => Answered limit sid) (fun _ => Idle limit) := by
  induction rounds generalizing request hops failed with
  | nil => exact fun process idle => idle
  | cons round rest induction =>
      intro process idle
      unfold execute
      rw [run_bind, run_get]
      dsimp only
      cases found : process.world.routers[process.file.router]? with
      | none => exact idle
      | some router =>
          have bounded := idle.1.router router found
          obtain ⟨after, done, world, file, kept⟩ := @move_all_idle Ambient python process
            (turn python process.file.router path request hops failed round router
              process.world).moves idle.1.kept idle.2
          dsimp only
          rw [run_bind, bear_none]
          dsimp only
          rw [run_bind, done]
          dsimp only
          rcases @turn_cases Ambient python process.world process.file.router hops failed path
            request round router with ⟨ending, finished⟩ | continues
          · have moves := turn_ends finished
            obtain ⟨session, owns, left⟩ := @tried_router Ambient python process.world
              process.file.router router found
              (process.world.session python process.file.router router round.dial).1 round
            rw [← moves, ← world] at left
            have later : Idle limit after := by
              apply idle_after idle kept file
              intro other there
              rw [left] at there
              cases there
              exact bounded
            by_cases returned : ending = .returned
            · subst returned
              obtain ⟨sid, got⟩ := turn_returned finished
              rw [finished, got]
              refine ⟨later, ?_⟩
              obtain ⟨owns, asked⟩ := session_found found got
              have answered : step python (.session process.file.router round.dial) process.world =
                  (process.world.session python process.file.router router round.dial).2 := by
                rw [step, World.onRouter, found]
                rfl
              rw [world, moves, file, got]
              refine ⟨{ router with session := some sid, owns }, ?_, rfl⟩
              rw [← asked, ← answered]
              unfold tried
              dsimp only
              split_ifs <;> rfl
            · rw [finished]
              generalize (process.world.session python process.file.router router
                round.dial).1 = got
              cases ending <;> first | exact later | exact absurd rfl returned
          · have next := @continues_router Ambient python process.world process.file.router hops
              failed request round router _ _ _ found continues
            rw [← world] at next
            have later : Idle limit after := by
              apply idle_after idle kept file
              intro other there
              rw [next] at there
              cases there
              exact bounded
            generalize turn python process.file.router path request hops failed round router
              process.world = turned at continues
            cases continues with
            | follows target => exact induction _ _ _ after later
            | retries error => exact induction _ _ _ after later

theorem Sound.changed (sound : Sound limit process) {file : File}
    (handle : file.handle = process.file.handle ∨ file.handle = none)
    (router : file.router = process.file.router) (config : file.config = process.file.config) :
    Sound limit (Process.note { process with file }) := by
  have firm : Sight.Firm ⟨file.handle, process.world.routers[file.router]?⟩ := by
    rw [router]
    rcases handle with same | none
    · rw [same]
      exact sound.firm
    · exact firm_none none
  have changed : Sound limit { process with file } := by
    refine ⟨⟨sound.kept.sent, sound.kept.seen⟩, firm, ?_, ?_⟩
    · rw [config]
      exact sound.config
    · rw [router]
      exact sound.router
  exact changed.note

theorem change_then {update : File → File} {rest : Op Ambient Unit}
    {Raised : Failure → Process Ambient → Prop}
    (handle : ∀ file, (update file).handle = file.handle)
    (router : ∀ file, (update file).router = file.router)
    (config : ∀ file, (update file).config = file.config)
    (after : Triple (Sound limit) rest (fun _ => Sound limit) Raised) :
    Triple (Sound limit) (do change update; rest) (fun _ => Sound limit) Raised := by
  have changed : Triple (Sound limit) (change update : Op Ambient Unit) (fun _ => Sound limit)
      Raised :=
    triple_modify fun process sound => sound.changed (Or.inl (handle _)) (router _) (config _)
  exact triple_bind changed fun _ => after

theorem session_sound (dial : Option Exception) :
    Triple (Sound limit) (session python dial : Op Ambient Nat)
      (fun sid process => Sound limit process ∧
        ∀ handle, process.file.handle = some handle → sid = handle.issuer)
      (fun _ => Sound limit) := by
  intro process sound
  unfold session
  rw [run_bind, run_get]
  dsimp only
  cases found : process.world.routers[process.file.router]? with
  | none => exact sound
  | some router =>
      dsimp only
      rw [run_bind, move, run_modify]
      dsimp only
      cases used : process.file.handle with
      | some handle =>
          have stays := sound.stays used
          obtain ⟨other, there, fast⟩ := stays.fast
          rw [found] at there
          cases there
          obtain ⟨-, issued⟩ := @session_fast Ambient python handle router fast
            process.file.router process.world dial
          have asked := @Stays.asked Ambient python limit handle process stays dial
          cases got : (process.world.session python process.file.router router dial).1 with
          | error error => exact asked.sound
          | ok sid =>
              refine ⟨asked.sound, fun other same => ?_⟩
              have same : process.file.handle = some other := same
              rw [used] at same
              cases same
              exact issued sid got
      | none =>
          obtain ⟨session, owns, left⟩ := @session_router Ambient python process.world
            process.file.router router found dial
          have asked : step python (.session process.file.router dial) process.world =
              (process.world.session python process.file.router router dial).2 := by
            rw [step, World.onRouter, found]
            rfl
          have kept : Kept { process with
              world := step python (.session process.file.router dial) process.world } :=
            ⟨sound.kept.sent, sound.kept.seen⟩
          have idle : Idle limit (Process.note { process with
              world := step python (.session process.file.router dial) process.world }) := by
            apply @idle_after _ _ _ _ ⟨sound, used⟩ (kept.note (firm_none used)) rfl
            intro other there
            change (step python _ process.world).routers[process.file.router]? = some other at there
            rw [asked, left] at there
            cases there
            exact sound.router router found
          cases (process.world.session python process.file.router router dial).1 with
          | error error => exact idle.1
          | ok sid =>
              refine ⟨idle.1, fun other same => ?_⟩
              have same : process.file.handle = some other := same
              rw [used] at same
              cases same

theorem bind_data_path_sound (bind : Bind) :
    Triple (Sound limit) (bindDataPath python bind : Op Ambient Nat) (fun _ => Sound limit)
      (fun _ => Sound limit) := by
  apply triple_bind (session_sound bind.dial)
  intro sid
  cases bind.answer with
  | ok pathid => exact triple_pure fun process both => both.1
  | error error => exact triple_throw fun process both => both.1

theorem bind_data_streams_sound (binds : List Bind) :
    Triple (Sound limit) (bindDataStreams python binds : Op Ambient Unit) (fun _ => Sound limit)
      (fun _ _ => False) := by
  induction binds with
  | nil => exact triple_pure fun process sound => sound
  | cons bind rest induction =>
      apply triple_look
      intro start
      dsimp only
      split_ifs
      · have bound : Triple (Sound limit)
            (tryCatch (bindDataPath python bind) fun _ => pure 0 : Op Ambient Nat)
            (fun _ => Sound limit) (fun _ _ => False) :=
          triple_catch (bind_data_path_sound bind) fun _ => triple_pure fun _ sound => sound
        apply triple_bind bound
        intro pathid
        split_ifs
        · exact triple_pure fun _ sound => sound
        · exact change_then (fun _ => rfl) (fun _ => rfl) (fun _ => rfl) induction
      · exact triple_pure fun _ sound => sound

/-- What pinning a router leaves: the router it was, perhaps without its session, and the
pinned one behind all others. -/
theorem pin_routers (found : world.routers[index]? = some router) (transfer : Bool) :
    (∃ session, (step python (.pin index transfer) world).routers[index]? =
        some { router with session }) ∧
      (step python (.pin index transfer) world).routers[world.routers.length]? =
        some { url := router.url, config := router.config, reconnect := false
               session := router.session, owns := transfer || router.session.isNone } := by
  obtain ⟨within, same⟩ := List.getElem?_eq_some_iff.mp found
  rw [step, World.onRouter, found]
  dsimp only [Option.elim]
  unfold World.pin World.putRouter
  cases transfer with
  | false =>
      dsimp only
      rw [if_neg Bool.false_ne_true]
      refine ⟨⟨router.session, ?_⟩, ?_⟩
      · rw [List.getElem?_append_left within, found]
      · rw [List.getElem?_append_right (Nat.le_refl _), Nat.sub_self]
        rfl
  | true =>
      dsimp only
      rw [if_pos rfl]
      dsimp only
      refine ⟨⟨none, ?_⟩, ?_⟩
      · rw [List.getElem?_append_left (by rw [List.length_set]; exact within),
          List.getElem?_set_self within]
      · rw [List.getElem?_append_right (by rw [List.length_set]), List.length_set, Nat.sub_self]
        rfl

/-- The handle that an open gives is used through a router pinned to where it was answered. -/
theorem do_open_sound (opening : Opening) :
    Triple (Idle limit) (doOpen python opening : Op Ambient Unit) (fun _ => Sound limit)
      (fun _ => Idle limit) := by
  apply triple_bind (execute_idle _ _ _ _)
  rintro sid process ⟨idle, router, found, answered⟩
  obtain ⟨⟨session, before⟩, pinned⟩ := @pin_routers Ambient python process.world
    process.file.router router found process.file.ownsRouter
  rw [run_bind, run_get]
  dsimp only
  rw [run_bind, move, run_modify]
  dsimp only
  rw [run_bind, change, run_modify]
  dsimp only
  have sound := idle.1
  have none := idle.2
  let moved : Process Ambient := Process.note { process with
    world := step python (.pin process.file.router process.file.ownsRouter) process.world }
  let placed : Process Ambient := Process.note { moved with
    file := { process.file with router := process.world.routers.length } }
  have movedKept : Kept moved := by
    have kept : Kept { process with
        world := step python (.pin process.file.router process.file.ownsRouter) process.world } :=
      ⟨sound.kept.sent, sound.kept.seen⟩
    exact kept.note (firm_none none)
  have placedKept : Kept placed := by
    have kept : Kept { moved with
        file := { process.file with router := process.world.routers.length } } :=
      ⟨movedKept.sent, movedKept.seen⟩
    exact kept.note (firm_none none)
  have bounded : ∀ other, placed.world.routers[placed.file.router]? = some other →
      other.config.redirectLimit ≤ limit := by
    intro other there
    change (step python _ process.world).routers[process.world.routers.length]? = _ at there
    rw [pinned] at there
    cases there
    exact sound.router router found
  cases opening.reply with
  | error error => exact ⟨⟨placedKept, firm_none none, sound.config, bounded⟩, none⟩
  | ok value =>
      dsimp only
      rw [change, run_modify]
      have firm : Sight.Firm ⟨some ⟨value, sid,
          (process.world.routers[process.file.router]?).elim process.file.url Router.url⟩,
          placed.world.routers[placed.file.router]?⟩ := by
        intro handle same
        cases same
        refine ⟨_, pinned, answered, ?_, rfl⟩
        rw [found]
        rfl
      have kept : Kept { placed with file := { placed.file with handle := some ⟨value, sid,
          (process.world.routers[process.file.router]?).elim process.file.url Router.url⟩ } } :=
        ⟨placedKept.sent, placedKept.seen⟩
      exact ⟨kept.note firm, firm, sound.config, bounded⟩

theorem let_go {single : Move Ambient} (goes : single = .close index ∨ single = .drop index)
    {other : Router} (there : (step python single world).routers[index]? = some other) :
    ∃ router, world.routers[index]? = some router ∧ other.config = router.config := by
  cases found : world.routers[index]? with
  | none =>
      rcases goes with rfl | rfl
      · rw [step, World.onRouter, found] at there
        cases found.symm.trans there
      · rw [step, World.onRouter, found] at there
        cases found.symm.trans there
  | some router =>
      refine ⟨router, rfl, ?_⟩
      have within := (List.getElem?_eq_some_iff.mp found).1
      have left : (step python single world).routers[index]? =
          some { router with session := none, owns := true } := by
        rcases goes with rfl | rfl
        · rw [step, World.onRouter, found]
          dsimp only [Option.elim]
          rw [World.close_routers, List.getElem?_set_self within]
        · rw [step, World.onRouter, found]
          dsimp only [Option.elim]
          unfold World.drop
          cases router.session with
          | none => exact put_get found _
          | some sid => exact @put_get _ (World.closeSession _ sid) _ _ found _
      rw [left] at there
      cases there
      rfl

theorem move_idle {single : Move Ambient} (idle : Idle limit process)
    (goes : single = .close process.file.router ∨ single = .drop process.file.router) :
    Idle limit (Process.note { process with world := step python single process.world }) := by
  have kept : Kept { process with world := step python single process.world } :=
    ⟨idle.1.kept.sent, idle.1.kept.seen⟩
  apply idle_after idle (kept.note (firm_none idle.2)) rfl
  intro other there
  obtain ⟨router, found, same⟩ := let_go goes there
  rw [same]
  exact idle.1.router router found

theorem release_router_idle :
    Triple (Idle limit) (releaseRouter python : Op Ambient Unit) (fun _ => Idle limit)
      (fun _ _ => False) := by
  apply triple_get
  intro start
  dsimp only
  split_ifs
  · apply triple_modify
    rintro process ⟨rfl, idle⟩
    exact move_idle idle (Or.inl rfl)
  · exact triple_pure fun process now => now.1 ▸ now.2

theorem open_file_sound (writing : Bool) (opening : Opening) (binds : List Bind) :
    Triple (Sound limit) (openFile python writing opening binds : Op Ambient Unit)
      (fun _ => Sound limit) (fun _ => Sound limit) := by
  apply triple_get
  intro start
  dsimp only
  split_ifs with used
  · exact triple_throw fun process now => now.1 ▸ now.2
  · have none : start.file.handle = none := by simpa using used
    have changed : Triple (fun now => now = start ∧ Sound limit start)
        (change fun file => { file with writing } : Op Ambient Unit) (fun _ => Idle limit)
        (fun _ => Sound limit) := by
      apply triple_modify
      rintro process ⟨rfl, sound⟩
      exact ⟨sound.changed (Or.inl rfl) rfl rfl, none⟩
    have opened : Triple (Idle limit)
        (do doOpen python opening; bindDataStreams python binds : Op Ambient Unit)
        (fun _ => Sound limit) (fun _ => Idle limit) :=
      triple_bind (do_open_sound opening) fun _ => triple_weaken (bind_data_streams_sound binds)
        (fun _ sound => sound) (fun _ _ sound => sound) (fun _ _ never => never.elim)
    have failed : ∀ failure, Triple (Idle limit)
        (do releaseRouter python; throw failure : Op Ambient Unit) (fun _ => Sound limit)
        (fun _ => Sound limit) := fun failure =>
      triple_bind (triple_weaken release_router_idle (fun _ idle => idle) (fun _ _ idle => idle)
        (fun _ _ never => never.elim)) fun _ => triple_throw fun _ idle => idle.1
    exact triple_bind changed fun _ => triple_catch opened failed

theorem handle_run : (Handles.handle : Op Ambient Handle) process = match process.file.handle with
    | none => .error (.raised (.foreign (str "ValueError") (str "I/O operation on closed file")))
        process
    | some handle => .ok handle process := by
  unfold Handles.handle
  rw [run_bind, run_get]
  dsimp only
  cases process.file.handle <;> rfl

theorem direct_sound {request : Talk} (straight : request.Straight limit) :
    Triple (Sound limit) (direct python request : Op Ambient Unit) (fun _ => Sound limit)
      (fun _ => Sound limit) := by
  intro process sound
  unfold direct
  rw [run_bind, handle_run]
  cases used : process.file.handle with
  | none => exact sound
  | some handle =>
      have talked : Triple
          (fun process => Stays limit handle process ∧ process.file.handle = some handle)
          (do let _ ← talk python (some handle) request : Op Ambient Unit)
          (fun _ => Sound limit) (fun _ => Sound limit) :=
        triple_bind (triple_weaken (execute_stays _ _ _ _ (Or.inr rfl) straight (some handle))
          (fun _ both => both) (fun _ _ both => both) (fun _ _ both => both.1.sound))
          fun _ => triple_pure fun _ both => both.1.sound
      exact talked process ⟨sound.stays used, used⟩

theorem discard_router_idle (start : Process Ambient) :
    Triple (fun now => Idle limit now ∧ now.file.router = start.file.router)
      (discardRouter python start.file : Op Ambient Unit) (fun _ => Idle limit)
      (fun _ => Sound limit) := by
  unfold discardRouter
  split_ifs
  · apply triple_modify
    rintro process ⟨idle, same⟩
    exact move_idle idle (Or.inr (by rw [same]))
  · exact triple_pure fun process both => both.1

theorem fresh_router_idle :
    Triple (Idle limit) (freshRouter python : Op Ambient Unit) (fun _ => Idle limit)
      (fun _ => Sound limit) := by
  intro process idle
  unfold freshRouter
  rw [run_bind, run_get]
  dsimp only
  rw [run_bind, move, run_modify]
  dsimp only
  rw [change, run_modify]
  let created : Process Ambient := Process.note { process with
    world := step python (.create process.file.url process.file.config true) process.world }
  have kept : Kept created := by
    have kept : Kept { process with
        world := step python (.create process.file.url process.file.config true) process.world } :=
      ⟨idle.1.kept.sent, idle.1.kept.seen⟩
    exact kept.note (firm_none idle.2)
  have placed : Kept { created with file := { process.file with
      router := process.world.routers.length, ownsRouter := true
      recoveries := process.file.recoveries + 1 } } :=
    ⟨kept.sent, kept.seen⟩
  refine ⟨⟨placed.note (firm_none idle.2), firm_none idle.2, idle.1.config, ?_⟩, idle.2⟩
  intro router there
  change (process.world.routers ++ [_])[process.world.routers.length]? = some router at there
  rw [List.getElem?_append_right (Nat.le_refl _), Nat.sub_self] at there
  cases there
  exact idle.1.config

theorem reopen_sound (recovery : Recovery) :
    Triple (Sound limit) (reopen python recovery : Op Ambient Unit) (fun _ => Sound limit)
      (fun _ => Sound limit) := by
  apply triple_get
  intro start
  dsimp only
  have cleared : Triple (fun now => now = start ∧ Sound limit start)
      (change fun file => { file with
        handle := none, pathid := 0, dataPaths := [], rr := 0, multistream := true } :
          Op Ambient Unit)
      (fun _ now => Idle limit now ∧ now.file.router = start.file.router)
      (fun _ => Sound limit) := by
    apply triple_modify
    rintro process ⟨rfl, sound⟩
    exact ⟨⟨sound.changed (Or.inr rfl) rfl rfl, rfl⟩, rfl⟩
  apply triple_bind cleared
  intro _
  apply triple_bind (discard_router_idle start)
  intro _
  apply triple_bind fresh_router_idle
  intro _
  have opened : Triple (Idle limit) (doOpen python recovery.opening : Op Ambient Unit)
      (fun _ => Sound limit) (fun _ => Sound limit) :=
    triple_weaken (do_open_sound recovery.opening) (fun _ idle => idle) (fun _ _ sound => sound)
      (fun _ _ idle => idle.1)
  apply triple_bind opened
  exact fun _ => triple_weaken (bind_data_streams_sound recovery.binds) (fun _ sound => sound)
    (fun _ _ sound => sound) (fun _ _ never => never.elim)

/-- None of the requests with a handle in them is redirected. -/
structure Executed.Straight (limit : Int) (input : Executed) : Prop where
  first : input.first.Straight limit
  again : input.again.Straight limit

theorem execute_handle_sound {input : Executed} (straight : input.Straight limit) :
    Triple (Sound limit) (executeHandle python input : Op Ambient Unit) (fun _ => Sound limit)
      (fun _ => Sound limit) := by
  apply triple_catch (direct_sound straight.first)
  intro failure
  apply triple_look
  intro start
  split_ifs
  · exact triple_bind (reopen_sound input.recovery) fun _ => direct_sound straight.again
  · exact triple_throw fun _ sound => sound

structure Bulk.Straight (limit : Int) (input : Bulk) : Prop where
  control : input.control.Straight limit
  fallback : input.fallback.Straight limit
  split : input.split.Straight limit
  last : input.last.Straight limit

theorem next_path_sound :
    Triple (Sound limit) (nextPath : Op Ambient Nat) (fun _ => Sound limit)
      (fun _ => Sound limit) := by
  apply triple_look
  intro start
  dsimp only
  split_ifs
  · exact triple_pure fun _ sound => sound
  · have counted : Triple (Sound limit)
        (change fun file => { file with rr := file.rr + 1 } : Op Ambient Unit)
        (fun _ => Sound limit) (fun _ => Sound limit) :=
      triple_modify fun process sound => sound.changed (Or.inl rfl) rfl rfl
    exact triple_bind counted fun _ => triple_pure fun _ sound => sound

theorem on_data_path_sound (input : Bulk) :
    Triple (Sound limit) (onDataPath python input : Op Ambient Unit) (fun _ => Sound limit)
      (fun _ => Sound limit) := by
  apply triple_bind (session_sound input.dial)
  rintro sid process ⟨sound, issued⟩
  rw [run_bind, handle_run]
  cases used : process.file.handle with
  | none => exact sound
  | some handle =>
      cases issued handle used
      have stays := (sound.stays used).send (Or.inr rfl)
      dsimp only
      rw [run_bind, Handles.send, run_modify]
      dsimp only
      unfold lose
      by_cases lost : input.lost = true
      · have gone := @Stays.moved Ambient python limit handle _ stays (.lose handle.issuer) rfl
        rw [if_pos lost, run_bind, move, run_modify]
        cases input.answer with
        | ok value => exact gone.sound
        | error error => exact gone.sound
      · rw [if_neg lost, run_bind, run_pure]
        cases input.answer with
        | ok value => exact stays.sound
        | error error => exact stays.sound

theorem split_bulk_sound {input : Bulk} (straight : input.Straight limit) :
    Triple (Sound limit) (splitBulk python input : Op Ambient Unit) (fun _ => Sound limit)
      (fun _ => Sound limit) := by
  apply triple_catch (execute_handle_sound straight.split)
  intro failure
  apply triple_look
  intro start
  split_ifs
  · exact triple_throw fun _ sound => sound
  · exact change_then (fun _ => rfl) (fun _ => rfl) (fun _ => rfl)
      (execute_handle_sound straight.last)

theorem served_sound (input : Bulk) :
    Triple (Sound limit)
      (tryCatch (do onDataPath python input; return true) fun failure =>
        if failure.caught then return false else throw failure : Op Ambient Bool)
      (fun _ => Sound limit) (fun _ => Sound limit) := by
  have tried : Triple (Sound limit) (do onDataPath python input; return true : Op Ambient Bool)
      (fun _ => Sound limit) (fun _ => Sound limit) :=
    triple_bind (on_data_path_sound input) fun _ => triple_pure fun _ sound => sound
  apply triple_catch tried
  intro failure
  split_ifs
  · exact triple_pure fun _ sound => sound
  · exact triple_throw fun _ sound => sound

theorem bulk_sound {input : Bulk} (straight : input.Straight limit) :
    Triple (Sound limit) (bulk python input : Op Ambient Unit) (fun _ => Sound limit)
      (fun _ => Sound limit) := by
  have bound : Triple (Sound limit) (bindDataStreams python input.binds : Op Ambient Unit)
      (fun _ => Sound limit) (fun _ => Sound limit) :=
    triple_weaken (bind_data_streams_sound input.binds) (fun _ sound => sound)
      (fun _ _ sound => sound) (fun _ _ never => never.elim)
  have asked : Triple (Sound limit) (session python input.dial : Op Ambient Nat)
      (fun _ => Sound limit) (fun _ => Sound limit) :=
    triple_weaken (session_sound input.dial) (fun _ sound => sound) (fun _ _ both => both.1)
      (fun _ _ sound => sound)
  apply triple_bind next_path_sound
  intro pathid
  apply triple_look
  intro start
  split_ifs
  · exact execute_handle_sound straight.control
  · apply triple_bind asked
    intro _
    apply triple_bind (served_sound input)
    intro answered
    split_ifs
    · exact triple_pure fun _ sound => sound
    · refine change_then (fun _ => rfl) (fun _ => rfl) (fun _ => rfl) ?_
      apply triple_bind bound
      intro _
      apply triple_bind next_path_sound
      intro other
      split_ifs
      · exact execute_handle_sound straight.fallback
      · exact split_bulk_sound straight
  · exact triple_bind asked fun _ => split_bulk_sound straight

theorem checksum_sound {request : Talk} (straight : request.Straight limit) :
    Triple (Sound limit) (checksum python request : Op Ambient Unit) (fun _ => Sound limit)
      (fun _ => Sound limit) := by
  have talked : Triple (Sound limit) (talk python none request : Op Ambient Nat)
      (fun _ => Sound limit) (fun _ => Sound limit) := by
    intro process sound
    cases used : process.file.handle with
    | none =>
        exact triple_weaken (execute_idle _ _ _ _) (fun _ idle => idle)
          (fun _ _ answered => answered.1.1) (fun _ _ idle => idle.1) process ⟨sound, used⟩
    | some handle =>
        exact triple_weaken (execute_stays _ _ _ _ (Or.inl rfl) straight (some handle))
          (fun _ both => both) (fun _ _ both => both.1.sound) (fun _ _ both => both.1.sound) process
          ⟨sound.stays used, used⟩
  exact triple_bind talked fun _ => triple_pure fun _ sound => sound

/-- The farewell goes where the handle was given out, though the file no longer has it. -/
theorem close_file_sound {request : Talk} (straight : request.Straight limit) :
    Triple (Sound limit) (closeFile python request : Op Ambient Unit) (fun _ => Sound limit)
      (fun _ => Sound limit) := by
  have failed : ∀ failure, Triple (Idle limit)
      (do releaseRouter python; throw failure : Op Ambient Unit) (fun _ => Idle limit)
      (fun _ => Sound limit) := fun failure =>
    triple_bind (triple_weaken release_router_idle (fun _ idle => idle) (fun _ _ idle => idle)
      (fun _ _ never => never.elim)) fun _ => triple_throw fun _ idle => idle.1
  have released : Triple (Idle limit) (releaseRouter python : Op Ambient Unit)
      (fun _ => Sound limit) (fun _ => Sound limit) :=
    triple_weaken release_router_idle (fun _ idle => idle) (fun _ _ idle => idle.1)
      (fun _ _ never => never.elim)
  apply triple_get
  intro start
  dsimp only
  cases used : start.file.handle with
  | none =>
      have forgotten : Triple (fun now => now = start ∧ Sound limit start)
          (change fun file => { file with handle := none } : Op Ambient Unit)
          (fun _ => Idle limit) (fun _ => Sound limit) := by
        apply triple_modify
        rintro process ⟨rfl, sound⟩
        exact ⟨sound.changed (Or.inr rfl) rfl rfl, rfl⟩
      apply triple_bind forgotten
      intro _
      apply triple_bind (triple_catch (triple_pure fun _ idle => idle) failed)
      exact fun _ => released
  | some handle =>
      have forgotten : Triple (fun now => now = start ∧ Sound limit start)
          (change fun file => { file with handle := none } : Op Ambient Unit)
          (fun _ now => Stays limit handle now ∧ now.file.handle = none) (fun _ => Sound limit) := by
        apply triple_modify
        rintro process ⟨rfl, sound⟩
        exact ⟨⟨sound.changed (Or.inr rfl) rfl rfl, (sound.stays used).fast, Or.inl rfl⟩, rfl⟩
      have told : Triple (fun now => Stays limit handle now ∧ now.file.handle = none)
          (do let _ ← talk python (some handle) request : Op Ambient Unit) (fun _ => Idle limit)
          (fun _ => Idle limit) :=
        triple_bind (triple_weaken (execute_stays _ _ _ _ (Or.inr rfl) straight none)
          (fun _ both => both) (fun _ _ both => both) (fun _ _ both => both.1.idle both.2))
          fun _ => triple_pure fun _ both => both.1.idle both.2
      apply triple_bind forgotten
      intro _
      apply triple_bind (triple_catch (triple_catch told fun failure => ?_) failed)
      · exact fun _ => released
      · split_ifs
        · exact triple_pure fun _ idle => idle
        · exact triple_throw fun _ idle => idle

theorem begin_checkpoint_sound {request : Talk} (straight : request.Straight limit) :
    Triple (Sound limit) (beginCheckpoint python request : Op Ambient Unit) (fun _ => Sound limit)
      (fun _ => Sound limit) := by
  apply triple_look
  intro start
  dsimp only
  split_ifs
  · exact triple_throw fun _ sound => sound
  · apply triple_bind (direct_sound straight)
    exact fun _ => triple_modify fun process sound => sound.changed (Or.inl rfl) rfl rfl

theorem end_checkpoint_sound {request : Talk} (straight : request.Straight limit) :
    Triple (Sound limit) (endCheckpoint python request : Op Ambient Unit) (fun _ => Sound limit)
      (fun _ => Sound limit) :=
  change_then (fun _ => rfl) (fun _ => rfl) (fun _ => rfl) (direct_sound straight)

theorem bind_path_sound (bind : Bind) :
    Triple (Sound limit) (bindPath python bind : Op Ambient Unit) (fun _ => Sound limit)
      (fun _ => Sound limit) := by
  apply triple_look
  intro start
  split_ifs
  · apply triple_bind (bind_data_path_sound bind)
    exact fun pathid => triple_modify fun process sound => sound.changed (Or.inl rfl) rfl rfl
  · exact triple_pure fun _ sound => sound

end Moves

theorem put_other {other : Nat} (apart : other ≠ index) (new : Router)
    (found : world.routers[index]? = some router) :
    (world.putRouter other new).routers[index]? = some router := by
  unfold World.putRouter
  rw [List.getElem?_set_ne apart]
  exact found

/-- A move on another router, on the pool or on a session leaves a router as it is. -/
theorem step_elsewhere {single : Move Ambient} (apart : concerns single ≠ some index)
    (found : world.routers[index]? = some router) :
    (step python single world).routers[index]? = some router := by
  have within := (List.getElem?_eq_some_iff.mp found).1
  have different : ∀ other, concerns single = some other → other ≠ index :=
    fun other on same => apart (by rw [on, same])
  have acts : ∀ (other : Nat) (act : Router → World Ambient),
      (∀ old, (act old).routers[index]? = some router) →
      (world.onRouter other act).routers[index]? = some router := by
    intro other act kept
    unfold World.onRouter
    cases world.routers[other]? with
    | none => exact found
    | some old => exact kept old
  cases single with
  | create url config reconnect =>
      rw [← found]
      exact List.getElem?_append_left within
  | session other dial =>
      rw [step]
      apply acts
      intro old
      rcases @World.session_cases Ambient python world other old dial with ⟨-, same⟩ | ⟨-, renewed⟩
      · rw [same]
        exact found
      · have kept : (world.acquire python old.url old.config).2.routers[index]? = some router := by
          rw [World.acquire_routers]
          exact found
        generalize world.session python other old dial = result at renewed
        cases renewed with
        | taken sid => exact put_other (different other rfl) _ kept
        | dialled => exact @put_other _ (World.joined _ _ _) _ _ _ (different other rfl) _ kept
        | failed error => exact put_other (different other rfl) _ kept
  | follow other redirect =>
      rw [step]
      apply acts
      intro old
      rw [World.follow_routers, List.getElem?_set_ne (different other rfl)]
      exact found
  | drop other =>
      rw [step]
      apply acts
      intro old
      unfold World.drop
      cases old.session with
      | none => exact put_other (different other rfl) _ found
      | some sid => exact @put_other _ (World.closeSession _ sid) _ _ _ (different other rfl) _ found
  | pin other transfer =>
      rw [step]
      apply acts
      intro old
      unfold World.pin
      cases transfer with
      | false =>
          rw [← found]
          exact List.getElem?_append_left within
      | true =>
          have put := @put_other _ world index router other (different other rfl)
            { old with session := none } found
          rw [← put]
          exact List.getElem?_append_left (List.getElem?_eq_some_iff.mp put).1
  | close other =>
      rw [step]
      apply acts
      intro old
      rw [World.close_routers, List.getElem?_set_ne (different other rfl)]
      exact found
  | acquire url config =>
      rw [step, World.acquire_routers]
      exact found
  | release sid url config =>
      rw [step, World.release_routers]
      exact found
  | clear =>
      rw [step, World.clear, World.close_all_routers]
      exact found
  | forget | lose | wait | change => exact found

/-- Between operations: what was noted, and where the file stands. -/
structure Intact (process : Process Ambient) : Prop where
  kept : Kept process
  firm : process.sight.Firm

theorem elsewhere_intact (single : Move Ambient) :
    Triple Intact (elsewhere python single) (fun _ => Intact) (fun _ => Intact) := by
  apply triple_get
  intro start
  dsimp only
  split_ifs with own
  · exact triple_pure fun process now => now.1 ▸ now.2
  · apply triple_modify
    rintro process ⟨rfl, intact⟩
    have kept : Kept { process with world := step python single process.world } :=
      ⟨intact.kept.sent, intact.kept.seen⟩
    have firm : Sight.Firm ⟨process.file.handle,
        (step python single process.world).routers[process.file.router]?⟩ := by
      intro handle used
      obtain ⟨router, found, fast⟩ := intact.firm handle used
      have used : process.file.handle = some handle := used
      refine ⟨router, step_elsewhere (fun same => own ?_) found, fast⟩
      rw [used, same]
      simp
    exact ⟨kept.note firm, firm⟩

def Process.limit (process : Process Ambient) : Int :=
  (process.world.routers[process.file.router]?).elim process.file.config.redirectLimit fun router =>
    max router.config.redirectLimit process.file.config.redirectLimit

theorem Intact.sound {process : Process Ambient} (intact : Intact process) :
    Sound process.limit process := by
  refine ⟨intact.kept, intact.firm, ?_, fun router found => ?_⟩
  · unfold Process.limit
    cases process.world.routers[process.file.router]? with
    | none => exact le_refl _
    | some router => exact le_max_right _ _
  · unfold Process.limit
    rw [found]
    exact le_max_left _ _

/-- No request that goes through the router pinned for a handle is redirected. The requests
that open the file may be. -/
def Operation.Straight (limit : Int) : Operation Ambient → Prop
  | .open_ _ _ _ => True
  | .direct request => request.Straight limit
  | .execute input => input.Straight limit
  | .bulk input => input.Straight limit
  | .beginCheckpoint request => request.Straight limit
  | .endCheckpoint request => request.Straight limit
  | .checksum request => request.Straight limit
  | .bindPath _ => True
  | .close request => request.Straight limit
  | .elsewhere _ => True

theorem perform_intact (operation : Operation Ambient) {process : Process Ambient}
    (straight : operation.Straight process.limit) (intact : Intact process) :
    Intact (perform python operation process) := by
  have whole : ∀ program : Op Ambient Unit, Triple (Sound process.limit) program
      (fun _ => Sound process.limit) (fun _ => Sound process.limit) →
      Intact (final (program process)) := by
    intro program sound
    have left := Triple.final sound intact.sound
    exact ⟨left.kept, left.firm⟩
  cases operation with
  | open_ writing opening binds => exact whole _ (open_file_sound writing opening binds)
  | direct request => exact whole _ (direct_sound straight)
  | execute input => exact whole _ (execute_handle_sound straight)
  | bulk input => exact whole _ (bulk_sound straight)
  | beginCheckpoint request => exact whole _ (begin_checkpoint_sound straight)
  | endCheckpoint request => exact whole _ (end_checkpoint_sound straight)
  | checksum request => exact whole _ (checksum_sound straight)
  | bindPath bind => exact whole _ (bind_path_sound bind)
  | close request => exact whole _ (close_file_sound straight)
  | elsewhere single => exact Triple.final (elsewhere_intact single) intact

structure Fresh (process : Process Ambient) : Prop where
  closed : process.file.handle = none
  unsent : process.sent = []
  unseen : process.seen = []

/-- In every run in which no request through a pinned router is redirected, a handle is only
ever used on the session that gave it out, and its router stays where it was pinned. -/
theorem handles_kept {process : Process Ambient} (fresh : Fresh process)
    (operations : List (Operation Ambient))
    (straight : ∀ entry ∈ history (perform python) operations process,
      entry.label.Straight entry.before.limit) :
    Kept (run (perform python) operations process) := by
  have start : Intact process := by
    refine ⟨⟨?_, ?_⟩, firm_none fresh.closed⟩
    · rw [fresh.unsent]
      simp
    · rw [fresh.unseen]
      simp
  exact (run_invariant (perform python) (fun entry => entry.label.Straight entry.before.limit)
    Intact (fun process operation allowed intact => perform_intact operation allowed intact)
    operations process straight start).kept

/-- A file on a router of its own, in a process that has no other. -/
def newcomer : Process Unit where
  world := { routers := [{ url := manager, config := {} }], ambient := () }
  file := { url := manager, router := 0 }

def asks (name : String) (rounds : List Round) : Talk where
  request := { name := str name }
  rounds := rounds

/-- An open that a manager sends on to a server, which gives out this handle. -/
def sentOn : Opening where
  talk := asks "Open" [{ answer := .redirects ⟨str "server", 1094, []⟩ }, { answer := .returns }]
  reply := .ok [0, 0, 0, 7]

/-- The file is opened, lost while it is read, opened again and closed. -/
def recovered : List (Operation Unit) :=
  [.open_ false sentOn [],
    .execute ⟨asks "Read" [⟨none, .raises (.connectionError (str "reset")), true⟩], ⟨sentOn, []⟩,
      asks "Read" [{ answer := .returns }]⟩,
    .close (asks "Close" [{ answer := .returns }])]

theorem recovered_kept : Fresh newcomer ∧
    (run (perform plain) recovered newcomer).file.recoveries = 1 ∧
    (run (perform plain) recovered newcomer).sent.map Sending.session = [1, 2, 2] ∧
    Kept (run (perform plain) recovered newcomer) := by
  have fresh : Fresh newcomer := ⟨rfl, rfl, rfl⟩
  refine ⟨fresh, by decide +kernel, by decide +kernel, handles_kept fresh recovered ?_⟩
  intro entry member
  simp only [recovered, history, List.mem_cons, List.not_mem_nil, or_false] at member
  rcases member with rfl | rfl | rfl
  · trivial
  · refine ⟨Or.inr fun round among target => ?_, Or.inr fun round among target => ?_⟩
    · rw [List.mem_singleton.mp among]
      exact fun same => by cases same
    · rw [List.mem_singleton.mp among]
      exact fun same => by cases same
  · refine Or.inr fun round among target => ?_
    rw [List.mem_singleton.mp among]
    exact fun same => by cases same

/-- The file is opened, and its `kXR_sync` is sent on to another server. -/
def redirected : List (Operation Unit) :=
  [.open_ true ⟨asks "Open" [{ answer := .returns }], .ok [0, 0, 0, 7]⟩ [],
    .direct (asks "Sync" [{ answer := .redirects ⟨str "server", 1094, []⟩ },
      { answer := .returns }])]

/-- The handle that the first session gave out goes out on the second. -/
theorem handle_sent_astray : ¬∀ operations : List (Operation Unit),
    Kept (run (perform plain) operations newcomer) := by
  intro every
  have astray : ⟨1, ⟨[0, 0, 0, 7], 0, manager⟩⟩ ∈
      (run (perform plain) redirected newcomer).sent := by
    decide +kernel
  cases (every redirected).sent _ astray

end XRootDClient.Handles
