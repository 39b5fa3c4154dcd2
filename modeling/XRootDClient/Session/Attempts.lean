import XRootDClient.Session.Identity

/-!
# The attempts of a request

`Router.execute` as a sequence of attempts. It spends two budgets, one on the redirects it
follows and one on the connections it replaces, so it comes to an end; on the way the URL
stays one that uses TLS, a request is only made again on a new connection if that is safe,
and the path of the request collects the tokens of the redirects.
-/

set_option autoImplicit false

namespace XRootDClient.Routing

open Lib Lib.Run Auth Proto World

variable {Ambient : Type} (python : Builtins)

/-- What a turn of the loop of `execute` comes to: the moves it makes, and how the loop
ends, or the request, the redirects and the failures it goes on with. -/
structure Turn (Ambient : Type) where
  moves : List (Move Ambient)
  next : Except Ending (Request × Nat × Nat)

/-- What an attempt ends with: the session's answer, if there is a session. -/
def answered (found : Except Exception Nat) (round : Round) : Answer :=
  match found with
  | .ok _ => round.answer
  | .error error => .raises error

def tried (index : Nat) (found : Except Exception Nat) (round : Round) : List (Move Ambient) :=
  match found with
  | .ok sid => .session index round.dial :: if round.lost then [.lose sid] else []
  | .error _ => [.session index round.dial]

def turn (index : Nat) (path : Text) (request : Request) (hops attempts : Nat) (round : Round)
    (router : Router) (world : World Ambient) : Turn Ambient :=
  let found := (world.session python index router round.dial).1
  let done : List (Move Ambient) := tried index found round
  match answered found round with
  | .returns => ⟨done, .error .returned⟩
  | .redirects target =>
      if router.config.redirectLimit < hops + 1 then
        ⟨done, .error (.redirectLimitError (str "more than " ++
          Text.ofInt router.config.redirectLimit ++ str " redirects for " ++
          request.name ++ str " " ++ path))⟩
      else ⟨done ++ [.follow index target], .ok (retarget request target.token, hops + 1, attempts)⟩
  | .waitsTooLong => ⟨done, .error .waitLimitError⟩
  | .raises error =>
      if isConnectionError error then
        if !router.reconnect || router.config.connectRetries < attempts + 1 ||
            !request.idempotent then
          ⟨done, .error (failure request router error (attempts + 1))⟩
        else
          ⟨done ++ [.drop index, .wait (pause router.config (attempts + 1))],
            .ok (request, hops, attempts + 1)⟩
      else ⟨done, .error (.raised error)⟩

variable {python} {world : World Ambient} {index hops failed : Nat} {path : Text}
  {request : Request} {round : Round} {router : Router}

theorem execute_turn (found : world.routers[index]? = some router) (rest : List Round) :
    execute python index path request hops failed (round :: rest) world =
      let turn := turn python index path request hops failed round router world
      match turn.next with
      | .error ending => (turn.moves, some ending)
      | .ok (request, hops, failed) =>
          let later := execute python index path request hops failed rest
            (run (step python) turn.moves world)
          (turn.moves ++ later.1, later.2) := by
  rw [execute, found]
  dsimp only
  unfold turn answered tried
  cases (world.session python index router round.dial).1 with
  | error error =>
      dsimp only
      split_ifs <;> rfl
  | ok sid =>
      dsimp only
      cases round.answer with
      | returns => rfl
      | waitsTooLong => rfl
      | redirects target =>
          dsimp only
          split_ifs <;> rfl
      | raises error =>
          dsimp only
          split_ifs <;> rfl

/-- What a turn that goes on has done: it has followed a redirect, or it has let go of a
connection that may be replaced. -/
inductive Continues (index : Nat) (request : Request) (hops failed : Nat) (router : Router)
    (answer : Answer) (done : List (Move Ambient)) : Turn Ambient → Prop
  | follows (target : RedirectInfo) (asked : answer = .redirects target)
      (within : (hops + 1 : Int) ≤ router.config.redirectLimit) :
      Continues index request hops failed router answer done
        ⟨done ++ [.follow index target], .ok (retarget request target.token, hops + 1, failed)⟩
  | retries (error : Exception) (lost : answer = .raises error)
      (broken : isConnectionError error = true) (reconnects : router.reconnect = true)
      (within : (failed + 1 : Int) ≤ router.config.connectRetries)
      (idempotent : request.idempotent = true) :
      Continues index request hops failed router answer done
        ⟨done ++ [.drop index, .wait (pause router.config (failed + 1))],
          .ok (request, hops, failed + 1)⟩

theorem turn_cases : (∃ ending,
      (turn python index path request hops failed round router world).next = .error ending) ∨
    Continues index request hops failed router
      (answered (world.session python index router round.dial).1 round)
      (tried index (world.session python index router round.dial).1 round)
      (turn python index path request hops failed round router world) := by
  unfold turn
  dsimp only
  cases answer : answered (world.session python index router round.dial).1 round with
  | returns => exact Or.inl ⟨_, rfl⟩
  | waitsTooLong => exact Or.inl ⟨_, rfl⟩
  | redirects target =>
      dsimp only
      split_ifs with finished
      · exact Or.inl ⟨_, rfl⟩
      · exact Or.inr (.follows target rfl (not_lt.mp finished))
  | raises error =>
      dsimp only
      split_ifs with broken spent
      · exact Or.inl ⟨_, rfl⟩
      · simp only [Bool.or_eq_true, Bool.not_eq_true', decide_eq_true_eq, not_or, not_lt,
          Bool.not_eq_false] at spent
        exact Or.inr (.retries error rfl broken spent.1.1 spent.1.2 spent.2)
      · exact Or.inl ⟨_, rfl⟩

/-- An attempt: the world in which it begins, the router and the request as they are then,
the session it is made on, and what it ends with. -/
structure Attempt (Ambient : Type) where
  world : World Ambient
  router : Router
  request : Request
  session : Option (Session Ambient)
  answer : Answer

def attempt (python : Builtins) (index : Nat) (request : Request) (round : Round)
    (router : Router) (world : World Ambient) : Attempt Ambient :=
  let got := world.session python index router round.dial
  { world, router, request
    session := got.1.toOption.bind fun sid => got.2.sessions[sid]?
    answer := answered got.1 round }

def attempts (python : Builtins) (index : Nat) (path : Text) : Request → Nat → Nat →
    List Round → World Ambient → List (Attempt Ambient)
  | _, _, _, [], _ => []
  | request, hops, failed, round :: rest, world =>
      match world.routers[index]? with
      | none => []
      | some router =>
          let turn := turn python index path request hops failed round router world
          attempt python index request round router world ::
            match turn.next with
            | .error _ => []
            | .ok (request, hops, failed) =>
                attempts python index path request hops failed rest
                  (run (step python) turn.moves world)

def followed (attempts : List (Attempt Ambient)) : List RedirectInfo :=
  attempts.filterMap fun attempt => match attempt.answer with
    | .redirects target => some target
    | _ => none

theorem put_get (found : world.routers[index]? = some router) (new : Router) :
    (world.putRouter index new).routers[index]? = some new := by
  obtain ⟨within, -⟩ := List.getElem?_eq_some_iff.mp found
  exact List.getElem?_set_self within

theorem session_router (found : world.routers[index]? = some router) (dial : Option Exception) :
    ∃ session owns, (world.session python index router dial).2.routers[index]? =
      some { router with session, owns } := by
  rcases @session_cases Ambient python world index router dial with ⟨-, same⟩ | ⟨-, renewed⟩
  · rw [same]
    exact ⟨router.session, router.owns, found⟩
  · have kept : (world.acquire python router.url router.config).2.routers[index]? =
        some router := by
      rw [acquire_routers]
      exact found
    generalize world.session python index router dial = got at renewed
    cases renewed with
    | taken sid => exact ⟨some sid, true, put_get kept _⟩
    | dialled =>
        exact ⟨some world.sessions.length, true, @put_get _ (joined _ _ _) _ _ kept _⟩
    | failed error => exact ⟨router.session, true, put_get kept _⟩

theorem tried_router (found : world.routers[index]? = some router)
    (got : Except Exception Nat) (round : Round) :
    ∃ session owns, (run (step python) (tried index got round) world).routers[index]? =
      some { router with session, owns } := by
  have asked : step python (.session index round.dial) world =
      (world.session python index router round.dial).2 := by
    rw [step, onRouter, found]
    rfl
  obtain ⟨session, owns, left⟩ := @session_router Ambient python world index router found round.dial
  rw [← asked] at left
  cases got with
  | error error => exact ⟨session, owns, left⟩
  | ok sid =>
      unfold tried
      dsimp only
      split_ifs
      · exact ⟨session, owns, left⟩
      · exact ⟨session, owns, left⟩

/-- The router an attempt leaves to the next one: its URL is the redirect's, if there was
one, and it has let go of its session. -/
def onward (python : Builtins) (answer : Answer) (router : Router) : Router :=
  { router with
    url := match answer with
      | .redirects target => World.target python router target
      | _ => router.url
    session := none
    owns := true }

theorem continues_router {answer : Answer} {got : Except Exception Nat} {turn : Turn Ambient}
    (found : world.routers[index]? = some router)
    (continues : Continues index request hops failed router answer (tried index got round) turn) :
    (run (step python) turn.moves world).routers[index]? = some (onward python answer router) := by
  obtain ⟨session, owns, left⟩ := @tried_router Ambient python world index router found got round
  cases continues with
  | follows target asked within =>
      subst asked
      rw [run_append]
      dsimp only [run, step]
      rw [onRouter, left]
      dsimp only [Option.elim]
      rw [follow_routers]
      obtain ⟨within, -⟩ := List.getElem?_eq_some_iff.mp left
      rw [List.getElem?_set_self within]
      rfl
  | retries error lost =>
      subst lost
      rw [run_append]
      dsimp only [run, step]
      rw [onRouter, left]
      dsimp only [Option.elim]
      unfold Routing.World.drop
      cases session with
      | none => exact put_get left _
      | some sid => exact @put_get _ (closeSession _ sid) _ _ left _

/-- The attempts that are left once so many redirects were followed and so many connections
were replaced. -/
def budget (config : Config) (hops failed : Nat) : Nat :=
  1 + (config.redirectLimit - hops).toNat + (config.connectRetries - failed).toNat

theorem attempts_length (rounds : List Round) (request : Request) (hops failed : Nat)
    (world : World Ambient) (found : world.routers[index]? = some router) :
    (attempts python index path request hops failed rounds world).length ≤
      budget router.config hops failed := by
  induction rounds generalizing request hops failed world router with
  | nil => exact Nat.zero_le _
  | cons round rest induction =>
      rw [attempts, found]
      dsimp only
      rw [List.length_cons]
      rcases @turn_cases Ambient python world index hops failed path request round router with
        ⟨ending, finished⟩ | continues
      · rw [finished, budget]
        simp only [List.length_nil]
        omega
      · have next := @continues_router Ambient python world index hops failed request round
          router _ _ _ found continues
        generalize turn python index path request hops failed round router world = turned at *
        cases continues with
        | follows target asked within =>
            have later := induction (retarget request target.token) (hops + 1) failed _ next
            simp only [budget, onward] at later ⊢
            push_cast at later
            omega
        | retries error lost broken reconnects within idempotent =>
            have later := induction request hops (failed + 1) _ next
            simp only [budget, onward] at later ⊢
            push_cast at later
            omega

theorem execute_ends (rounds : List Round) (request : Request) (hops failed : Nat)
    (world : World Ambient) (found : world.routers[index]? = some router)
    (enough : budget router.config hops failed ≤ rounds.length) :
    (execute python index path request hops failed rounds world).2 ≠ none := by
  induction rounds generalizing request hops failed world router with
  | nil =>
      rw [budget, List.length_nil] at enough
      omega
  | cons round rest induction =>
      rw [execute_turn found]
      dsimp only
      rw [List.length_cons] at enough
      rcases @turn_cases Ambient python world index hops failed path request round router with
        ⟨ending, finished⟩ | continues
      · rw [finished]
        exact Option.some_ne_none ending
      · have next := @continues_router Ambient python world index hops failed request round
          router _ _ _ found continues
        generalize turn python index path request hops failed round router world = turned at *
        cases continues with
        | follows target asked within =>
            apply induction (retarget request target.token) (hops + 1) failed _ next
            simp only [budget, onward] at enough ⊢
            push_cast
            omega
        | retries error lost broken reconnects within idempotent =>
            apply induction request hops (failed + 1) _ next
            simp only [budget, onward] at enough ⊢
            push_cast
            omega

def withTokens (tokens : List Text) (path : Text) : Text :=
  match tokens.filter (· ≠ []) with
  | [] => path
  | token :: rest =>
      path ++ (if '?' ∈ path then str "&" else str "?") ++ (str "&").intercalate (token :: rest)

theorem with_tokens_cons (token : Text) (tokens : List Text) (path : Text) :
    withTokens tokens (withTokens [token] path) = withTokens (token :: tokens) path := by
  by_cases empty : token = []
  · simp [withTokens, empty]
  · have marked : '?' ∈ withTokens [token] path := by
      by_cases asked : '?' ∈ path
      · simp [withTokens, empty, asked]
      · simp [withTokens, empty, asked, str]
    have first : withTokens [token] path =
        path ++ (if '?' ∈ path then str "&" else str "?") ++ token := by
      simp [withTokens, empty, List.intercalate]
    have kept : (token :: tokens).filter (· ≠ []) = token :: tokens.filter (· ≠ []) := by
      simp [empty]
    unfold withTokens at *
    rw [kept]
    cases rest : tokens.filter (· ≠ []) with
    | nil =>
        dsimp only
        rw [first]
        simp [List.intercalate]
    | cons second later =>
        dsimp only
        rw [if_pos marked, first]
        simp [List.intercalate, List.intersperse]

theorem retarget_path (request : Request) (token : Text) :
    (retarget request token).path = request.path.map (withTokens [token]) := by
  unfold retarget
  cases path : request.path with
  | none => exact path
  | some path =>
      dsimp only
      by_cases empty : token = []
      · simp [withTokens, empty, path]
      · rw [if_neg empty]
        simp [withTokens, empty, List.intercalate]

theorem retarget_idempotent (request : Request) (token : Text) :
    (retarget request token).idempotent = request.idempotent := by
  unfold retarget
  split
  · rfl
  · split_ifs <;> rfl

def Lowers (python : Builtins) : Prop := ∀ scheme ∈ XRootDURL.tlsSchemes, python.lower scheme = scheme

theorem target_secure (lowers : Lowers python) (redirect : RedirectInfo)
    (secure : router.url.useTls = true ∨ redirect.port < 0) :
    (World.target python router redirect).useTls = true := by
  unfold XRootDURL.useTls World.target XRootDURL.evolve at *
  dsimp only
  by_cases negative : redirect.port < 0
  · have listed : str "roots" ∈ XRootDURL.tlsSchemes := List.mem_cons_self
    rw [if_pos negative, lowers _ listed]
    exact decide_eq_true listed
  · have listed := of_decide_eq_true (secure.resolve_right negative)
    rw [if_neg negative, lowers _ listed]
    exact decide_eq_true listed

theorem session_place (filed : world.Filed python) (found : world.routers[index]? = some router)
    (dial : Option Exception) {sid : Nat}
    (got : (world.session python index router dial).1 = .ok sid) :
    (world.session python index router dial).2.place python sid =
      some (key python router.url router.config) := by
  have member := List.mem_of_getElem? found
  rcases @session_cases Ambient python world index router dial with ⟨stays, same⟩ | ⟨-, renewed⟩
  · rw [same]
    apply filed.routed router member
    unfold renews at stays
    unfold World.session at got
    cases held : router.session with
    | none =>
        rw [held] at stays
        cases stays
    | some other =>
        rw [held] at stays got
        dsimp only at stays got
        cases ended : world.closed other with
        | false =>
            rw [ended, if_neg Bool.false_ne_true] at got
            cases got
            rfl
        | true =>
            rw [ended, Bool.true_and] at stays
            rw [ended, if_pos rfl, if_neg (by rw [stays]; decide)] at got
            cases got
  · generalize world.session python index router dial = result at *
    cases renewed with
    | taken other taken =>
        cases got
        exact (acquire_place _ _ _).trans (acquire_filed filed taken)
    | dialled =>
        cases got
        have new := @joined_new python Ambient (world.acquire python router.url router.config).2
          router.url router.config
        rw [acquire_length] at new
        exact new
    | failed error => cases got

/-- A session is ready only with its connection encrypted. -/
def Session.Encrypted (made : Session Ambient) : Prop :=
  ∀ (Body : Type) [Exchange Body] (installation : Installation Body) (calls : List Proto.Call),
    (Machine.after installation calls (connecting Body made.url made.config)).state = .READY →
      (Machine.after installation calls (connecting Body made.url made.config)).tlsActive = true

/-- The session an attempt is made on is encrypted if the URL of the router says so. -/
theorem attempt_encrypted (filed : world.Filed python)
    (found : world.routers[index]? = some router) (secure : router.url.useTls = true)
    {made : Session Ambient}
    (session : (attempt python index request round router world).session = some made) :
    made.Encrypted := by
  obtain ⟨sid, got, present⟩ := Option.bind_eq_some_iff.mp session
  have got : (world.session python index router round.dial).1 = .ok sid := by
    cases result : (world.session python index router round.dial).1 with
    | error error =>
        rw [result] at got
        cases got
    | ok other =>
        rw [result] at got
        cases got
        rfl
  have place := session_place filed found round.dial got
  unfold World.place at place
  rw [present] at place
  have scheme := congrArg (fun place => place.map Key.scheme) place
  have wanted : (made.url.useTls || made.config.requireTls) = true := by
    simp only [Option.map_some, key, secure, Bool.true_or, if_true, Option.some.injEq] at scheme
    by_contra plain
    rw [if_neg plain] at scheme
    revert scheme
    decide
  intro Body _ installation calls ready
  apply Machine.ready_encrypted _ _ _ _ _ _ _ _ _ _ ready
  change (_ || made.config.requireTls) = true
  rw [wanted, Bool.true_or]

theorem tried_filing (got : Except Exception Nat) (round : Round) (world : World Ambient) :
    ∀ entry ∈ history (step python) (tried index got round) world, Filing python entry := by
  unfold tried
  cases got with
  | error error => simp [history, Filing]
  | ok sid =>
      dsimp only
      split_ifs <;> simp [history, Filing]

theorem continues_filed {answer : Answer} {got : Except Exception Nat} {turn : Turn Ambient}
    (filed : world.Filed python)
    (continues : Continues index request hops failed router answer (tried index got round) turn) :
    (run (step python) turn.moves world).Filed python := by
  apply run_invariant (step python) (Filing python) (World.Filed python)
    (fun world move filing filed => step_filed move filed filing) _ _ _ filed
  cases continues with
  | follows target =>
      intro entry member
      rw [history_append] at member
      rcases List.mem_append.mp member with inside | last
      · exact tried_filing got round world entry inside
      · rw [List.mem_singleton.mp last]
        trivial
  | retries error =>
      intro entry member
      rw [history_append] at member
      rcases List.mem_append.mp member with inside | last
      · exact tried_filing got round world entry inside
      · revert last
        simp only [history, List.mem_cons, List.not_mem_nil, or_false]
        rintro (rfl | rfl)
        · trivial
        · trivial

theorem followed_redirect {target : RedirectInfo} (before : List (Attempt Ambient))
    (asked : answered (world.session python index router round.dial).1 round =
      .redirects target) :
    followed (attempt python index request round router world :: before) =
      target :: followed before := by
  unfold followed attempt
  dsimp only
  rw [asked, List.filterMap_cons]

theorem followed_failure {error : Exception} (before : List (Attempt Ambient))
    (raised : answered (world.session python index router round.dial).1 round =
      .raises error) :
    followed (attempt python index request round router world :: before) = followed before := by
  unfold followed attempt
  dsimp only
  rw [raised, List.filterMap_cons]

/-- What is known of an attempt from the ones before it. -/
structure Along (python : Builtins) (index : Nat) (request : Request) (router : Router)
    (before : List (Attempt Ambient)) (attempt : Attempt Ambient) : Prop where
  path : attempt.request.path =
    request.path.map (withTokens ((followed before).map RedirectInfo.token))
  secure : router.url.useTls = true ∨ (∃ earlier ∈ before, earlier.router.url.useTls = true) ∨
    (∃ redirect ∈ followed before, redirect.port < 0) → attempt.router.url.useTls = true
  reconnect : attempt.router.reconnect = router.reconnect
  idempotent : attempt.request.idempotent = request.idempotent
  found : attempt.world.routers[index]? = some attempt.router
  filed : attempt.world.Filed python

theorem attempts_split (rounds : List Round) (request : Request) (hops failed : Nat)
    (lowers : Lowers python) (filed : world.Filed python)
    (found : world.routers[index]? = some router) {before later : List (Attempt Ambient)}
    {tried : Attempt Ambient}
    (split : attempts python index path request hops failed rounds world =
      before ++ tried :: later) :
    Along python index request router before tried ∧ ∃ hops failed round rest,
      tried :: later = attempts python index path tried.request hops failed (round :: rest)
        tried.world ∧
      tried = attempt python index tried.request round tried.router tried.world := by
  induction before generalizing rounds request hops failed world router with
  | nil =>
      cases rounds with
      | nil => cases split
      | cons round rest =>
          have whole := split
          rw [attempts, found] at split
          dsimp only at split
          obtain ⟨rfl, -⟩ := List.cons.inj split
          refine ⟨⟨?_, ?_, rfl, rfl, found, filed⟩, hops, failed, round, rest, whole.symm, rfl⟩
          · exact Option.map_id'.symm
          · simp [followed, attempt]
  | cons first before induction =>
      cases rounds with
      | nil => cases split
      | cons round rest =>
          rw [attempts, found] at split
          dsimp only at split
          obtain ⟨rfl, after⟩ := List.cons.inj split
          clear split
          rcases @turn_cases Ambient python world index hops failed path request round router with
            ⟨ending, finished⟩ | continues
          · rw [finished] at after
            cases before <;> cases after
          · have next := @continues_router Ambient python world index hops failed request round
              router _ _ _ found continues
            have left := @continues_filed Ambient python world index hops failed request round
              router _ _ _ filed continues
            generalize answer : answered (world.session python index router round.dial).1 round =
              answer at *
            generalize turn python index path request hops failed round router world =
              turned at *
            cases continues with
            | follows target asked within =>
                subst asked
                obtain ⟨along, rest⟩ := induction _ _ _ _ left next after
                refine ⟨⟨?_, ?_, along.reconnect, ?_, along.found, along.filed⟩, rest⟩
                · rw [along.path, retarget_path, Option.map_map, followed_redirect _ answer]
                  congr 1
                  funext path
                  exact with_tokens_cons _ _ path
                · intro secure
                  apply along.secure
                  rw [followed_redirect _ answer, List.exists_mem_cons_iff,
                    List.exists_mem_cons_iff] at secure
                  rcases secure with here | (here | earlier) | (negative | earlier)
                  · exact Or.inl (target_secure lowers target (Or.inl here))
                  · exact Or.inl (target_secure lowers target (Or.inl here))
                  · exact Or.inr (Or.inl earlier)
                  · exact Or.inl (target_secure lowers target (Or.inr negative))
                  · exact Or.inr (Or.inr earlier)
                · exact along.idempotent.trans (retarget_idempotent _ _)
            | retries error lost =>
                subst lost
                obtain ⟨along, rest⟩ := induction _ _ _ _ left next after
                refine ⟨⟨?_, ?_, along.reconnect, along.idempotent, along.found, along.filed⟩, rest⟩
                · rw [along.path, followed_failure _ answer]
                · intro secure
                  apply along.secure
                  rw [followed_failure _ answer, List.exists_mem_cons_iff] at secure
                  rcases secure with here | (here | earlier) | earlier
                  · exact Or.inl here
                  · exact Or.inl here
                  · exact Or.inr (Or.inl earlier)
                  · exact Or.inr (Or.inr earlier)

theorem attempts_safe {tried : Attempt Ambient} {later : List (Attempt Ambient)} {rest : List Round}
    (found : tried.world.routers[index]? = some tried.router)
    (made : tried = attempt python index tried.request round tried.router tried.world)
    (goes : tried :: later = attempts python index path tried.request hops failed (round :: rest)
      tried.world) (again : later ≠ []) {error : Exception} (raised : tried.answer = .raises error) :
    isConnectionError error = true ∧ tried.request.idempotent = true ∧
      tried.router.reconnect = true := by
  rw [attempts, found] at goes
  obtain ⟨-, after⟩ := List.cons.inj goes
  have answer : answered (tried.world.session python index tried.router round.dial).1 round =
      .raises error := (congrArg Attempt.answer made).symm.trans raised
  rcases @turn_cases Ambient python tried.world index hops failed path tried.request round
    tried.router with ⟨ending, finished⟩ | continues
  · rw [finished] at after
    exact absurd after again
  · rw [answer] at continues
    generalize turn python index path tried.request hops failed round tried.router tried.world =
      turned at *
    cases continues with
    | follows target asked => cases asked
    | retries other lost broken reconnects within idempotent =>
        cases lost
        exact ⟨broken, idempotent, reconnects⟩

/-- A request comes to an end, and what it is made over, and with, is never less than what
the redirects so far have asked for. A limit below zero is as good as none. -/
theorem execute_attempts (lowers : Lowers python) (calls : List (Call Ambient)) (ambient : Ambient)
    (filing : ∀ entry ∈ history (step python) (moves python calls (start ambient)) (start ambient),
      Filing python entry)
    (found : (run (step python) (moves python calls (start ambient))
      (start ambient)).routers[index]? = some router)
    (request : Request) (path : Text) (rounds : List Round) :
    let world := run (step python) (moves python calls (start ambient)) (start ambient)
    let tries := attempts python index path request 0 0 rounds world
    let most := 1 + router.config.redirectLimit.toNat + router.config.connectRetries.toNat
    tries.length ≤ most ∧
      (most ≤ rounds.length → (execute python index path request 0 0 rounds world).2 ≠ none) ∧
      ∀ before tried later, tries = before ++ tried :: later →
        (later ≠ [] → ∀ error, tried.answer = .raises error →
          isConnectionError error = true ∧ request.idempotent = true ∧ router.reconnect = true) ∧
        (router.url.useTls = true ∨ (∃ earlier ∈ before, earlier.router.url.useTls = true) ∨
            (∃ redirect ∈ followed before, redirect.port < 0) →
          tried.router.url.useTls = true ∧ ∀ made, tried.session = some made → made.Encrypted) ∧
        tried.request.path =
          request.path.map (withTokens ((followed before).map RedirectInfo.token)) := by
  intro world tries most
  have filed : world.Filed python :=
    run_invariant (step python) (Filing python) (World.Filed python)
      (fun world move filing filed => step_filed move filed filing) _ _ filing
      (start_filed ambient)
  have most_eq : most = budget router.config 0 0 := by simp [most, budget]
  refine ⟨?_, ?_, ?_⟩
  · rw [most_eq]
    exact attempts_length rounds request 0 0 world found
  · rw [most_eq]
    exact execute_ends rounds request 0 0 world found
  · intro before tried later split
    obtain ⟨along, hops, failed, round, rest, goes, made⟩ :=
      attempts_split rounds request 0 0 lowers filed found split
    refine ⟨?_, ?_, along.path⟩
    · intro again error raised
      rw [← along.idempotent, ← along.reconnect]
      exact attempts_safe along.found made goes again raised
    · intro asked
      refine ⟨along.secure asked, fun session present => ?_⟩
      rw [made] at present
      exact attempt_encrypted along.filed along.found (along.secure asked) present

def unused (config : Config) : World Unit :=
  run (step plain) (moves plain [.move (.create manager config true)] (start ())) (start ())

theorem request_sent_on :
    let request : Request := { name := str "Open", path := str "/f" }
    let tries := attempts plain 0 (str "/f") request 0 0
      [{ answer := .redirects ⟨str "server", -1094, str "t=1"⟩ }, { answer := .returns }] (unused {})
    tries.length = 2 ∧ tries.length ≤ 20 ∧
      ∀ before tried later, tries = before ++ tried :: later →
        (∃ redirect ∈ followed before, redirect.port < 0) → tried.router.url.useTls = true ∧
          tried.request.path =
            some (withTokens ((followed before).map RedirectInfo.token) (str "/f")) := by
  have kept := @execute_attempts Unit plain 0 _ (fun _ _ => rfl)
    [.move (.create manager {} true)] () (by simp [moves, Call.moves, history, Filing]) rfl
    { name := str "Open", path := str "/f" } (str "/f")
    [{ answer := .redirects ⟨str "server", -1094, str "t=1"⟩ }, { answer := .returns }]
  obtain ⟨bounded, -, each⟩ := kept
  refine ⟨by decide +kernel, bounded, fun before tried later split negative => ?_⟩
  obtain ⟨-, secure, path⟩ := each before tried later split
  exact ⟨(secure (Or.inr (Or.inr negative))).1, path⟩

/-- The first attempt is made whatever the limits say. -/
theorem attempted_below_limit : ¬∀ (config : Config) (request : Request) (path : Text)
    (rounds : List Round),
    ((attempts plain 0 path request 0 0 rounds (unused config)).length : Int) ≤
      1 + config.redirectLimit + config.connectRetries := by
  intro every
  have once := every { redirectLimit := -1, connectRetries := 0 } { name := str "Ping" } []
    [{ answer := .returns }]
  revert once
  decide +kernel

end XRootDClient.Routing
