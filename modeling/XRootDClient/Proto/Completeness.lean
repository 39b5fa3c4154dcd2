import XRootDClient.Proto.Parley

/-!
# When the ladder is complete

Until the login is answered no credential has been touched, so every machine
that waits for that answer, however it got there, enters the conversation with
the whole list before it. What the conversation comes to is then a fact about
the walk: it is complete exactly where nothing obstructs it.
-/

set_option autoImplicit false

namespace XRootDClient.Proto

open Lib Lib.BigEndian Lib.Stateful Lib.Run Auth

def State.unasked : State → Bool
  | .NEW | .HANDSHAKE | .PROTOCOL | .TLS | .LOGIN | .BIND => true
  | _ => false

namespace Machine

variable {Body : Type}

def rungs (machine : Machine Body) :
    Option (Ladder Body) × Option (Credential Body) × Dict Text Text :=
  (machine.credentials, machine.credential, machine.authRejected)

theorem StreamsOnly.rungs {before after : Machine Body} (only : StreamsOnly before after) :
    after.rungs = before.rungs := by
  rw [only.same]
  rfl

theorem LoginMove.rungs {installation : Installation Body} {before after : Machine Body}
    (moved : LoginMove installation before after) : after.rungs = before.rungs := by
  cases moved <;> rfl

theorem LadderMove.asked {before after : Machine Body} (moved : LadderMove before after)
    (authenticating : before.state = .AUTH) : after.state.unasked = false := by
  cases moved with
  | sent | raised => exact congrArg State.unasked authenticating
  | exhausted => rfl

section Steps

variable [Exchange Body] {installation : Installation Body}

theorem BringupMove.unasked {before after : Machine Body} {header : ResponseHeader} {body : Bytes}
    (moved : BringupMove installation before header body after)
    (early : after.state.unasked = true) :
    before.state.unasked = true ∧ after.rungs = before.rungs := by
  cases moved with
  | raised => exact ⟨early, rfl⟩
  | shook was => exact ⟨by rw [was]; rfl, rfl⟩
  | upgrade info reason was => exact ⟨by rw [was]; rfl, rfl⟩
  | login info was _ _ _ moved => exact ⟨by rw [was]; rfl, moved.rungs⟩
  | failed | refused | bound | entered | authenticated => cases early
  | challenged login was _ _ _ moved =>
      rw [moved.asked rfl] at early
      cases early
  | stepped was _ moved =>
      rw [moved.asked was] at early
      cases early

/-- A move that ends before the login is answered starts before it, and leaves the
ladder alone. -/
theorem StepMove.unasked {move : Move} {before after : Machine Body}
    (moved : StepMove installation before move after) (early : after.state.unasked = true) :
    before.state.unasked = true ∧ after.rungs = before.rungs := by
  cases moved with
  | start moved =>
      cases moved with
      | refused => exact ⟨early, rfl⟩
      | greeted fresh => exact ⟨by rw [fresh]; rfl, rfl⟩
  | submit moved =>
      cases moved with
      | refused | exhausted | raised => exact ⟨early, rfl⟩
      | issued ready acquired made =>
          unfold enqueue at early
          dsimp only at early
          split_ifs at early <;>
            · dsimp only [queuePath] at early
              rw [ready] at early
              cases early
  | resume moved =>
      cases moved with
      | refused => exact ⟨early, rfl⟩
      | resent pending found => split at early <;> split <;> exact ⟨early, rfl⟩
  | close moved =>
      cases moved with
      | exhausted | raised => exact ⟨early, rfl⟩
      | farewell | silent => cases early
  | tlsEstablished moved =>
      cases moved with
      | refused => exact ⟨early, rfl⟩
      | secured due moved => exact ⟨by rw [due]; rfl, moved.rungs⟩
  | turn moved =>
      rcases moved.dichotomy with only | ⟨outer, inner, whole, body, framer, -, -, -, -, moved⟩
      · rw [only.state] at early
        exact ⟨early, only.rungs⟩
      · exact moved.unasked early
  | release streamid =>
      have only := release_only streamid before
      rw [only.state] at early
      exact ⟨early, only.rungs⟩
  | forgetPath pathid =>
      have only := forget_path_only pathid before
      rw [only.state] at early
      exact ⟨early, only.rungs⟩
  | eof pathid =>
      rcases eof_cases pathid before with ⟨-, -, only⟩ | ⟨-, -, only⟩ | ⟨-, only⟩
      · rw [only.state] at early
        exact ⟨early, only.rungs⟩
      · rw [only.state] at early
        cases early
      · rw [only.state] at early
        exact ⟨early, only.rungs⟩
  | feed | dataToSend | pathDataToSend | nextEvent => exact ⟨early, rfl⟩

variable (installation)

theorem after_unasked (calls : List Call) (machine : Machine Body)
    (early : (after installation calls machine).state.unasked = true) :
    (after installation calls machine).rungs = machine.rungs := by
  refine calls_invariant installation (fun _ => True)
    (fun reached => reached.state.unasked = true → reached.rungs = machine.rungs)
    (fun reached move _ holds still => ?_) calls machine (fun _ _ => trivial) (fun _ => rfl) early
  obtain ⟨before, same⟩ := (step_move installation move reached).unasked still
  exact same.trans (holds before)

end Steps

end Machine

section Walk

variable {Body : Type} [Exchange Body] (server : Server)

theorem walk_sublist (usable : List (Credential Body)) :
    (walk server usable).1.Sublist (usable.map Credential.name) := by
  induction usable with
  | nil => exact .slnil
  | cons credential rest induction =>
      rw [walk, List.map_cons]
      cases fate server credential with
      | mute => exact induction.cons _
      | abandoned => exact induction.cons_cons _
      | accepted | refused => exact (List.nil_sublist _).cons_cons _

theorem walk_refused {usable : List (Credential Body)} {credential : Credential Body}
    {info : ErrorInfo} (member : credential ∈ attempted server usable)
    (refused : fate server credential = .refused info) :
    ∃ info, (walk server usable).2 = .refused info := by
  induction usable with
  | nil => cases member
  | cons first rest induction =>
      rw [attempted] at member
      rw [walk]
      rcases List.mem_cons.mp member with same | later
      · rw [← same, refused]
        exact ⟨info, rfl⟩
      · cases fated : fate server first with
        | accepted =>
            rw [if_pos fated] at later
            cases later
        | refused other => exact ⟨other, rfl⟩
        | mute =>
            rw [if_neg (by simp [fated])] at later
            exact induction later
        | abandoned =>
            rw [if_neg (by simp [fated])] at later
            exact induction later

theorem walk_begun {usable : List (Credential Body)}
    (unrefused : ∀ credential ∈ attempted server usable, ∀ info,
      fate server credential ≠ .refused info) :
    (walk server usable).1 = ((attempted server usable).filter fun credential =>
      fate server credential ≠ .mute).map Credential.name := by
  induction usable with
  | nil => rfl
  | cons first rest induction =>
      rw [attempted] at unrefused ⊢
      rw [walk]
      cases fated : fate server first with
      | accepted => simp [fated]
      | refused info => exact absurd fated (unrefused first (by simp) info)
      | mute =>
          rw [if_neg (by simp [fated])] at unrefused ⊢
          rw [List.filter_cons_of_neg (by simp [fated])]
          exact induction fun credential member =>
            unrefused credential (List.mem_cons_of_mem _ member)
      | abandoned =>
          rw [if_neg (by simp [fated])] at unrefused ⊢
          rw [List.filter_cons_of_pos (by simp [fated]), List.map_cons]
          exact congrArg _ (induction fun credential member =>
            unrefused credential (List.mem_cons_of_mem _ member))

def firstAccepted (usable : List (Credential Body)) : Option (Credential Body) :=
  usable.find? fun credential => fate server credential = .accepted

/-- Without a refusal, the walk ends on the first acceptance or at the end of the
list. -/
theorem walk_ending {usable : List (Credential Body)}
    (unrefused : ∀ credential ∈ attempted server usable, ∀ info,
      fate server credential ≠ .refused info) :
    (walk server usable).2 = match firstAccepted server usable with
      | some credential => .ready credential.name
      | none => .exhausted := by
  induction usable with
  | nil => rfl
  | cons first rest induction =>
      rw [attempted] at unrefused
      rw [walk, firstAccepted]
      cases fated : fate server first with
      | accepted => simp [fated]
      | refused info => exact absurd fated (unrefused first (by simp) info)
      | mute | abandoned =>
          rw [if_neg (by simp [fated])] at unrefused
          rw [List.find?_cons_of_neg (by simp [fated])]
          exact induction fun credential member =>
            unrefused credential (List.mem_cons_of_mem _ member)

theorem attempted_all {usable : List (Credential Body)}
    (none : firstAccepted server usable = none) : attempted server usable = usable := by
  induction usable with
  | nil => rfl
  | cons first rest induction =>
      rw [firstAccepted, List.find?_eq_none] at none
      have later : firstAccepted server rest = Option.none :=
        List.find?_eq_none.mpr fun credential member => none credential (by simp [member])
      rw [attempted, if_neg (by simpa using none first (by simp)), induction later]

end Walk

namespace Machine

variable {Body : Type} [Exchange Body]

/-- What a ladder is for: every usable mechanism is begun at most once and in
order; the first that the server would accept makes the session ready; and only
when all have been tried and none would be accepted does bring-up fail, with an
error that names each of them. -/
structure Complete (server : Server) (usable : List (Credential Body)) (parley : Parley Body) :
    Prop where
  once : parley.begun.Nodup
  ordered : parley.begun.Sublist (usable.map Credential.name)
  accepted : ∀ credential, firstAccepted server usable = some credential →
    parley.machine.state = .READY ∧
      ∃ sessionId, parley.machine.events.getLast? = some (.ready sessionId credential.name)
  rejected : parley.machine.state ≠ .READY → parley.machine.state = .FAILED ∧
    ∃ offered tried,
      parley.machine.events.getLast? = some (.failed none none (.noMechanismError offered tried)) ∧
      ∀ credential ∈ usable, fate server credential ≠ .accepted ∧
        (fate server credential = .mute ∨ credential.name ∈ parley.begun) ∧
        credential.name ∈ tried.keys

/-- A conversation that settles as the walk says is complete exactly where nothing
obstructs the walk. -/
theorem settles_complete_iff {server : Server} {usable : List (Credential Body)}
    {parley : Parley Body} (settles : Settles server [] [] usable parley) :
    Complete server usable parley ↔ Unobstructed server usable := by
  obtain ⟨begun, ended⟩ := settles
  rw [List.nil_append] at begun ended
  constructor
  · intro complete
    have unrefused : ∀ credential ∈ attempted server usable, ∀ info,
        fate server credential ≠ .refused info := by
      intro credential member info refused
      obtain ⟨other, ending⟩ := walk_refused server member refused
      rw [ending] at ended
      obtain ⟨failed, last⟩ := ended
      obtain ⟨-, offered, tried, named, -⟩ := complete.rejected (by rw [failed]; simp)
      rw [last] at named
      cases named
    refine ⟨unrefused, ?_⟩
    rw [← walk_begun server unrefused, ← begun]
    exact complete.once
  · intro clear
    have names := walk_begun server clear.unrefused
    have ending := walk_ending server clear.unrefused
    refine ⟨?_, ?_, fun credential first => ?_, fun unready => ?_⟩
    · rw [begun, names]
      exact clear.distinct
    · rw [begun]
      exact walk_sublist server usable
    · rw [first] at ending
      rw [ending] at ended
      exact ended
    · cases first : firstAccepted server usable with
      | some credential =>
          rw [first] at ending
          rw [ending] at ended
          exact absurd ended.1 unready
      | none =>
          rw [first] at ending
          rw [ending] at ended
          obtain ⟨failed, offered, tried, last, recorded⟩ := ended
          refine ⟨failed, offered, tried, last, fun credential member => ⟨?_, ?_, ?_⟩⟩
          · have refused := List.find?_eq_none.mp first credential member
            simpa using refused
          · by_cases mute : fate server credential = .mute
            · exact .inl mute
            · right
              rw [begun, names, attempted_all server first]
              exact List.mem_map_of_mem (List.mem_filter.mpr ⟨member, by simpa using mute⟩)
          · exact recorded _ (List.mem_map_of_mem member)

variable (installation : Installation Body)

/-- The credentials a session can use: those it was given, or those the offer
selects. -/
def usable (credentials : Option (List (Credential Body))) (sec : Text) (machine : Machine Body) :
    List (Credential Body) :=
  match credentials with
  | some given => given
  | none => (select sec machine.config machine.username machine.host).remaining installation

theorem authenticates_settles (presentable : Presentable installation) (server : Server)
    {body : Bytes} {login : LoginInfo} (parsed : parseLogin body = .ok login)
    (asked : login.sec ≠ []) (fits : body.length ≤ MAX_RESPONSE_BODY) (machine : Machine Body)
    (waiting : machine.state = .LOGIN) (clean : machine.framer 0 = {}) (ladder : LadderFits machine)
    (rounds : Nat) :
    let list := (machine.credentials.getD
      (select login.sec machine.config machine.username machine.host)).remaining installation
    budget server list ≤ rounds →
      Settles server [] [] list (authenticates installation server body rounds machine) := by
  intro list enough
  have heard := receive_answer installation (show sidLogin < 0x10000 by decide)
    (show kXR_ok < 0x10000 by decide) (by decide) fits machine clean (by rw [waiting]; rfl)
  rw [challenged_run _ _ login (storeFramer 0 {} machine) waiting (.inl rfl) parsed asked] at heard
  have climbed := next_credential_climbs presentable login.sec
    { storeFramer 0 {} machine with
      sessionId := login.sessid, offered := login.mechanisms, state := .AUTH } ladder
    (show ∀ name ∈ ([] : List Text), _ by simp)
  rw [authenticates, Parley.hears, heard]
  refine climbed_settles server presentable list [] _ _ _ ⟨machine, [], []⟩ [] rounds climbed rfl
    (framer_store_self 0 {} machine) (fun known held => ?_) enough
  change (machine.credentials.getD _).rungs.length ≤ _
  rw [held]
  exact le_refl _

/-- However a session came to wait for the answer to its login, with nothing else
received: whatever the offer, the usable credentials and the server's scripts,
the ladder is complete if and only if, up to the first mechanism the server
would accept, none is refused with a `kXR_error` and none opens twice. -/
theorem ladder_complete_iff (presentable : Presentable installation) (host : Text) (port : Nat)
    (config : Config) (credentials : Option (List (Credential Body))) (username : Text)
    (wantTls : Bool) (bindTo : Bytes) (calls : List Call)
    (named : ∀ given, credentials = some given → ∀ credential ∈ given, Fits credential.name)
    (machine : Machine Body)
    (reached : machine = after installation calls
      (new host port config credentials username wantTls bindTo))
    (waiting : machine.state = .LOGIN) (clean : machine.framer 0 = {}) (server : Server)
    (body : Bytes) (login : LoginInfo) (parsed : parseLogin body = .ok login)
    (asked : login.sec ≠ []) (fits : body.length ≤ MAX_RESPONSE_BODY) (rounds : Nat)
    (enough : budget server (usable installation credentials login.sec machine) ≤ rounds) :
    Complete server (usable installation credentials login.sec machine)
        (authenticates installation server body rounds machine) ↔
      Unobstructed server (usable installation credentials login.sec machine) := by
  have untouched : machine.rungs =
      (new host port config credentials username wantTls bindTo).rungs := by
    rw [reached]
    exact after_unasked installation calls _ (by rw [← reached, waiting]; rfl)
  have held : machine.credentials = credentials.map fun given => { rungs := given.map .ready } :=
    congrArg Prod.fst untouched
  have presents : LadderFits machine := by
    intro ladder same rung member
    rw [held, Option.map_eq_some_iff] at same
    obtain ⟨given, shape, rfl⟩ := same
    obtain ⟨credential, inside, rfl⟩ := List.mem_map.mp member
    exact named given shape credential inside
  have list : (machine.credentials.getD (select login.sec machine.config machine.username
      machine.host)).remaining installation =
        usable installation credentials login.sec machine := by
    rw [held]
    cases credentials with
    | none => rfl
    | some given => exact remaining_given installation given
  have settles := authenticates_settles installation presentable server parsed asked fits machine
    waiting clean presents rounds
  dsimp only at settles
  rw [list] at settles
  exact settles_complete_iff (settles enough)

/-- Refuses one mechanism with a `kXR_error` and accepts every other. -/
def refusing (refused : Text) : Server := fun name =>
  if name = refused then
    { challenges := []
      verdict := .refuse ⟨3030, str "no"⟩ (BigEndian.encode 4 3030 ++ [110, 111, 0])
        (by decide +kernel) (by decide) }
  else { challenges := [], verdict := .accept }

/-- Asks every mechanism for another round and accepts whoever answers. -/
def asking : Server := fun _ => { challenges := [⟨[1], by decide⟩], verdict := .accept }

theorem one_byte_short : ([1] : Bytes).length ≤ 0x7FFFFFFF := by decide

def hostThenUnix : List (Credential OneShot) :=
  [⟨str "host", { blob := [1], short := one_byte_short }⟩, ⟨str "unix", { blob := [2] }⟩]

/-- A machine that was given both and waits for the answer to its login. -/
def loginMachine : Machine OneShot :=
  after (Installation.bare OneShot) [.start, .receiveData (greets 1 []) 0]
    (new (str "data") DEFAULT_PORT {} (some hostThenUnix) [] false [])

def loginBody : Bytes := List.replicate SESSION_ID_LEN 7 ++ Text.encodeUtf8 (str "&P=host&P=unix")

/-- The server refuses `host` and would accept `unix`, which is never begun. -/
theorem refusal_ends_ladder :
    loginMachine.state = .LOGIN ∧ loginMachine.framer 0 = {} ∧
      firstAccepted (refusing (str "host")) hostThenUnix = some ⟨str "unix", { blob := [2] }⟩ ∧
      ¬Complete (refusing (str "host")) hostThenUnix
        (authenticates (Installation.bare OneShot) (refusing (str "host")) loginBody 2
          loginMachine) := by
  have first : firstAccepted (refusing (str "host")) hostThenUnix =
      some ⟨str "unix", { blob := [2] }⟩ := by decide +kernel
  have failed : (authenticates (Installation.bare OneShot) (refusing (str "host")) loginBody 2
      loginMachine).machine.state = .FAILED := by decide +kernel
  refine ⟨by decide +kernel, by decide +kernel, first, fun complete => ?_⟩
  rw [(complete.accepted _ first).1] at failed
  cases failed

/-- A machine that was given none and waits for the answer to its login. -/
def offeredMachine : Machine OneShot :=
  after shipped [.start, .receiveData (greets 1 []) 0]
    (new (str "data") DEFAULT_PORT {} none [] false [])

/-- Neither of the two that can be built answers a challenge: both are tried, and
named. -/
theorem challenges_exhaust_ladder :
    let list := usable shipped none (str "&P=host&P=krb5&P=unix") offeredMachine
    list.map Credential.name = [str "unix", str "host"] ∧
      Complete asking list (authenticates shipped asking (List.replicate SESSION_ID_LEN 7 ++
        Text.encodeUtf8 (str "&P=host&P=krb5&P=unix")) 4 offeredMachine) := by
  intro list
  refine ⟨by decide +kernel, ?_⟩
  refine (ladder_complete_iff shipped shipped_presentable (str "data") DEFAULT_PORT {} none []
    false [] [.start, .receiveData (greets 1 []) 0] (fun given same => by cases same)
    offeredMachine rfl (by decide +kernel) (by decide +kernel) asking _
    ⟨List.replicate SESSION_ID_LEN 7, str "&P=host&P=krb5&P=unix"⟩ (by decide +kernel) (by decide)
    (by decide) 4 (by decide +kernel)).mpr ⟨?_, by decide +kernel⟩
  have none : (attempted asking list).all (fun credential =>
    decide (fate asking credential = .abandoned)) = true := by decide +kernel
  intro credential member info refused
  rw [of_decide_eq_true (List.all_eq_true.mp none credential member)] at refused
  cases refused

end Machine

end XRootDClient.Proto
