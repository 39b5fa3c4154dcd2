import XRootDClient.Auth.Usable
import XRootDClient.Proto.Admission
import XRootDClient.Proto.Loop

/-!
# The ladder against a server

A server's behaviour towards one mechanism is a script: the challenges it sends
and the verdict it ends with. Against a server that has a script for every
mechanism, the conversation of the machine comes out as a walk down the list of
usable credentials says: one that cannot open is passed, one that cannot answer
is left for the next, an acceptance ends the walk, and so does a `kXR_error`,
whatever is still to come. The walk is therefore complete when no refusal stands
before the first acceptance and no mechanism is begun twice before it.
-/

set_option autoImplicit false

namespace XRootDClient.Proto

open Lib Lib.BigEndian Lib.Stateful Lib.Run Auth

abbrev Challenge := { challenge : Bytes // challenge.length ≤ MAX_RESPONSE_BODY }

/-- How a server ends an exchange: `kXR_ok`, or a `kXR_error` that can be read. -/
inductive Verdict
  | accept
  | refuse (info : ErrorInfo) (body : Bytes) (reads : parseError body = .ok info)
      (fits : body.length ≤ MAX_RESPONSE_BODY)

structure Script where
  challenges : List Challenge
  verdict : Verdict

abbrev Server := Text → Script

/-- What becomes of a credential: it cannot open, it cannot answer a challenge, or
the server rules on it. -/
inductive Fate
  | mute
  | abandoned
  | accepted
  | refused (info : ErrorInfo)
  deriving DecidableEq

def Verdict.fate : Verdict → Fate
  | .accept => .accepted
  | .refuse info _ _ _ => .refused info

section Walk

variable {Body : Type} [Exchange Body] (server : Server)

def meets (verdict : Verdict) (body : Body) : List Challenge → Fate
  | [] => verdict.fate
  | challenge :: left =>
      match Exchange.step body challenge.val with
      | (.ok (some _), body) => meets verdict body left
      | _ => .abandoned

def fate (credential : Credential Body) : Fate :=
  match Exchange.initial credential.body with
  | (.error _, _) => .mute
  | (.ok _, body) => meets (server credential.name).verdict body (server credential.name).challenges

/-- The usable credentials up to the first that the server accepts. -/
def attempted : List (Credential Body) → List (Credential Body)
  | [] => []
  | credential :: rest =>
      credential :: if fate server credential = .accepted then [] else attempted rest

/-- Up to the first acceptance, the server refuses nobody with a `kXR_error` and
no mechanism opens twice. -/
structure Unobstructed (usable : List (Credential Body)) : Prop where
  unrefused : ∀ credential ∈ attempted server usable, ∀ info,
    fate server credential ≠ .refused info
  distinct : (((attempted server usable).filter fun credential =>
    fate server credential ≠ .mute).map Credential.name).Nodup

inductive Ending
  | ready (name : Text)
  | refused (info : ErrorInfo)
  | exhausted

def walk : List (Credential Body) → List Text × Ending
  | [] => ([], .exhausted)
  | credential :: rest =>
      match fate server credential with
      | .mute => walk rest
      | .abandoned => (credential.name :: (walk rest).1, (walk rest).2)
      | .accepted => ([credential.name], .ready credential.name)
      | .refused info => ([credential.name], .refused info)

/-- More rounds than the server has challenges and verdicts for. -/
def budget (usable : List (Credential Body)) : Nat :=
  (usable.map fun credential => (server credential.name).challenges.length + 1).sum

theorem meets_answered (verdict : Verdict) {body : Body} {challenge : Challenge} {blob : Bytes}
    (answered : (Exchange.step body challenge.val).1 = .ok (some blob)) (left : List Challenge) :
    meets verdict body (challenge :: left) =
      meets verdict (Exchange.step body challenge.val).2 left := by
  rw [meets]
  generalize Exchange.step body challenge.val = result at answered
  obtain ⟨outcome, body⟩ := result
  dsimp only at answered
  rw [answered]

theorem meets_abandoned (verdict : Verdict) {body : Body} {challenge : Challenge}
    (silent : ∀ blob, (Exchange.step body challenge.val).1 ≠ .ok (some blob))
    (left : List Challenge) : meets verdict body (challenge :: left) = .abandoned := by
  rw [meets]
  generalize Exchange.step body challenge.val = result at silent
  obtain ⟨outcome, body⟩ := result
  match outcome, silent with
  | .error _, _ | .ok none, _ => rfl
  | .ok (some blob), silent => exact absurd rfl (silent blob)

theorem fate_mute {credential : Credential Body} {error : Exception}
    (mute : (Exchange.initial credential.body).1 = .error error) :
    fate server credential = .mute := by
  rw [fate]
  generalize Exchange.initial credential.body = result at mute
  obtain ⟨outcome, body⟩ := result
  dsimp only at mute
  rw [mute]

theorem fate_opened {credential : Credential Body} {blob : Bytes}
    (opens : (Exchange.initial credential.body).1 = .ok blob) :
    fate server credential = meets (server credential.name).verdict
      (Exchange.initial credential.body).2 (server credential.name).challenges := by
  rw [fate]
  generalize Exchange.initial credential.body = result at opens
  obtain ⟨outcome, body⟩ := result
  dsimp only at opens
  rw [opens]

theorem meets_not_mute (verdict : Verdict) (body : Body) (left : List Challenge) :
    meets verdict body left ≠ .mute := by
  induction left generalizing body with
  | nil => cases verdict <;> simp [meets, Verdict.fate]
  | cons challenge left induction =>
      rw [meets]
      split
      · exact induction _
      · simp

end Walk

namespace Machine

variable {Body : Type}

section Receiving

variable [Exchange Body] (installation : Installation Body)

omit [Exchange Body] in
theorem next_response {sid status : Nat} {body : Bytes} (stream : sid < 0x10000)
    (known : status < 0x10000) (fits : body.length ≤ MAX_RESPONSE_BODY) :
    Framer.next { buffer := response sid status body } =
      .frame ⟨sid, status, body.length⟩ body {} := by
  have header := decode_header_bytes ⟨sid, status, body.length⟩ stream known fits
  have front : (response sid status body).take RESPONSE_HDRLEN =
      ResponseHeader.bytes ⟨sid, status, body.length⟩ :=
    List.take_left' (response_header_length _)
  have back : (response sid status body).drop RESPONSE_HDRLEN = body :=
    List.drop_left' (response_header_length _)
  have opened := @Framer.next_opening { buffer := response sid status body }
    ⟨sid, status, body.length⟩ rfl rfl (by simp [response]) (by rw [front, header])
  rw [opened, back]
  simp [Framer.takeBody]

/-- A response on an empty control link, and nothing behind it, is one answer to
bring-up. -/
theorem receive_answer {sid status : Nat} {body : Bytes} (stream : sid < 0x10000)
    (known : status < 0x10000) (plain : status ≠ kXR_attn)
    (fits : body.length ≤ MAX_RESPONSE_BODY) (machine : Machine Body)
    (clean : machine.framer 0 = {}) (waiting : machine.state.bringingUp = true) :
    final (receiveData installation (response sid status body) 0 machine) =
      final (bringup installation ⟨sid, status, body.length⟩ body (storeFramer 0 {} machine)) := by
  have filled : response sid status body ≠ [] := by
    intro none
    have length := congrArg List.length none
    simp [response] at length
  have fed : extend 0 (response sid status body) machine =
      storeFramer 0 { buffer := response sid status body } machine := by
    rw [extend, clean]
    rfl
  rw [receive_data_loop installation filled, fed, loop_turn, turn_run, framer_store_self,
    next_response stream known fits]
  dsimp only
  rw [store_store, dispatch_run, content, if_neg plain]
  dsimp only
  rw [respond_run, if_pos (show (storeFramer 0 {} machine).state.bringingUp = true from waiting)]
  have links := (bringup_move installation ⟨sid, status, body.length⟩ body
    (storeFramer 0 {} machine) waiting).frame
  cases ran : bringup installation ⟨sid, status, body.length⟩ body (storeFramer 0 {} machine) with
  | error error after => rfl
  | ok value after =>
      rw [ran, final_ok] at links
      have found : after.framers.get? 0 = some {} := by
        rw [links]
        exact Dict.get_set_self _ _ _
      have empty : after.framer 0 = {} := by
        rw [Machine.framer, Dict.getD, found]
        rfl
      dsimp only
      rw [store_framer_same 0 {} after found, loop_turn, turn_run, empty]
      change final (EStateM.Result.ok () (storeFramer 0 {} after)) = _
      rw [store_framer_same 0 {} after found]

end Receiving

section Climbing

variable [Exchange Body] (installation : Installation Body)

def opening (credential : Credential Body) (ladder : Ladder Body) (why : Dict Text Text)
    (frame : Bytes) (machine : Machine Body) : Machine Body :=
  { machine with
    credentials := some ladder
    authRejected := why
    credential := some { credential with body := (Exchange.initial credential.body).2 }
    mechanism := credential.name
    out := machine.out ++ frame }

/-- Where climbing comes to, by the credentials that were to come. The names are
those whose rejection is on record; `height` is the number of rungs climbed
from. -/
inductive Climbed (before : Machine Body) (height : Nat) :
    List Text → List (Credential Body) → Machine Body → Prop
  | opened {names : List Text} {credential : Credential Body} {ladder : Ladder Body}
      {why : Dict Text Text} {blob frame : Bytes} (shorter : ladder.rungs.length < height)
      (fits : ∀ rung ∈ ladder.rungs, rung.Fits) (named : Fits credential.name)
      (opens : (Exchange.initial credential.body).1 = .ok blob)
      (recorded : ∀ name ∈ names, name ∈ why.keys ∨ name = credential.name) :
      Climbed before height names (credential :: ladder.remaining installation)
        (opening credential ladder why frame before)
  | passed {names : List Text} {credential : Credential Body} {rest : List (Credential Body)}
      {after : Machine Body} {error : Exception}
      (mute : (Exchange.initial credential.body).1 = .error error)
      (climbed : Climbed before height (credential.name :: names) rest after) :
      Climbed before height names (credential :: rest) after
  | exhausted {names : List Text} {ladder : Ladder Body} {why : Dict Text Text}
      (recorded : ∀ name ∈ names, name ∈ why.keys) :
      Climbed before height names []
        (noMechanism { before with credentials := some ladder, authRejected := why })

variable {installation}

theorem Climbed.reframe {before after : Machine Body} {height : Nat} {names : List Text}
    {usable : List (Credential Body)} {credentials : Option (Ladder Body)}
    {authRejected : Dict Text Text}
    (climbed : Climbed installation
      { before with credentials := credentials, authRejected := authRejected } height names usable
      after) : Climbed installation before height names usable after := by
  induction climbed with
  | opened shorter fits named opens recorded => exact .opened shorter fits named opens recorded
  | passed mute _ induction => exact .passed mute induction
  | exhausted recorded => exact .exhausted recorded

omit [Exchange Body] in
theorem after_cases (ladder : Ladder Body) (rung : Rung Body) (rest : List (Rung Body))
    (outcome : Except Exception (Option (Credential Body))) :
    (ladder.after rung rest outcome).rungs = rest ∨
      (ladder.after rung rest outcome).rungs = [] := by
  unfold Ladder.after
  split
  · exact .inr rfl
  · exact .inr rfl
  · exact .inl rfl
  · exact .inl rfl

theorem climb_climbs (presentable : Presentable installation) (rungs : List (Rung Body))
    (fits : ∀ rung ∈ rungs, rung.Fits) (machine : Machine Body) (ladder : Ladder Body)
    (held : machine.credentials = some ladder) {names : List Text}
    (recorded : ∀ name ∈ names, name ∈ machine.authRejected.keys) {height : Nat}
    (tall : rungs.length ≤ height) :
    Climbed installation machine height names (ladder.usable installation rungs)
      (final (climb installation rungs machine)) := by
  induction rungs generalizing machine ladder names with
  | nil =>
      have same : machine = { machine with
          credentials := some ladder, authRejected := machine.authRejected } := by
        rw [← held]
      rw [climb, run_modify, final_ok, same]
      exact .exhausted recorded
  | cons rung rest induction =>
      have later : ∀ left ∈ rest, left.Fits := fun left member => fits left (by simp [member])
      have short : rest.length < height := tall
      obtain ⟨found, came, named⟩ := reach_presentable installation presentable ladder rung
        machine.authRejected (fits rung (by simp))
      have kept := reach_kept installation ladder rung machine.authRejected
      have always := reach_outcome installation ladder rung ∅ machine.authRejected
      rw [came] at always kept
      simp only [climb, run_bind, run_get, run_set, held, Option.getD_some]
      generalize ladder.reach installation rung machine.authRejected = result at came kept
      obtain ⟨outcome, why⟩ := result
      dsimp only at came kept
      subst came
      simp only [attempt_ok]
      cases found with
      | none =>
          rw [usable_skips installation ladder rung rest always]
          have after : ladder.after rung rest (.ok none) = { ladder with rungs := rest } := by
            cases rung <;> rfl
          rw [after]
          refine (usable_rungs installation ladder rest rest ▸ induction later { machine with
            credentials := some { ladder with rungs := rest }
            authRejected := why } { ladder with rungs := rest } rfl (fun name member => ?_)
              (Nat.le_of_lt short)).reframe
          rcases kept name (recorded name member) with still | ⟨credential, none, -⟩
          · exact still
          · cases none
      | some credential =>
          have fewer : (ladder.after rung rest (.ok (some credential))).rungs.length < height := by
            rcases after_cases ladder rung rest (.ok (some credential)) with same | none
            · rw [same]
              exact short
            · rw [none]
              exact Nat.zero_lt_of_lt short
          have noted : ∀ name ∈ names, name ∈ why.keys ∨ name = credential.name := by
            intro name member
            rcases kept name (recorded name member) with still | ⟨other, same, named⟩
            · exact .inl still
            · rw [yielded, Option.some.injEq] at same
              rw [same, named]
              exact .inr rfl
          rw [usable_cons installation ladder rung rest always]
          cases minted : (Exchange.initial credential.body).1 with
          | ok blob =>
              simp only [minted, run_bind, run_modify]
              obtain ⟨request, frame, encoded, opcode, queued⟩ := queue_auth_presents
                (named credential rfl) (presentable.opens credential.body blob minted)
                { machine with
                  credentials := some (ladder.after rung rest (.ok (some credential)))
                  authRejected := why
                  credential := some { credential with
                    body := (Exchange.initial credential.body).2 }
                  mechanism := credential.name }
              rw [queued]
              exact .opened fewer (fun left member => later left (after_rungs _ _ _ _ left member))
                (named credential rfl) minted noted
          | error error =>
              simp only [minted, run_bind, run_modify]
              refine .passed minted ?_
              have all : ∀ name ∈ credential.name :: names,
                  name ∈ (why.set credential.name error.describe).keys := by
                intro name member
                rw [Dict.mem_keys_set]
                rcases List.mem_cons.mp member with same | other
                · exact .inl same
                · exact (noted name other).symm
              rcases after_cases ladder rung rest (.ok (some credential)) with same | none
              · cases rest with
                | nil =>
                    rw [same]
                    rw [Ladder.remaining, same]
                    exact .exhausted all
                | cons next left =>
                    rw [same]
                    have goes := induction later { machine with
                      credentials := some (ladder.after rung (next :: left) (.ok (some credential)))
                      authRejected := why.set credential.name error.describe } _ rfl all
                      (Nat.le_of_lt short)
                    rw [Ladder.remaining, same]
                    exact goes.reframe
              · rw [none, Ladder.remaining, none]
                exact .exhausted all

/-- Where the next credential takes a machine whose ladder, if it has one, can be
presented. -/
theorem next_credential_climbs (presentable : Presentable installation) (sec : Text)
    (machine : Machine Body) (fits : LadderFits machine) {names : List Text}
    (recorded : ∀ name ∈ names, name ∈ machine.authRejected.keys) :
    let ladder := machine.credentials.getD
      (select sec machine.config machine.username machine.host)
    Climbed installation machine ladder.rungs.length names (ladder.remaining installation)
      (final (nextCredential installation sec machine)) := by
  intro ladder
  have presents : ∀ rung ∈ ladder.rungs, rung.Fits := by
    intro rung member
    cases held : machine.credentials with
    | some given =>
        simp only [ladder, held, Option.getD_some] at member
        exact fits given held rung member
    | none =>
        simp only [ladder, held, Option.getD_none, select, List.mem_append, List.mem_map] at member
        rcases member with ⟨name, -, rfl⟩ | ⟨name, -, rfl⟩ <;> trivial
  simp only [nextCredential, run_bind, run_modify, run_get]
  exact (climb_climbs presentable ladder.rungs presents { machine with
    credentials := some ladder, authRejected := machine.authRejected } ladder rfl recorded
    (le_refl _)).reframe

end Climbing

/-- A conversation: the machine, the challenges the server has left for the
exchange that is open, and the mechanisms begun so far. -/
structure Parley (Body : Type) where
  machine : Machine Body
  left : List Challenge
  begun : List Text

/-- Another mechanism was begun: the machine is authenticating and its ladder has
moved. -/
def began (before after : Machine Body) : Bool :=
  after.state = .AUTH && after.credentials.map (·.rungs.length) ≠
    before.credentials.map (·.rungs.length)

/-- The conversation once the machine has taken an answer; a server whose script
is for a mechanism that was just begun starts that script. -/
def Parley.moved (server : Server) (left : List Challenge) (parley : Parley Body)
    (machine : Machine Body) : Parley Body :=
  if began parley.machine machine then
    ⟨machine, (server machine.mechanism).challenges, parley.begun ++ [machine.mechanism]⟩
  else ⟨machine, left, parley.begun⟩

section Conversation

variable [Exchange Body] (installation : Installation Body) (server : Server)

def Parley.hears (answer : Bytes) (left : List Challenge) (parley : Parley Body) : Parley Body :=
  parley.moved server left (final (receiveData installation answer 0 parley.machine))

/-- The server answers the last `kXR_auth`, if the machine is still waiting for
that. -/
def Parley.round (parley : Parley Body) : Parley Body :=
  if parley.machine.state = .AUTH then
    match parley.left with
    | challenge :: left =>
        parley.hears installation server (response sidAuth kXR_authmore challenge.val) left
    | [] =>
        match (server parley.machine.mechanism).verdict with
        | .accept => parley.hears installation server (response sidAuth kXR_ok []) []
        | .refuse _ body _ _ => parley.hears installation server (response sidAuth kXR_error body) []
  else parley

def Parley.converse : Nat → Parley Body → Parley Body
  | 0, parley => parley
  | rounds + 1, parley => Parley.converse rounds (parley.round installation server)

/-- The conversation after the server has answered the login and then that many
authentication requests. -/
def authenticates (login : Bytes) (rounds : Nat) (machine : Machine Body) : Parley Body :=
  Parley.converse installation server rounds
    (Parley.hears installation server (response sidLogin kXR_ok login) [] ⟨machine, [], []⟩)

variable {installation}

omit [Exchange Body] in
theorem moved_same {parley : Parley Body} {machine : Machine Body} {left : List Challenge}
    (same : machine.state = .AUTH → machine.credentials = parley.machine.credentials) :
    parley.moved server left machine = ⟨machine, left, parley.begun⟩ := by
  rw [Parley.moved, if_neg]
  rw [began, Bool.and_eq_true, not_and]
  intro state
  simp [same (by simpa using state)]

theorem converse_over (rounds : Nat) {parley : Parley Body} (done : parley.machine.state ≠ .AUTH) :
    parley.converse installation server rounds = parley := by
  induction rounds with
  | zero => rfl
  | succ rounds induction =>
      rw [Parley.converse, Parley.round, if_neg done]
      exact induction

/-- How a machine shows an ending; nobody left to try is shown with the names
whose rejection is on record. -/
def Ended (names : List Text) (machine : Machine Body) : Ending → Prop
  | .ready name => machine.state = .READY ∧
      ∃ sessionId, machine.events.getLast? = some (.ready sessionId name)
  | .refused info => machine.state = .FAILED ∧ machine.events.getLast? =
      some (.failed none none (.serverError .serverError info.code info.message none))
  | .exhausted => machine.state = .FAILED ∧ ∃ offered tried, machine.events.getLast? =
      some (.failed none none (.noMechanismError offered tried)) ∧ ∀ name ∈ names, name ∈ tried.keys

omit [Exchange Body] in
theorem Ended.fewer {names others : List Text} {machine : Machine Body} {ending : Ending}
    (ended : Ended names machine ending) (among : ∀ name ∈ others, name ∈ names) :
    Ended others machine ending := by
  cases ending with
  | ready | refused => exact ended
  | exhausted =>
      obtain ⟨failed, offered, tried, last, recorded⟩ := ended
      exact ⟨failed, offered, tried, last, fun name member => recorded name (among name member)⟩

def Settles (names begun : List Text) (usable : List (Credential Body)) (parley : Parley Body) :
    Prop :=
  parley.begun = begun ++ (walk server usable).1 ∧
    Ended (names ++ usable.map Credential.name) parley.machine (walk server usable).2

/-- The same, for the rest of an exchange that is open. -/
def Follows (names begun : List Text) (name : Text) (rest : List (Credential Body))
    (parley : Parley Body) : Fate → Prop
  | .accepted => parley.begun = begun ∧ Ended [] parley.machine (.ready name)
  | .refused info => parley.begun = begun ∧ Ended [] parley.machine (.refused info)
  | _ => Settles server (name :: names) begun rest parley

/-- An exchange is open on an empty link, with the rest of the ladder behind it. -/
structure Open (installation : Installation Body) (names : List Text)
    (credential : Credential Body) (rest : List (Credential Body)) (machine : Machine Body) :
    Prop where
  state : machine.state = .AUTH
  clean : machine.framer 0 = {}
  held : machine.credential = some credential
  mechanism : machine.mechanism = credential.name
  named : Fits credential.name
  ladder : ∃ ladder, machine.credentials = some ladder ∧ (∀ rung ∈ ladder.rungs, rung.Fits) ∧
    ladder.remaining installation = rest
  recorded : ∀ name ∈ names, name ∈ machine.authRejected.keys ∨ name = credential.name

omit [Exchange Body] in
theorem Open.store {names : List Text} {credential : Credential Body}
    {rest : List (Credential Body)} {machine : Machine Body}
    (opened : Open installation names credential rest machine) :
    Open installation names credential rest (storeFramer 0 {} machine) :=
  { opened with clean := framer_store_self 0 {} machine }

theorem bringup_accepts (sid dlen : Nat) (body : Bytes) {machine : Machine Body}
    (state : machine.state = .AUTH) :
    bringup installation ⟨sid, kXR_ok, dlen⟩ body machine = .ok () (becomeReady machine) := by
  rw [bringup, if_neg (show kXR_ok ≠ kXR_error by decide),
    if_neg (show ¬(kXR_ok ≠ kXR_ok ∧ kXR_ok ≠ kXR_authmore) by decide)]
  simp only [run_bind, run_get, state]
  rfl

theorem bringup_refuses (sid dlen : Nat) {body : Bytes} {info : ErrorInfo}
    (reads : parseError body = .ok info) (machine : Machine Body) :
    bringup installation ⟨sid, kXR_error, dlen⟩ body machine =
      .ok () (fail (.serverError .serverError info.code info.message none) machine) := by
  rw [bringup, if_pos rfl, reads]
  rfl

theorem step_answers (presentable : Presentable installation) {names : List Text} {name : Text}
    {body : Body} {rest : List (Credential Body)} {machine : Machine Body} {challenge blob : Bytes}
    (opened : Open installation names ⟨name, body⟩ rest machine)
    (answered : (Exchange.step body challenge).1 = .ok (some blob)) :
    Open installation names ⟨name, (Exchange.step body challenge).2⟩ rest
        (final (authStep installation challenge machine)) ∧
      (final (authStep installation challenge machine)).credentials = machine.credentials := by
  obtain ⟨request, frame, encoded, opcode, queued⟩ := queue_auth_presents opened.named
    (presentable.answers body challenge blob answered)
    { machine with credential := some ⟨name, (Exchange.step body challenge).2⟩ }
  simp only [authStep, run_bind, run_get, opened.held, run_set, answered]
  rw [queued]
  exact ⟨{ opened with held := rfl }, rfl⟩

theorem step_abandons (presentable : Presentable installation) {names : List Text} {name : Text}
    {body : Body} {rest : List (Credential Body)} {machine : Machine Body} {challenge : Bytes}
    (opened : Open installation names ⟨name, body⟩ rest machine)
    (silent : ∀ blob, (Exchange.step body challenge).1 ≠ .ok (some blob)) :
    ∃ ladder credential why, machine.credentials = some ladder ∧
      Climbed installation { machine with credential := credential, authRejected := why }
        ladder.rungs.length (name :: names) rest
        (final (authStep installation challenge machine)) := by
  obtain ⟨ladder, held, fits, left⟩ := opened.ladder
  have climbs : ∀ why, (∀ other ∈ name :: names, other ∈ Dict.keys why) →
      Climbed installation { machine with
        credential := some ⟨name, (Exchange.step body challenge).2⟩, authRejected := why }
        ladder.rungs.length (name :: names) rest
        (final (nextCredential installation [] { machine with
          credential := some ⟨name, (Exchange.step body challenge).2⟩, authRejected := why })) := by
    intro why recorded
    have goes := next_credential_climbs presentable [] { machine with
      credential := some ⟨name, (Exchange.step body challenge).2⟩, authRejected := why }
      (fun other same rung member => fits rung (by
        rw [show other = ladder from Option.some.inj (same.symm.trans held)] at member
        exact member)) recorded
    have same : Option.getD machine.credentials
        (select [] machine.config machine.username machine.host) = ladder := by rw [held]; rfl
    dsimp only at goes
    rw [same, left] at goes
    exact goes
  have noted : ∀ why : Dict Text Text, ∀ text, (∀ other ∈ names, other ∈ why.keys ∨ other = name) →
      ∀ other ∈ name :: names, other ∈ (why.setDefault name text).keys := by
    intro why text recorded other member
    rw [Dict.mem_keys_set_default]
    rcases List.mem_cons.mp member with same | known
    · exact .inl same
    · exact (recorded other known).symm
  refine ⟨ladder, some ⟨name, (Exchange.step body challenge).2⟩, ?_⟩
  cases answered : (Exchange.step body challenge).1 with
  | error error =>
      refine ⟨(machine.authRejected.set name error.describe).setDefault name
        (str "server asked for another round the mechanism cannot answer"), held, ?_⟩
      simp only [authStep, run_bind, run_get, opened.held, run_set, answered, run_modify]
      refine climbs _ (noted _ _ fun other member => ?_)
      rw [Dict.mem_keys_set]
      rcases opened.recorded other member with known | same
      · exact .inl (.inr known)
      · exact .inr same
  | ok found =>
      cases found with
      | some blob => exact absurd answered (silent blob)
      | none =>
          refine ⟨machine.authRejected.setDefault name
            (str "server asked for another round the mechanism cannot answer"), held, ?_⟩
          simp only [authStep, run_bind, run_get, opened.held, run_set, answered, run_modify]
          exact climbs _ (noted _ _ opened.recorded)

/-- From wherever climbing leaves the machine, the conversation settles as the walk
over the credentials that were to come. -/
def Settling (installation : Installation Body) (usable : List (Credential Body)) : Prop :=
  ∀ (names : List Text) (height : Nat) (before after : Machine Body) (parley : Parley Body)
    (left : List Challenge) (rounds : Nat),
    Climbed installation before height names usable after → before.state = .AUTH →
    before.framer 0 = {} →
    (∀ ladder, parley.machine.credentials = some ladder → height ≤ ladder.rungs.length) →
    budget server usable ≤ rounds →
    Settles server names parley.begun usable
      ((parley.moved server left after).converse installation server rounds)

theorem verdict_follows {names : List Text} {name : Text} {body : Body}
    {rest : List (Credential Body)} {parley : Parley Body} (rounds : Nat)
    (opened : Open installation names ⟨name, body⟩ rest parley.machine) (plays : parley.left = []) :
    Follows server names parley.begun name rest
      (parley.converse installation server (rounds + 1)) (server name).verdict.fate := by
  have waiting : parley.machine.state.bringingUp = true := by
    rw [opened.state]
    rfl
  have stored := opened.store
  rw [Parley.converse, Parley.round, if_pos opened.state, plays, opened.mechanism]
  dsimp only
  cases (server name).verdict with
  | accept =>
      have heard := receive_answer installation (show sidAuth < 0x10000 by decide)
        (show kXR_ok < 0x10000 by decide) (by decide)
        (show ([] : Bytes).length ≤ MAX_RESPONSE_BODY from Nat.zero_le _) parley.machine
        opened.clean waiting
      rw [bringup_accepts _ _ _ stored.state, final_ok] at heard
      dsimp only
      rw [Parley.hears, heard, moved_same server (fun state => by cases state),
        converse_over server rounds (fun state => by cases state)]
      refine ⟨rfl, rfl, parley.machine.sessionId, ?_⟩
      simp only [becomeReady, emit, List.getLast?_concat]
      rw [stored.mechanism]
      rfl
  | refuse info body reads fits =>
      have heard := receive_answer installation (show sidAuth < 0x10000 by decide)
        (show kXR_error < 0x10000 by decide) (by decide) fits parley.machine opened.clean waiting
      rw [bringup_refuses _ _ reads, final_ok] at heard
      dsimp only
      rw [Parley.hears, heard, moved_same server (fun state => by cases state),
        converse_over server rounds (fun state => by cases state)]
      exact ⟨rfl, rfl, List.getLast?_concat⟩

/-- An exchange that is open ends as its script says, and where it is abandoned the
rest of the ladder decides. -/
theorem open_follows (presentable : Presentable installation) {rest : List (Credential Body)}
    (settling : Settling server installation rest) {names : List Text} {name : Text}
    (left : List Challenge) (body : Body) (parley : Parley Body) (rounds : Nat)
    (opened : Open installation names ⟨name, body⟩ rest parley.machine) (plays : parley.left = left)
    (enough : left.length + 1 + budget server rest ≤ rounds) :
    Follows server names parley.begun name rest (parley.converse installation server rounds)
      (meets (server name).verdict body left) := by
  induction left generalizing body parley rounds with
  | nil =>
      obtain ⟨fewer, rfl⟩ : ∃ fewer, rounds = fewer + 1 := ⟨rounds - 1, by omega⟩
      exact verdict_follows server fewer opened plays
  | cons challenge left induction =>
      obtain ⟨fewer, rfl⟩ : ∃ fewer, rounds = fewer + 1 := ⟨rounds - 1, by omega⟩
      rw [List.length_cons] at enough
      have stored := opened.store
      have heard := receive_answer installation (show sidAuth < 0x10000 by decide)
        (show kXR_authmore < 0x10000 by decide) (by decide) challenge.property parley.machine
        opened.clean (by rw [opened.state]; rfl)
      rw [stepped_run _ _ _ stored.state rfl] at heard
      rw [Parley.converse, Parley.round, if_pos opened.state, plays]
      dsimp only
      rw [Parley.hears, heard]
      by_cases answers : ∃ blob, (Exchange.step body challenge.val).1 = .ok (some blob)
      · obtain ⟨blob, answered⟩ := answers
        obtain ⟨again, same⟩ := step_answers presentable stored answered
        rw [meets_answered _ answered, moved_same server (fun _ => same)]
        exact induction _ ⟨_, left, parley.begun⟩ fewer again rfl (by omega)
      · have silent : ∀ blob, (Exchange.step body challenge.val).1 ≠ .ok (some blob) :=
          fun blob answered => answers ⟨blob, answered⟩
        obtain ⟨ladder, credential, why, held, climbed⟩ := step_abandons presentable stored silent
        rw [meets_abandoned _ silent]
        refine settling _ _ _ _ parley left fewer climbed stored.state stored.clean
          (fun other same => ?_) (by omega)
        rw [show other = ladder from Option.some.inj (same.symm.trans held)]

theorem climbed_settles (presentable : Presentable installation)
    (usable : List (Credential Body)) : Settling server installation usable := by
  induction usable with
  | nil =>
      intro names height before after parley left rounds climbed state clean fewer enough
      cases climbed with
      | exhausted recorded =>
          rw [moved_same server (fun state => by cases state),
            converse_over server rounds (fun state => by cases state)]
          refine ⟨(List.append_nil _).symm, rfl, _, _, List.getLast?_concat, fun name member => ?_⟩
          rw [List.map_nil, List.append_nil] at member
          exact recorded name member
  | cons credential rest induction =>
      intro names height before after parley left rounds climbed state clean fewer enough
      rw [budget, List.map_cons, List.sum_cons] at enough
      cases climbed with
      | passed mute climbed =>
          obtain ⟨begun, ended⟩ := induction _ _ _ _ parley left rounds climbed state clean fewer
            (by rw [budget]; omega)
          rw [Settles, walk, fate_mute server mute]
          refine ⟨begun, ended.fewer fun name member => ?_⟩
          simpa [or_left_comm, or_assoc] using member
      | @opened _ _ ladder why blob frame shorter fits named opens recorded =>
          have goes : began parley.machine (opening credential ladder why frame before) = true := by
            rw [began, Bool.and_eq_true]
            refine ⟨decide_eq_true state, decide_eq_true fun same => ?_⟩
            cases held : parley.machine.credentials with
            | none =>
                rw [held] at same
                cases same
            | some other =>
                have tall := fewer other held
                rw [held] at same
                have level : ladder.rungs.length = other.rungs.length := Option.some.inj same
                omega
          rw [Parley.moved, if_pos goes]
          have follows := open_follows server presentable induction
            (server credential.name).challenges (Exchange.initial credential.body).2
            ⟨opening credential ladder why frame before, (server credential.name).challenges,
              parley.begun ++ [credential.name]⟩ rounds
            { state := state, clean := clean, held := rfl, mechanism := rfl, named := named
              ladder := ⟨ladder, rfl, fits, rfl⟩, recorded := recorded } rfl (by rw [budget]; omega)
          rw [← fate_opened server opens] at follows
          rw [Settles, walk]
          cases fated : fate server credential with
          | mute =>
              rw [fate_opened server opens] at fated
              exact absurd fated (meets_not_mute _ _ _)
          | accepted =>
              rw [fated] at follows
              exact follows
          | refused info =>
              rw [fated] at follows
              exact follows
          | abandoned =>
              rw [fated] at follows
              obtain ⟨begun, ended⟩ := follows
              refine ⟨begun.trans (List.append_assoc _ _ _), ended.fewer fun name member => ?_⟩
              simpa [or_left_comm, or_assoc] using member

end Conversation

end Machine

end XRootDClient.Proto
