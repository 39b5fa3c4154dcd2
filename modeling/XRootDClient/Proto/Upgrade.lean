import XRootDClient.Proto.Signing

/-!
# Across the upgrade

What a peer sends before the connection is encrypted can reach the machine in
two places only: the flags it negotiates, and the cursor of the control link.
The first is meant to count afterwards; the second is not, and it survives. Two
prefaces that negotiate the same flags lead to the same machine exactly when
they leave the same cursor.
-/

set_option autoImplicit false

namespace XRootDClient.Proto

open Lib Lib.BigEndian Lib.Stateful Lib.Run Auth

def State.preface : State → Bool
  | .NEW | .HANDSHAKE | .PROTOCOL | .TLS => true
  | _ => false

namespace Machine

variable {Body : Type}

/-- A machine that has only heard the preface: it differs from the one it was in
what it negotiated, in its queues and in the cursor of its one link. -/
structure Preface (origin machine : Machine Body) : Prop where
  same : machine = { origin with
    state := machine.state, protocolInfo := machine.protocolInfo, events := machine.events
    out := machine.out, framers := machine.framers }
  link : machine.framers = (∅ : Dict Nat Framer).set 0 (machine.framer 0)
  idle : machine.pending = ∅

/-- The machine once the driver has taken everything out of its queues. -/
def drained (machine : Machine Body) : Machine Body :=
  { machine with events := [], out := [] }

theorem Preface.store {origin machine : Machine Body} (preface : Preface origin machine)
    (framer : Framer) : Preface origin (storeFramer 0 framer machine) where
  same := by
    rw [preface.same]
    rfl
  link := by
    rw [framer_store_self]
    simp only [storeFramer]
    rw [preface.link]
    rfl
  idle := preface.idle

theorem Preface.emit {origin machine : Machine Body} (preface : Preface origin machine)
    (event : Event) : Preface origin (Machine.emit event machine) where
  same := by
    rw [preface.same]
    rfl
  link := preface.link
  idle := preface.idle

theorem Preface.feed {origin machine : Machine Body} (preface : Preface origin machine)
    (data : Bytes) : Preface origin (Machine.feed data 0 machine) := by
  have known : machine.framers.setDefault 0 {} = machine.framers := by
    rw [Dict.setDefault, if_pos]
    rw [preface.link]
    rfl
  simp only [Machine.feed, known]
  exact preface.store _

/-- Two drained prefaces of one machine are told apart by what they negotiated
and by their cursor. -/
theorem Preface.drained_eq {origin first second : Machine Body} (one : Preface origin first)
    (two : Preface origin second) (state : first.state = second.state)
    (info : first.protocolInfo = second.protocolInfo)
    (cursor : first.framer 0 = second.framer 0) : drained first = drained second := by
  have links : first.framers = second.framers := by
    rw [one.link, two.link, cursor]
  rw [one.same, two.same, state, info, links]
  rfl

section Runs

variable [Exchange Body] (installation : Installation Body)

theorem BringupMove.preface {origin before after : Machine Body} {header : ResponseHeader}
    {body : Bytes} (preface : Preface origin before)
    (moved : BringupMove installation before header body after)
    (early : after.state.preface = true) : Preface origin after := by
  cases moved with
  | raised => exact preface
  | failed | refused | bound | entered | authenticated => cases early
  | shook => exact ⟨by rw [preface.same], preface.link, preface.idle⟩
  | upgrade info reason =>
      refine ⟨?_, preface.link, preface.idle⟩
      rw [preface.same]
      rfl
  | login info was accepted parsed clear moved => cases moved <;> cases early
  | challenged login was accepted parsed asked moved => cases moved <;> cases early
  | stepped was more moved =>
      cases moved with
      | sent | raised =>
          rw [show _ = State.AUTH from was] at early
          cases early
      | exhausted => cases early

theorem TurnMove.preface {origin before after : Machine Body} (preface : Preface origin before)
    (moved : TurnMove installation 0 before after) (early : after.state.preface = true) :
    Preface origin after := by
  cases moved with
  | refused => exact preface
  | waited framer | orphan data framer | garbled header body framer
    | unknown outer inner whole body framer => exact preface.store framer
  | notice header body framer info => exact (preface.store framer).emit _
  | trailer sid data framer =>
      have absent : (storeFramer 0 framer before).pending.get? sid = none := by
        rw [show (storeFramer 0 framer before).pending = ∅ from preface.idle]
        rfl
      rw [onStatusData, absent]
      exact preface.store framer
  | bringup outer inner whole body framer cut opened waiting ran moved =>
      exact moved.preface installation (preface.store framer) early
  | stream outer inner whole body framer left pending cut opened running found moved =>
      rw [preface.idle] at found
      cases found

theorem BringupMove.entered_preface {before after : Machine Body} {header : ResponseHeader}
    {body : Bytes} (moved : BringupMove installation before header body after)
    (early : after.state.preface = true) : before.state.preface = true := by
  cases moved with
  | raised => exact early
  | failed | refused | bound | entered | authenticated => cases early
  | shook was | upgrade _ _ was | login _ was =>
      rw [was]
      rfl
  | challenged login was accepted parsed asked moved => cases moved <;> cases early
  | stepped was more moved =>
      cases moved with
      | sent | raised => exact early
      | exhausted => cases early

theorem TurnMove.entered_preface {pathid : Nat} {before after : Machine Body}
    (moved : TurnMove installation pathid before after) (early : after.state.preface = true) :
    before.state.preface = true := by
  rcases moved.dichotomy with only | ⟨_, _, _, _, _, -, -, -, -, moved⟩
  · rw [← only.state]
    exact early
  · exact moved.entered_preface installation early

/-- The moves a driver makes while it only listens to the control link. -/
def Move.listens : Move → Prop
  | .start | .feed _ 0 | .turn 0 | .eof 0 => True
  | _ => False

theorem step_preface (origin machine : Machine Body) (move : Move) (listens : Move.listens move)
    (holds : machine.state.preface = true → Preface origin machine)
    (early : (step installation move machine).state.preface = true) :
    Preface origin (step installation move machine) := by
  cases move with
  | start =>
      have moved := start_move machine
      simp only [step] at early ⊢
      generalize final (start machine) = after at moved early
      cases moved with
      | refused => exact holds early
      | greeted fresh =>
          have preface := holds (by rw [fresh]; rfl)
          exact ⟨by rw [preface.same], preface.link, preface.idle⟩
  | feed data pathid =>
      cases pathid with
      | zero => exact (holds early).feed data
      | succ => cases listens
  | turn pathid =>
      cases pathid with
      | zero =>
          have moved := turn_move installation 0 machine
          exact moved.preface installation (holds (moved.entered_preface installation early)) early
      | succ => cases listens
  | eof pathid =>
      cases pathid with
      | zero =>
          rcases eof_cases 0 machine with ⟨-, done, only⟩ | ⟨-, -, only⟩ | ⟨other, -⟩
          · simp only [step] at early
            rw [only.state] at early
            rcases done with closed | failed
            · rw [closed] at early
              cases early
            · rw [failed] at early
              cases early
          · simp only [step] at early
            rw [only.state] at early
            cases early
          · exact absurd rfl other
      | succ => cases listens
  | submit | resume | release | close | tlsEstablished | forgetPath | dataToSend | pathDataToSend
    | nextEvent => cases listens

/-- A driver that greets the server and reads what comes on the control link. -/
def preface (pieces : List Bytes) : List Call :=
  .start :: pieces.map fun piece => .receiveData piece 0

theorem preface_listens (pieces : List Bytes) (machine : Machine Body) :
    ∀ move ∈ movesOf installation (pieces.map fun piece => .receiveData piece 0) machine,
      Move.listens move := by
  induction pieces generalizing machine with
  | nil => simp [movesOf]
  | cons piece rest induction =>
      intro move member
      rw [List.map_cons, movesOf, List.mem_append] at member
      rcases member with first | later
      · simp only [moves] at first
        split at first
        · rw [List.mem_singleton.mp first]
          trivial
        · rcases List.mem_cons.mp first with rfl | turned
          · trivial
          · rw [List.eq_of_mem_replicate turned]
            trivial
      · exact induction _ move later

theorem after_preface (host : Text) (port : Nat) (config : Config)
    (credentials : Option (List (Credential Body))) (username : Text) (wantTls : Bool)
    (bindTo : Bytes) (pieces : List Bytes) :
    let machine := new host port config credentials username wantTls bindTo
    (after installation (preface pieces) machine).state.preface = true →
      Preface machine (after installation (preface pieces) machine) := by
  intro machine
  refine calls_invariant installation (fun entry => Move.listens entry.label)
    (fun reached => reached.state.preface = true → Preface machine reached)
    (fun reached move listens holds => step_preface installation machine reached move listens holds)
    (preface pieces) machine ?_ ?_
  · intro entry member
    obtain ⟨first, second, split, -, -⟩ := mem_history _ member
    have listed : entry.label ∈ movesOf installation (preface pieces) machine := by
      rw [split]
      simp
    rw [preface, movesOf, List.mem_append] at listed
    rcases listed with greeting | reading
    · rw [List.mem_singleton.mp greeting]
      trivial
    · exact preface_listens installation pieces _ _ reading
  · exact fun _ => ⟨rfl, rfl, rfl⟩

/-- For every two prefaces that lead one machine to the upgrade with the same
flags: whatever is fed and called from the upgrade on, the two go through the
same events, the same output and the same states, exactly when they leave the
control link's cursor the same. -/
theorem same_after_upgrade_iff (host : Text) (port : Nat) (config : Config)
    (credentials : Option (List (Credential Body))) (username : Text) (wantTls : Bool)
    (bindTo : Bytes) (first second : List Bytes) :
    let machine := new host port config credentials username wantTls bindTo
    let one := drained (after installation (preface first) machine)
    let two := drained (after installation (preface second) machine)
    one.state = .TLS → two.state = .TLS → one.protocolInfo = two.protocolInfo →
    ((∀ calls : List Call,
      let upgraded := Call.tlsEstablished :: calls
      (traced installation upgraded one).flatMap reported =
        (traced installation upgraded two).flatMap reported ∧
      (traced installation upgraded one).flatMap controlChunk =
        (traced installation upgraded two).flatMap controlChunk ∧
      after installation upgraded one = after installation upgraded two) ↔
    one.framer 0 = two.framer 0) := by
  intro machine one two early late flags
  constructor
  · intro same
    have upgraded := (same []).2.2
    have cursor : ∀ reached : Machine Body,
        (after installation [.tlsEstablished] reached).framers = reached.framers := by
      intro reached
      have moved := tls_established_move installation reached
      simp only [after, run, perform]
      generalize final (tlsEstablished installation reached) = left at moved
      cases moved with
      | refused => rfl
      | secured due moved => rw [moved.frame]
    have links := congrArg Machine.framers upgraded
    rw [cursor, cursor] at links
    simp only [framer, links]
  · intro cursor calls
    have reached := Preface.drained_eq
      (after_preface installation host port config credentials username wantTls bindTo first
        (congrArg State.preface early))
      (after_preface installation host port config credentials username wantTls bindTo second
        (congrArg State.preface late))
      (early.trans late.symm) flags cursor
    have whole : one = two := reached
    rw [whole]
    exact ⟨rfl, rfl, rfl⟩

end Runs

/-- The flags of a server that offers encryption and asks for it. -/
def tlsFlags : Nat := kXR_haveTLS ||| kXR_gotoTLS

/-- The header of a login reply of eight bytes, sent in clear behind the
negotiation: the machine takes the header of the encrypted reply for its body,
and is ready without the authentication that the reply asks for. -/
theorem clear_header_admits :
    let machine : Machine OneShot := new (str "data") DEFAULT_PORT {}
      (some [⟨str "unix", { blob := [7] }⟩]) [] false []
    let installation := Installation.bare OneShot
    let injected := greets tlsFlags [] ++ ResponseHeader.bytes ⟨sidLogin, kXR_ok, 8⟩
    let one := drained (after installation (preface [greets tlsFlags []]) machine)
    let two := drained (after installation (preface [injected]) machine)
    let calls : List Call := [.tlsEstablished, .receiveData (admits (str "&P=unix")) 0]
    one.state = .TLS ∧ two.state = .TLS ∧ one.protocolInfo = two.protocolInfo ∧
      (after installation calls one).state = .AUTH ∧
      (after installation calls two).state = .READY := by
  decide +kernel

theorem cut_preface_same :
    let machine : Machine OneShot := new (str "data") DEFAULT_PORT {}
      (some [⟨str "unix", { blob := [7] }⟩]) [] false []
    let installation := Installation.bare OneShot
    let bytes := greets tlsFlags []
    let one := drained (after installation (preface [bytes]) machine)
    let two := drained (after installation (preface [bytes.take 5, bytes.drop 5]) machine)
    one.state = .TLS ∧ ∀ calls : List Call,
      after installation (.tlsEstablished :: calls) one =
        after installation (.tlsEstablished :: calls) two := by
  intro machine installation bytes one two
  refine ⟨by decide +kernel, fun calls => ?_⟩
  exact ((same_after_upgrade_iff installation (str "data") DEFAULT_PORT {}
    (some [⟨str "unix", { blob := [7] }⟩]) [] false [] [bytes] [bytes.take 5, bytes.drop 5]
    (by decide +kernel) (by decide +kernel) (by decide +kernel)).mpr (by decide +kernel) calls).2.2

end Machine

end XRootDClient.Proto
