import XRootDClient.Proto.Boundaries
import XRootDClient.Proto.Framing
import XRootDClient.Proto.Ids

/-!
# What a link waits for

A link waits for the body a response header declares or for the raw data a
`kXR_status` declares. The first length is unsigned and checked against the limit
when the header is read; the second is signed and taken as it comes. A link waits for
a number of bytes within the limit in every state of a run exactly if every
`kXR_status` that reaches a stream in flight declares such a number; whatever it
waits for, it takes off the front of what it has received.
-/

set_option autoImplicit false

namespace XRootDClient.Proto

open Lib Lib.BigEndian Lib.Stateful Lib.Run Auth

namespace Framer

/-- What the link waits for lies between nothing and the limit. -/
structure Bounded (framer : Framer) : Prop where
  body : ∀ header, framer.header = some header → header.dlen ≤ MAX_RESPONSE_BODY
  least : 0 ≤ framer.needTrailer
  most : framer.needTrailer ≤ MAX_RESPONSE_BODY

/-- A turn takes what it takes off the front of the buffer. -/
def TakesFront (framer : Framer) : Turn → Prop
  | .waits left => ∃ head, framer.buffer = head ++ left.buffer
  | .raises _ => True
  | .trailer _ data left => framer.buffer = data ++ left.buffer
  | .frame _ body left => ∃ head, framer.buffer = head ++ (body ++ left.buffer)

theorem slice_front {Item : Type} (items : List Item) (count : Int) :
    items = sliceTo items count ++ sliceFrom items count := by
  unfold sliceTo sliceFrom
  split_ifs
  · exact (List.take_append_drop _ items).symm
  · exact (List.take_append_drop _ items).symm

theorem take_body_front (framer : Framer) (header : ResponseHeader) :
    TakesFront framer (framer.takeBody header) := by
  unfold takeBody
  split_ifs
  · exact ⟨[], rfl⟩
  · exact ⟨[], (List.take_append_drop header.dlen framer.buffer).symm⟩

theorem next_front (framer : Framer) : TakesFront framer framer.next := by
  have stand := framer.next_stand
  generalize framer.next = turn at stand
  cases stand with
  | collecting | outside => exact ⟨[], rfl⟩
  | collected => exact slice_front framer.buffer framer.needTrailer
  | inside header => exact take_body_front framer header
  | refused => trivial
  | opening header idle fresh received read =>
      have split := List.take_append_drop RESPONSE_HDRLEN framer.buffer
      unfold takeBody
      split_ifs
      · exact ⟨framer.buffer.take RESPONSE_HDRLEN, split.symm⟩
      · refine ⟨framer.buffer.take RESPONSE_HDRLEN, ?_⟩
        rw [List.take_append_drop, split]

theorem next_waits_bounded {framer left : Framer} (bounded : framer.Bounded)
    (cut : framer.next = .waits left) : left.Bounded := by
  have stand := framer.next_stand
  generalize framer.next = turn at stand cut
  cases stand with
  | collecting | outside =>
      cases cut
      exact bounded
  | collected | refused => cases cut
  | inside header =>
      rw [take_body_waits cut]
      exact bounded
  | opening header idle fresh received read =>
      rw [take_body_waits cut]
      refine ⟨?_, bounded.least, bounded.most⟩
      intro other same
      cases same
      exact decode_header_bounded read

theorem next_trailer_bounded {framer left : Framer} {sid : Option Nat} {data : Bytes}
    (bounded : framer.Bounded) (cut : framer.next = .trailer sid data left) : left.Bounded := by
  obtain ⟨-, -, none, same, -⟩ := trailer_left cut
  refine ⟨?_, none.ge, ?_⟩
  · rw [same]
    exact bounded.body
  · rw [none]
    decide

end Framer

namespace Machine

variable {Body : Type}

/-- Every link waits for a number of bytes within the limit. -/
def Bounded (machine : Machine Body) : Prop := ∀ pathid, (machine.framer pathid).Bounded

/-- How much data the frame a turn takes makes its link wait for: what a `kXR_status`
for a stream in flight declares. -/
def declares (pathid : Nat) (machine : Machine Body) : Int :=
  match (machine.framer pathid).next with
  | .frame header body _ =>
      match content header body with
      | .ok (.response inner _) =>
          if !machine.state.bringingUp && machine.pending.contains inner.streamid then
            dataBehind header body
          else 0
      | _ => 0
  | _ => 0

/-- The move is no turn, or one that declares a length within the limit. -/
def Fair (entry : Entry Move (Machine Body)) : Prop :=
  match entry.label with
  | .turn pathid =>
      0 ≤ declares pathid entry.before ∧ declares pathid entry.before ≤ MAX_RESPONSE_BODY
  | _ => True

theorem schedule_awaits (header : ResponseHeader) (body : Bytes) {framer : Framer}
    (fresh : framer.header = none) (quiet : framer.needTrailer = 0) :
    (schedule header body framer).header = none ∧
      (schedule header body framer).needTrailer =
        if header.status = kXR_status then
          match parseStatus body with
          | .ok info => info.dlen
          | .error _ => 0
        else 0 := by
  unfold schedule
  by_cases status : header.status = kXR_status
  · rw [if_pos status, if_pos status]
    cases parseStatus body with
    | error error => exact ⟨fresh, quiet⟩
    | ok info =>
        dsimp only
        split_ifs with some
        · exact ⟨fresh, rfl⟩
        · refine ⟨fresh, ?_⟩
          rw [quiet]
          exact (not_not.mp some).symm
  · rw [if_neg status, if_neg status]
    exact ⟨fresh, quiet⟩

theorem delivered_awaits {machine : Machine Body} {pathid : Nat} {header : ResponseHeader}
    {body : Bytes} {framer : Framer} (cut : (machine.framer pathid).next = .frame header body framer) :
    (delivered header body framer machine).header = none ∧
      (delivered header body framer machine).needTrailer = declares pathid machine := by
  obtain ⟨-, fresh, quiet, -⟩ := Framer.frame_left cut
  simp only [declares, cut, delivered]
  cases opened : content header body with
  | error error => exact ⟨fresh, quiet⟩
  | ok carried =>
      cases carried with
      | notice info => exact ⟨fresh, quiet⟩
      | response inner data =>
          dsimp only
          cases machine.state.bringingUp with
          | true => exact ⟨fresh, quiet⟩
          | false =>
              cases machine.pending.contains inner.streamid with
              | false => exact ⟨fresh, quiet⟩
              | true =>
                  have awaits := schedule_awaits inner data fresh quiet
                  simp only [dataBehind, opened]
                  exact awaits

section Moves

variable [Exchange Body] {installation : Installation Body}

theorem turn_bounded {pathid : Nat} {machine : Machine Body}
    (bounded : (machine.framer pathid).Bounded) (fair : 0 ≤ declares pathid machine ∧
      declares pathid machine ≤ MAX_RESPONSE_BODY) :
    ((step installation (.turn pathid) machine).framer pathid).Bounded := by
  change ((final (turn installation pathid machine)).framer pathid).Bounded
  rw [turn_cursor]
  cases cut : (machine.framer pathid).next with
  | waits left => exact Framer.next_waits_bounded bounded cut
  | raises error => exact bounded
  | trailer sid data left => exact Framer.next_trailer_bounded bounded cut
  | frame header body left =>
      obtain ⟨fresh, awaits⟩ := delivered_awaits cut
      constructor
      · intro other held
        change (delivered header body left machine).header = _ at held
        rw [fresh] at held
        cases held
      · change 0 ≤ (delivered header body left machine).needTrailer
        rw [awaits]
        exact fair.1
      · change (delivered header body left machine).needTrailer ≤ _
        rw [awaits]
        exact fair.2

theorem turn_front (pathid : Nat) (machine : Machine Body) :
    ∃ head, (machine.framer pathid).buffer =
      head ++ ((step installation (.turn pathid) machine).framer pathid).buffer := by
  change ∃ head, _ = head ++ ((final (turn installation pathid machine)).framer pathid).buffer
  rw [turn_cursor]
  have front := (machine.framer pathid).next_front
  cases cut : (machine.framer pathid).next with
  | waits left =>
      rw [cut] at front
      exact front
  | raises error => exact ⟨[], rfl⟩
  | trailer sid data left =>
      rw [cut] at front
      exact ⟨data, front⟩
  | frame header body left =>
      rw [cut] at front
      obtain ⟨head, split⟩ := front
      refine ⟨head ++ body, ?_⟩
      change _ = _ ++ (delivered header body left machine).buffer
      rw [delivered_buffer, split, List.append_assoc]

theorem turn_fair {pathid : Nat} {machine : Machine Body}
    (bounded : ((step installation (.turn pathid) machine).framer pathid).Bounded) :
    0 ≤ declares pathid machine ∧ declares pathid machine ≤ MAX_RESPONSE_BODY := by
  change ((final (turn installation pathid machine)).framer pathid).Bounded at bounded
  rw [turn_cursor] at bounded
  cases cut : (machine.framer pathid).next with
  | frame header body left =>
      obtain ⟨-, awaits⟩ := delivered_awaits cut
      rw [cut] at bounded
      rw [← awaits]
      exact ⟨bounded.least, bounded.most⟩
  | waits left =>
      simp only [declares, cut]
      exact ⟨le_refl 0, by decide⟩
  | raises error =>
      simp only [declares, cut]
      exact ⟨le_refl 0, by decide⟩
  | trailer sid data left =>
      simp only [declares, cut]
      exact ⟨le_refl 0, by decide⟩

omit [Exchange Body] in
theorem framer_fresh_bounded : ({} : Framer).Bounded where
  body := by simp
  least := le_refl 0
  most := by decide

omit [Exchange Body] in
theorem forget_path_cursor (pathid : Nat) (machine : Machine Body) :
    (forgetPath pathid machine).framer pathid = {} := by
  rw [forget_path_frame]
  simp only [Machine.framer, Dict.getD, Dict.get_erase_self, Option.getD_none]

theorem move_bounded {machine : Machine Body} (bounded : Machine.Bounded machine) (move : Move)
    (fair : Fair ⟨machine, move, step installation move machine⟩) :
    Machine.Bounded (step installation move machine) := by
  intro pathid
  by_cases elsewhere : Move.touches pathid move = false
  · rw [(step_move installation move machine).cursor_other elsewhere]
    exact bounded pathid
  cases move with
  | turn link =>
      have same : pathid = link := by simpa [Move.touches] using elsewhere
      subst same
      exact turn_bounded (bounded pathid) fair
  | feed data link =>
      have same : pathid = link := by simpa [Move.touches] using elsewhere
      subst same
      change ((feed data pathid machine).framer pathid).Bounded
      rw [feed_cursor]
      exact ⟨(bounded pathid).body, (bounded pathid).least, (bounded pathid).most⟩
  | eof link =>
      have same : pathid = link := by simpa [Move.touches] using elsewhere
      subst same
      change ((eof pathid machine).framer pathid).Bounded
      unfold eof
      dsimp only
      split_ifs
      · have kept := framer_set_default pathid pathid machine
        unfold onEof
        split_ifs
        · rw [kept]
          exact bounded pathid
        · change (framer { machine with framers := machine.framers.setDefault pathid {} }
            pathid).Bounded
          rw [kept]
          exact bounded pathid
      · change ((forgetPath pathid _).framer pathid).Bounded
        rw [forget_path_cursor]
        exact framer_fresh_bounded
  | forgetPath link =>
      have same : pathid = link := by simpa [Move.touches] using elsewhere
      subst same
      change ((forgetPath pathid machine).framer pathid).Bounded
      rw [forget_path_cursor]
      exact framer_fresh_bounded
  | start | submit | resume | release | close | tlsEstablished | dataToSend | pathDataToSend
    | nextEvent => simp [Move.touches] at elsewhere

end Moves

section Runs

variable [Exchange Body] (installation : Installation Body)

/-- In every state of every run of a new machine, each link waits for a number of
bytes from nothing to the limit, and takes what it takes off the front of its buffer,
exactly if no `kXR_status` for a stream in flight declares a length outside of that. -/
theorem waits_bounded_iff (host : Text) (port : Nat) (config : Config)
    (credentials : Option (List (Credential Body))) (username : Text) (wantTls : Bool)
    (bindTo : Bytes) (calls : List Call) :
    let machine := new host port config credentials username wantTls bindTo
    (Bounded machine ∧ ∀ entry ∈ traced installation calls machine,
      Bounded entry.after ∧ ∀ pathid, entry.label = .turn pathid →
        (entry.before.framer pathid).TakesFront (entry.before.framer pathid).next ∧
        ∃ head, (entry.before.framer pathid).buffer =
          head ++ (entry.after.framer pathid).buffer) ↔
      ∀ entry ∈ traced installation calls machine, Fair entry := by
  intro machine
  have fresh : Bounded machine := by
    intro pathid
    have empty : machine.framer pathid = {} := by
      by_cases control : pathid = 0
      · subst control
        rfl
      · simp only [machine, Machine.framer, new, Dict.getD, Dict.get_set_other _ control,
          Dict.get_empty, Option.getD_none]
    rw [empty]
    exact framer_fresh_bounded
  constructor
  · rintro ⟨-, kept⟩ entry member
    obtain ⟨first, second, split, before, after⟩ := mem_history (step installation) member
    cases label : entry.label with
    | turn pathid =>
        have bounded := (kept entry member).1 pathid
        rw [after, label] at bounded
        simp only [Fair, label]
        exact turn_fair bounded
    | start | submit | resume | release | close | tlsEstablished | eof | feed | forgetPath
      | dataToSend | pathDataToSend | nextEvent => simp only [Fair, label]
  · intro fair
    refine ⟨fresh, ?_⟩
    intro entry member
    have held := history_invariant (step installation) Fair Bounded
      (fun machine move fair bounded => move_bounded bounded move fair) _ machine fair fresh
      entry member
    obtain ⟨first, second, split, before, after⟩ := mem_history (step installation) member
    constructor
    · rw [after]
      apply move_bounded held
      rw [← after]
      exact fair entry member
    · intro pathid turned
      refine ⟨Framer.next_front _, ?_⟩
      rw [after, turned]
      exact turn_front pathid entry.before

/-- A status for a paged read in flight that declares more than the limit makes the
link wait for it; one that declares fewer than no bytes makes the loop take them. -/
theorem status_declares_outside_limit :
    let machine : Machine OneShot := new (str "data") DEFAULT_PORT {} none [] false []
    let up : List Call := [.start, .receiveData (greets 1 [] ++ admits []) 0,
      .submit (Request.PgRead [0, 0, 0, 0] 0 8 false 0) [] false]
    let answer (dlen : Int) : List Call :=
      up ++ [.receiveData (response 4 kXR_status (paged 4 kXR_FinalResult dlen)) 0]
    ¬Bounded (after (Installation.bare OneShot) (answer 0x7FFFFFFF) machine) ∧
      ∃ entry ∈ traced (Installation.bare OneShot) (answer (-5)) machine,
        ¬Bounded entry.after := by
  intro machine up answer
  have above : ((after (Installation.bare OneShot) (answer 0x7FFFFFFF) machine).framer
      0).needTrailer = 0x7FFFFFFF := by decide +kernel
  have below : (traced (Installation.bare OneShot) (answer (-5)) machine).any
      (fun entry => (entry.after.framer 0).needTrailer = -5) = true := by decide +kernel
  constructor
  · intro bounded
    have most := (bounded 0).most
    rw [above] at most
    exact absurd most (by decide)
  · obtain ⟨entry, member, negative⟩ := List.any_eq_true.mp below
    refine ⟨entry, member, ?_⟩
    intro bounded
    have least := (bounded 0).least
    rw [of_decide_eq_true negative] at least
    exact absurd least (by decide)

end Runs

end Machine

end XRootDClient.Proto
