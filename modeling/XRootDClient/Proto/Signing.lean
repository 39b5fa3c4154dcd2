import XRootDClient.Proto.Terminal

/-!
# Signature sequence numbers

The numbers a run puts on the wire are read off what each move adds to the
outboxes. A fresh request counts the signer up and carries the new number; a
resumed one is queued again as it was saved, number included. As long as no
saved signature is sent again, every number is greater than all before it.
-/

set_option autoImplicit false

namespace XRootDClient.Proto

open Lib Lib.BigEndian Lib.Stateful Lib.Run Auth Crypto

def seqnoField (frame : Bytes) : Nat := decode ((frame.drop 8).take 8)

def frameLength (frame : Bytes) : Nat := REQUEST_HDRLEN + decode ((frame.drop 20).take 4)

/-- The sequence numbers of the signature frames in front of a request frame. -/
def signatureNumbers : Nat → Bytes → List Nat
  | 0, _ => []
  | count + 1, bytes =>
      if Signer.frameOpcode bytes = kXR_sigver then
        seqnoField bytes :: signatureNumbers count (bytes.drop (frameLength bytes))
      else []

/-- The numbers in what was queued: no signature frame is empty. -/
def numbersIn (chunk : Bytes) : List Nat := signatureNumbers chunk.length chunk

theorem signature_numbers_plain {request : Request} {streamid : Nat} {frame : Bytes}
    (encoded : encode request streamid = .ok frame) (unsigned : request.opcode ≠ kXR_sigver)
    (count : Nat) (rest : Bytes) : signatureNumbers count (frame ++ rest) = [] := by
  cases count with
  | zero => rfl
  | succ count => rw [signatureNumbers, Signer.frame_opcode encoded, if_neg unsigned]

theorem sigver_params {opcode seqno : Nat} {mac params : Bytes}
    (written : (Request.Sigver opcode seqno mac).params = .ok params) :
    seqno < 256 ^ 8 ∧ ∃ front back, front.length = 4 ∧
      params = front ++ (BigEndian.encode 8 seqno ++ back) := by
  have zero : Writer.u8 0 = .ok (BigEndian.encode 1 0) := rfl
  have kind : Writer.u8 kXR_SHA256_sig = .ok (BigEndian.encode 1 kXR_SHA256_sig) := rfl
  simp only [Request.Sigver, bind, Except.bind, pure, Except.pure, zero, kind] at written
  cases first : Writer.u16 opcode with
  | error error => simp [first] at written
  | ok target =>
      cases second : Writer.u64 seqno with
      | error error => simp [first, second] at written
      | ok number =>
          obtain ⟨-, rfl⟩ := Writer.unsigned_ok first
          obtain ⟨bounded, rfl⟩ := Writer.unsigned_ok second
          simp only [first, second, Except.ok.injEq] at written
          refine ⟨bounded, BigEndian.encode 2 opcode ++ BigEndian.encode 1 0 ++
            BigEndian.encode 1 0, BigEndian.encode 1 kXR_SHA256_sig ++ Writer.zeros 3,
            by simp, ?_⟩
          rw [← written]
          simp [List.append_assoc]

theorem sigver_fields {opcode seqno streamid : Nat} {mac frame : Bytes}
    (encoded : encode (Request.Sigver opcode seqno mac) streamid = .ok frame) (rest : Bytes) :
    seqnoField (frame ++ rest) = seqno ∧ (frame ++ rest).drop (frameLength (frame ++ rest)) = rest ∧
      0 < frame.length := by
  obtain ⟨params, body, written, sixteen, payload, bounded, -, rfl⟩ := encode_ok encoded
  obtain ⟨range, front, back, four, rfl⟩ := sigver_params written
  cases payload
  simp only [Request.Sigver, List.length_nil, Nat.add_zero, List.append_nil,
    List.append_assoc] at bounded ⊢
  have head : ∀ tail : Bytes, (BigEndian.encode 2 (streamid % 0x10000) ++
      (BigEndian.encode 2 kXR_sigver ++ (front ++ tail))).drop 8 = tail := by
    intro tail
    rw [← List.append_assoc, ← List.append_assoc, List.drop_left' (by simp [four])]
  have block : (front ++ (BigEndian.encode 8 seqno ++ back)).length = 16 := sixteen
  refine ⟨?_, ?_, by simp⟩
  · rw [seqnoField, head, List.take_left' (by simp), decode_encode range]
  · have size : decode (((BigEndian.encode 2 (streamid % 0x10000) ++ (BigEndian.encode 2 kXR_sigver
        ++ (front ++ (BigEndian.encode 8 seqno ++ (back ++ (BigEndian.encode 4 mac.length ++
          (mac ++ rest)))))))).drop 20 |>.take 4) = mac.length := by
      have cut : ∀ tail : Bytes, (BigEndian.encode 2 (streamid % 0x10000) ++
          (BigEndian.encode 2 kXR_sigver ++ (front ++ (BigEndian.encode 8 seqno ++
            (back ++ tail))))).drop 20 = tail := by
        intro tail
        simp only [List.length_append, encode_length] at block
        rw [← List.append_assoc, ← List.append_assoc, ← List.append_assoc, ← List.append_assoc,
          List.drop_left' (by simp; omega)]
      rw [cut, List.take_left' (by simp)]
      exact decode_encode (lt_of_le_of_lt bounded (by decide))
    rw [frameLength, size, show REQUEST_HDRLEN = 24 from rfl]
    simp only [List.length_append, encode_length] at block
    rw [← List.append_assoc, ← List.append_assoc, ← List.append_assoc, ← List.append_assoc,
      ← List.append_assoc, ← List.append_assoc, List.drop_left' (by simp; omega)]

theorem signature_numbers_signed {opcode seqno streamid : Nat} {mac frame : Bytes}
    (encoded : encode (Request.Sigver opcode seqno mac) streamid = .ok frame) (count : Nat)
    (rest : Bytes) :
    signatureNumbers (count + 1) (frame ++ rest) = seqno :: signatureNumbers count rest := by
  obtain ⟨number, behind, -⟩ := sigver_fields encoded rest
  have signs : (Request.Sigver opcode seqno mac).opcode = kXR_sigver := rfl
  rw [signatureNumbers, Signer.frame_opcode encoded, if_pos signs, number, behind]

def State.established : State → Bool
  | .READY | .CLOSED | .FAILED => true
  | _ => false

theorem State.established_running {state : State} (done : state.established = true) :
    state.bringingUp = false ∧ state ≠ .NEW ∧ state ≠ .TLS := by
  cases state <;> simp_all [State.established, State.bringingUp]

namespace Machine

variable {Body : Type}

def controlChunk (entry : Entry Move (Machine Body)) : Bytes :=
  entry.after.out.drop entry.before.out.length

/-- The frame a move added to a path outbox. Only a request that arrives on its
path has one; everything else a path carries is bare data. -/
def pathChunk (entry : Entry Move (Machine Body)) : Bytes :=
  match entry.label with
  | .submit request _ arriveOnPath =>
      if arriveOnPath && request.pathid ≠ 0 then
        (entry.after.outPath.getD request.pathid []).drop
          (entry.before.outPath.getD request.pathid []).length
      else []
  | _ => []

def signatures (entry : Entry Move (Machine Body)) : List Nat :=
  numbersIn (controlChunk entry) ++ numbersIn (pathChunk entry)

/-- The move sends no signature made before: a submitted request is not itself a
signature, and a resumed one was saved without. -/
def Unrepeated (entry : Entry Move (Machine Body)) : Prop :=
  match entry.label with
  | .submit request _ _ => request.opcode ≠ kXR_sigver
  | .resume streamid => ∀ pending, entry.before.pending.get? streamid = some pending →
      Signer.frameOpcode pending.frame ≠ kXR_sigver
  | _ => True

theorem numbers_in_unsigned {chunk : Bytes} (unsigned : Signer.frameOpcode chunk ≠ kXR_sigver) :
    numbersIn chunk = [] := by
  unfold numbersIn
  cases chunk.length with
  | zero => rfl
  | succ count => rw [signatureNumbers, if_neg unsigned]

theorem signatures_of_quiet {entry : Entry Move (Machine Body)}
    (same : entry.after.out = entry.before.out) (off : pathChunk entry = []) :
    signatures entry = [] := by
  rw [signatures, controlChunk, same, off, List.drop_length]
  rfl

/-- What a sealed frame carries: nothing, or the number the signer has just
counted to. -/
theorem Sealed.numbers {machine : Machine Body} {request : Request} {sid : Nat} {frame : Bytes}
    {signer : Option Signer} (made : Sealed machine request sid frame signer)
    (unsigned : request.opcode ≠ kXR_sigver) (rest : Bytes) :
    (numbersIn (frame ++ rest) = [] ∧ signer = machine.signer) ∨
      ∃ held, machine.signer = some held ∧ numbersIn (frame ++ rest) = [held.seqno + 1] ∧
        signer = some { held with seqno := held.seqno + 1 } := by
  cases made with
  | plain frame encoded =>
      refine .inl ⟨numbers_in_unsigned ?_, rfl⟩
      rw [Signer.frame_opcode encoded]
      exact unsigned
  | signed held plain mac signature encoded found written =>
      refine .inr ⟨held, found, ?_, rfl⟩
      obtain ⟨-, -, positive⟩ := sigver_fields written []
      obtain ⟨count, long⟩ : ∃ count, (signature ++ plain ++ rest).length = count + 1 :=
        Nat.exists_eq_succ_of_ne_zero (by simp only [List.length_append]; omega)
      rw [numbersIn, long, List.append_assoc, signature_numbers_signed written,
        signature_numbers_plain encoded unsigned]

theorem enqueue_numbers (request : Request) (path : Text) (arriveOnPath : Bool) (sid : Nat)
    (frame : Bytes) (before machine : Machine Body) (same : machine.out = before.out)
    (paths : machine.outPath = before.outPath) :
    ∃ rest, signatures ⟨before, .submit request path arriveOnPath,
      enqueue request sid path arriveOnPath frame machine⟩ = numbersIn (frame ++ rest) := by
  by_cases arrives : (arriveOnPath && request.pathid ≠ 0) = true
  · refine ⟨request.pathData, ?_⟩
    have control : (enqueue request sid path arriveOnPath frame machine).out = before.out := by
      rw [enqueue, if_pos arrives]
      exact same
    have data : (enqueue request sid path arriveOnPath frame machine).outPath.getD
        request.pathid [] = before.outPath.getD request.pathid [] ++
          (frame ++ request.pathData) := by
      rw [enqueue, if_pos arrives, ← paths]
      simp [queuePath, Dict.getD]
    rw [signatures, controlChunk, control, List.drop_length, pathChunk]
    dsimp only
    rw [if_pos arrives, data, List.drop_left]
    rfl
  · refine ⟨[], ?_⟩
    have control : (enqueue request sid path arriveOnPath frame machine).out =
        before.out ++ frame := by
      rw [enqueue, if_neg arrives, ← same]
      dsimp only
      split_ifs <;> rfl
    rw [signatures, controlChunk, control, List.drop_left, pathChunk]
    dsimp only
    rw [if_neg arrives, List.append_nil]
    exact List.append_nil _

/-- A signer's count never goes back, and a number queued is the count just
reached. -/
structure Advances (before after : Machine Body) (numbers : List Nat) : Prop where
  established : after.state.established = true
  counted : Counted before.signer after.signer
  numbered : numbers = [] ∨ ∃ held, before.signer = some held ∧
    numbers = [held.seqno + 1] ∧ after.signer = some { held with seqno := held.seqno + 1 }

theorem advances_quiet {before after : Machine Body} {numbers : List Nat}
    (done : before.state.established = true) (state : after.state = before.state)
    (signer : after.signer = before.signer) (none : numbers = []) :
    Advances before after numbers where
  established := by rw [state, done]
  counted := .inl signer
  numbered := .inl none

theorem StreamsOnly.advances {before after : Machine Body} (only : StreamsOnly before after)
    (done : before.state.established = true) (move : Move)
    (off : pathChunk ⟨before, move, after⟩ = []) :
    Advances before after (signatures ⟨before, move, after⟩) :=
  advances_quiet done only.state only.signer (signatures_of_quiet only.out off)

theorem SubmitMove.advances {request : Request} {path : Text} {arriveOnPath : Bool}
    {before after : Machine Body} {issued : Option Nat}
    (move : SubmitMove request path arriveOnPath before issued after)
    (done : before.state.established = true) (unsigned : request.opcode ≠ kXR_sigver) :
    Advances before after (signatures ⟨before, .submit request path arriveOnPath, after⟩) := by
  cases move with
  | refused | exhausted =>
      refine advances_quiet done rfl rfl (signatures_of_quiet rfl ?_)
      simp [pathChunk]
  | raised acquired counted =>
      refine ⟨done, counted, .inl (signatures_of_quiet rfl ?_)⟩
      simp [pathChunk]
  | @issued sid free next frame signer ready acquired made =>
      have state : ∀ machine : Machine Body,
          (enqueue request sid path arriveOnPath frame machine).state = machine.state ∧
          (enqueue request sid path arriveOnPath frame machine).signer = machine.signer := by
        intro machine
        unfold enqueue
        dsimp only
        split_ifs <;> exact ⟨rfl, rfl⟩
      obtain ⟨rest, numbers⟩ := enqueue_numbers request path arriveOnPath sid frame before
        { before with free := free, nextSid := next, signer := signer } rfl rfl
      rw [numbers]
      refine ⟨by rw [(state _).1]; exact done, ?_, ?_⟩
      · rw [(state _).2]
        rcases made.numbers unsigned rest with ⟨-, same⟩ | ⟨held, found, -, moved⟩
        · exact .inl same
        · exact .inr ⟨held, found, moved⟩
      · rw [(state _).2]
        rcases made.numbers unsigned rest with ⟨none, -⟩ | ⟨held, found, one, moved⟩
        · exact .inl none
        · exact .inr ⟨held, found, one, moved⟩

theorem ResumeMove.advances {streamid : Nat} {before after : Machine Body}
    (move : ResumeMove streamid before after) (done : before.state.established = true)
    (unsigned : ∀ pending, before.pending.get? streamid = some pending →
      Signer.frameOpcode pending.frame ≠ kXR_sigver) :
    Advances before after (signatures ⟨before, .resume streamid, after⟩) := by
  cases move with
  | refused => exact advances_quiet done rfl rfl (signatures_of_quiet rfl rfl)
  | resent pending found =>
      have plain := numbers_in_unsigned (unsigned pending found)
      have queued : ∀ after : Machine Body, after.out = before.out ++ pending.frame →
          signatures ⟨before, .resume streamid, after⟩ = [] := by
        intro after added
        rw [signatures, controlChunk, added, List.drop_left, plain]
        rfl
      split
      · exact advances_quiet done rfl rfl (queued _ rfl)
      · exact advances_quiet done rfl rfl (queued _ rfl)

theorem CloseMove.advances {graceful : Bool} {before after : Machine Body}
    (move : CloseMove before after) (done : before.state.established = true) :
    Advances before after (signatures ⟨before, .close graceful, after⟩) := by
  cases move with
  | exhausted | raised => exact advances_quiet done rfl rfl (signatures_of_quiet rfl rfl)
  | silent => exact ⟨rfl, .inl rfl, .inl (signatures_of_quiet rfl rfl)⟩
  | farewell ready acquired encoded =>
      refine ⟨rfl, .inl rfl, .inl ?_⟩
      rw [signatures, controlChunk]
      simp only [emit, List.drop_left]
      rw [numbers_in_unsigned]
      · rfl
      · have opcode := Signer.frame_opcode encoded []
        rw [List.append_nil] at opcode
        simp [opcode, Request.EndSession]

section Run

variable [Exchange Body] (installation : Installation Body)

theorem step_advances (move : Move) (machine : Machine Body)
    (done : machine.state.established = true)
    (unrepeated : Unrepeated ⟨machine, move, step installation move machine⟩) :
    Advances machine (step installation move machine)
      (signatures ⟨machine, move, step installation move machine⟩) := by
  obtain ⟨running, started, plain⟩ := State.established_running done
  cases move with
  | submit request path arriveOnPath =>
      exact (submit_move request path arriveOnPath machine).advances done unrepeated
  | resume streamid => exact (resume_move streamid machine).advances done unrepeated
  | close graceful => exact (close_move graceful machine).advances done
  | start =>
      have move := start_move machine
      simp only [step]
      generalize final (start machine) = after at move
      cases move with
      | refused => exact advances_quiet done rfl rfl (signatures_of_quiet rfl rfl)
      | greeted fresh => exact absurd fresh started
  | tlsEstablished =>
      have move := tls_established_move installation machine
      simp only [step]
      generalize final (tlsEstablished installation machine) = after at move
      cases move with
      | refused => exact advances_quiet done rfl rfl (signatures_of_quiet rfl rfl)
      | secured due move => exact absurd due plain
  | turn pathid => exact ((turn_move installation pathid machine).only running).advances done _ rfl
  | release streamid => exact (release_only streamid machine).advances done _ rfl
  | forgetPath pathid =>
      have only := forget_path_only pathid machine
      exact advances_quiet done only.state only.signer (signatures_of_quiet only.out rfl)
  | eof pathid =>
      rcases eof_cases pathid machine with ⟨-, -, only⟩ | ⟨-, -, only⟩ | ⟨-, only⟩
      · exact only.advances done _ rfl
      · refine ⟨?_, .inl only.signer, .inl (signatures_of_quiet only.out rfl)⟩
        simp only [step]
        rw [only.state]
        rfl
      · exact advances_quiet done only.state only.signer (signatures_of_quiet only.out rfl)
  | dataToSend =>
      refine advances_quiet done rfl rfl ?_
      simp [signatures, controlChunk, pathChunk, step, dataToSend, numbersIn, signatureNumbers]
  | feed | pathDataToSend | nextEvent =>
      exact advances_quiet done rfl rfl (signatures_of_quiet rfl rfl)

/-- The numbers so far increase, and the signer has counted past all of them. -/
structure Numbered (numbers : List Nat) (machine : Machine Body) : Prop where
  established : machine.state.established = true
  increasing : numbers.Pairwise (· < ·)
  behind : ∀ number ∈ numbers, ∃ held, machine.signer = some held ∧ number ≤ held.seqno

omit [Exchange Body] in
theorem Numbered.advance {numbers fresh : List Nat} {before after : Machine Body}
    (numbered : Numbered numbers before) (advances : Advances before after fresh) :
    Numbered (numbers ++ fresh) after where
  established := advances.established
  increasing := by
    rcases advances.numbered with none | ⟨held, found, one, -⟩
    · rw [none, List.append_nil]
      exact numbered.increasing
    · rw [one, List.pairwise_append]
      refine ⟨numbered.increasing, List.pairwise_singleton _ _, fun number member next last => ?_⟩
      obtain ⟨signer, same, bound⟩ := numbered.behind number member
      rw [found, Option.some.injEq] at same
      rw [List.mem_singleton.mp last]
      subst same
      omega
  behind := by
    intro number member
    rcases List.mem_append.mp member with old | new
    · obtain ⟨signer, found, bound⟩ := numbered.behind number old
      rcases advances.counted with same | ⟨held, was, counted⟩
      · exact ⟨signer, by rw [same, found], bound⟩
      · rw [found, Option.some.injEq] at was
        subst was
        exact ⟨_, counted, by simp only; omega⟩
    · rcases advances.numbered with none | ⟨held, found, one, counted⟩
      · rw [none] at new
        cases new
      · rw [one, List.mem_singleton] at new
        exact ⟨_, counted, by simp only; omega⟩

def numbersQueued (calls : List Call) (machine : Machine Body) : List Nat :=
  (traced installation calls machine).flatMap signatures

/-- In every run of a machine that is up, in which no signed frame is sent
again, the sequence numbers queued increase strictly. -/
theorem sequence_numbers_increase (calls : List Call) (machine : Machine Body)
    (ready : machine.state = .READY)
    (unrepeated : ∀ entry ∈ traced installation calls machine, Unrepeated entry) :
    (numbersQueued installation calls machine).Pairwise (· < ·) := by
  have start : Numbered [] machine :=
    ⟨by rw [ready]; rfl, List.Pairwise.nil, by simp⟩
  have run := log_invariant (step installation) signatures Unrepeated Numbered
    (fun noted world label fresh numbered =>
      numbered.advance (step_advances installation label world numbered.established fresh))
    _ [] machine unrepeated start
  exact run.increasing

end Run

/-- A connection whose mechanism holds a key, against a server that asks for
signatures at the standard level. -/
def signingMachine : Machine OneShot :=
  let security := [secTag, 0, 1, 0, UInt8.ofNat kXR_secStandard, 0]
  after (Installation.bare OneShot)
    [.start, .receiveData (greets 1 security ++ admits (str "&P=gsi") ++
      response sidAuth kXR_ok []) 0, .dataToSend]
    (new (str "data") DEFAULT_PORT {} (some [⟨str "gsi", { blob := [1], key := some [7] }⟩]) []
      false [])

def removal : Request := { typeName := str "Rm", opcode := kXR_rm }

/-- The server asks for patience, the client sends the saved frame again, and
its number with it. -/
theorem resume_repeats_number :
    let calls : List Call := [.submit removal [] false,
      .receiveData (response 4 kXR_wait (BigEndian.encode 4 1)) 0, .resume 4]
    signingMachine.state = .READY ∧ signingMachine.signer.isSome = true ∧
      numbersQueued (Installation.bare OneShot) calls signingMachine = [1, 1] ∧
      ¬(numbersQueued (Installation.bare OneShot) calls signingMachine).Pairwise (· < ·) := by
  decide +kernel

theorem fresh_requests_count_up :
    let calls : List Call := [.submit removal [] false, .submit removal [] false]
    signingMachine.state = .READY ∧
      numbersQueued (Installation.bare OneShot) calls signingMachine = [1, 2] ∧
      (numbersQueued (Installation.bare OneShot) calls signingMachine).Pairwise (· < ·) := by
  refine ⟨by decide +kernel, by decide +kernel, ?_⟩
  refine sequence_numbers_increase (Installation.bare OneShot) _ signingMachine
    (by decide +kernel) ?_
  intro entry member
  simp only [traced, movesOf, moves, List.cons_append, List.nil_append, history,
    List.mem_cons, List.not_mem_nil, or_false] at member
  have plain : removal.opcode ≠ kXR_sigver := by decide
  rcases member with first | second
  · rw [first]
    exact plain
  · rw [second]
    exact plain

end Machine

end XRootDClient.Proto
