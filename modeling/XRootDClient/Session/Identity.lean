import Mathlib
import XRootDClient.Auth.Discovery
import XRootDClient.Proto.Encryption
import XRootDClient.Session.Holders

/-!
# As whom a pooled session is logged in

A session is filed under a key that covers its server, its encryption and every setting
that decides who the server thinks it is talking to. What a login reads beside the
settings is not in the key: a session that is handed out suits its new user as long as
that has not changed since the session was logged in, and as long as nobody files a
session under another's key.
-/

set_option autoImplicit false

namespace XRootDClient.Routing

open Lib Lib.BigEndian Lib.Run Auth Proto

variable {python : Builtins}

theorem encode_injective : Function.Injective Text.encodeUtf8 := by
  intro left right same
  have bytes : List.utf8Encode left = List.utf8Encode right := by
    unfold List.utf8Encode
    exact congrArg List.toByteArray same
  have back := congrArg (fun bytes : ByteArray => bytes.utf8Decode?) bytes
  simp only [List.utf8Decode?_utf8Encode, Option.some.injEq] at back
  simpa using back

theorem digested (printable : Char → Bool) (user : Text) (fields : List Text) :
    Text.encodeUtf8 (Repr.text printable user) ++
        fields.flatMap (fun field => 0 :: Text.encodeUtf8 field) =
      Text.encodeUtf8 (Repr.text printable user ++ Repr.fields fields) := by
  unfold Text.encodeUtf8 Repr.fields
  rw [List.flatMap_append, List.flatMap_assoc]
  rfl

theorem identity_fields_bare (config : Config) :
    ∀ field ∈ identityFields python config, Repr.nul ∉ field := by
  simp only [identityFields, List.forall_mem_cons, List.not_mem_nil, false_implies, implies_true,
    and_true]
  exact ⟨Repr.text_bare _, Repr.optional_bare _, Repr.optional_bare _, Repr.optional_bare _,
    Repr.optional_bare _, Repr.optional_bare _, Repr.optional_bare _, Repr.tuple_bare _,
    Repr.truth_bare _, Repr.truth_bare _⟩

theorem identity_fields_same {first second : Config}
    (same : identityFields python first = identityFields python second) :
    identityOf first = identityOf second := by
  simp only [identityFields, List.cons.injEq, and_true] at same
  obtain ⟨username, token, tokenFile, keytab, proxy, caPath, caFile, order, verify, require⟩ := same
  simp only [identityOf, Identity.mk.injEq]
  exact ⟨Repr.text_injective username, Repr.optional_injective token,
    Repr.optional_injective tokenFile, Repr.optional_injective keytab,
    Repr.optional_injective proxy, Repr.optional_injective caPath, Repr.optional_injective caFile,
    Repr.tuple_injective order, Repr.truth_injective verify, Repr.truth_injective require⟩

/-- Where and as whom a key says a session is logged in. -/
structure SameLogin (first second : XRootDURL) (before config : Config) : Prop where
  host : first.host = second.host
  port : first.port = second.port
  secure : (first.useTls || before.requireTls) = (second.useTls || config.requireTls)
  username : loginName first before = loginName second config
  identity : identityOf before = identityOf config

theorem key_same (injective : Function.Injective python.sha256) {first second : XRootDURL}
    {before config : Config} (same : key python first before = key python second config) :
    SameLogin first second before config := by
  simp only [key, Key.mk.injEq] at same
  obtain ⟨scheme, host, port, identity⟩ := same
  have message := injective identity
  rw [digested, digested] at message
  obtain ⟨user, fields⟩ := Repr.bare_split (Repr.text_bare _) (Repr.text_bare _)
    (Repr.fields_head _) (Repr.fields_head _) (encode_injective message)
  constructor
  · exact host
  · exact port
  · revert scheme
    cases first.useTls || before.requireTls <;> cases second.useTls || config.requireTls <;> decide
  · exact Repr.text_injective user
  · exact identity_fields_same (Repr.fields_injective (identity_fields_bare _)
      (identity_fields_bare _) fields)

variable {Ambient : Type} {world : World Ambient} {index sid : Nat} {router : Router}

namespace World

/-- The key of the URL and the settings a session was brought up with. -/
def place (python : Builtins) (world : World Ambient) (sid : Nat) : Option Key :=
  (world.sessions[sid]?).map fun session => key python session.url session.config

/-- Sessions are pooled under their own keys, and a router has the key of its session. -/
structure Filed (python : Builtins) (world : World Ambient) : Prop where
  pooled : ∀ place, ∀ entry ∈ world.idle.bucket place, world.place python entry.2 = some place
  routed : ∀ router ∈ world.routers, ∀ sid, router.session = some sid →
    world.place python sid = some (key python router.url router.config)

@[simp] theorem close_place (other : Nat) :
    (world.closeSession sid).place python other = world.place python other := by
  unfold place closeSession
  rw [List.getElem?_modify]
  by_cases same : sid = other
  · cases world.sessions[other]? <;> simp [same]
  · simp [same]

@[simp] theorem close_all_place (sids : List Nat) (world : World Ambient) (other : Nat) :
    (world.closeAll sids).place python other = world.place python other := by
  induction sids generalizing world with
  | nil => rfl
  | cons sid sids induction => exact (induction _).trans (close_place other)

@[simp] theorem acquire_place (url : XRootDURL) (config : Config) (other : Nat) :
    (world.acquire python url config).2.place python other = world.place python other :=
  close_all_place _ _ _

@[simp] theorem release_place (url : XRootDURL) (config : Config) (other : Nat) :
    (world.release python sid url config).2.place python other = world.place python other :=
  close_all_place _ _ _

theorem joined_place {url : XRootDURL} {config : Config} {other : Nat} {place : Key}
    (known : world.place python other = some place) :
    (world.joined url config).place python other = some place := by
  unfold World.place joined at *
  cases found : world.sessions[other]? with
  | none =>
      rw [found] at known
      cases known
  | some session =>
      rw [List.getElem?_append_left (List.getElem?_eq_some_iff.mp found).1]
      exact known

theorem joined_new (url : XRootDURL) (config : Config) :
    (world.joined url config).place python world.sessions.length =
      some (key python url config) := by
  unfold World.place joined
  rw [List.getElem?_append_right (Nat.le_refl _), Nat.sub_self]
  rfl

theorem Filed.change {after : World Ambient} (filed : Filed python world)
    (places : ∀ sid place, world.place python sid = some place →
      after.place python sid = some place)
    (pooled : ∀ place, ∀ entry ∈ after.idle.bucket place, entry ∈ world.idle.bucket place ∨
      after.place python entry.2 = some place)
    (routed : ∀ router ∈ after.routers, router ∈ world.routers ∨
      ∀ sid, router.session = some sid →
        after.place python sid = some (key python router.url router.config)) :
    Filed python after where
  pooled := fun place entry member => (pooled place entry member).elim
    (fun old => places _ _ (filed.pooled place entry old)) id
  routed := fun router member sid refers => (routed router member).elim
    (fun old => places _ _ (filed.routed router old sid refers)) (fun new => new sid refers)

theorem Filed.put {new : Router} (filed : Filed python world)
    (routed : ∀ sid, new.session = some sid →
      world.place python sid = some (key python new.url new.config)) :
    Filed python (world.putRouter index new) := by
  apply filed.change
  · exact fun sid place known => known
  · exact fun place entry member => Or.inl member
  · intro router member
    rcases List.mem_or_eq_of_mem_set member with old | rfl
    · exact Or.inl old
    · exact Or.inr routed

theorem Filed.append {new : Router} (filed : Filed python world)
    (routed : ∀ sid, new.session = some sid →
      world.place python sid = some (key python new.url new.config)) :
    Filed python { world with routers := world.routers ++ [new] } := by
  apply filed.change
  · exact fun sid place known => known
  · exact fun place entry member => Or.inl member
  · intro router member
    rcases List.mem_append.mp member with old | same
    · exact Or.inl old
    · rw [List.mem_singleton.mp same]
      exact Or.inr routed

theorem Filed.closed (filed : Filed python world) : Filed python (world.closeSession sid) := by
  apply filed.change
  · exact fun sid place known => (close_place sid).trans known
  · exact fun place entry member => Or.inl member
  · exact fun router member => Or.inl member

theorem Filed.acquired (filed : Filed python world) (url : XRootDURL) (config : Config) :
    Filed python (world.acquire python url config).2 := by
  apply filed.change
  · exact fun sid place known => (acquire_place url config sid).trans known
  · intro place entry member
    have idle : (world.acquire python url config).2.idle =
        (world.idle.acquire python world.closed world.clock url config).idle := close_all_idle _ _
    rw [idle] at member
    exact Or.inl (Idle.acquire_bucket member)
  · intro router member
    rw [acquire_routers] at member
    exact Or.inl member

theorem acquire_filed (filed : Filed python world) {url : XRootDURL} {config : Config}
    (found : (world.acquire python url config).1 = some sid) :
    world.place python sid = some (key python url config) := by
  obtain ⟨since, member, -⟩ := Idle.acquire_found found
  exact filed.pooled _ _ member

theorem Filed.released (filed : Filed python world) {url : XRootDURL} {config : Config}
    (own : world.accepts python sid url config = true →
      world.place python sid = some (key python url config)) :
    Filed python (world.release python sid url config).2 := by
  apply filed.change
  · exact fun other place known => (release_place url config other).trans known
  · intro place entry member
    rw [release_idle] at member
    rcases Idle.release_bucket member with old | ⟨same, here, accepted⟩
    · exact Or.inl old
    · rw [release_place, same, here]
      exact Or.inr (own accepted)
  · intro router member
    rw [release_routers] at member
    exact Or.inl member

theorem Filed.renewed {result : Except Exception Nat × World Ambient} (filed : Filed python world)
    (member : router ∈ world.routers) (renewed : Renewed python world index router result) :
    Filed python result.2 := by
  have acquired := filed.acquired router.url router.config
  cases renewed with
  | taken sid found =>
      apply acquired.put
      intro other same
      cases same
      rw [acquire_place]
      exact acquire_filed filed found
  | dialled none =>
      have grown : Filed python ((world.acquire python router.url router.config).2.joined
          router.url router.config) := by
        apply acquired.change
        · exact fun sid place known => joined_place known
        · exact fun place entry member => Or.inl member
        · exact fun router member => Or.inl member
      apply grown.put
      intro other same
      cases same
      have new := @joined_new python Ambient (world.acquire python router.url router.config).2
        router.url router.config
      rw [acquire_length] at new
      exact new
  | failed error none =>
      apply acquired.put
      intro sid same
      rw [acquire_place]
      exact filed.routed router member sid same

theorem Filed.returned (filed : Filed python world) (member : router ∈ world.routers) :
    Filed python (world.close python index router) := by
  have cleared : Filed python
      (world.putRouter index { router with session := none, owns := true }) :=
    filed.put fun sid same => by cases same
  unfold close
  cases session : router.session with
  | none => exact cleared
  | some sid =>
      dsimp only
      split_ifs
      · exact cleared.released fun _ => filed.routed router member sid session
      · exact (cleared.released fun _ => filed.routed router member sid session).closed
      · exact cleared

end World

/-- A session that is given to the pool directly goes under its own key. -/
def Filing (python : Builtins) (entry : Entry (Move Ambient) (World Ambient)) : Prop :=
  match entry.label with
  | .release sid url config => entry.before.accepts python sid url config = true →
      entry.before.place python sid = some (key python url config)
  | _ => True

open World

theorem step_filed (move : Move Ambient) (filed : world.Filed python)
    (filing : Filing python ⟨world, move, step python move world⟩) :
    (step python move world).Filed python := by
  cases move with
  | create url config reconnect => exact filed.append fun sid same => by cases same
  | session index dial =>
      apply on_router (fun _ => filed)
      intro router found
      rcases @session_cases Ambient python world index router dial with ⟨-, same⟩ | ⟨-, renewed⟩
      · rw [same]
        exact filed
      · exact filed.renewed (List.mem_of_getElem? found) renewed
  | follow index redirect =>
      apply on_router (fun _ => filed)
      intro router found
      apply (filed.returned (List.mem_of_getElem? found)).put
      exact fun sid same => by cases same
  | drop index =>
      apply on_router (fun _ => filed)
      intro router found
      unfold Routing.World.drop
      cases router.session with
      | none => exact filed.put fun sid same => by cases same
      | some sid => exact filed.closed.put fun sid same => by cases same
  | pin index transfer =>
      apply on_router (fun _ => filed)
      intro router found
      have routed := filed.routed router (List.mem_of_getElem? found)
      cases transfer with
      | false => exact filed.append routed
      | true =>
          have left : Filed python (world.putRouter index { router with session := none }) :=
            filed.put fun sid same => by cases same
          exact left.append routed
  | close index =>
      apply on_router (fun _ => filed)
      intro router found
      exact filed.returned (List.mem_of_getElem? found)
  | acquire url config => exact filed.acquired url config
  | release sid url config => exact filed.released filing
  | clear =>
      have none : world.clear.idle = ∅ := close_all_idle _ _
      apply filed.change
      · exact fun sid place known => (close_all_place _ _ sid).trans known
      · intro place entry member
        have member : entry ∈ world.clear.idle.bucket place := member
        rw [none] at member
        cases member
      · intro router member
        have routers : world.clear.routers = world.routers := close_all_routers _ _
        exact Or.inl (routers ▸ member)
  | forget =>
      apply filed.change
      · exact fun sid place known => known
      · exact fun place entry member => by cases member
      · exact fun router member => Or.inl member
  | lose sid => exact filed.closed
  | wait seconds => exact ⟨filed.pooled, filed.routed⟩
  | change ambient => exact ⟨filed.pooled, filed.routed⟩

section Handing

variable {Body : Type} [Exchange Body] (methods : Methods Body)

def connecting (Body : Type) (url : XRootDURL) (config : Config) : Machine Body :=
  Machine.new url.host url.port.toNat config none (loginName url config)
    (url.useTls || config.requireTls) []

/-- A session that is what a new connection would be: it goes to the same server, is
encrypted if that is asked for, and was logged in by the name and with the credentials a
login would present now, whatever the server offers. -/
structure Suits (now : Process) (url : XRootDURL) (config : Config) (made : Session Process) :
    Prop where
  host : made.url.host = url.host
  port : made.url.port = url.port
  secure : (url.useTls || config.requireTls) = true → ∀ calls,
    (Machine.after (installation methods made.ambient) calls
      (connecting Body made.url made.config)).state = .READY →
    (Machine.after (installation methods made.ambient) calls
      (connecting Body made.url made.config)).tlsActive = true
  username : (connecting Body made.url made.config).username =
    (connecting Body url config).username
  credentials : ∀ sec,
    presented methods made.ambient made.config (connecting Body made.url made.config).username
        made.url.host sec =
      presented methods now config (connecting Body url config).username url.host sec

omit [Exchange Body] in
theorem connecting_username (url : XRootDURL) (config : Config) :
    (connecting Body url config).username = loginName url config := by
  unfold connecting Machine.new loginName
  dsimp only
  split_ifs <;> simp_all

theorem suits_of_key (injective : Function.Injective python.sha256) {now : Process}
    {url : XRootDURL} {config : Config} {made : Session Process}
    (same : key python made.url made.config = key python url config)
    (steady : Steady methods made.ambient now made.config config
      (loginName made.url made.config) made.url.host) : Suits methods now url config made := by
  have login := key_same injective same
  constructor
  · exact login.host
  · exact login.port
  · intro asked calls ready
    apply Machine.ready_encrypted _ _ _ _ _ _ _ _ _ _ ready
    rw [← login.secure] at asked
    change (_ || made.config.requireTls) = true
    rw [asked, Bool.true_or]
  · rw [connecting_username, connecting_username, login.username]
  · intro sec
    rw [connecting_username, connecting_username, presented_same steady login.identity sec,
      login.username, login.host]

/-- The URL and the settings `acquire` is called with in the course of a move. -/
def asked : Move Ambient → World Ambient → Option (XRootDURL × Config)
  | .acquire url config, _ => some (url, config)
  | .session index _, world => (world.routers[index]?).bind fun router =>
      if world.renews router then some (router.url, router.config) else none
  | _, _ => none

omit [Exchange Body] in
theorem handed_asked {move : Move Ambient} {url : XRootDURL} {config : Config}
    (called : asked move world = some (url, config)) (given : handed python move world = some sid) :
    (world.acquire python url config).1 = some sid := by
  unfold asked at called
  unfold handed at given
  cases move with
  | acquire =>
      cases called
      exact given
  | session index dial =>
      obtain ⟨router, found, called⟩ := Option.bind_eq_some_iff.mp called
      simp only [found, Option.bind_some] at given
      split_ifs at called given
      cases called
      exact given
  | _ => cases called

def Suited (python : Builtins) (entry : Entry (Move Process) (World Process)) : Prop :=
  ∀ url config sid, asked entry.label entry.before = some (url, config) →
    handed python entry.label entry.before = some sid →
    ∃ made, entry.before.sessions[sid]? = some made ∧
      Suits methods entry.before.ambient url config made

/-- When `acquire` is called, a login with its settings would find what the logins of the
sessions that wait for it have found. -/
def Unchanged (python : Builtins) (entry : Entry (Move Process) (World Process)) : Prop :=
  ∀ url config, asked entry.label entry.before = some (url, config) →
    ∀ waiting ∈ entry.before.idle.bucket (key python url config),
      entry.before.closed waiting.2 = false →
      entry.before.clock - config.poolIdleTtl ≤ waiting.1 →
      ∀ made, entry.before.sessions[waiting.2]? = some made →
        Steady methods made.ambient entry.before.ambient made.config config
          (loginName made.url made.config) made.url.host

theorem suited_of_unchanged (injective : Function.Injective python.sha256)
    {entry : Entry (Move Process) (World Process)} (filed : entry.before.Filed python)
    (unchanged : Unchanged methods python entry) : Suited methods python entry := by
  intro url config sid called given
  have found := handed_asked called given
  obtain ⟨since, waits, opened, recent⟩ := Idle.acquire_found found
  have place := filed.pooled _ _ waits
  unfold World.place at place
  obtain ⟨made, present, same⟩ := Option.map_eq_some_iff.mp place
  exact ⟨made, present, suits_of_key methods injective same
    (unchanged url config called _ waits opened recent made present)⟩

omit [Exchange Body] in
theorem start_filed (ambient : Ambient) : (start ambient).Filed python where
  pooled := fun _ _ member => by cases member
  routed := fun _ member => by cases member

/-- In every run in which nobody files a session under another's key and nothing a login
reads beside the settings has changed for the sessions that wait when one is asked for,
every session handed out suits its caller. -/
theorem sessions_suited (injective : Function.Injective python.sha256)
    (calls : List (Call Process)) (process : Process)
    (careful : ∀ entry ∈ history (step python) (moves python calls (start process)) (start process),
      Filing python entry ∧ Unchanged methods python entry) :
    ∀ entry ∈ history (step python) (moves python calls (start process)) (start process),
      Suited methods python entry := by
  intro entry member
  have filed : entry.before.Filed python :=
    history_invariant (step python) (Filing python) (World.Filed python)
      (fun world move filing filed => step_filed move filed filing) _ _
      (fun other inside => (careful other inside).1) (start_filed process) entry member
  exact suited_of_unchanged methods injective filed (careful entry member).2

end Handing

theorem plain_injective : Function.Injective plain.sha256 := by
  have bytes : Function.Injective fun byte : UInt8 => Char.ofNat byte.toNat := by
    intro first second same
    have codes := congrArg Char.toNat same
    have small : ∀ byte : UInt8, byte.toNat.isValidChar := fun byte =>
      Or.inl (byte.toNat_lt.trans (by decide))
    simp only [Char.ofNat, dif_pos (small _)] at codes
    exact UInt8.toNat_inj.mp codes
  exact List.map_injective_iff.mpr bytes

def manager : XRootDURL := { host := str "manager" }

def given : List (Move Process) :=
  [.create manager {} true, .session 0 none, .close 0]

def waiting : World Process := run (step plain) given (start (Process.bearer (str "one")))

theorem waiting_bucket : waiting.idle.bucket (key plain manager {}) = [(0, 0)] := by
  decide +kernel

theorem waiting_made :
    waiting.sessions[0]? = some ⟨manager, {}, Process.bearer (str "one"), false⟩ := rfl

theorem waiting_session_suits :
    let calls : List (Call Process) := given.map .move ++ [.move (.acquire manager {})]
    let begins := start (Process.bearer (str "one"))
    Function.Injective plain.sha256 ∧
      (∃ entry ∈ history (step plain) (moves plain calls begins) begins,
        handed plain entry.label entry.before = some 0) ∧
      ∀ entry ∈ history (step plain) (moves plain calls begins) begins,
        Suited Methods.oneShots plain entry := by
  refine ⟨plain_injective, by decide +kernel,
    sessions_suited Methods.oneShots plain_injective _ _ ?_⟩
  simp only [given, List.map_cons, List.map_nil, List.cons_append, List.nil_append, moves,
    Call.moves, history, List.forall_mem_cons]
  refine ⟨⟨trivial, ?_⟩, ⟨trivial, ?_⟩, ⟨trivial, ?_⟩, ⟨trivial, ?_⟩, ?_⟩
  · rintro url config ⟨⟩
  · rintro url config ⟨⟩ entry ⟨⟩
  · rintro url config ⟨⟩
  · rintro url config ⟨⟩ entry member opened recent made present
    have member : entry ∈ waiting.idle.bucket (key plain manager {}) := member
    rw [waiting_bucket, List.mem_singleton] at member
    rw [member] at present
    have same := waiting_made.symm.trans present
    cases same
    exact steady_refl _ _ _ _ _
  · exact fun _ member => by cases member

/-- The token in the environment is replaced while a session waits. -/
theorem replaced_token_ignored : ¬∀ (calls : List (Call Process)) (process : Process),
    ∀ entry ∈ history (step plain) (moves plain calls (start process)) (start process),
      Suited Methods.oneShots plain entry := by
  intro every
  have suited := every (given.map .move ++
      [.move (.change (Process.bearer (str "two"))), .move (.acquire manager {})])
    (Process.bearer (str "one"))
  simp only [given, List.map_cons, List.map_nil, List.cons_append, List.nil_append, moves,
    Call.moves, history, List.forall_mem_cons] at suited
  obtain ⟨-, -, -, -, last, -⟩ := suited
  have given : handed plain (.acquire manager {})
      { waiting with ambient := Process.bearer (str "two") } = some 0 := by
    decide +kernel
  obtain ⟨made, present, suits⟩ := last manager {} 0 rfl given
  have same := waiting_made.symm.trans present
  cases same
  have presents := suits.credentials (str "&P=ztn")
  revert presents
  decide +kernel

end XRootDClient.Routing
