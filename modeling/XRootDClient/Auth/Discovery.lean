import XRootDClient.Auth.Usable
import XRootDClient.Lib.Posix

/-!
# Where credentials are found

What a mechanism reads of the settings and of the process around it. Bearer tokens, `unix`
and `host` follow the source; `gsi`, `krb5` and `sss`, which read proxies, ticket caches
and keytabs, are given as functions of the same arguments. Two processes that show the
mechanisms the same thing yield the same credentials, whatever the server offers.
-/

set_option autoImplicit false

namespace XRootDClient.Auth

open Lib

/-- The settings that decide who the server thinks it is talking to. -/
structure Identity where
  username : Text
  token : Option Text
  tokenFile : Option Text
  keytab : Option Text
  proxy : Option Text
  caPath : Option Text
  caFile : Option Text
  authOrder : List Text
  verifyTls : Bool
  requireTls : Bool
  deriving DecidableEq

def identityOf (config : Config) : Identity where
  username := config.username
  token := config.token
  tokenFile := config.tokenFile
  keytab := config.keytab
  proxy := config.proxy
  caPath := config.caPath
  caFile := config.caFile
  authOrder := config.authOrder
  verifyTls := config.verifyTls
  requireTls := config.requireTls

/-- `config.evolve(...)` of the fields an answer may change. -/
def evolve (config : Config) (identity : Identity) : Config :=
  { config with
    token := identity.token
    tokenFile := identity.tokenFile
    keytab := identity.keytab
    proxy := identity.proxy }

/-- The process around the client, as discovery reads it. A file gives its text, nothing
when it cannot be opened, and an exception when it is not text. -/
structure Process where
  environ : Text → Option Text
  files : Text → Except Exception (Option Text)
  isFile : Text → Bool
  expanduser : Text → Text
  uid : Nat
  pid : Nat
  clock : ℚ
  terminal : Bool
  answers : Nat → Ask → Option Text

structure Method (Body : Type) where
  available : Process → Offer → Identity → Text → Text → Except Exception (Option Body)
  missing : Process → Offer → Identity → Text → Text → Except Exception (Option Ask)
  using_ : Process → Text → Identity → Except Exception Identity

/-- The mechanisms that are given, how a token, a name or nothing is made into a
credential, and whether a credential's first blob can still be made. -/
structure Methods (Body : Type) where
  gsi : Method Body
  krb5 : Method Body
  sss : Method Body
  tokenCredential : Text → Body
  unixCredential : Text → Body
  hostCredential : Body
  opens : Process → Body → Bool

def truthy (value : Option Text) : Option Text :=
  value.bind fun text => if text = [] then none else some text

def tokenPaths (process : Process) (identity : Identity) : List Text :=
  let name := str "bt_u" ++ Text.ofNat process.uid
  (truthy identity.tokenFile).toList ++
    ((truthy (process.environ (str "XDG_RUNTIME_DIR"))).map fun runtime =>
      Posix.join runtime name).toList ++ [str "/tmp/" ++ name]

def firstToken (process : Process) : List Text → Except Exception (Option Text)
  | [] => .ok none
  | path :: rest =>
      match process.files path with
      | .error error => .error error
      | .ok none => firstToken process rest
      | .ok (some content) =>
          if Text.strip content = [] then firstToken process rest
          else .ok (some (Text.strip content))

def discoverToken (process : Process) (identity : Identity) : Except Exception (Option Text) :=
  match truthy identity.token with
  | some token => .ok (some (Text.strip token))
  | none =>
      match truthy ((process.environ (str "BEARER_TOKEN")).map Text.strip) with
      | some token => .ok (some token)
      | none => firstToken process (tokenPaths process identity)

section Mechanisms

variable {Body : Type} (methods : Methods Body)

def ztn : Method Body where
  available process _ identity _ _ :=
    (discoverToken process identity).map fun found =>
      (truthy found).map methods.tokenCredential
  missing process _ identity _ _ :=
    (discoverToken process identity).map fun found =>
      match found with
      | some _ => none
      | none => some
          { reason := str "nothing in " ++
              Text.join (str ", ") (str "$BEARER_TOKEN" :: tokenPaths process identity)
            hint := str "oidc-token <issuer> > /tmp/bt_u" ++ Text.ofNat process.uid ++
              str ", or set $BEARER_TOKEN" }
  using_ process answer identity :=
    let path := process.expanduser answer
    .ok (if process.isFile path then { identity with token := none, tokenFile := some path }
      else { identity with token := some answer })

def unasked (name : Text)
    (available : Offer → Identity → Text → Text → Except Exception (Option Body)) :
    Method Body where
  available _ := available
  missing _ _ _ _ _ := .ok none
  using_ _ _ _ := .error (.foreign (str "NotImplementedError")
    (name ++ str " cannot be supplied by hand"))

def unix : Method Body := unasked (str "unix") fun _ identity username _ =>
  .ok (some (methods.unixCredential (if username = [] then identity.username else username)))

def host : Method Body := unasked (str "host") fun _ _ _ _ => .ok (some methods.hostCredential)

def registry : List (Text × Method Body) :=
  [(str "unix", unix methods), (str "host", host methods), (str "sss", methods.sss),
   (str "ztn", ztn methods), (str "gsi", methods.gsi), (str "krb5", methods.krb5)]

def Method.mechanism (method : Method Body) (process : Process) : Mechanism Body where
  available offer config := method.available process offer (identityOf config)
  missing offer config := method.missing process offer (identityOf config)
  using_ answer config :=
    (method.using_ process answer (identityOf config)).map (evolve config)

def installation (process : Process) : Installation Body where
  registry name := ((registry methods).lookup name).map fun method => method.mechanism process
  terminal := process.terminal
  answerFor attempt question _ := process.answers attempt question
  pid := process.pid

/-- The credentials a login presents, in their order, when the server offers `sec`. -/
def presented (process : Process) (config : Config) (username host sec : Text) :
    List (Credential Body) :=
  (Ladder.remaining (installation methods process) (select sec config username host)).filter
    fun credential => methods.opens process credential.body

/-- What a mechanism asks for can be taken, and it can then say what it still wants. -/
def Method.Settles (method : Method Body) (process : Process) : Prop :=
  ∀ offer identity username host wanted,
    method.missing process offer identity username host = .ok (some wanted) →
      (∀ answer, ∃ trial, method.using_ process answer identity = .ok trial) ∧
        ∀ later, ∃ found, method.missing process offer later username host = .ok found

omit methods in
theorem unasked_settles (name : Text)
    (available : Offer → Identity → Text → Text → Except Exception (Option Body))
    (process : Process) : (unasked name available).Settles process := by
  intro offer identity username host wanted asked
  cases asked

theorem ztn_settles {process : Process}
    (readable : ∀ path, ∃ content, process.files path = .ok content) :
    (ztn methods).Settles process := by
  have first : ∀ paths, ∃ found, firstToken process paths = .ok found := by
    intro paths
    induction paths with
    | nil => exact ⟨none, rfl⟩
    | cons path rest induction =>
        obtain ⟨content, opened⟩ := readable path
        rw [firstToken, opened]
        cases content with
        | none => exact induction
        | some content =>
            dsimp only
            split_ifs
            · exact induction
            · exact ⟨_, rfl⟩
  have discovered : ∀ identity, ∃ found, discoverToken process identity = .ok found := by
    intro identity
    unfold discoverToken
    cases truthy identity.token with
    | some token => exact ⟨_, rfl⟩
    | none =>
        cases truthy ((process.environ (str "BEARER_TOKEN")).map Text.strip) with
        | some token => exact ⟨_, rfl⟩
        | none => exact first _
  intro offer identity username host wanted asked
  refine ⟨fun answer => ⟨_, rfl⟩, fun later => ?_⟩
  obtain ⟨found, known⟩ := discovered later
  exact ⟨_, congrArg (Except.map _) known⟩

/-- The registered mechanisms can be presented, where every file that opens is text and the
mechanisms that are given settle. -/
theorem installation_presentable [Exchange Body] {process : Process}
    (readable : ∀ path, ∃ content, process.files path = .ok content)
    (gsi : methods.gsi.Settles process) (krb5 : methods.krb5.Settles process)
    (sss : methods.sss.Settles process)
    (opens : ∀ (body : Body) blob, (Exchange.initial body).1 = .ok blob →
      blob.length ≤ 0x7FFFFFFF)
    (answers : ∀ (body : Body) challenge blob,
      (Exchange.step body challenge).1 = .ok (some blob) → blob.length ≤ 0x7FFFFFFF)
    (pid : process.pid < 2 ^ 31) : Presentable (installation methods process) := by
  have among : ∀ name method, (registry methods).lookup name = some method →
      (name, method) ∈ registry methods := by
    intro name method known
    obtain ⟨before, after, shape, -⟩ := List.lookup_eq_some_iff.mp known
    rw [shape]
    exact List.mem_append_right _ List.mem_cons_self
  have settled : ∀ entry ∈ registry methods, entry.2.Settles process := by
    simp only [registry, List.forall_mem_cons, List.not_mem_nil, false_imp_iff, implies_true,
      and_true]
    exact ⟨unasked_settles _ _ _, unasked_settles _ _ _, sss, ztn_settles methods readable, gsi,
      krb5⟩
  refine ⟨fun name mechanism known => ?_, fun name mechanism known => ?_, opens, answers, pid⟩
  · obtain ⟨method, found, -⟩ := Option.map_eq_some_iff.mp known
    have named : ∀ entry ∈ registry methods, Fits entry.1 := by
      simp only [registry, List.forall_mem_cons, List.not_mem_nil, false_imp_iff, implies_true,
        and_true]
      unfold Fits
      decide +kernel
    exact named _ (among name method found)
  · obtain ⟨method, found, rfl⟩ := Option.map_eq_some_iff.mp known
    intro offer config username host wanted _ asked attempt question answer _
    obtain ⟨takes, accounts⟩ := settled _ (among name method found) offer (identityOf config)
      username host wanted asked
    obtain ⟨trial, used⟩ := takes answer
    refine ⟨evolve config trial, ?_, accounts _⟩
    exact congrArg (Except.map (evolve config)) used

/-- Two processes that show one mechanism the same, for one identity. -/
structure Method.Finds (method : Method Body) (first later : Process) (identity : Identity)
    (username host : Text) : Prop where
  available : ∀ offer, method.available first offer identity username host =
    method.available later offer identity username host

/-- Two processes in which somebody would be asked the same of a mechanism, would answer
the same, and would get the same by it. -/
structure Method.Asks (method : Method Body) (first later : Process) (config : Config)
    (username host : Text) : Prop where
  missing : ∀ offer, method.missing first offer (identityOf config) username host =
    method.missing later offer (identityOf config) username host
  using_ : ∀ answer, method.using_ first answer (identityOf config) =
    method.using_ later answer (identityOf config)
  trial : ∀ answer trial offer, method.using_ first answer (identityOf config) = .ok trial →
    method.available first offer (identityOf (evolve config trial)) username host =
        method.available later offer (identityOf (evolve config trial)) username host ∧
      method.missing first offer (identityOf (evolve config trial)) username host =
        method.missing later offer (identityOf (evolve config trial)) username host

/-- Nothing that a login reads beside its identity differs between two processes, nor
whether a person may be asked; and nothing it would present has expired in between. -/
structure Steady (first later : Process) (before config : Config) (username host : Text) :
    Prop where
  finds : ∀ name method, (registry methods).lookup name = some method →
    method.Finds first later (identityOf before) username host
  prompts : before.prompt.getD first.terminal = config.prompt.getD later.terminal
  asks : before.prompt.getD first.terminal = true →
    first.answers = later.answers ∧
      ∀ name method, (registry methods).lookup name = some method →
        method.Asks first later before username host
  opens : ∀ sec credential,
    credential ∈ Ladder.remaining (installation methods first) (select sec before username host) →
      methods.opens first credential.body = methods.opens later credential.body

theorem steady_refl (process : Process) (config : Config) (username host : Text) :
    Steady methods process process config config username host where
  finds := fun _ _ _ => ⟨fun _ => rfl⟩
  prompts := rfl
  asks := fun _ => ⟨rfl, fun _ _ _ => ⟨fun _ => rfl, fun _ => rfl, fun _ _ _ _ => ⟨rfl, rfl⟩⟩⟩
  opens := fun _ _ _ => rfl

section Same

variable {methods} {first later : Process} {before config : Config} {username host : Text}

theorem identity_evolve {trial : Identity} (same : identityOf before = identityOf config) :
    identityOf (evolve before trial) = identityOf (evolve config trial) := by
  simp only [identityOf, Identity.mk.injEq] at same
  simp only [identityOf, evolve, Identity.mk.injEq]
  simp [same]

theorem build_same {method : Method Body} {one other : Config} {name : Text} {offer : Offer}
    (available : method.available first offer (identityOf one) username host =
      method.available later offer (identityOf other) username host) (why : Dict Text Text) :
    (build (method.mechanism first) name offer one username host why).1 =
      (build (method.mechanism later) name offer other username host why).1 := by
  unfold build
  rw [show (method.mechanism first).available offer one username host =
    (method.mechanism later).available offer other username host from available]
  split <;> rfl

/-- What an answer leads to, with the settings reduced to the identity they give. -/
def reduced (outcome : Except Exception (Option (Config × Option (Credential Body)))) :
    Except Exception (Option (Identity × Option (Credential Body))) :=
  outcome.map fun answered => answered.map fun pair => (identityOf pair.1, pair.2)

theorem reduced_cases {one other : Except Exception (Option (Config × Option (Credential Body)))}
    (same : reduced one = reduced other) :
    (∃ error, one = .error error ∧ other = .error error) ∨ (one = .ok none ∧ other = .ok none) ∨
      ∃ trial again credential, one = .ok (some (trial, credential)) ∧
        other = .ok (some (again, credential)) ∧ identityOf trial = identityOf again := by
  cases one with
  | error error =>
      cases other with
      | error again =>
          cases same
          exact Or.inl ⟨error, rfl, rfl⟩
      | ok answered => cases same
  | ok answered =>
      cases other with
      | error error => cases same
      | ok again =>
          simp only [reduced, Except.map, Except.ok.injEq] at same
          cases answered with
          | none =>
              cases again with
              | none => exact Or.inr (Or.inl ⟨rfl, rfl⟩)
              | some pair => cases same
          | some pair =>
              cases again with
              | none => cases same
              | some other =>
                  simp only [Option.map, Option.some.injEq, Prod.mk.injEq] at same
                  exact Or.inr (Or.inr ⟨pair.1, other.1, pair.2, rfl, by rw [same.2], same.1⟩)

theorem ask_once_same {method : Method Body} (same : identityOf before = identityOf config)
    (answers : first.answers = later.answers)
    (asks : method.Asks first later before username host) {name : Text} {offer : Offer}
    (attempt : Nat) (question : Ask) (why : Dict Text Text) :
    reduced (askOnce (installation methods first) (method.mechanism first) name offer before
        username host attempt question why).1 =
      reduced (askOnce (installation methods later) (method.mechanism later) name offer config
        username host attempt question why).1 := by
  unfold askOnce
  have answer : (installation methods first).answerFor attempt question before =
      (installation methods later).answerFor attempt question config :=
    congrFun (congrFun answers attempt) question
  rw [answer]
  cases (installation methods later).answerFor attempt question config with
  | none => rfl
  | some text =>
      cases text with
      | nil => rfl
      | cons char text =>
          have uses : (method.mechanism first).using_ (char :: text) before =
              (method.using_ first (char :: text) (identityOf before)).map (evolve before) := rfl
          have used : (method.mechanism later).using_ (char :: text) config =
              (method.using_ first (char :: text) (identityOf before)).map (evolve config) := by
            rw [asks.using_, same]
            rfl
          dsimp only
          rw [uses, used]
          cases gave : method.using_ first (char :: text) (identityOf before) with
          | error error => rfl
          | ok trial =>
              have identity := @identity_evolve before config trial same
              have found := (asks.trial (char :: text) trial offer gave).1
              have built := @build_same Body first later username host method (evolve before trial)
                (evolve config trial) name offer (by rw [found, identity]) why
              simp only [Except.map]
              rw [reduced, reduced]
              simp only [Except.map, Option.map, identity, built]

theorem ask_once_trial {method : Method Body}
    (asks : method.Asks first later before username host) {name : Text} {offer : Offer}
    {attempt : Nat} {question : Ask} {why : Dict Text Text} {trial : Config}
    {credential : Option (Credential Body)}
    (answered : (askOnce (installation methods first) (method.mechanism first) name offer before
      username host attempt question why).1 = .ok (some (trial, credential))) :
    method.missing first offer (identityOf trial) username host =
      method.missing later offer (identityOf trial) username host := by
  unfold askOnce at answered
  split at answered
  · cases answered
  · cases answered
  · next answer _ _ =>
      have uses : (method.mechanism first).using_ answer before =
          (method.using_ first answer (identityOf before)).map (evolve before) := rfl
      rw [uses] at answered
      cases gave : method.using_ first answer (identityOf before) with
      | error error =>
          rw [gave] at answered
          cases answered
      | ok given =>
          rw [gave] at answered
          simp only [Except.map, Except.ok.injEq, Option.some.injEq, Prod.mk.injEq] at answered
          rw [← answered.1]
          exact (asks.trial answer given offer gave).2

theorem ask_same {method : Method Body} (same : identityOf before = identityOf config)
    (answers : first.answers = later.answers)
    (asks : method.Asks first later before username host) {name : Text} {offer : Offer}
    (why : Dict Text Text) :
    (ask (installation methods first) (method.mechanism first) name offer before username host
        why).1 =
      (ask (installation methods later) (method.mechanism later) name offer config username host
        why).1 := by
  unfold ask
  have missing : (method.mechanism first).missing offer before username host =
      (method.mechanism later).missing offer config username host := by
    change method.missing first offer (identityOf before) username host =
      method.missing later offer (identityOf config) username host
    rw [asks.missing, same]
  rw [missing]
  match (method.mechanism later).missing offer config username host with
  | .error _ => rfl
  | .ok none => rfl
  | .ok (some question) =>
      have one := @ask_once_same Body methods first later before config username host method same
        answers asks name offer 0 question why
      have missed := @ask_once_trial Body methods first later before username host method asks name
        offer 0 question why
      dsimp only
      generalize askOnce (installation methods first) (method.mechanism first) name offer before
        username host 0 question why = left at one missed ⊢
      generalize askOnce (installation methods later) (method.mechanism later) name offer config
        username host 0 question why = right at one ⊢
      obtain ⟨left, leftWhy⟩ := left
      obtain ⟨right, rightWhy⟩ := right
      rcases reduced_cases one with ⟨error, rfl, rfl⟩ | ⟨rfl, rfl⟩ |
        ⟨trial, other, credential, rfl, rfl, identity⟩
      · rfl
      · rfl
      cases credential with
      | some credential => rfl
      | none =>
          have again : (method.mechanism first).missing offer trial username host =
              (method.mechanism later).missing offer other username host := by
            change method.missing first offer (identityOf trial) username host =
              method.missing later offer (identityOf other) username host
            rw [missed rfl, identity]
          dsimp only
          rw [again]
          match (method.mechanism later).missing offer other username host with
          | .error _ => rfl
          | .ok none => rfl
          | .ok (some question) =>
              have two := @ask_once_same Body methods first later before config username host method
                same answers asks name offer 1 question leftWhy
              have reasons := ask_once_outcome (installation methods later) (method.mechanism later)
                name offer config username host 1 question leftWhy rightWhy
              rw [reasons] at two
              dsimp only
              generalize askOnce (installation methods first) (method.mechanism first) name offer
                before username host 1 question leftWhy = left at two ⊢
              generalize askOnce (installation methods later) (method.mechanism later) name offer
                config username host 1 question rightWhy = right at two ⊢
              obtain ⟨left, _⟩ := left
              obtain ⟨right, _⟩ := right
              rcases reduced_cases two with ⟨error, rfl, rfl⟩ | ⟨rfl, rfl⟩ |
                ⟨trial, other, credential, rfl, rfl, -⟩
              · rfl
              · rfl
              · rfl

def generator (Body : Type) (config : Config) (username host : Text) (offers : Dict Text Offer)
    (found : Bool) : Ladder Body where
  rungs := []
  found := found
  offers := offers
  config := config
  username := username
  host := host

theorem reach_same (steady : Steady methods first later before config username host)
    (same : identityOf before = identityOf config) (offers : Dict Text Offer) (found : Bool)
    {rung : Rung Body} (offered : ∀ credential, rung ≠ .ready credential) :
    ((generator Body before username host offers found).reach (installation methods first) rung
        ∅).1 =
      ((generator Body config username host offers found).reach (installation methods later) rung
        ∅).1 := by
  cases rung with
  | ready credential => exact absurd rfl (offered credential)
  | build name =>
      unfold Ladder.reach
      dsimp only [installation, generator]
      cases known : (registry methods).lookup name with
      | none => rfl
      | some method =>
          have available := (steady.finds name method known).available
            (offers.getD name ⟨name, []⟩)
          have built := @build_same Body first later username host method before config name
            (offers.getD name ⟨name, []⟩) (by rw [available, same]) ∅
          exact congrArg Except.ok built
  | ask name =>
      have prompts : interactive (installation methods first) before =
          interactive (installation methods later) config := steady.prompts
      have registered : ∀ process, (installation methods process).registry name =
          ((registry methods).lookup name).map fun method => method.mechanism process :=
        fun _ => rfl
      by_cases silent : (found || !interactive (installation methods later) config) = true
      · simp only [Ladder.reach, generator, prompts, silent, if_true]
      · simp only [Ladder.reach, generator, prompts, silent, registered]
        cases known : (registry methods).lookup name with
        | none => rfl
        | some method =>
            have asking : before.prompt.getD first.terminal = true := by
              simp only [Bool.or_eq_true, Bool.not_eq_true', not_or, Bool.not_eq_false] at silent
              exact prompts.trans silent.2
            obtain ⟨answers, asks⟩ := steady.asks asking
            exact ask_same same answers (asks name method known) ∅

theorem usable_same (steady : Steady methods first later before config username host)
    (same : identityOf before = identityOf config) (offers : Dict Text Offer)
    {rungs : List (Rung Body)}
    (offered : ∀ rung ∈ rungs, ∀ credential, rung ≠ .ready credential) (found : Bool) :
    (generator Body before username host offers found).usable (installation methods first) rungs =
      (generator Body config username host offers found).usable (installation methods later)
        rungs := by
  induction rungs generalizing found with
  | nil => rfl
  | cons rung rest induction =>
      rw [List.forall_mem_cons] at offered
      have reached := reach_same steady same offers found offered.1
      cases came : ((generator Body before username host offers found).reach
          (installation methods first) rung ∅).1 with
      | error error =>
          have there := reached.symm.trans came
          simp only [Ladder.usable, came, there]
      | ok yielded =>
          have there := reached.symm.trans came
          cases yielded with
          | none =>
              rw [usable_skips _ _ _ _ came, usable_skips _ _ _ _ there]
              exact induction offered.2 found
          | some credential =>
              rw [usable_cons _ _ _ _ came, usable_cons _ _ _ _ there]
              congr 1
              cases rung with
              | ready credential => exact absurd rfl (offered.1 credential)
              | ask name => rfl
              | build name =>
                  apply (usable_rungs _ (generator Body before username host offers true) rest
                    rest).trans
                  apply (induction offered.2 true).trans
                  exact (usable_rungs _ (generator Body config username host offers true) rest
                    rest).symm

theorem presented_same (steady : Steady methods first later before config username host)
    (same : identityOf before = identityOf config) (sec : Text) :
    presented methods first before username host sec =
      presented methods later config username host sec := by
  have order : before.authOrder = config.authOrder := congrArg Identity.authOrder same
  have remaining : Ladder.remaining (installation methods first)
      (select sec before username host) =
        Ladder.remaining (installation methods later) (select sec config username host) := by
    unfold Ladder.remaining select
    dsimp only
    rw [order]
    apply (usable_rungs _ (generator Body before username host _ false) _ _).trans
    rw [usable_same steady same]
    · exact (usable_rungs _ (generator Body config username host _ false) _ _).symm
    · intro rung member credential ready
      rw [ready] at member
      simp at member
  unfold presented
  rw [← remaining]
  apply List.filter_congr
  intro credential member
  exact steady.opens sec credential member

end Same

end Mechanisms

/-- A process with a token in its environment and nothing else to log in with. -/
def Process.bearer (token : Text) : Process where
  environ name := if name = str "BEARER_TOKEN" then some token else none
  files _ := .ok none
  isFile _ := false
  expanduser path := path
  uid := 1000
  pid := 1
  clock := 0
  terminal := false
  answers _ _ := none

/-- A credential of one blob: the name of its mechanism, a NUL and its material. -/
def OneShot.tagged (name : String) (material : Text) : OneShot :=
  let blob := Text.encodeUtf8 (str name) ++ 0 :: Text.encodeUtf8 material
  if short : blob.length ≤ 0x7FFFFFFF then ⟨blob, none, short⟩ else ⟨[], none, by decide⟩

/-- Tokens, names and addresses, and no proxies, tickets or keytabs. -/
def Methods.oneShots : Methods OneShot where
  gsi := unasked (str "gsi") fun _ _ _ _ => .ok none
  krb5 := unasked (str "krb5") fun _ _ _ _ => .ok none
  sss := unasked (str "sss") fun _ _ _ _ => .ok none
  tokenCredential token := OneShot.tagged "ztn" token
  unixCredential username := OneShot.tagged "unix" username
  hostCredential := OneShot.tagged "host" []
  opens _ _ := true

theorem one_shots_presentable {process : Process}
    (readable : ∀ path, ∃ content, process.files path = .ok content)
    (pid : process.pid < 2 ^ 31) : Presentable (installation Methods.oneShots process) := by
  apply installation_presentable Methods.oneShots readable
  · exact unasked_settles _ _ _
  · exact unasked_settles _ _ _
  · exact unasked_settles _ _ _
  · intro body blob minted
    cases minted
    exact body.short
  · intro body challenge blob answered
    cases answered
  · exact pid

end XRootDClient.Auth
