import XRootDClient.Http.Client

/-!
# Where redirects lead

Every request of `open` is accounted for: there are no more than the limit allows, and
whether one goes out under TLS is told by the texts of the Locations that were followed.
The headers are made anew at each hop, so a credential goes wherever these lead.
-/

set_option autoImplicit false

namespace XRootDClient.Http

open Lib Lib.BigEndian Lib.Stateful Auth Url
open Client (Raises)
open Routing.XRootDURL (tlsSchemes)

variable (python : Python) (process : Process) {Body : Type} (installation : Installation Body)
  (netlocs : Reference.Netlocs)

/-- Whether TLS is kept: an absolute Location names a scheme that uses it, and a relative
one has no scheme of its own. -/
def securedBy (tls : Bool) (location : Text) : Bool :=
  match Percent.splitScheme location with
  | some (scheme, _) => python.lower scheme ∈ tlsSchemes
  | none => tls && (Reference.cutScheme (str "https") (Reference.cleaned location)).1 = str "https"

/-- Whether the Locations a request under TLS was led along have kept it there. -/
def secured (trail : List Text) : Bool := trail.foldl (securedBy python) true

section Locations

variable {python netlocs}

theorem base_web (current : XRootDURL) : Reference.Web (keyOf current).scheme := by
  unfold keyOf
  dsimp only
  split_ifs
  · exact Reference.web_https
  · exact Reference.web_http

theorem web_bare {scheme : Text} (web : Reference.Web scheme) :
    Percent.splitScheme scheme = none := by
  have bare : ':' ∉ scheme := fun member =>
    (Reference.scheme_char_kept (List.all_eq_true.mp web.plain ':' member)).2 rfl
  clear web
  induction scheme with
  | nil => rfl
  | cons char rest induction =>
      rw [List.mem_cons, not_or] at bare
      rw [Percent.splitScheme, if_neg fun here => bare.1 here.1.symm, induction bare.2]
      rfl

theorem evolve_tls {url : XRootDURL} (low : python.lower url.scheme = url.scheme)
    (username password : Text) :
    useTls (url.evolve python { username := some username, password := some password }) =
      useTls url := by
  have same : (url.evolve python { username := some username, password := some password }).scheme =
      url.scheme := low
  rw [use_tls, use_tls, same]

theorem redirect_tls (lowers : python.Lowers) {current url : XRootDURL} {location : Text}
    (some : location ≠ []) (led : redirect python netlocs current location = .ok url) :
    useTls url = securedBy python (useTls current) location := by
  unfold redirect at led
  unfold securedBy
  cases found : Percent.splitScheme location with
  | some parts =>
      rw [found] at led
      have scheme := parse_scheme lowers led
      rw [found] at scheme
      rw [use_tls, scheme]
  | none =>
      rw [found, if_neg (by simp)] at led
      cases joined : Reference.urljoin netlocs
          ((keyOf current).scheme ++ str "://" ++ current.netloc ++ current.path) location with
      | error message =>
          rw [joined] at led
          cases led
      | ok text =>
          rw [joined] at led
          obtain ⟨parsed, read, led⟩ := except_returns led
          cases led
          have scheme := parse_scheme lowers read
          have web := base_web current
          have shape : (keyOf current).scheme ++ str "://" ++ current.netloc ++ current.path =
              (keyOf current).scheme ++ ':' :: '/' :: '/' :: (current.netloc ++ current.path) := by
            rw [List.append_assoc, List.append_assoc]
            rfl
          rw [shape] at joined
          have low : python.lower parsed.scheme = parsed.scheme := by
            rw [scheme]
            split
            · exact lowers.plain _ (by decide)
            · exact lowers.again _
          rw [evolve_tls low]
          dsimp only
          rcases Reference.web_urljoin web some joined with ⟨foreign, same⟩ | ⟨own, rest, same⟩
          · rw [same, found] at scheme
            have plain : useTls parsed = false := by
              rw [use_tls, scheme]
              rfl
            cases tls : useTls current with
            | false => rw [plain, Bool.false_and]
            | true =>
                have key : (keyOf current).scheme = str "https" := by simp [keyOf, tls]
                rw [key] at foreign
                simp [plain, foreign]
          · rw [same, Percent.split_scheme_append (web_bare web)] at scheme
            dsimp only at scheme
            cases tls : useTls current with
            | false =>
                have key : (keyOf current).scheme = str "http" := by simp [keyOf, tls]
                rw [key, lowers.plain _ (by decide)] at scheme
                rw [use_tls, scheme, Bool.false_and]
                rfl
            | true =>
                have key : (keyOf current).scheme = str "https" := by simp [keyOf, tls]
                rw [key] at own
                rw [key, lowers.plain _ (by decide)] at scheme
                rw [use_tls, scheme, own]
                rfl

end Locations

def Call.request (call : Call) (headers : Headers) (retry : Bool) : Sent :=
  ⟨call.method, connect (keyOf call.target), requestTarget call.target, headers, call.body, retry⟩

/-- A request that a call makes, with the headers its client has for it then. -/
structure Goes (client : HTTPClient) (call : Call) (extra : Headers) (sent : Sent) : Prop where
  method : sent.method = call.method
  body : sent.body = call.body
  connection : sent.connection = connect (keyOf call.target)
  headers : client.sentHeaders process call.method call.target call.body extra = .ok sent.headers

def Wire.opens (wire : Wire) (url : XRootDURL) : Bool :=
  (wire.client.pool.connections.get? (keyOf url)).isSome ||
    (wire.attempts.head?.bind Attempt.unopened).isNone

/-- The requests of one call: one and its retry, on a connection for its endpoint. There is
one if its headers can be made and the connection. -/
structure Made (wire : Wire) (call : Call) (extra : Headers) (requests : List Sent) : Prop where
  goes : ∀ sent ∈ requests, Goes process wire.client call extra sent
  opened : requests ≠ [] → wire.opens call.target
  fresh : (requests.filter fun sent => !sent.retry).length ≤ 1
  some : wire.opens call.target → ∀ headers,
    wire.client.sentHeaders process call.method call.target call.body extra = .ok headers →
    requests ≠ []

section Requests

variable {python process installation netlocs} {headers extra : Headers} {retry : Bool}
  {call : Call} {options : Options}

theorem attempt_log (wire : Wire) :
    match attempt call.method call.target call.body headers retry wire with
    | .ok _ after => after.log = wire.log ++ [call.request headers retry] ∧ wire.opens call.target
    | .error _ after => after.log = wire.log ∧ wire.opens call.target = false := by
  unfold attempt Wire.opens Call.request
  have made := Pool.connection_made wire.client.pool (keyOf call.target)
  dsimp only
  cases pooled : wire.client.pool.connections.get? (keyOf call.target) with
  | some connection =>
      dsimp only
      rw [made]
      exact ⟨rfl, rfl⟩
  | none =>
      cases next : wire.attempts.head? with
      | none =>
          dsimp only [Option.getD_none]
          rw [made]
          exact ⟨rfl, rfl⟩
      | some first =>
          dsimp only [Option.getD_some]
          cases refused : first.unopened with
          | some raised => simp [refused]
          | none =>
              dsimp only
              rw [made]
              exact ⟨rfl, by simp [refused]⟩

/-- A computation that leaves something of the wire as it is. -/
def Keeps {Value Part : Type} (view : Wire → Part) (act : Act Value) : Prop :=
  ∀ wire, view (final (act wire)) = view wire

section Keeping

variable {Value Other Part : Type} {view : Wire → Part}

theorem keeps_lift (value : Raises Value) : Keeps view (lift value) := by
  intro wire
  cases value with
  | ok value => rfl
  | error raised => rfl

theorem keeps_pure (value : Value) : Keeps view (pure value) := fun _ => rfl

theorem keeps_throw (raised : Exception) : Keeps view (throw raised : Act Value) := fun _ => rfl

theorem keeps_get : Keeps view (get : Act Wire) := fun _ => rfl

theorem keeps_bind {first : Act Value} {rest : Value → Act Other} (before : Keeps view first)
    (after : ∀ value, Keeps view (rest value)) : Keeps view (first >>= rest) := by
  intro wire
  have start := before wire
  rw [run_bind]
  cases outcome : first wire with
  | ok value middle =>
      rw [outcome] at start
      exact (after value middle).trans start
  | error raised middle =>
      rw [outcome] at start
      exact start

theorem keeps_drain (response : HttpResponse) : Keeps view (drain response) := by
  unfold drain
  split
  · exact keeps_throw _
  · exact keeps_pure _

theorem keeps_settle (call : Call) (response : HttpResponse) :
    Keeps view (settle python netlocs options call response) := by
  have finish : Keeps view (settle.finish options call response) := by
    unfold settle.finish
    split
    · exact keeps_pure _
    · exact keeps_bind (keeps_drain response) fun _ => keeps_throw _
  unfold settle
  split
  · rename_i location _
    by_cases followed : response.status ∈ redirects
    · rw [if_pos followed]
      apply keeps_bind (keeps_drain response)
      intro _
      apply keeps_bind (keeps_lift _)
      intro target
      exact keeps_pure _
    · rw [if_neg followed]
      exact finish
  · exact finish

theorem keeps_ask (url : XRootDURL) (response : HttpResponse)
    (apart : ∀ wire config pool,
      view { wire with client := { wire.client with config := config, pool := pool } } = view wire) :
    Keeps view (askForCredentials python installation url response) := by
  intro wire
  unfold askForCredentials
  simp only [run_bind, run_get]
  generalize supplied installation wire.client.config url.host _ = given
  cases given with
  | error raised => rfl
  | ok config =>
      cases config with
      | none => rfl
      | some config => exact apart wire config .empty

theorem keeps_answered (call : Call) (response : HttpResponse)
    (apart : ∀ wire config pool,
      view { wire with client := { wire.client with config := config, pool := pool } } = view wire) :
    Keeps view (if response.status = 401 ∧ call.asked = false then do
        if ← askForCredentials python installation call.target response then
          drain response
          return .inl { call with asked := true }
        else settle python netlocs options { call with asked := true } response
      else settle python netlocs options call response) := by
  split_ifs
  · apply keeps_bind (keeps_ask call.target response apart)
    intro granted
    cases granted with
    | true => exact keeps_bind (keeps_drain response) fun _ => keeps_pure _
    | false => exact keeps_settle _ response
  · exact keeps_settle call response

end Keeping

theorem goes_request {client : HTTPClient}
    (known : client.sentHeaders process call.method call.target call.body extra = .ok headers)
    (retry : Bool) : Goes process client call extra (call.request headers retry) :=
  ⟨rfl, rfl, rfl, known⟩

theorem once_made (wire : Wire) (call : Call) (extra : Headers) : ∃ requests,
    (final (once python process call.method call.target call.body extra wire)).log =
      wire.log ++ requests ∧ Made process wire call extra requests := by
  unfold once
  simp only [run_bind, run_get]
  cases known : wire.client.sentHeaders process call.method call.target call.body extra with
  | error raised =>
      refine ⟨[], (List.append_nil _).symm, nofun, nofun, by simp, fun _ headers same => ?_⟩
      rw [known] at same
      cases same
  | ok headers =>
      simp only [lift, run_pure]
      have goes := goes_request known
      have first := @attempt_log headers false call wire
      cases outcome : attempt call.method call.target call.body headers false wire with
      | error raised after =>
          rw [outcome] at first
          refine ⟨[], by simpa using first.1, nofun, nofun, by simp, fun opens => ?_⟩
          rw [first.2] at opens
          cases opens
      | ok answer middle =>
          rw [outcome] at first
          have alone : Made process wire call extra [call.request headers false] :=
            ⟨by simpa using goes false, fun _ => first.2, by simp [Call.request],
              fun _ _ _ => List.cons_ne_nil _ _⟩
          have twice : Made process wire call extra
              [call.request headers false, call.request headers true] :=
            ⟨by simpa using ⟨goes false, goes true⟩, fun _ => first.2, by simp [Call.request],
              fun _ _ _ => List.cons_ne_nil _ _⟩
          cases answer with
          | response response => exact ⟨_, first.1, alone⟩
          | broken timedOut why =>
              dsimp only
              by_cases again : repeatable python call.method headers = true
              · rw [if_pos again]
                simp only [run_bind]
                have second := @attempt_log headers true call middle
                cases later : attempt call.method call.target call.body headers true middle with
                | error raised after =>
                    rw [later] at second
                    exact ⟨_, second.1.trans first.1, alone⟩
                | ok answer after =>
                    rw [later] at second
                    dsimp only at first second
                    rw [first.1, List.append_assoc] at second
                    refine ⟨_, ?_, twice⟩
                    cases answer with
                    | response response => exact second.1
                    | broken timedOut why => exact second.1
              · rw [if_neg again]
                exact ⟨_, first.1, alone⟩

theorem turn_made (wire : Wire) (call : Call) (options : Options) : ∃ requests,
    (final (turn python process installation netlocs options call wire)).log =
      wire.log ++ requests ∧ Made process wire call options.headers requests := by
  obtain ⟨requests, log, made⟩ := @once_made python process wire call options.headers
  refine ⟨requests, ?_, made⟩
  rw [← log, turn, run_bind]
  cases outcome : once python process call.method call.target call.body options.headers wire with
  | error raised middle => rfl
  | ok response middle =>
      exact keeps_answered call response (fun _ _ _ => rfl) middle

theorem attempt_signer :
    Keeps (fun wire => wire.client.signer)
      (attempt call.method call.target call.body headers retry) := by
  intro wire
  unfold attempt
  dsimp only
  split
  · rfl
  · rfl

theorem turn_signer : Keeps (fun wire => wire.client.signer)
    (turn python process installation netlocs options call) := by
  apply keeps_bind _ fun response => keeps_answered call response fun _ _ _ => rfl
  apply keeps_bind keeps_get
  intro wire
  apply keeps_bind (keeps_lift _)
  intro headers
  apply keeps_bind attempt_signer
  intro answer
  cases answer with
  | response response => exact keeps_pure _
  | broken timedOut why =>
      dsimp only
      split_ifs
      · apply keeps_bind attempt_signer
        intro answer
        cases answer with
        | response response => exact keeps_pure _
        | broken timedOut why => exact keeps_throw _
      · exact keeps_throw _

end Requests

/-- A call follows another where the credential was given, or to where a Location leads;
it asks the same, or for a GET without a body. -/
structure Follows (call next : Call) : Prop where
  place : (next.target = call.target ∧ next.trail = call.trail) ∨
    ∃ location, location ≠ [] ∧ redirect python netlocs call.target location = .ok next.target ∧
      next.trail = call.trail ++ [location]
  asks : (next.method = call.method ∧ next.body = call.body) ∨
    next.method = str "GET" ∧ next.body = none

/-- The calls that `open` makes and what it finds when it makes them. -/
def course (options : Options) : Nat → Call → Wire → List (Call × Wire)
  | 0, _, _ => []
  | fuel + 1, call, wire => (call, wire) ::
      match turn python process installation netlocs options call wire with
      | .ok (.inl next) after => course options fuel next after
      | _ => []

section Course

variable {python process installation netlocs} {call next : Call} {options : Options}
  {wire after : Wire}

theorem settle_follows {response : HttpResponse}
    (led : settle python netlocs options call response wire = .ok (.inl next) after) :
    Follows python netlocs call next := by
  have finished : settle.finish options call response wire ≠ .ok (.inl next) after := by
    intro same
    unfold settle.finish at same
    cases checked : checkStatus response call.target options.expect options.errors with
    | none =>
        rw [checked] at same
        cases same
    | some raised =>
        rw [checked] at same
        obtain ⟨_, _, _, thrown⟩ := bind_returns same
        cases thrown
  unfold settle at led
  cases given : truthy response.location with
  | none =>
      rw [given] at led
      exact absurd led finished
  | some location =>
      rw [given] at led
      dsimp only at led
      have some : location ≠ [] := by
        obtain ⟨text, -, found⟩ := Option.bind_eq_some_iff.mp given
        split_ifs at found with none
        cases found
        exact none
      by_cases followed : response.status ∈ redirects
      · rw [if_pos followed] at led
        obtain ⟨_, _, _, led⟩ := bind_returns led
        obtain ⟨target, middle, found, led⟩ := bind_returns led
        cases where_ : redirect python netlocs call.target location with
        | error raised =>
            rw [where_] at found
            cases found
        | ok url =>
            rw [where_] at found
            cases found
            cases led
            by_cases seeOther : response.status = 303
            · rw [if_pos seeOther]
              exact ⟨.inr ⟨location, some, where_, rfl⟩, .inr ⟨rfl, rfl⟩⟩
            · rw [if_neg seeOther]
              exact ⟨.inr ⟨location, some, where_, rfl⟩, .inl ⟨rfl, rfl⟩⟩
      · rw [if_neg followed] at led
        exact absurd led finished

theorem turn_follows (led : turn python process installation netlocs options call wire =
    .ok (.inl next) after) : Follows python netlocs call next := by
  obtain ⟨response, middle, -, led⟩ := bind_returns led
  by_cases challenged : response.status = 401 ∧ call.asked = false
  · rw [if_pos challenged] at led
    obtain ⟨granted, middle, -, led⟩ := bind_returns led
    cases granted with
    | true =>
        obtain ⟨_, _, _, led⟩ := bind_returns led
        cases led
        exact ⟨.inl ⟨rfl, rfl⟩, .inl ⟨rfl, rfl⟩⟩
    | false =>
        have apart : settle python netlocs options { call with asked := true } response middle =
          .ok (.inl next) after := led
        have follows := settle_follows apart
        exact ⟨follows.place, follows.asks⟩
  · rw [if_neg challenged] at led
    exact settle_follows led

theorem course_all {Holds : Call → Wire → Prop} {fuel : Nat} (start : Holds call wire)
    (step : ∀ call wire next after,
      turn python process installation netlocs options call wire = .ok (.inl next) after →
      Holds call wire → Holds next after) :
    ∀ stop ∈ course python process installation netlocs options fuel call wire,
      Holds stop.1 stop.2 := by
  induction fuel generalizing call wire with
  | zero => exact fun stop member => absurd member List.not_mem_nil
  | succ fuel induction =>
      rw [course, List.forall_mem_cons]
      refine ⟨start, ?_⟩
      cases outcome : turn python process installation netlocs options call wire with
      | error raised after => exact fun stop member => absurd member List.not_mem_nil
      | ok value after =>
          cases value with
          | inr response => exact fun stop member => absurd member List.not_mem_nil
          | inl next => exact induction (step call wire next after outcome start)

theorem course_secured (lowers : python.Lowers) {fuel : Nat}
    (start : useTls call.target = secured python call.trail) :
    ∀ stop ∈ course python process installation netlocs options fuel call wire,
      useTls stop.1.target = secured python stop.1.trail := by
  apply @course_all python process _ installation netlocs call options wire
    (fun call _ => useTls call.target = secured python call.trail) fuel start
  intro call wire next after outcome known
  rcases (turn_follows outcome).place with ⟨target, trail⟩ | ⟨location, some, led, trail⟩
  · rw [target, trail, known]
  · rw [redirect_tls lowers some led, trail, known, secured, secured, List.foldl_append]
    rfl

/-- Every request is one of a call, every call that can be made makes one, and no more of
them are new than the turns there are. -/
theorem open_from_made (options : Options) (limit : Text) (fuel : Nat) (call : Call)
    (wire : Wire) : ∃ requests,
    (final (openFrom python process installation netlocs options limit fuel call wire)).log =
      wire.log ++ requests ∧
    (∀ sent ∈ requests, ∃ stop ∈ course python process installation netlocs options fuel call wire,
      Goes process stop.2.client stop.1 options.headers sent ∧ stop.2.opens stop.1.target) ∧
    (∀ stop ∈ course python process installation netlocs options fuel call wire,
      stop.2.opens stop.1.target → ∀ headers,
      stop.2.client.sentHeaders process stop.1.method stop.1.target stop.1.body options.headers =
        .ok headers →
      ∃ sent ∈ requests, Goes process stop.2.client stop.1 options.headers sent) ∧
    (requests.filter fun sent => !sent.retry).length ≤ fuel := by
  induction fuel generalizing call wire with
  | zero =>
      exact ⟨[], (List.append_nil _).symm, nofun, fun stop member => absurd member List.not_mem_nil,
        le_rfl⟩
  | succ fuel induction =>
      obtain ⟨requests, log, made⟩ := @turn_made python process _ installation netlocs wire call options
      have own : wire.opens call.target → ∀ headers,
          wire.client.sentHeaders process call.method call.target call.body options.headers =
            .ok headers →
          ∃ sent ∈ requests, Goes process wire.client call options.headers sent := by
        intro opens headers known
        obtain ⟨sent, member⟩ := List.exists_mem_of_ne_nil _ (made.some opens headers known)
        exact ⟨sent, member, made.goes sent member⟩
      have mine : ∀ sent ∈ requests,
          Goes process wire.client call options.headers sent ∧ wire.opens call.target :=
        fun sent member => ⟨made.goes sent member, made.opened (List.ne_nil_of_mem member)⟩
      rw [openFrom, run_bind, course]
      -- a turn that does not lead on ends the course with its own requests
      have ended : ∀ rest : List (Call × Wire), rest = [] →
          (∀ sent ∈ requests, ∃ stop ∈ (call, wire) :: rest,
            Goes process stop.2.client stop.1 options.headers sent ∧ stop.2.opens stop.1.target) ∧
          (∀ stop ∈ (call, wire) :: rest, stop.2.opens stop.1.target → ∀ headers,
            stop.2.client.sentHeaders process stop.1.method stop.1.target stop.1.body
              options.headers = .ok headers →
            ∃ sent ∈ requests, Goes process stop.2.client stop.1 options.headers sent) ∧
          (requests.filter fun sent => !sent.retry).length ≤ fuel + 1 := by
        intro rest none
        subst none
        refine ⟨fun sent member => ⟨_, List.mem_cons_self, mine sent member⟩, ?_, ?_⟩
        · rw [List.forall_mem_singleton]
          exact own
        · exact made.fresh.trans (Nat.le_add_left 1 fuel)
      cases outcome : turn python process installation netlocs options call wire with
      | error raised after =>
          rw [outcome] at log
          exact ⟨requests, log, ended [] rfl⟩
      | ok value after =>
          rw [outcome] at log
          cases value with
          | inr response => exact ⟨requests, log, ended [] rfl⟩
          | inl next =>
              obtain ⟨more, later, goes, some, few⟩ := induction next after
              refine ⟨requests ++ more, ?_, ?_, ?_, ?_⟩
              · rw [← List.append_assoc]
                exact log ▸ later
              · intro sent member
                rcases List.mem_append.mp member with early | late
                · exact ⟨_, List.mem_cons_self, mine sent early⟩
                · obtain ⟨stop, listed, known⟩ := goes sent late
                  exact ⟨stop, List.mem_cons_of_mem _ listed, known⟩
              · rw [List.forall_mem_cons]
                constructor
                · intro opens headers known
                  obtain ⟨sent, member, goes⟩ := own opens headers known
                  exact ⟨sent, List.mem_append_left _ member, goes⟩
                · intro stop listed opens headers known
                  obtain ⟨sent, member, goes⟩ := some stop listed opens headers known
                  exact ⟨sent, List.mem_append_right _ member, goes⟩
              · have fresh := made.fresh
                rw [List.filter_append, List.length_append]
                omega

end Course

/-- Where a credential for a call comes from: the URL or the settings, the caller's own
headers, or the signer. -/
inductive Credential (client : HTTPClient) (call : Call) (extra : Headers) : Prop
  | token (token : Text) (there : token ≠ [])
      (found : bearerToken process client.config call.target = .ok (some token))
  | given (named : Names extra authorization)
  | signed (signer : Signer) (headers added : Headers) (there : client.signer = some signer)
      (made : headersFor process client.config call.target extra = .ok headers)
      (signs : signer call.method call.target headers call.body = .ok added)
      (named : Names added authorization)

theorem names_set (headers : Headers) (key value name : Text) :
    Names (headers.set key value) name ↔ Names headers name ∨ folded key = folded name := by
  unfold Names
  simp only [Dict.mem_keys_set, or_and_right, exists_or, exists_eq_left]
  exact or_comm

theorem names_update (headers : Headers) (entries : List (Text × Text)) (name : Text) :
    Names (headers.update entries) name ↔
      Names headers name ∨ ∃ key ∈ entries.map Prod.fst, folded key = folded name := by
  unfold Names
  simp only [Dict.mem_keys_update, or_and_right, exists_or]

theorem headers_for_names {config : Config} {url : XRootDURL} {extra headers : Headers}
    (made : headersFor process config url extra = .ok headers) :
    Names headers authorization ↔
      (∃ token, token ≠ [] ∧ bearerToken process config url = .ok (some token)) ∨
        Names extra authorization := by
  unfold headersFor at made
  cases found : bearerToken process config url with
  | error raised =>
      rw [found] at made
      cases made
  | ok token =>
      rw [found] at made
      cases made
      rw [names_update]
      apply or_congr _ Iff.rfl
      have standing : ¬ Names standingHeaders authorization := by
        unfold Names
        decide
      cases token with
      | none => simpa [truthy] using standing
      | some token =>
          by_cases none : token = []
          · subst none
            simpa [truthy] using standing
          · simp only [truthy, Option.bind_some, if_neg none]
            rw [names_set]
            exact iff_of_true (.inr rfl) ⟨token, none, rfl⟩

theorem credential_iff {client : HTTPClient} {call : Call} {extra headers : Headers}
    (known : client.sentHeaders process call.method call.target call.body extra = .ok headers) :
    Names headers authorization ↔ Credential process client call extra := by
  obtain ⟨given, made, signs⟩ := except_returns known
  have front := headers_for_names process made
  unfold HTTPClient.sign at signs
  cases signer : client.signer with
  | none =>
      rw [signer] at signs
      cases signs
      rw [front]
      constructor
      · rintro (⟨token, some, found⟩ | named)
        · exact .token token some found
        · exact .given named
      · intro credential
        cases credential with
        | token token some found => exact .inl ⟨token, some, found⟩
        | given named => exact .inr named
        | signed other _ _ there =>
            rw [signer] at there
            cases there
  | some signer_ =>
      rw [signer] at signs
      dsimp only at signs
      cases added : signer_ call.method call.target given call.body with
      | error raised =>
          rw [added] at signs
          cases signs
      | ok signed =>
          rw [added] at signs
          cases signs
          rw [names_update, front]
          constructor
          · rintro ((⟨token, some, found⟩ | named) | named)
            · exact .token token some found
            · exact .given named
            · exact .signed signer_ given signed signer made added named
          · intro credential
            cases credential with
            | token token some found => exact .inl (.inl ⟨token, some, found⟩)
            | given named => exact .inl (.inr named)
            | signed other headers more there same signs named =>
                rw [signer] at there
                cases there
                rw [made] at same
                cases same
                rw [added] at signs
                cases signs
                exact .inr named

theorem connect_tls (url : XRootDURL) : (connect (keyOf url)).tls = useTls url := by
  unfold connect keyOf
  cases useTls url with
  | true => rfl
  | false => rfl

/-- The Locations have led a call out of TLS, and its request is sent. -/
structure Astray (extra : Headers) (stop : Call × Wire) : Prop where
  left : secured python stop.1.trail = false
  opens : stop.2.opens stop.1.target
  headers : ∃ headers, stop.2.client.sentHeaders process stop.1.method stop.1.target stop.1.body
    extra = .ok headers

/-- `open` makes no more requests than the limit and one, not counting retries; and one
that begins under TLS carries no credential out of it exactly when there is none for any
URL to which the Locations have led it out of TLS. -/
theorem open_credentials_iff (lowers : python.Lowers) (method : Text) {url : XRootDURL}
    (tls : useTls url = true) (body : Option Bytes) (options : Options) {wire : Wire}
    (fresh : wire.log = []) :
    ((final (open_ python process installation netlocs method url body options wire)).log.filter
      fun sent => !sent.retry).length ≤ (wire.client.config.redirectLimit + 1).toNat ∧
    ((∀ sent ∈ (final (open_ python process installation netlocs method url body options wire)).log,
        Names sent.headers authorization → sent.connection.tls) ↔
      ∀ stop ∈ course python process installation netlocs options
          (wire.client.config.redirectLimit + 1).toNat { method, body, target := url } wire,
        Astray python process options.headers stop →
        ¬ Credential process stop.2.client stop.1 options.headers) := by
  rw [open_, run_bind, run_get]
  dsimp only
  generalize str "more than " ++ _ ++ _ ++ _ = limit
  obtain ⟨requests, log, goes, some, few⟩ := open_from_made options limit
    (wire.client.config.redirectLimit + 1).toNat { method, body, target := url } wire
  have places := @course_secured python process _ installation netlocs
    { method, body, target := url } options wire lowers
    (wire.client.config.redirectLimit + 1).toNat tls
  rw [fresh, List.nil_append] at log
  rw [log]
  refine ⟨few, ?_, ?_⟩
  · intro kept stop listed astray credential
    obtain ⟨headers, known⟩ := astray.headers
    obtain ⟨sent, member, going⟩ := some stop listed astray.opens headers known
    have carries := (credential_iff process going.headers).mpr credential
    have secure := kept sent member carries
    rw [going.connection, connect_tls, places stop listed, astray.left] at secure
    cases secure
  · intro bare sent member carries
    obtain ⟨stop, listed, going, opens⟩ := goes sent member
    have credential := (credential_iff process going.headers).mp carries
    rw [going.connection, connect_tls, places stop listed]
    by_contra left
    exact bare stop listed ⟨Bool.eq_false_of_not_eq_true left, opens, _, going.headers⟩ credential

/-- `https://a/x`. -/
def secureUrl : XRootDURL where
  scheme := str "https"
  host := str "a"
  port := 443
  path := str "/x"

/-- A client with a token, and a server that redirects it once. -/
def redirected (location : Text) : Wire where
  client := ⟨{ token := some (str "T") }, .empty, none⟩
  attempts := [⟨none, .response { status := 307, location := some location }⟩,
    ⟨none, .response { status := 200 }⟩]

def allNetlocs : Reference.Netlocs := ⟨fun _ => none⟩

theorem redirect_within_tls :
    (final (open_ asciiOnly (.bearer []) (.bare Unit) allNetlocs (str "GET") secureUrl none
      {} (redirected (str "//b/y")))).log.length = 2 ∧
    ∀ sent ∈ (final (open_ asciiOnly (.bearer []) (.bare Unit) allNetlocs (str "GET") secureUrl none
      {} (redirected (str "//b/y")))).log, Names sent.headers authorization → sent.connection.tls := by
  refine ⟨by decide +kernel, ?_⟩
  apply (open_credentials_iff asciiOnly (.bearer []) (.bare Unit) allNetlocs ascii_lowers (str "GET")
    (by decide +kernel) none {} rfl).2.mpr
  intro stop listed astray
  have kept : ∀ stop ∈ course asciiOnly (.bearer []) (.bare Unit) allNetlocs {} 17
      { method := str "GET", body := none, target := secureUrl } (redirected (str "//b/y")),
      secured asciiOnly stop.1.trail = true := by decide +kernel
  have left := astray.left
  rw [kept stop listed] at left
  cases left

/-- An absolute Location with a scheme that does not use TLS takes the token along. -/
theorem token_in_the_clear :
    ¬ ∀ sent ∈ (final (open_ asciiOnly (.bearer []) (.bare Unit) allNetlocs (str "GET") secureUrl none
      {} (redirected (str "http://b/y")))).log,
      Names sent.headers authorization → sent.connection.tls := by
  unfold Names
  decide +kernel

end XRootDClient.Http
