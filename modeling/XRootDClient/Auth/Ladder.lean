import XRootDClient.Config
import XRootDClient.Errors
import XRootDClient.Lib.BigEndian

/-!
# The authentication ladder

A credential is a mechanism name and a body whose exchange is abstract: it
mints a first blob, answers challenges and may yield a session key, changing as
it goes. `select` orders what the server offered by the configured preference;
the generator it returns is the list of rungs still to be tried. A first pass
builds each mechanism from what this installation has; only when none could be
built, and somebody is there to ask, does a second pass ask for the material.
-/

set_option autoImplicit false

namespace XRootDClient.Auth

open Lib Lib.BigEndian

/-- The exchange of one mechanism. Each method returns what the call gives or
raises, and the body as the call leaves it. -/
class Exchange (Body : Type) where
  initial : Body → Except Exception Bytes × Body
  step : Body → Bytes → Except Exception (Option Bytes) × Body
  sessionKey : Body → Option Bytes

structure Credential (Body : Type) where
  name : Text
  body : Body
  deriving DecidableEq

structure Offer where
  name : Text
  params : Text
  deriving DecidableEq

structure Ask where
  reason : Text
  hint : Text
  deriving DecidableEq

/-- A mechanism class: how it builds a credential, what it would ask a person
for, and the settings an answer leads to. -/
structure Mechanism (Body : Type) where
  available : Offer → Config → Text → Text → Except Exception (Option Body)
  missing : Offer → Config → Text → Text → Except Exception (Option Ask)
  using_ : Text → Config → Except Exception Config

/-- The process around the client: the registered mechanisms, whether both
standard streams are a terminal, what a person answers, and the process id. -/
structure Installation (Body : Type) where
  registry : Text → Option (Mechanism Body)
  terminal : Bool
  answerFor : Nat → Ask → Config → Option Text
  pid : Nat

def interactive {Body : Type} (installation : Installation Body) (config : Config) : Bool :=
  config.prompt.getD installation.terminal

/-- The offers of a trailer: every `&P=` followed by at least one character
other than `&`. -/
def parseSecurityTrailer (sec : Text) : List Offer :=
  (((sec.splitOn '&').tail.filter fun part => (str "P=").isPrefixOf part && 2 < part.length).map
    fun part =>
      let (name, _, params) := Text.partition ',' (part.drop 2)
      ⟨Text.strip name, Text.strip params⟩)

inductive Rung (Body : Type)
  | ready (credential : Credential Body)
  | build (name : Text)
  | ask (name : Text)
  deriving DecidableEq

/-- The state of the credential generator: the rungs it has not come to, and
whether an earlier one could be built. -/
structure Ladder (Body : Type) where
  rungs : List (Rung Body)
  found : Bool := false
  offers : Dict Text Offer := ∅
  config : Config := {}
  username : Text := []
  host : Text := []
  deriving DecidableEq

/-- The names offered, in the configured order and then in the server's. -/
def preference (authOrder : List Text) (offers : List Offer) : List Text :=
  let byName := offers.foldl (fun dict offer => dict.set offer.name offer) (∅ : Dict Text Offer)
  let preferred := authOrder.filter fun name => byName.contains name
  preferred ++ (offers.map Offer.name).filter fun name => !preferred.contains name

def select {Body : Type} (sec : Text) (config : Config) (username host : Text) : Ladder Body :=
  let offers := parseSecurityTrailer sec
  let order := preference config.authOrder offers
  { rungs := order.map .build ++ order.map .ask
    offers := offers.foldl (fun dict offer => dict.set offer.name offer) ∅
    config := config
    username := username
    host := host }

section Building

variable {Body : Type} (installation : Installation Body)

def whyNot (mechanism : Mechanism Body) (offer : Offer) (config : Config)
    (username host : Text) : Text :=
  match mechanism.missing offer config username host with
  | .error error => str "no credential material found (" ++ error.describe ++ str ")"
  | .ok (some ask) => ask.reason ++ str "; try: " ++ ask.hint
  | .ok none => str "no credential material found"

def build (mechanism : Mechanism Body) (name : Text) (offer : Offer) (config : Config)
    (username host : Text) (why : Dict Text Text) :
    Option (Credential Body) × Dict Text Text :=
  match mechanism.available offer config username host with
  | .error error => (none, why.set name error.describe)
  | .ok none => (none, why.set name (whyNot mechanism offer config username host))
  | .ok (some body) => (some ⟨name, body⟩, why.erase name)

/-- One question, the settings its answer leads to, and what can be built from
them. Without an answer there are no settings to go on from. -/
def askOnce (mechanism : Mechanism Body) (name : Text) (offer : Offer) (config : Config)
    (username host : Text) (attempt : Nat) (question : Ask) (why : Dict Text Text) :
    Except Exception (Option (Config × Option (Credential Body))) × Dict Text Text :=
  match installation.answerFor attempt question config with
  | none | some [] => (.ok none, why)
  | some answer =>
      match mechanism.using_ answer config with
      | .error error => (.error error, why)
      | .ok trial =>
          let (credential, why) := build mechanism name offer trial username host why
          (.ok (some (trial, credential)), why)

/-- Asks a person for a mechanism's material: one answer, and one more for the
typo in it. -/
def ask (mechanism : Mechanism Body) (name : Text) (offer : Offer) (config : Config)
    (username host : Text) (why : Dict Text Text) :
    Except Exception (Option (Credential Body)) × Dict Text Text :=
  match mechanism.missing offer config username host with
  | .error _ | .ok none => (.ok none, why)
  | .ok (some question) =>
      match askOnce installation mechanism name offer config username host 0 question why with
      | (.error error, why) => (.error error, why)
      | (.ok none, why) => (.ok none, why)
      | (.ok (some (_, some credential)), why) => (.ok (some credential), why)
      | (.ok (some (trial, none)), why) =>
          match mechanism.missing offer trial username host with
          | .error error => (.error error, why)
          | .ok none => (.ok none, why)
          | .ok (some again) =>
              match askOnce installation mechanism name offer config username host 1 again
                why with
              | (.error error, why) => (.error error, why)
              | (.ok none, why) => (.ok none, why)
              | (.ok (some (_, credential)), why) => (.ok credential, why)

/-- What the generator makes of one rung: a credential to yield, or nothing, and
the reasons as they stand then. -/
def Ladder.reach (ladder : Ladder Body) (rung : Rung Body) (why : Dict Text Text) :
    Except Exception (Option (Credential Body)) × Dict Text Text :=
  match rung with
  | .ready credential => (.ok (some credential), why)
  | .build name =>
      match installation.registry name with
      | none => (.ok none, why.set name (str "not supported by this client"))
      | some mechanism =>
          let (credential, why) := build mechanism name
            (ladder.offers.getD name ⟨name, []⟩) ladder.config ladder.username ladder.host why
          (.ok credential, why)
  | .ask name =>
      if ladder.found || !interactive installation ladder.config then (.ok none, why)
      else
        match installation.registry name with
        | none => (.ok none, why)
        | some mechanism =>
            ask installation mechanism name (ladder.offers.getD name ⟨name, []⟩) ladder.config
              ladder.username ladder.host why

/-- The generator after a rung: a rung asked for ends it, and so does an
exception; a rung built is remembered. -/
def Ladder.after (ladder : Ladder Body) (rung : Rung Body) (rest : List (Rung Body))
    (outcome : Except Exception (Option (Credential Body))) : Ladder Body :=
  match outcome, rung with
  | .error _, _ => { ladder with rungs := [] }
  | .ok (some _), .ask _ => { ladder with rungs := [] }
  | .ok (some _), .build _ => { ladder with rungs := rest, found := true }
  | _, _ => { ladder with rungs := rest }

/-- A mechanism name that fits the four bytes `kXR_auth` has for it. -/
def Fits (name : Text) : Prop := (Text.encodeUtf8 name).length ≤ 4

/-- What a mechanism class documents: a wire name of at most four bytes, blobs
that fit a frame, and settings from every answer that somebody gives to what it
asked for, which can be accounted for in their turn. The process id fits its
field of `kXR_login`. -/
structure Presentable [Exchange Body] (installation : Installation Body) : Prop where
  named : ∀ name mechanism, installation.registry name = some mechanism → Fits name
  settled : ∀ name mechanism, installation.registry name = some mechanism →
    ∀ offer config username host wanted, interactive installation config = true →
      mechanism.missing offer config username host = .ok (some wanted) →
      ∀ attempt question answer, installation.answerFor attempt question config = some answer →
        ∃ trial, mechanism.using_ answer config = .ok trial ∧
          ∃ found, mechanism.missing offer trial username host = .ok found
  opens : ∀ (body : Body) blob, (Exchange.initial body).1 = .ok blob →
    blob.length ≤ 0x7FFFFFFF
  answers : ∀ (body : Body) challenge blob, (Exchange.step body challenge).1 = .ok (some blob) →
    blob.length ≤ 0x7FFFFFFF
  pid : installation.pid < 2 ^ 31

/-- A rung whose credential, if it comes to one, has a name that fits. -/
def Rung.Fits : Rung Body → Prop
  | .ready credential => Auth.Fits credential.name
  | _ => True

theorem build_name {mechanism : Mechanism Body} {name : Text} {offer : Offer} {config : Config}
    {username host : Text} {why : Dict Text Text} {credential : Credential Body}
    (built : (build mechanism name offer config username host why).1 = some credential) :
    credential.name = name := by
  unfold build at built
  split at built
  · cases built
  · cases built
  · cases built
    rfl

theorem ask_once_presentable [Exchange Body] (presentable : Presentable installation)
    {mechanism : Mechanism Body} {name : Text} (known : installation.registry name = some mechanism)
    {offer : Offer} {config : Config} {username host : Text} {wanted : Ask}
    (asking : interactive installation config = true)
    (wants : mechanism.missing offer config username host = .ok (some wanted))
    (attempt : Nat) (question : Ask) (why : Dict Text Text) :
    ∃ answered, (askOnce installation mechanism name offer config username host attempt question
      why).1 = .ok answered ∧ ∀ trial yielded, answered = some (trial, yielded) →
        (∃ found, mechanism.missing offer trial username host = .ok found) ∧
        ∀ credential, yielded = some credential → credential.name = name := by
  unfold askOnce
  split
  · exact ⟨none, rfl, by simp⟩
  · exact ⟨none, rfl, by simp⟩
  · next answer _ gave =>
      obtain ⟨trial, used, accounted⟩ := presentable.settled name mechanism known offer config
        username host wanted asking wants attempt question answer gave
      rw [used]
      refine ⟨_, rfl, fun other yielded same => ?_⟩
      simp only [Option.some.injEq, Prod.mk.injEq] at same
      obtain ⟨rfl, rfl⟩ := same
      exact ⟨accounted, fun credential built => build_name built⟩

theorem ask_presentable [Exchange Body] (presentable : Presentable installation)
    {mechanism : Mechanism Body} {name : Text} (known : installation.registry name = some mechanism)
    (offer : Offer) {config : Config} (username host : Text)
    (asking : interactive installation config = true) (why : Dict Text Text) :
    ∃ yielded, (ask installation mechanism name offer config username host why).1 = .ok yielded ∧
      ∀ credential, yielded = some credential → credential.name = name := by
  unfold ask
  split
  · exact ⟨none, rfl, by simp⟩
  · exact ⟨none, rfl, by simp⟩
  · next question wants =>
      obtain ⟨answered, first, named⟩ := ask_once_presentable installation presentable known asking
        wants 0 question why
      generalize askOnce installation mechanism name offer config username host 0 question why =
        result at first ⊢
      obtain ⟨result, left⟩ := result
      dsimp only at first
      subst first
      match answered, named with
      | none, _ => exact ⟨none, rfl, by simp⟩
      | some (trial, some credential), named =>
          refine ⟨_, rfl, fun other same => ?_⟩
          cases same
          exact (named trial _ rfl).2 credential rfl
      | some (trial, none), named =>
          obtain ⟨⟨again, missing⟩, -⟩ := named trial none rfl
          dsimp only
          rw [missing]
          cases again with
          | none => exact ⟨none, rfl, by simp⟩
          | some question =>
              obtain ⟨answered, second, named⟩ := ask_once_presentable installation presentable known
                asking wants 1 question left
              dsimp only
              generalize askOnce installation mechanism name offer config username host 1 question
                left = result at second ⊢
              obtain ⟨result, last⟩ := result
              dsimp only at second
              subst second
              match answered, named with
              | none, _ => exact ⟨none, rfl, by simp⟩
              | some (trial, credential), named =>
                  refine ⟨credential, rfl, fun other same => ?_⟩
                  subst same
                  exact (named trial _ rfl).2 other rfl

/-- Every rung of a presentable installation is come to without an exception, and
what it yields has a name that fits. -/
theorem reach_presentable [Exchange Body] (presentable : Presentable installation)
    (ladder : Ladder Body) (rung : Rung Body) (why : Dict Text Text) (fits : rung.Fits) :
    ∃ yielded, (ladder.reach installation rung why).1 = .ok yielded ∧
      ∀ credential, yielded = some credential → Fits credential.name := by
  unfold Ladder.reach
  cases rung with
  | ready credential => exact ⟨_, rfl, by rintro _ ⟨⟩; exact fits⟩
  | build name =>
      dsimp only
      cases known : installation.registry name with
      | none => exact ⟨none, rfl, by simp⟩
      | some mechanism =>
          refine ⟨_, rfl, fun credential built => ?_⟩
          rw [build_name built]
          exact presentable.named name mechanism known
  | ask name =>
      dsimp only
      split
      · exact ⟨none, rfl, by simp⟩
      · next silent =>
          have asking : interactive installation ladder.config = true := by
            simp only [Bool.or_eq_true, Bool.not_eq_true', not_or, Bool.not_eq_false] at silent
            exact silent.2
          cases known : installation.registry name with
          | none => exact ⟨none, rfl, by simp⟩
          | some mechanism =>
              obtain ⟨yielded, done, names⟩ := ask_presentable installation presentable known
                (ladder.offers.getD name ⟨name, []⟩) ladder.username ladder.host asking why
              refine ⟨yielded, done, fun credential same => ?_⟩
              rw [names credential same]
              exact presentable.named name mechanism known

end Building

/-- A mechanism with one blob and no second round, as `unix` and `host` are. -/
structure OneShot where
  blob : Bytes
  key : Option Bytes := none
  short : blob.length ≤ 0x7FFFFFFF := by decide
  deriving DecidableEq

instance : Exchange OneShot where
  initial body := (.ok body.blob, body)
  step body _ := (.ok none, body)
  sessionKey body := body.key

/-- An installation with no mechanism of its own and nobody to ask. -/
def Installation.bare (Body : Type) : Installation Body where
  registry _ := none
  terminal := false
  answerFor _ _ _ := none
  pid := 1

end XRootDClient.Auth
