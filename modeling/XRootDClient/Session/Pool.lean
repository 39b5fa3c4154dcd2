import Mathlib.Algebra.Order.Ring.Rat
import XRootDClient.Config
import XRootDClient.Lib.BigEndian
import XRootDClient.Lib.Dict
import XRootDClient.Lib.Repr

/-!
# The pool of idle sessions

Logged-in sessions that nobody uses, filed under the server they are connected to and a
digest of whoever they are logged in as. A session is a number here; whether it is closed
is asked of the caller's world. The digest, the table of printable characters and
`str.lower` are given functions.
-/

set_option autoImplicit false

namespace XRootDClient.Routing

open Lib Lib.BigEndian

structure Builtins where
  lower : Text → Text
  printable : Char → Bool
  sha256 : Bytes → Text

structure XRootDURL where
  scheme : Text := str "root"
  host : Text := []
  port : Int := 1094
  username : Text := []
  deriving DecidableEq

namespace XRootDURL

def tlsSchemes : List Text := [str "roots", str "xroots", str "https", str "davs", str "s3"]

def useTls (url : XRootDURL) : Bool := url.scheme ∈ tlsSchemes

/-- `url.evolve(scheme=..., host=..., port=...)`; a URL is made with scheme and host in
lower case. -/
def evolve (python : Builtins) (scheme host : Text) (port : Int) (url : XRootDURL) : XRootDURL :=
  { url with scheme := python.lower scheme, host := python.lower host, port }

end XRootDURL

section Keys

variable (python : Builtins)

/-- `url.username or config.username`. -/
def loginName (url : XRootDURL) (config : Config) : Text :=
  if url.username = [] then config.username else url.username

def identityFields (config : Config) : List Text :=
  [Repr.text python.printable config.username,
   Repr.optional python.printable config.token,
   Repr.optional python.printable config.tokenFile,
   Repr.optional python.printable config.keytab,
   Repr.optional python.printable config.proxy,
   Repr.optional python.printable config.caPath,
   Repr.optional python.printable config.caFile,
   Repr.tuple python.printable config.authOrder,
   Repr.truth config.verifyTls,
   Repr.truth config.requireTls]

def identity (url : XRootDURL) (config : Config) : Text :=
  python.sha256 (Text.encodeUtf8 (Repr.text python.printable (loginName url config)) ++
    (identityFields python config).flatMap fun field => 0 :: Text.encodeUtf8 field)

structure Key where
  scheme : Text
  host : Text
  port : Int
  identity : Text
  deriving DecidableEq

def key (url : XRootDURL) (config : Config) : Key where
  scheme := if url.useTls || config.requireTls then str "roots" else str "root"
  host := url.host
  port := url.port
  identity := identity python url config

end Keys

abbrev Bucket := List (ℚ × Nat)

abbrev Idle := Dict Key Bucket

namespace Idle

def bucket (idle : Idle) (place : Key) : Bucket := idle.getD place []

def pooled (idle : Idle) : List Nat := idle.entries.flatMap fun entry => entry.2.map Prod.snd

/-- The loop of `acquire`, over a bucket with its newest session first: the session it
stops at, the stale ones it passed, and what it left. -/
def popped (closed : Nat → Bool) (cutoff : ℚ) : Bucket → Option Nat × List Nat × Bucket
  | [] => (none, [], [])
  | (since, sid) :: rest =>
      if closed sid then popped closed cutoff rest
      else if since < cutoff then
        let later := popped closed cutoff rest
        (later.1, sid :: later.2.1, later.2.2)
      else (some sid, [], rest)

structure Acquired where
  found : Option Nat
  stale : List Nat
  idle : Idle

variable (python : Builtins) (closed : Nat → Bool) (now : ℚ)

def acquire (url : XRootDURL) (config : Config) (idle : Idle) : Acquired :=
  if config.poolSize ≤ 0 then ⟨none, [], idle⟩
  else
    let place := key python url config
    let taken := popped closed (now - config.poolIdleTtl) (idle.bucket place).reverse
    ⟨taken.1, taken.2.1,
      if taken.2.2 = [] then idle.erase place else idle.set place taken.2.2.reverse⟩

def fresh (place : Key) (config : Config) (idle : Idle) : Bucket :=
  (idle.bucket place).filter fun entry => now - config.poolIdleTtl ≤ entry.1

def expired (place : Key) (config : Config) (idle : Idle) : Bucket :=
  (idle.bucket place).filter fun entry => entry.1 < now - config.poolIdleTtl

def accepts (sid : Nat) (url : XRootDURL) (config : Config) (idle : Idle) : Bool :=
  !(config.poolSize ≤ 0 || closed sid) &&
    ((idle.fresh now (key python url config) config).length : Int) < config.poolSize

structure Released where
  kept : Bool
  expired : List Nat
  idle : Idle

def release (sid : Nat) (url : XRootDURL) (config : Config) (idle : Idle) : Released :=
  if config.poolSize ≤ 0 || closed sid then ⟨false, [], idle⟩
  else
    let place := key python url config
    let bucket := idle.fresh now place config
    let dead := (idle.expired now place config).map Prod.snd
    if config.poolSize ≤ bucket.length then ⟨false, dead, idle.set place bucket⟩
    else ⟨true, dead, idle.set place (bucket ++ [(now, sid)])⟩

/-- The pool once the expired sessions of one place are dropped. -/
def swept (place : Key) (config : Config) (idle : Idle) : Idle :=
  idle.set place (idle.fresh now place config)

variable {python closed now}

theorem pooled_set (idle : Idle) (place : Key) (bucket : Bucket) :
    (pooled (idle.set place bucket)).Perm (bucket.map Prod.snd ++ pooled (idle.erase place)) :=
  (Dict.set_perm idle place bucket).flatMap_right _

theorem pooled_split (idle : Idle) (place : Key) :
    idle.pooled.Perm ((idle.bucket place).map Prod.snd ++ pooled (idle.erase place)) := by
  unfold bucket Dict.getD
  cases found : idle.get? place with
  | none =>
      rw [Dict.erase_absent idle found]
      exact List.Perm.refl _
  | some bucket => exact (Dict.entries_perm found).flatMap_right _

theorem pooled_swept (place : Key) (config : Config) (idle : Idle) :
    idle.pooled.Perm ((idle.expired now place config).map Prod.snd ++
      (idle.swept now place config).pooled) := by
  have parted : ((idle.bucket place).map Prod.snd).Perm
      ((idle.expired now place config).map Prod.snd ++
        (idle.fresh now place config).map Prod.snd) := by
    have halves := (List.filter_append_perm (fun entry : ℚ × Nat =>
      decide (entry.1 < now - config.poolIdleTtl)) (idle.bucket place)).symm.map Prod.snd
    rw [List.map_append] at halves
    simpa only [expired, fresh, ← not_lt, decide_not] using halves
  have written := pooled_set idle place (idle.fresh now place config)
  have before := (pooled_split idle place).trans (parted.append_right _)
  rw [List.append_assoc] at before
  exact before.trans (written.symm.append_left _)

/-- The loop of `acquire` takes a piece off the bucket and stops at an open session. -/
theorem popped_takes (cutoff : ℚ) (bucket : Bucket) :
    ∃ passed, bucket.map Prod.snd = passed ++ (popped closed cutoff bucket).1.toList ++
        (popped closed cutoff bucket).2.2.map Prod.snd ∧
      (∀ sid ∈ (popped closed cutoff bucket).2.1, sid ∈ passed) ∧
      ∀ sid, (popped closed cutoff bucket).1 = some sid → closed sid = false := by
  induction bucket with
  | nil => exact ⟨[], rfl, fun sid member => member, fun sid none => by cases none⟩
  | cons entry rest induction =>
      obtain ⟨since, sid⟩ := entry
      obtain ⟨passed, shape, stale, opened⟩ := induction
      rw [popped]
      split_ifs with dead old
      · refine ⟨sid :: passed, ?_, ?_, opened⟩
        · rw [List.map_cons, shape]
          rfl
        · intro other member
          exact List.mem_cons_of_mem _ (stale other member)
      · refine ⟨sid :: passed, ?_, ?_, opened⟩
        · rw [List.map_cons, shape]
          rfl
        · intro other member
          rcases List.mem_cons.mp member with rfl | member
          · exact List.mem_cons_self
          · exact List.mem_cons_of_mem _ (stale other member)
      · refine ⟨[], rfl, fun other member => member, ?_⟩
        intro other same
        cases same
        exact Bool.eq_false_iff.mpr dead

/-- `acquire` takes what it finds out of the pool, with the stale sessions it passed. -/
theorem acquire_takes (url : XRootDURL) (config : Config) (idle : Idle) :
    ∃ passed, idle.pooled.Perm (passed ++ (idle.acquire python closed now url config).found.toList ++
        (idle.acquire python closed now url config).idle.pooled) ∧
      (∀ sid ∈ (idle.acquire python closed now url config).stale, sid ∈ passed) ∧
      ∀ sid, (idle.acquire python closed now url config).found = some sid → closed sid = false := by
  unfold acquire
  by_cases off : config.poolSize ≤ 0
  · rw [if_pos off]
    exact ⟨[], List.Perm.refl _, fun sid member => member, fun sid none => by cases none⟩
  · rw [if_neg off]
    obtain ⟨passed, shape, stale, opened⟩ := @popped_takes closed
      (now - config.poolIdleTtl) (idle.bucket (key python url config)).reverse
    dsimp only
    generalize popped closed (now - config.poolIdleTtl)
      (idle.bucket (key python url config)).reverse = taken at shape stale opened ⊢
    refine ⟨passed, ?_, stale, opened⟩
    have same : ((idle.bucket (key python url config)).map Prod.snd).Perm
        (passed ++ taken.1.toList ++ taken.2.2.map Prod.snd) := by
      have reversed := (List.reverse_perm (idle.bucket (key python url config))).map Prod.snd
      rw [shape] at reversed
      exact reversed.symm
    have before := (pooled_split idle (key python url config)).trans (same.append_right _)
    rw [List.append_assoc] at before
    apply before.trans
    apply List.Perm.append_left
    split_ifs with none
    · rw [none]
      exact List.Perm.refl _
    · apply List.Perm.symm
      apply (pooled_set _ _ _).trans
      exact ((List.reverse_perm _).map Prod.snd).append_right _

theorem release_kept (sid : Nat) (url : XRootDURL) (config : Config) (idle : Idle) :
    (idle.release python closed now sid url config).kept =
      idle.accepts python closed now sid url config := by
  unfold release accepts
  by_cases off : (decide (config.poolSize ≤ 0) || closed sid) = true
  · rw [if_pos off, off]
    rfl
  · rw [if_neg off]
    rw [Bool.not_eq_true] at off
    rw [off]
    dsimp only
    by_cases full : config.poolSize ≤ ((idle.fresh now (key python url config) config).length : Int)
    · rw [if_pos full]
      simpa using full
    · rw [if_neg full]
      simpa using full

theorem release_joins {sid : Nat} {url : XRootDURL} {config : Config} {idle : Idle}
    (kept : idle.accepts python closed now sid url config = true) :
    (idle.release python closed now sid url config).idle.pooled.Perm
      (sid :: (idle.swept now (key python url config) config).pooled) := by
  unfold accepts at kept
  rw [Bool.and_eq_true, Bool.not_eq_true', decide_eq_true_eq] at kept
  unfold release
  rw [if_neg (by rw [kept.1]; decide)]
  dsimp only
  rw [if_neg (not_le.mpr kept.2)]
  have written := pooled_set idle (key python url config)
    (idle.fresh now (key python url config) config ++ [(now, sid)])
  have without := pooled_set idle (key python url config)
    (idle.fresh now (key python url config) config)
  rw [List.map_append] at written
  refine (written.trans (List.Perm.append_right _ List.perm_append_comm)).trans ?_
  rw [List.append_assoc]
  exact without.symm.cons sid

/-- Whatever `release` does, it puts nothing into the pool but the session it keeps. -/
theorem release_drops {sid : Nat} {url : XRootDURL} {config : Config} {idle : Idle}
    (refused : idle.accepts python closed now sid url config = false) :
    ∃ gone, idle.pooled.Perm
      (gone ++ (idle.release python closed now sid url config).idle.pooled) := by
  have returned := @release_kept python closed now sid url config idle
  rw [refused] at returned
  unfold release at returned ⊢
  by_cases off : (decide (config.poolSize ≤ 0) || closed sid) = true
  · rw [if_pos off]
    exact ⟨[], List.Perm.refl _⟩
  · rw [if_neg off] at returned ⊢
    dsimp only at returned ⊢
    split_ifs at returned ⊢
    exact ⟨_, pooled_swept _ _ _⟩

theorem bucket_set (idle : Idle) (place other : Key) (bucket : Bucket) :
    Idle.bucket (idle.set place bucket) other =
      if other = place then bucket else idle.bucket other := by
  unfold Idle.bucket Dict.getD
  by_cases same : other = place
  · rw [same, Dict.get_set_self, if_pos rfl]
    rfl
  · rw [Dict.get_set_other idle same, if_neg same]

theorem bucket_erase {idle : Idle} {place other : Key} {entry : ℚ × Nat}
    (member : entry ∈ Idle.bucket (idle.erase place) other) : entry ∈ idle.bucket other := by
  unfold Idle.bucket Dict.getD at member ⊢
  by_cases same : other = place
  · rw [same, Dict.get_erase_self] at member
    cases member
  · rw [Dict.get_erase_other idle same] at member
    exact member

theorem popped_sublist (cutoff : ℚ) (bucket : Bucket) :
    (popped closed cutoff bucket).2.2.Sublist bucket := by
  induction bucket with
  | nil => exact List.Sublist.refl _
  | cons entry rest induction =>
      obtain ⟨since, sid⟩ := entry
      rw [popped]
      split_ifs
      · exact induction.cons _
      · exact induction.cons _
      · exact List.sublist_cons_self _ _

theorem popped_found {cutoff : ℚ} {bucket : Bucket} {sid : Nat}
    (found : (popped closed cutoff bucket).1 = some sid) :
    ∃ since, (since, sid) ∈ bucket ∧ closed sid = false ∧ cutoff ≤ since := by
  induction bucket with
  | nil => cases found
  | cons entry rest induction =>
      obtain ⟨since, other⟩ := entry
      rw [popped] at found
      split_ifs at found with dead old
      · obtain ⟨moment, member, opened⟩ := induction found
        exact ⟨moment, List.mem_cons_of_mem _ member, opened⟩
      · obtain ⟨moment, member, opened⟩ := induction found
        exact ⟨moment, List.mem_cons_of_mem _ member, opened⟩
      · cases found
        exact ⟨since, List.mem_cons_self, Bool.eq_false_iff.mpr dead, not_lt.mp old⟩

theorem acquire_found {url : XRootDURL} {config : Config} {idle : Idle} {sid : Nat}
    (found : (idle.acquire python closed now url config).found = some sid) :
    ∃ since, (since, sid) ∈ idle.bucket (key python url config) ∧ closed sid = false ∧
      now - config.poolIdleTtl ≤ since := by
  unfold acquire at found
  split_ifs at found
  obtain ⟨since, member, opened⟩ := popped_found found
  exact ⟨since, List.mem_reverse.mp member, opened⟩

theorem acquire_bucket {url : XRootDURL} {config : Config} {idle : Idle} {place : Key}
    {entry : ℚ × Nat}
    (member : entry ∈ (idle.acquire python closed now url config).idle.bucket place) :
    entry ∈ idle.bucket place := by
  unfold acquire at member
  split_ifs at member
  · exact member
  · dsimp only at member
    split_ifs at member with none
    · exact bucket_erase member
    · rw [bucket_set] at member
      split_ifs at member with same
      · rw [same]
        exact List.mem_reverse.mp ((popped_sublist _ _).subset (List.mem_reverse.mp member))
      · exact member

theorem release_bucket {sid : Nat} {url : XRootDURL} {config : Config} {idle : Idle} {place : Key}
    {entry : ℚ × Nat}
    (member : entry ∈ (idle.release python closed now sid url config).idle.bucket place) :
    entry ∈ idle.bucket place ∨ entry.2 = sid ∧ place = key python url config ∧
      idle.accepts python closed now sid url config = true := by
  have answer := @release_kept python closed now sid url config idle
  have swept : ∀ entry, entry ∈ idle.fresh now (key python url config) config →
      entry ∈ idle.bucket (key python url config) := fun entry inside => List.mem_of_mem_filter inside
  unfold release at member answer
  by_cases off : (decide (config.poolSize ≤ 0) || closed sid) = true
  · rw [if_pos off] at member
    exact Or.inl member
  · rw [if_neg off] at member answer
    dsimp only at member answer
    split_ifs at member answer
    · rw [bucket_set] at member
      split_ifs at member with same
      · rw [same]
        exact Or.inl (swept entry member)
      · exact Or.inl member
    · rw [bucket_set] at member
      split_ifs at member with same
      · rcases List.mem_append.mp member with inside | new
        · rw [same]
          exact Or.inl (swept entry inside)
        · rw [List.mem_singleton.mp new]
          exact Or.inr ⟨rfl, same, answer.symm⟩
      · exact Or.inl member

end Idle

end XRootDClient.Routing
