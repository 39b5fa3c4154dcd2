import XRootDClient.Lib.Holding
import XRootDClient.Session.Router

/-!
# Who holds a session

Every session has one holder: it waits in the pool, once and with no router that refers to
it, or at most one router owns it. This is so along a run exactly as long as no router
gives back or hands on a session that another one still uses, and nobody gives the pool a
session that is in use or that it has.
-/

set_option autoImplicit false

namespace XRootDClient.Routing

open Lib Lib.Run Lib.Holding Proto

variable {Ambient : Type} {python : Builtins} {world : World Ambient} {index sid : Nat}
  {router : Router}

def Router.hold (router : Router) : Hold Nat := ⟨router.session, router.owns⟩

namespace World

def holds (world : World Ambient) : List (Hold Nat) := world.routers.map Router.hold

/-- A session in the pool is there once and no router refers to it; any other session is
owned by at most one router. -/
def Single (world : World Ambient) : Prop := Holding.Single world.holds world.idle.pooled

theorem closed_close (other : Nat) :
    (world.closeSession sid).closed other = (decide (other = sid) || world.closed other) := by
  unfold closed closeSession
  rw [List.getElem?_modify]
  by_cases same : sid = other
  · subst same
    cases world.sessions[sid]? <;> simp
  · have differs : ¬other = sid := fun equal => same equal.symm
    cases world.sessions[other]? <;> simp [same, differs]

@[simp] theorem close_length : (world.closeSession sid).sessions.length = world.sessions.length :=
  List.length_modify _ _ _

theorem close_closed (ended : world.closed sid = true) : world.closeSession sid = world := by
  have same : world.sessions.modify sid (fun session => { session with closed := true }) =
      world.sessions := by
    apply List.ext_getElem?
    intro place
    rw [List.getElem?_modify]
    by_cases here : sid = place
    · subst here
      unfold closed at ended
      cases found : world.sessions[sid]? with
      | none => simp
      | some session =>
          rw [found] at ended
          obtain ⟨url, config, ambient, closed⟩ := session
          have closed : closed = true := ended
          simp [closed]
    · simp [here]
  unfold closeSession
  rw [same]

@[simp] theorem close_all_routers (sids : List Nat) (world : World Ambient) :
    (world.closeAll sids).routers = world.routers := by
  induction sids generalizing world with
  | nil => rfl
  | cons sid sids induction => exact induction _

@[simp] theorem close_all_idle (sids : List Nat) (world : World Ambient) :
    (world.closeAll sids).idle = world.idle := by
  induction sids generalizing world with
  | nil => rfl
  | cons sid sids induction => exact induction _

@[simp] theorem close_all_length (sids : List Nat) (world : World Ambient) :
    (world.closeAll sids).sessions.length = world.sessions.length := by
  induction sids generalizing world with
  | nil => rfl
  | cons sid sids induction => exact (induction _).trans close_length

theorem close_all_put (sids : List Nat) (world : World Ambient) :
    (world.putRouter index router).closeAll sids = (world.closeAll sids).putRouter index router := by
  induction sids generalizing world with
  | nil => rfl
  | cons sid sids induction => exact induction (world.closeSession sid)

theorem closed_all_other (sids : List Nat) (world : World Ambient) (absent : sid ∉ sids) :
    (world.closeAll sids).closed sid = world.closed sid := by
  induction sids generalizing world with
  | nil => rfl
  | cons other sids induction =>
      rw [List.mem_cons, not_or] at absent
      have later := induction (world.closeSession other) absent.2
      rw [closed_close, decide_eq_false absent.1, Bool.false_or] at later
      exact later

@[simp] theorem acquire_routers (url : XRootDURL) (config : Config) :
    (world.acquire python url config).2.routers = world.routers :=
  close_all_routers _ _

@[simp] theorem acquire_length (url : XRootDURL) (config : Config) :
    (world.acquire python url config).2.sessions.length = world.sessions.length :=
  close_all_length _ _

theorem acquire_put (url : XRootDURL) (config : Config) :
    (world.putRouter index router).acquire python url config =
      ((world.acquire python url config).1,
        (world.acquire python url config).2.putRouter index router) :=
  Prod.ext rfl (close_all_put
    (world.idle.acquire python world.closed world.clock url config).stale
    { world with idle := (world.idle.acquire python world.closed world.clock url config).idle })

theorem acquire_takes (url : XRootDURL) (config : Config) :
    ∃ passed, world.idle.pooled.Perm (passed ++ ((world.acquire python url config).1.toList ++
        (world.acquire python url config).2.idle.pooled)) ∧
      ∀ sid, (world.acquire python url config).1 = some sid → world.idle.pooled.Nodup →
        (world.acquire python url config).2.closed sid = false := by
  obtain ⟨passed, taken, stale, opened⟩ :=
    @Idle.acquire_takes python world.closed world.clock url config world.idle
  have idle : (world.acquire python url config).2.idle =
      (world.idle.acquire python world.closed world.clock url config).idle := close_all_idle _ _
  rw [List.append_assoc] at taken
  rw [idle]
  refine ⟨passed, taken, fun sid found unique => ?_⟩
  have found : (world.idle.acquire python world.closed world.clock url config).found = some sid :=
    found
  have apart := taken.nodup_iff.mp unique
  rw [found] at apart
  have absent : sid ∉ (world.idle.acquire python world.closed world.clock url config).stale := by
    intro member
    exact (List.nodup_append.mp apart).2.2 sid (stale sid member) sid (by simp) rfl
  exact (closed_all_other _ _ absent).trans (opened sid found)

@[simp] theorem release_routers (url : XRootDURL) (config : Config) :
    (world.release python sid url config).2.routers = world.routers :=
  close_all_routers _ _

@[simp] theorem release_length (url : XRootDURL) (config : Config) :
    (world.release python sid url config).2.sessions.length = world.sessions.length :=
  close_all_length _ _

theorem release_idle (url : XRootDURL) (config : Config) :
    (world.release python sid url config).2.idle =
      (world.idle.release python world.closed world.clock sid url config).idle :=
  close_all_idle _ _

def accepts (python : Builtins) (world : World Ambient) (sid : Nat) (url : XRootDURL)
    (config : Config) : Bool :=
  world.idle.accepts python world.closed world.clock sid url config

theorem release_accepts (url : XRootDURL) (config : Config) :
    (world.release python sid url config).1 = world.accepts python sid url config :=
  Idle.release_kept sid url config world.idle

theorem accepts_known {url : XRootDURL} {config : Config}
    (kept : world.accepts python sid url config = true) : sid < world.sessions.length := by
  unfold accepts Idle.accepts at kept
  rw [Bool.and_eq_true, Bool.not_eq_true', Bool.or_eq_false_iff] at kept
  have opened := kept.1.2
  unfold closed at opened
  by_contra outside
  rw [List.getElem?_eq_none (not_lt.mp outside)] at opened
  cases opened

def renews (world : World Ambient) (router : Router) : Bool :=
  match router.session with
  | none => true
  | some sid => world.closed sid && router.reconnect

def joined (url : XRootDURL) (config : Config) (world : World Ambient) : World Ambient :=
  { world with sessions := world.sessions ++ [⟨url, config, world.ambient, false⟩] }

inductive Renewed (python : Builtins) (world : World Ambient) (index : Nat) (router : Router) :
    Except Exception Nat × World Ambient → Prop
  | taken (sid : Nat) (found : (world.acquire python router.url router.config).1 = some sid) :
      Renewed python world index router
        (.ok sid, (world.acquire python router.url router.config).2.putRouter index
          { router with session := some sid, owns := true })
  | dialled (none : (world.acquire python router.url router.config).1 = none) :
      Renewed python world index router
        (.ok world.sessions.length,
          ((world.acquire python router.url router.config).2.joined router.url
            router.config).putRouter index
              { router with session := some world.sessions.length, owns := true })
  | failed (error : Exception)
      (none : (world.acquire python router.url router.config).1 = none) :
      Renewed python world index router
        (.error error, (world.acquire python router.url router.config).2.putRouter index
          { router with owns := true })

theorem put_put (first second : Router) :
    (world.putRouter index first).putRouter index second = world.putRouter index second := by
  unfold putRouter
  rw [List.set_set]

theorem renew_cases (dial : Option Exception) :
    Renewed python world index router (world.renew python index router dial) := by
  unfold renew
  dsimp only
  rw [acquire_put]
  cases found : (world.acquire python router.url router.config).1 with
  | some sid =>
      dsimp only
      rw [put_put]
      exact Renewed.taken sid found
  | none =>
      cases dial with
      | some error => exact Renewed.failed error found
      | none =>
          have fresh := @Renewed.dialled Ambient python world index router found
          unfold connect
          dsimp only
          have length : ((world.acquire python router.url router.config).2.putRouter index
              { router with owns := true }).sessions.length = world.sessions.length :=
            acquire_length _ _
          rw [length]
          have same := @put_put Ambient
            ((world.acquire python router.url router.config).2.joined router.url router.config)
            index { router with owns := true }
            { router with session := some world.sessions.length, owns := true }
          exact same.symm ▸ fresh

theorem session_cases (dial : Option Exception) :
    world.renews router = false ∧ (world.session python index router dial).2 = world ∨
      world.renews router = true ∧
        Renewed python world index router (world.session python index router dial) := by
  unfold renews session
  cases router.session with
  | none => exact Or.inr ⟨rfl, renew_cases dial⟩
  | some sid =>
      dsimp only
      cases ended : world.closed sid with
      | false => exact Or.inl ⟨rfl, rfl⟩
      | true =>
          cases again : router.reconnect with
          | false => exact Or.inl ⟨rfl, rfl⟩
          | true =>
              rw [close_closed ended]
              exact Or.inr ⟨rfl, renew_cases dial⟩

/-- What a router that is done with its session leaves behind: the pool has taken the
session, or it has only dropped what had expired. -/
inductive Returned (python : Builtins) (world : World Ambient) (router : Router) (after : Idle) :
    Prop
  | kept (sid : Nat) (owner : router.hold = ⟨some sid, true⟩)
      (accepted : world.accepts python sid router.url router.config = true)
      (joins : after.pooled.Perm
        (sid :: (world.idle.swept world.clock (key python router.url router.config)
          router.config).pooled))
  | refused (unfit : ∀ sid, router.hold = ⟨some sid, true⟩ →
        world.accepts python sid router.url router.config = false)
      (gone : List Nat) (drops : world.idle.pooled.Perm (gone ++ after.pooled))

theorem close_routers (router : Router) : (world.close python index router).routers =
    world.routers.set index { router with session := none, owns := true } := by
  unfold close
  cases router.session with
  | none => rfl
  | some sid =>
      dsimp only
      cases router.owns with
      | false => rfl
      | true =>
          rw [if_pos rfl]
          split_ifs
          · exact release_routers _ _
          · exact release_routers _ _

theorem close_sessions (router : Router) :
    (world.close python index router).sessions.length = world.sessions.length := by
  unfold close
  cases router.session with
  | none => rfl
  | some sid =>
      dsimp only
      cases router.owns with
      | false => rfl
      | true =>
          rw [if_pos rfl]
          split_ifs
          · exact release_length _ _
          · rw [close_length]
            exact release_length _ _

theorem follow_routers (router : Router) (redirect : RedirectInfo) :
    (world.follow python index router redirect).routers = world.routers.set index
      { router with url := target python router redirect, session := none, owns := true } := by
  unfold follow putRouter
  rw [close_routers, List.set_set]

theorem close_cases (router : Router) :
    Returned python world router (world.close python index router).idle := by
  unfold close
  cases session : router.session with
  | none =>
      refine Returned.refused (fun sid owner => ?_) [] (List.Perm.refl _)
      rw [Router.hold, session] at owner
      cases owner
  | some sid =>
      dsimp only
      cases owns : router.owns with
      | false =>
          refine Returned.refused (fun sid owner => ?_) [] (List.Perm.refl _)
          rw [Router.hold, owns] at owner
          cases congrArg Hold.owns owner
      | true =>
          rw [if_pos rfl]
          have answer := @release_accepts Ambient python
            (world.putRouter index { router with session := none, owns := true }) sid
            router.url router.config
          have idle := @release_idle Ambient python
            (world.putRouter index { router with session := none, owns := true }) sid
            router.url router.config
          cases accepted : world.accepts python sid router.url router.config with
          | true =>
              have answer := answer.trans accepted
              rw [if_pos answer, idle]
              exact Returned.kept sid (by rw [Router.hold, session, owns]) accepted
                (Idle.release_joins accepted)
          | false =>
              have answer := answer.trans accepted
              rw [if_neg (by rw [answer]; decide)]
              obtain ⟨gone, drops⟩ := Idle.release_drops accepted
              refine Returned.refused (fun other owner => ?_) gone ?_
              · rw [Router.hold, session, Hold.mk.injEq, Option.some.injEq] at owner
                rw [← owner.1]
                exact accepted
              · exact idle.symm ▸ drops

structure Settled (world : World Ambient) : Prop where
  borrowed : ∀ router ∈ world.routers, router.owns = false → router.reconnect = false
  referred : ∀ router ∈ world.routers, ∀ sid, router.session = some sid →
    sid < world.sessions.length
  pooled : ∀ sid ∈ world.idle.pooled, sid < world.sessions.length

theorem Settled.change {after : World Ambient} (settled : Settled world)
    (grown : world.sessions.length ≤ after.sessions.length)
    (routers : ∀ router ∈ after.routers, router ∈ world.routers ∨
      (router.owns = false → router.reconnect = false) ∧
        ∀ sid, router.session = some sid → sid < after.sessions.length)
    (pooled : ∀ sid ∈ after.idle.pooled, sid ∈ world.idle.pooled ∨ sid < after.sessions.length) :
    Settled after where
  borrowed := fun router member owns => (routers router member).elim
    (fun old => settled.borrowed router old owns) (fun new => new.1 owns)
  referred := fun router member sid refers => (routers router member).elim
    (fun old => Nat.lt_of_lt_of_le (settled.referred router old sid refers) grown)
    (fun new => new.2 sid refers)
  pooled := fun sid member => (pooled sid member).elim
    (fun old => Nat.lt_of_lt_of_le (settled.pooled sid old) grown) id

theorem Settled.shrink {after : World Ambient} (settled : Settled world)
    (same : after.sessions.length = world.sessions.length)
    (routers : after.routers = world.routers) {gone : List Nat}
    (drops : world.idle.pooled.Perm (gone ++ after.idle.pooled)) : Settled after := by
  apply settled.change (Nat.le_of_eq same.symm)
  · intro router member
    exact Or.inl (routers ▸ member)
  · intro sid member
    exact Or.inl (drops.mem_iff.mpr (List.mem_append_right _ member))

theorem Settled.put {new : Router} (settled : Settled world)
    (borrowed : new.owns = false → new.reconnect = false)
    (referred : ∀ sid, new.session = some sid → sid < world.sessions.length) :
    Settled (world.putRouter index new) := by
  apply settled.change
  · exact Nat.le_refl _
  · intro router member
    rcases List.mem_or_eq_of_mem_set member with old | rfl
    · exact Or.inl old
    · exact Or.inr ⟨borrowed, referred⟩
  · exact fun sid member => Or.inl member

theorem Settled.append {new : Router} (settled : Settled world)
    (borrowed : new.owns = false → new.reconnect = false)
    (referred : ∀ sid, new.session = some sid → sid < world.sessions.length) :
    Settled { world with routers := world.routers ++ [new] } := by
  apply settled.change
  · exact Nat.le_refl _
  · intro router member
    rcases List.mem_append.mp member with old | same
    · exact Or.inl old
    · rw [List.mem_singleton.mp same]
      exact Or.inr ⟨borrowed, referred⟩
  · exact fun sid member => Or.inl member

theorem Settled.acquired (settled : Settled world) (url : XRootDURL) (config : Config) :
    Settled (world.acquire python url config).2 := by
  obtain ⟨passed, taken, -⟩ := @acquire_takes Ambient python world url config
  rw [← List.append_assoc] at taken
  exact settled.shrink (acquire_length _ _) (acquire_routers _ _) taken

theorem acquired_known (settled : Settled world) {url : XRootDURL} {config : Config}
    (found : (world.acquire python url config).1 = some sid) : sid < world.sessions.length := by
  obtain ⟨passed, taken, -⟩ := @acquire_takes Ambient python world url config
  rw [found] at taken
  exact settled.pooled sid (taken.mem_iff.mpr (by simp))

theorem Settled.renewed (settled : Settled world) {result : Except Exception Nat × World Ambient}
    (member : router ∈ world.routers) (renewed : Renewed python world index router result) :
    Settled result.2 := by
  have acquired := @Settled.acquired Ambient python world settled router.url router.config
  cases renewed with
  | taken sid found =>
      apply acquired.put (fun borrower => by cases borrower)
      intro other same
      cases same
      rw [acquire_length]
      exact acquired_known settled found
  | dialled none =>
      have grown : Settled ((world.acquire python router.url router.config).2.joined router.url
          router.config) := by
        apply acquired.change
        · simp [joined]
        · exact fun router member => Or.inl member
        · exact fun sid member => Or.inl member
      apply grown.put (fun borrower => by cases borrower)
      intro other same
      cases same
      simp [joined]
  | failed error none =>
      apply acquired.put (fun borrower => by cases borrower)
      intro sid same
      rw [acquire_length]
      exact settled.referred router member sid same

theorem Settled.returned (settled : Settled world) {after : World Ambient} {new : Router}
    (same : after.sessions.length = world.sessions.length)
    (routers : after.routers = world.routers.set index new)
    (none : new.session = none) (owns : new.owns = true)
    (returned : Returned python world router after.idle) : Settled after := by
  apply settled.change (Nat.le_of_eq same.symm)
  · intro other member
    rw [routers] at member
    rcases List.mem_or_eq_of_mem_set member with old | rfl
    · exact Or.inl old
    · apply Or.inr
      rw [none, owns]
      exact ⟨fun borrower => absurd borrower (by decide), fun sid same => by cases same⟩
  · intro sid member
    cases returned with
    | kept given owner accepted joins =>
        rcases List.mem_cons.mp (joins.mem_iff.mp member) with rfl | old
        · rw [same]
          exact Or.inr (accepts_known accepted)
        · apply Or.inl
          exact (Idle.pooled_swept _ _ _).mem_iff.mpr (List.mem_append_right _ old)
    | refused unfit gone drops =>
        exact Or.inl (drops.mem_iff.mpr (List.mem_append_right _ member))

theorem Settled.released (settled : Settled world) (url : XRootDURL) (config : Config) :
    Settled (world.release python sid url config).2 := by
  cases accepted : world.accepts python sid url config with
  | true =>
      apply settled.change (Nat.le_of_eq (release_length _ _).symm)
      · intro router member
        exact Or.inl (@release_routers Ambient python world sid url config ▸ member)
      · intro other member
        rw [release_idle] at member
        rcases List.mem_cons.mp ((Idle.release_joins accepted).mem_iff.mp member) with rfl | old
        · rw [release_length]
          exact Or.inr (accepts_known accepted)
        · apply Or.inl
          exact (Idle.pooled_swept _ _ _).mem_iff.mpr (List.mem_append_right _ old)
  | false =>
      obtain ⟨gone, drops⟩ := Idle.release_drops accepted
      rw [← release_idle] at drops
      exact settled.shrink (release_length _ _) (release_routers _ _) drops

theorem Settled.dropped (settled : Settled world) (router : Router) :
    Settled (world.drop index router) := by
  unfold Routing.World.drop
  apply Settled.put _ (fun borrower => by cases borrower) (fun sid same => by cases same)
  cases router.session with
  | none => exact settled
  | some sid => exact settled.shrink close_length rfl (List.Perm.refl ([] ++ _))

theorem Settled.pinned (settled : Settled world) (member : router ∈ world.routers)
    (transfer : Bool) : Settled (world.pin index router transfer) := by
  have referred := settled.referred router member
  cases transfer with
  | false => exact settled.append (fun _ => rfl) referred
  | true =>
      have left : Settled (world.putRouter index { router with session := none }) :=
        settled.put (settled.borrowed router member) (fun sid same => by cases same)
      exact left.append (fun _ => rfl) referred

theorem Settled.cleared (settled : Settled world) : Settled world.clear := by
  have none : world.clear.idle = ∅ := close_all_idle _ _
  have same : world.clear.sessions.length = world.sessions.length := close_all_length _ _
  have routers : world.clear.routers = world.routers := close_all_routers _ _
  apply settled.shrink same routers
  rw [none]
  exact List.Perm.of_eq (List.append_nil _).symm

theorem on_router {act : Router → World Ambient} {Holds : World Ambient → Prop}
    (absent : world.routers[index]? = none → Holds world)
    (present : ∀ router, world.routers[index]? = some router → Holds (act router)) :
    Holds (world.onRouter index act) := by
  unfold onRouter
  cases found : world.routers[index]? with
  | none => exact absent found
  | some router => exact present router found

end World

open World

theorem step_settled (move : Move Ambient) (settled : world.Settled) :
    (step python move world).Settled := by
  cases move with
  | create url config reconnect =>
      exact settled.append (fun borrower => by cases borrower) (fun sid same => by cases same)
  | session index dial =>
      apply on_router (fun _ => settled)
      intro router found
      rcases @session_cases Ambient python world index router dial with ⟨-, same⟩ | ⟨-, renewed⟩
      · rw [same]
        exact settled
      · exact settled.renewed (List.mem_of_getElem? found) renewed
  | follow index redirect =>
      apply on_router (fun _ => settled)
      intro router found
      have returned : Returned python world router
          (world.follow python index router redirect).idle := close_cases router
      exact settled.returned (close_sessions router) (follow_routers router redirect) rfl rfl
        returned
  | drop index =>
      apply on_router (fun _ => settled)
      intro router found
      exact settled.dropped router
  | pin index transfer =>
      apply on_router (fun _ => settled)
      intro router found
      exact settled.pinned (List.mem_of_getElem? found) transfer
  | close index =>
      apply on_router (fun _ => settled)
      intro router found
      exact settled.returned (close_sessions router) (close_routers router) rfl rfl
        (close_cases router)
  | acquire url config => exact settled.acquired url config
  | release sid url config => exact settled.released url config
  | clear => exact settled.cleared
  | forget =>
      exact settled.shrink rfl rfl (List.Perm.of_eq (List.append_nil _).symm)
  | lose sid => exact settled.shrink close_length rfl (List.Perm.refl ([] ++ _))
  | wait seconds => exact settled.shrink rfl rfl (List.Perm.refl ([] ++ _))
  | change ambient => exact settled.shrink rfl rfl (List.Perm.refl ([] ++ _))

namespace World

/-- No other router refers to the session a router is about to give to the pool. -/
def Alone (python : Builtins) (world : World Ambient) (index : Nat) : Prop :=
  ∀ router sid, world.routers[index]? = some router → router.hold = ⟨some sid, true⟩ →
    world.accepts python sid router.url router.config = true →
    ∀ (place : Nat) other, world.routers[place]? = some other → other.session = some sid →
      place = index

/-- No other router owns the session a router hands on. -/
def Unshared (world : World Ambient) (index : Nat) : Prop :=
  ∀ router sid, world.routers[index]? = some router → router.session = some sid →
    ∀ (place : Nat) other, world.routers[place]? = some other → other.hold = ⟨some sid, true⟩ →
      place = index

/-- A session given to the pool directly is not in it, and no router refers to it. -/
def Spare (python : Builtins) (world : World Ambient) (sid : Nat) (url : XRootDURL)
    (config : Config) : Prop :=
  world.accepts python sid url config = true →
    sid ∉ (world.idle.swept world.clock (key python url config) config).pooled ∧
      ∀ router ∈ world.routers, router.session ≠ some sid

end World

def Careful (python : Builtins) (entry : Entry (Move Ambient) (World Ambient)) : Prop :=
  match entry.label with
  | .close index => entry.before.Alone python index
  | .follow index _ => entry.before.Alone python index
  | .pin index true => entry.before.Unshared index
  | .release sid url config => entry.before.Spare python sid url config
  | _ => True

namespace World

theorem refers_holds : Refers world.holds sid ↔ ∃ router ∈ world.routers,
    router.session = some sid := by
  simp [Refers, holds, Router.hold]

theorem get_holds {hold : Hold Nat} {place : Nat} :
    world.holds[place]? = some hold ↔ ∃ router, world.routers[place]? = some router ∧
      router.hold = hold := by
  simp [holds]

theorem put_holds (router : Router) :
    (world.putRouter index router).holds = world.holds.set index router.hold :=
  List.map_set

theorem Single.dropped {gone : List Nat} {after : World Ambient} (single : world.Single)
    (routers : after.routers = world.routers)
    (drops : world.idle.pooled.Perm (gone ++ after.idle.pooled)) : after.Single := by
  unfold Single holds
  rw [routers]
  exact (single.perm drops).shrink

theorem Single.acquired (single : world.Single) (url : XRootDURL) (config : Config) :
    (world.acquire python url config).2.Single ∧
      ∀ sid, (world.acquire python url config).1 = some sid →
        sid ∉ (world.acquire python url config).2.idle.pooled ∧ ¬Refers world.holds sid := by
  obtain ⟨passed, taken, -⟩ := @acquire_takes Ambient python world url config
  constructor
  · rw [← List.append_assoc] at taken
    exact single.dropped (acquire_routers _ _) taken
  · intro sid found
    rw [found] at taken
    constructor
    · intro member
      have apart := taken.nodup_iff.mp single.once
      rw [Option.toList_some, List.singleton_append] at apart
      exact (List.nodup_cons.mp (List.nodup_append.mp apart).2.1).1 member
    · exact single.unheld sid (taken.mem_iff.mpr (by simp))

theorem Single.renewed {result : Except Exception Nat × World Ambient} (settled : world.Settled)
    (single : world.Single) (found : world.routers[index]? = some router)
    (again : world.renews router = true) (renewed : Renewed python world index router result) :
    result.2.Single := by
  obtain ⟨acquired, free⟩ := @Single.acquired Ambient python world single router.url router.config
  have holds : (world.acquire python router.url router.config).2.holds = world.holds := by
    rw [World.holds, acquire_routers, World.holds]
  have here : world.holds[index]? = some router.hold := get_holds.mpr ⟨router, found, rfl⟩
  unfold Single at acquired ⊢
  cases renewed with
  | taken sid found =>
      obtain ⟨absent, unreferred⟩ := free sid found
      rw [put_holds]
      apply acquired.gain absent
      rw [holds]
      exact unreferred
  | dialled none =>
      rw [put_holds]
      apply Holding.Single.gain acquired
      · intro member
        have settled := @Settled.acquired Ambient python world settled router.url router.config
        have known := settled.pooled _ member
        rw [acquire_length] at known
        exact Nat.lt_irrefl _ known
      · intro refers
        have refers : Refers (world.acquire python router.url router.config).2.holds
          world.sessions.length := refers
        rw [holds, refers_holds] at refers
        obtain ⟨other, member, same⟩ := refers
        exact Nat.lt_irrefl _ (settled.referred other member _ same)
  | failed error none =>
      rw [put_holds]
      apply acquired.put (holds ▸ here)
      cases session : router.session with
      | none => exact Or.inl rfl
      | some sid =>
          -- only a router that reconnects gets here, and a borrower does not
          apply Or.inr
          constructor
          · exact session.symm
          · intro _
            by_contra borrower
            have stays := settled.borrowed router (List.mem_of_getElem? found)
              (Bool.eq_false_iff.mpr borrower)
            simp [renews, session, stays] at again

theorem returned_single {after : World Ambient} {new : Router} (single : world.Single)
    (found : world.routers[index]? = some router)
    (routers : after.routers = world.routers.set index new) (none : new.session = none)
    (returned : Returned python world router after.idle) :
    after.Single ↔ world.Alone python index := by
  have here : world.holds[index]? = some router.hold := get_holds.mpr ⟨router, found, rfl⟩
  have cleared : Holding.Single (world.holds.set index new.hold) world.idle.pooled :=
    single.put here (Or.inl none)
  have holds : after.holds = world.holds.set index new.hold := by
    rw [World.holds, routers]
    exact List.map_set
  unfold Single
  rw [holds]
  cases returned with
  | refused unfit gone drops =>
      constructor
      · intro _ again sid same owner accepted
        rw [found, Option.some.injEq] at same
        subst same
        rw [unfit sid owner] at accepted
        cases accepted
      · intro _
        exact (cleared.perm drops).shrink
  | kept sid owner accepted joins =>
      have swept := (cleared.perm (@Idle.pooled_swept world.clock
        (key python router.url router.config) router.config world.idle)).shrink
      have absent : sid ∉ (world.idle.swept world.clock (key python router.url router.config)
          router.config).pooled := by
        intro member
        apply single.unheld sid
        · exact (Idle.pooled_swept _ _ _).mem_iff.mpr (List.mem_append_right _ member)
        · exact refers_of_get here (by rw [owner])
      constructor
      · intro kept again given same holder _ place other there refers
        rw [found, Option.some.injEq] at same
        subst same
        rw [owner, Hold.mk.injEq, Option.some.injEq] at holder
        obtain ⟨rfl, -⟩ := holder
        by_contra differs
        apply (single_cons.mp (kept.perm joins)).2.2
        apply @refers_of_get Nat _ sid place other.hold _ refers
        rw [List.getElem?_set_ne (fun same => differs same.symm)]
        exact get_holds.mpr ⟨other, there, rfl⟩
      · intro alone
        apply (single_cons.mpr ⟨swept, absent, _⟩).perm joins.symm
        intro refers
        rcases refers_set refers with same | ⟨place, hold, differs, there, same⟩
        · rw [Router.hold, none] at same
          cases same
        · obtain ⟨other, present, rfl⟩ := get_holds.mp there
          exact differs (alone router sid found owner accepted place other present same)

theorem released_single (single : world.Single) (url : XRootDURL) (config : Config) :
    (world.release python sid url config).2.Single ↔ world.Spare python sid url config := by
  have holds : (world.release python sid url config).2.holds = world.holds := by
    rw [World.holds, release_routers, World.holds]
  unfold Single Spare
  rw [holds, release_idle]
  cases accepted : world.accepts python sid url config with
  | false =>
      obtain ⟨gone, drops⟩ := Idle.release_drops accepted
      constructor
      · intro _ kept
        cases kept
      · intro _
        exact (single.perm drops).shrink
  | true =>
      have joins := Idle.release_joins accepted
      have swept := (single.perm (@Idle.pooled_swept world.clock (key python url config)
        config world.idle)).shrink
      constructor
      · intro kept _
        obtain ⟨-, absent, free⟩ := single_cons.mp (kept.perm joins)
        refine ⟨absent, fun router member same => free ?_⟩
        exact refers_holds.mpr ⟨router, member, same⟩
      · intro spare
        obtain ⟨absent, free⟩ := spare rfl
        apply (single_cons.mpr ⟨swept, absent, _⟩).perm joins.symm
        intro refers
        obtain ⟨router, member, same⟩ := refers_holds.mp refers
        exact free router member same

theorem pinned_single (single : world.Single) (found : world.routers[index]? = some router) :
    (world.pin index router true).Single ↔ world.Unshared index := by
  have here : world.holds[index]? = some router.hold := get_holds.mpr ⟨router, found, rfl⟩
  have holds : (world.pin index router true).holds =
      world.holds.set index ⟨none, router.owns⟩ ++ [⟨router.session, true⟩] := by
    simp [pin, World.holds, putRouter, List.map_set, Router.hold]
  unfold Single
  rw [holds]
  change Holding.Single _ world.idle.pooled ↔ _
  cases session : router.session with
  | none =>
      constructor
      · intro _ again sid same refers
        rw [found, Option.some.injEq] at same
        rw [← same, session] at refers
        cases refers
      · intro _
        have left : Holding.Single (world.holds.set index ⟨none, router.owns⟩) world.idle.pooled :=
          Holding.Single.put single here (Or.inl rfl)
        exact left.append (Or.inl rfl)
  | some sid =>
      rw [Router.hold, session] at here
      rw [single_handed single here]
      constructor
      · intro alone again given same refers place other there owner
        rw [found, Option.some.injEq] at same
        rw [← same, session, Option.some.injEq] at refers
        subst refers
        exact alone place (get_holds.mpr ⟨other, there, owner⟩)
      · intro unshared place owner
        obtain ⟨other, there, same⟩ := get_holds.mp owner
        exact unshared router sid found session place other there same

theorem Single.borrowed (single : world.Single) (found : world.routers[index]? = some router) :
    (world.pin index router false).Single := by
  have here : world.holds[index]? = some router.hold := get_holds.mpr ⟨router, found, rfl⟩
  have holds : (world.pin index router false).holds =
      world.holds ++ [⟨router.session, router.session.isNone⟩] := by
    simp [pin, World.holds, Router.hold]
  unfold Single
  rw [holds]
  apply Holding.Single.append single
  cases session : router.session with
  | none => exact Or.inl rfl
  | some sid =>
      refine Or.inr ⟨rfl, fun other same => ?_⟩
      exact refers_of_get here (session.trans same)

end World

/-- A move keeps one holder for every session exactly when the callers are careful. -/
theorem step_single_iff (settled : world.Settled) (single : world.Single) (move : Move Ambient) :
    (step python move world).Single ↔ Careful python ⟨world, move, step python move world⟩ := by
  cases move with
  | create url config reconnect =>
      apply iff_of_true _ trivial
      have fresh : World.holds (step python (.create url config reconnect) world) =
          world.holds ++ [⟨none, true⟩] := List.map_append
      unfold World.Single
      rw [fresh]
      exact Holding.Single.append single (Or.inl rfl)
  | session index dial =>
      apply iff_of_true _ trivial
      apply on_router (fun _ => single)
      intro router found
      rcases @session_cases Ambient python world index router dial with
        ⟨-, same⟩ | ⟨again, renewed⟩
      · rw [same]
        exact single
      · exact World.Single.renewed settled single found again renewed
  | follow index redirect =>
      apply @on_router Ambient world index _ fun after => after.Single ↔ world.Alone python index
      · intro absent
        exact iff_of_true single (fun router sid found => by rw [absent] at found; cases found)
      · intro router found
        exact returned_single single found (follow_routers router redirect) rfl
          (close_cases router)
  | drop index =>
      apply iff_of_true _ trivial
      apply on_router (fun _ => single)
      intro router found
      have here : world.holds[index]? = some router.hold := get_holds.mpr ⟨router, found, rfl⟩
      have dropped : (world.drop index router).holds = world.holds.set index ⟨none, true⟩ := by
        unfold Routing.World.drop
        cases router.session <;> exact List.map_set
      have idle : (world.drop index router).idle = world.idle := by
        unfold Routing.World.drop
        cases router.session <;> rfl
      unfold World.Single
      rw [dropped, idle]
      exact Holding.Single.put single here (Or.inl rfl)
  | pin index transfer =>
      cases transfer with
      | false =>
          apply iff_of_true _ trivial
          apply on_router (fun _ => single)
          intro router found
          exact single.borrowed found
      | true =>
          apply @on_router Ambient world index _ fun after => after.Single ↔ world.Unshared index
          · intro absent
            exact iff_of_true single (fun router sid found => by rw [absent] at found; cases found)
          · intro router found
            exact pinned_single single found
  | close index =>
      apply @on_router Ambient world index _ fun after => after.Single ↔ world.Alone python index
      · intro absent
        exact iff_of_true single (fun router sid found => by rw [absent] at found; cases found)
      · intro router found
        exact returned_single single found (close_routers router) rfl (close_cases router)
  | acquire url config => exact iff_of_true (single.acquired url config).1 trivial
  | release sid url config => exact released_single single url config
  | clear =>
      apply iff_of_true _ trivial
      have none : world.clear.idle = ∅ := close_all_idle _ _
      have routers : world.clear.routers = world.routers := close_all_routers _ _
      apply single.dropped routers
      rw [none]
      exact List.Perm.of_eq (List.append_nil _).symm
  | forget =>
      apply iff_of_true _ trivial
      exact single.dropped rfl (List.Perm.of_eq (List.append_nil _).symm)
  | lose sid => exact iff_of_true single trivial
  | wait seconds => exact iff_of_true single trivial
  | change ambient => exact iff_of_true single trivial

def handed (python : Builtins) : Move Ambient → World Ambient → Option Nat
  | .acquire url config, world => (world.acquire python url config).1
  | .session index _, world => (world.routers[index]?).bind fun router =>
      if world.renews router then (world.acquire python router.url router.config).1 else none
  | _, _ => none

/-- One holder for every session after a move, and nothing handed out in the course of it
that is closed or that a router refers to. -/
structure Held (python : Builtins) (entry : Entry (Move Ambient) (World Ambient)) : Prop where
  single : entry.after.Single
  opened : ∀ sid, handed python entry.label entry.before = some sid →
    entry.after.closed sid = false
  free : ∀ sid, handed python entry.label entry.before = some sid →
    ∀ router ∈ entry.before.routers, router.session ≠ some sid

namespace World

theorem acquire_opened (single : world.Single) {url : XRootDURL} {config : Config}
    (found : (world.acquire python url config).1 = some sid) :
    (world.acquire python url config).2.closed sid = false := by
  obtain ⟨passed, -, opened⟩ := @acquire_takes Ambient python world url config
  exact opened sid found single.once

theorem acquire_free (single : world.Single) {url : XRootDURL} {config : Config}
    (found : (world.acquire python url config).1 = some sid) :
    ∀ router ∈ world.routers, router.session ≠ some sid := by
  intro router member same
  apply ((@Single.acquired Ambient python world single url config).2 sid found).2
  exact refers_holds.mpr ⟨router, member, same⟩

theorem session_handed (dial : Option Exception) (again : world.renews router = true)
    (found : (world.acquire python router.url router.config).1 = some sid) :
    world.session python index router dial =
      (.ok sid, (world.acquire python router.url router.config).2.putRouter index
        { router with session := some sid, owns := true }) := by
  rcases @session_cases Ambient python world index router dial with ⟨never, -⟩ | ⟨-, renewed⟩
  · rw [again] at never
    cases never
  · generalize world.session python index router dial = result at renewed ⊢
    cases renewed with
    | taken other taken =>
        rw [found, Option.some.injEq] at taken
        rw [taken]
    | dialled none =>
        rw [found] at none
        cases none
    | failed error none =>
        rw [found] at none
        cases none

end World

theorem handed_opened (single : world.Single) {move : Move Ambient}
    (given : handed python move world = some sid) :
    (step python move world).closed sid = false := by
  unfold handed at given
  split at given
  · exact acquire_opened single given
  · next index dial =>
      obtain ⟨router, found, given⟩ := Option.bind_eq_some_iff.mp given
      split_ifs at given with again
      have acts := @session_handed Ambient python world index sid router dial again given
      have stepped : step python (.session index dial) world =
          (world.session python index router dial).2 := by
        rw [step, onRouter, found]
        rfl
      rw [stepped, acts]
      exact acquire_opened single given
  · cases given

theorem handed_free (single : world.Single) {move : Move Ambient}
    (given : handed python move world = some sid) :
    ∀ router ∈ world.routers, router.session ≠ some sid := by
  unfold handed at given
  split at given
  · exact acquire_free single given
  · obtain ⟨router, found, given⟩ := Option.bind_eq_some_iff.mp given
    split_ifs at given
    exact acquire_free single given
  · cases given

theorem history_held_iff (labels : List (Move Ambient)) (settled : world.Settled)
    (single : world.Single) :
    (∀ entry ∈ history (step python) labels world, Held python entry) ↔
      ∀ entry ∈ history (step python) labels world, Careful python entry := by
  induction labels generalizing world with
  | nil => exact iff_of_true (fun _ member => by cases member) (fun _ member => by cases member)
  | cons label rest induction =>
      rw [history, List.forall_mem_cons, List.forall_mem_cons]
      have decided := @step_single_iff Ambient python world settled single label
      have settles := @step_settled Ambient python world label settled
      constructor
      · rintro ⟨here, later⟩
        exact ⟨decided.mp here.single, (induction settles here.single).mp later⟩
      · rintro ⟨here, later⟩
        have kept := decided.mpr here
        refine ⟨⟨kept, fun sid given => ?_, fun sid given => ?_⟩,
          (induction settles kept).mpr later⟩
        · exact handed_opened single given
        · exact handed_free single given

def start (ambient : Ambient) : World Ambient where
  ambient := ambient

theorem start_settled (ambient : Ambient) : (start ambient).Settled where
  borrowed := fun _ member => by cases member
  referred := fun _ member => by cases member
  pooled := fun _ member => by cases member

/-- Every session has one holder all along what is called, in whatever order, exactly when
no router gives back or hands on a session that another one uses, and the pool is given no
session that is in use or that it has. -/
theorem sessions_held_iff (python : Builtins) (calls : List (Call Ambient)) (ambient : Ambient) :
    (∀ entry ∈ history (step python) (moves python calls (start ambient)) (start ambient),
        Held python entry) ↔
      ∀ entry ∈ history (step python) (moves python calls (start ambient)) (start ambient),
        Careful python entry :=
  history_held_iff _ (start_settled ambient) single_nil

/-- Builtins that write every character as it is and digest nothing. -/
def plain : Builtins where
  lower := id
  printable := fun _ => true
  sha256 := fun bytes => bytes.map fun byte => Char.ofNat byte.toNat

/-- A file is open through a router; the router is redirected by another request; a
second router dials the first server. -/
def redirectedUnderFile : List (Call Unit) :=
  let manager : XRootDURL := { host := str "manager" }
  let stat : Request := { name := str "Stat", path := str "/" }
  [.move (.create manager {} true),
   .execute 0 { name := str "Open", path := str "/f", idempotent := false } (str "/f")
     [{ answer := .returns }],
   .move (.pin 0 false),
   .execute 0 stat (str "/") [{ answer := .redirects ⟨str "server", 1094, []⟩ }],
   .move (.create manager {} true),
   .execute 2 stat (str "/") [{ answer := .returns }]]

theorem session_with_two_holders : ¬∀ (calls : List (Call Unit)),
    ∀ entry ∈ history (step plain) (moves plain calls (start ())) (start ()), Held plain entry := by
  intro every
  have free := fun entry member => (every redirectedUnderFile entry member).free
  have shared : ∃ entry ∈ history (step plain) (moves plain redirectedUnderFile (start ()))
      (start ()), handed plain entry.label entry.before = some 0 ∧
        ∃ router ∈ entry.before.routers, router.session = some 0 := by
    decide +kernel
  obtain ⟨entry, member, given, router, present, same⟩ := shared
  exact free entry member 0 given router present same

end XRootDClient.Routing
