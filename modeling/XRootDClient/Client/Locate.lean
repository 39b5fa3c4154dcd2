import Mathlib.Data.List.Basic
import XRootDClient.Lib.Dict
import XRootDClient.Lib.Text

/-!
# Locating a file through managers

`deep_locate` asks a manager for the nodes that hold a file, and each manager among them
again, until only servers are left. A node is asked where it is first met as a manager;
one that is first met as a server stays one, and is not asked when it is met as a manager
later.
-/

set_option autoImplicit false

namespace XRootDClient.Client

open Lib

structure LocationInfo where
  address : Text
  type : Char
  access : Char
  deriving DecidableEq

def LocationInfo.isManager (loc : LocationInfo) : Bool := loc.type ∈ ['M', 'm']

/-- A federation: the answer of the node the search begins at, and what each other node
answers when it is asked as a manager, nothing where that fails with an `OSError`. Its
addresses are finitely many. -/
structure Federation where
  first : List LocationInfo
  answer : Text → Option (List LocationInfo)
  nodes : List Text
  first_known : ∀ loc ∈ first, loc.address ∈ nodes
  answer_known : ∀ address list, answer address = some list → ∀ loc ∈ list, loc.address ∈ nodes

/-- What the loop of `deep_locate` holds. The end of `pending`, where entries are taken
off and put on, is the front here; `asked` are the managers asked so far. -/
structure Search where
  seen : Dict Text LocationInfo := ∅
  pending : List LocationInfo
  asked : List Text := []

def Search.turn (federation : Federation) (loc : LocationInfo) (search : Search) : Search :=
  match search.seen.get? loc.address with
  | some known =>
      if known.isManager && !loc.isManager then
        { search with seen := search.seen.set loc.address loc }
      else search
  | none =>
      let seen := search.seen.set loc.address loc
      if loc.isManager then
        { seen := seen
          pending := ((federation.answer loc.address).getD []).reverse ++ search.pending
          asked := search.asked ++ [loc.address] }
      else { search with seen := seen }

def Search.run (federation : Federation) : Nat → Search → Option Search
  | fuel, search =>
      match search.pending with
      | [] => some search
      | loc :: rest =>
          match fuel with
          | 0 => none
          | fuel + 1 => run federation fuel (Search.turn federation loc { search with pending := rest })

def Search.start (federation : Federation) : Search where
  pending := federation.first.reverse

/-- `[v for v in seen.values() if not v.is_manager]`. -/
def Search.found (search : Search) : List LocationInfo :=
  (search.seen.entries.map Prod.snd).filter fun loc => !loc.isManager

def deepLocate (federation : Federation) (fuel : Nat) : Option (List LocationInfo) :=
  (Search.run federation fuel (Search.start federation)).map Search.found

/-- The answers that can be had: the first one, and those of the managers in them. -/
inductive Answers (federation : Federation) : List LocationInfo → Prop
  | first : Answers federation federation.first
  | behind {list next : List LocationInfo} {loc : LocationInfo} (had : Answers federation list)
      (member : loc ∈ list) (manager : loc.isManager = true)
      (answered : federation.answer loc.address = some next) : Answers federation next

def Met (federation : Federation) (loc : LocationInfo) : Prop :=
  ∃ list, Answers federation list ∧ loc ∈ list

def Reported (federation : Federation) (address : Text) : Prop :=
  ∃ loc, Met federation loc ∧ loc.address = address ∧ loc.isManager = false

/-- The entry is a manager's, of a node that was seen and not asked. -/
def Search.Passes (search : Search) (loc : LocationInfo) : Prop :=
  loc.isManager = true ∧ loc.address ∈ search.seen.keys ∧ loc.address ∉ search.asked

/-- One of the turns passes over a manager that was never asked. -/
def Search.PassesOver (federation : Federation) : Nat → Search → Prop
  | fuel, search =>
      match search.pending with
      | [] => False
      | loc :: rest =>
          match fuel with
          | 0 => False
          | fuel + 1 => search.Passes loc ∨
              PassesOver federation fuel (Search.turn federation loc { search with pending := rest })

section Search

variable {federation : Federation} {search final : Search} {loc : LocationInfo}
  {rest : List LocationInfo} {fuel : Nat}

theorem met_known (met : Met federation loc) : loc.address ∈ federation.nodes := by
  obtain ⟨list, had, member⟩ := met
  cases had with
  | first => exact federation.first_known loc member
  | behind _ _ _ answered => exact federation.answer_known _ _ answered loc member

theorem run_nil (none : search.pending = []) : Search.run federation fuel search = some search := by
  unfold Search.run
  rw [none]

theorem run_cons (some : search.pending = loc :: rest) :
    Search.run federation (fuel + 1) search =
      Search.run federation fuel (Search.turn federation loc { search with pending := rest }) := by
  rw [Search.run, some]

theorem passes_over_nil (none : search.pending = []) :
    ¬Search.PassesOver federation fuel search := by
  unfold Search.PassesOver
  rw [none]
  exact id

theorem passes_over_cons (some : search.pending = loc :: rest) :
    Search.PassesOver federation (fuel + 1) search ↔ search.Passes loc ∨
      Search.PassesOver federation fuel
        (Search.turn federation loc { search with pending := rest }) := by
  rw [Search.PassesOver, some]

inductive Turned (federation : Federation) (loc : LocationInfo) (search : Search) : Search → Prop
  | upgraded {known : LocationInfo} (seen : search.seen.get? loc.address = some known)
      (server : loc.isManager = false) :
      Turned federation loc search { search with seen := search.seen.set loc.address loc }
  | kept {known : LocationInfo} (seen : search.seen.get? loc.address = some known)
      (same : known.isManager = true → loc.isManager = true) : Turned federation loc search search
  | asked (fresh : search.seen.get? loc.address = none) (manager : loc.isManager = true) :
      Turned federation loc search {
        seen := search.seen.set loc.address loc
        pending := ((federation.answer loc.address).getD []).reverse ++ search.pending
        asked := search.asked ++ [loc.address] }
  | taken (fresh : search.seen.get? loc.address = none) (server : loc.isManager = false) :
      Turned federation loc search { search with seen := search.seen.set loc.address loc }

theorem turn_turned (federation : Federation) (loc : LocationInfo) (search : Search) :
    Turned federation loc search (Search.turn federation loc search) := by
  unfold Search.turn
  cases seen : search.seen.get? loc.address with
  | some known =>
      dsimp only
      split
      · next both =>
          rw [Bool.and_eq_true, Bool.not_eq_true'] at both
          exact .upgraded seen both.2
      · next neither =>
          apply Turned.kept seen
          intro manager
          by_contra server
          exact neither (by simp [manager, server])
  | none =>
      dsimp only
      split
      · next manager => exact .asked seen manager
      · next server => exact .taken seen (by simpa using server)

def unasked (federation : Federation) (seen : Dict Text LocationInfo) : Nat :=
  ((federation.nodes.filter (· ∉ seen.keys)).map fun address =>
    ((federation.answer address).getD []).length).sum

/-- The entries there are to take off, and those that may be put on. -/
def Search.budget (federation : Federation) (search : Search) : Nat :=
  search.pending.length + unasked federation search.seen

theorem sum_filter_le (weight : Text → Nat) {keep keep' : Text → Bool}
    (fewer : ∀ address, keep' address = true → keep address = true) (nodes : List Text) :
    ((nodes.filter keep').map weight).sum ≤ ((nodes.filter keep).map weight).sum := by
  induction nodes with
  | nil => exact Nat.le_refl _
  | cons address others induction =>
      by_cases new : keep' address = true
      · rw [List.filter_cons_of_pos new, List.filter_cons_of_pos (fewer address new), List.map_cons,
          List.map_cons, List.sum_cons, List.sum_cons]
        exact Nat.add_le_add_left induction _
      · rw [List.filter_cons_of_neg new]
        by_cases old : keep address = true
        · rw [List.filter_cons_of_pos old, List.map_cons, List.sum_cons]
          exact Nat.le_trans induction (Nat.le_add_left _ _)
        · rw [List.filter_cons_of_neg old]
          exact induction

theorem sum_filter_drop (weight : Text → Nat) {keep keep' : Text → Bool}
    (fewer : ∀ address, keep' address = true → keep address = true) {address : Text}
    (old : keep address = true) (new : ¬keep' address = true) {nodes : List Text}
    (member : address ∈ nodes) :
    ((nodes.filter keep').map weight).sum + weight address ≤
      ((nodes.filter keep).map weight).sum := by
  induction nodes with
  | nil => exact absurd member List.not_mem_nil
  | cons other others induction =>
      by_cases here : other = address
      · have rest := sum_filter_le weight fewer others
        rw [here, List.filter_cons_of_neg new, List.filter_cons_of_pos old, List.map_cons,
          List.sum_cons]
        omega
      · have rest := induction ((List.mem_cons.mp member).resolve_left (Ne.symm here))
        by_cases kept : keep' other = true
        · rw [List.filter_cons_of_pos kept, List.filter_cons_of_pos (fewer other kept),
            List.map_cons, List.map_cons, List.sum_cons, List.sum_cons]
          omega
        · rw [List.filter_cons_of_neg kept]
          by_cases before : keep other = true
          · rw [List.filter_cons_of_pos before, List.map_cons, List.sum_cons]
            omega
          · rw [List.filter_cons_of_neg before]
            exact rest

theorem Turned.budget {after : Search} (turned : Turned federation loc search after)
    (known : loc.address ∈ federation.nodes) :
    after.budget federation ≤ search.budget federation := by
  have fewer : ∀ other, decide (other ∉ (search.seen.set loc.address loc).keys) = true →
      decide (other ∉ search.seen.keys) = true := by
    intro other unseen
    rw [decide_eq_true_iff, Dict.mem_keys_set, not_or] at unseen
    exact decide_eq_true unseen.2
  have less := sum_filter_le (fun address => ((federation.answer address).getD []).length)
    fewer federation.nodes
  cases turned with
  | upgraded seen server => exact Nat.add_le_add_left less _
  | kept seen same => exact Nat.le_refl _
  | asked fresh manager =>
      have unseen : decide (loc.address ∉ search.seen.keys) = true :=
        decide_eq_true ((Dict.get_eq_none _ _).mp fresh)
      have seen : ¬decide (loc.address ∉ (search.seen.set loc.address loc).keys) = true := by
        simp [Dict.mem_keys_set]
      have paid := sum_filter_drop (fun address => ((federation.answer address).getD []).length)
        fewer unseen seen known
      simp only [Search.budget, unasked, List.length_append, List.length_reverse]
      omega
  | taken fresh server => exact Nat.add_le_add_left less _

/-- All that is pending or seen was met, under its own address, and who was asked is seen. -/
structure Search.Sound (federation : Federation) (search : Search) : Prop where
  pending : ∀ loc ∈ search.pending, Met federation loc
  seen : ∀ address known, search.seen.get? address = some known →
    known.address = address ∧ Met federation known
  asked : ∀ address ∈ search.asked, address ∈ search.seen.keys

theorem start_sound (federation : Federation) : (Search.start federation).Sound federation where
  pending := by
    intro loc member
    exact ⟨federation.first, .first, List.mem_reverse.mp member⟩
  seen := by
    intro address known found
    cases found
  asked := by
    intro address member
    cases member

theorem Turned.sound {after : Search} (turned : Turned federation loc search after)
    (sound : search.Sound federation) (met : Met federation loc) : after.Sound federation := by
  have seen : ∀ address known, (search.seen.set loc.address loc).get? address = some known →
      known.address = address ∧ Met federation known := by
    intro address known found
    rw [Dict.get_set] at found
    split at found
    · next here =>
        cases found
        exact ⟨here.symm, met⟩
    · exact sound.seen address known found
  have asked : ∀ address ∈ search.asked, address ∈ (search.seen.set loc.address loc).keys := by
    intro address member
    exact (Dict.mem_keys_set _ _ _ _).mpr (.inr (sound.asked address member))
  cases turned with
  | upgraded known server => exact ⟨sound.pending, seen, asked⟩
  | kept known same => exact sound
  | asked fresh manager =>
      refine ⟨?_, seen, ?_⟩
      · intro other member
        rcases List.mem_append.mp member with new | old
        · cases answered : federation.answer loc.address with
          | none => simp [answered] at new
          | some list =>
              rw [answered, Option.getD_some, List.mem_reverse] at new
              obtain ⟨holder, had, listed⟩ := met
              exact ⟨list, .behind had listed manager answered, new⟩
        · exact sound.pending other old
      · intro address member
        rcases List.mem_append.mp member with old | new
        · exact asked address old
        · rw [List.mem_singleton.mp new]
          exact (Dict.mem_keys_set _ _ _ _).mpr (.inl rfl)
  | taken fresh server => exact ⟨sound.pending, seen, asked⟩

inductive Ran (federation : Federation) (final : Search) : Nat → Search → Prop
  | ended {fuel : Nat} (none : final.pending = []) : Ran federation final fuel final
  | turned {fuel : Nat} {search : Search} {loc : LocationInfo} {rest : List LocationInfo}
      (pending : search.pending = loc :: rest)
      (later : Ran federation final fuel
        (Search.turn federation loc { search with pending := rest })) :
      Ran federation final (fuel + 1) search

theorem run_iff_ran : Search.run federation fuel search = some final ↔
    Ran federation final fuel search := by
  constructor
  · intro done
    induction fuel generalizing search with
    | zero =>
        cases pending : search.pending with
        | nil =>
            rw [run_nil pending] at done
            cases done
            exact .ended pending
        | cons loc rest =>
            rw [Search.run, pending] at done
            cases done
    | succ fuel induction =>
        cases pending : search.pending with
        | nil =>
            rw [run_nil pending] at done
            cases done
            exact .ended pending
        | cons loc rest =>
            rw [run_cons pending] at done
            exact .turned pending (induction done)
  · intro ran
    induction ran with
    | ended none => exact run_nil none
    | turned pending _ induction => rw [run_cons pending, induction]

theorem Ran.keeps {Holds : Search → Prop}
    (keeps : ∀ (search after : Search) (loc : LocationInfo) (rest : List LocationInfo),
      search.pending = loc :: rest → Holds search →
        Turned federation loc { search with pending := rest } after → Holds after)
    (ran : Ran federation final fuel search) (holds : Holds search) : Holds final := by
  induction ran with
  | ended none => exact holds
  | turned pending _ induction => exact induction (keeps _ _ _ _ pending holds (turn_turned _ _ _))

theorem Ran.ends (ran : Ran federation final fuel search) : final.pending = [] := by
  induction ran with
  | ended none => exact none
  | turned _ _ induction => exact induction

theorem popped_sound (sound : search.Sound federation) (pending : search.pending = loc :: rest) :
    ({ search with pending := rest } : Search).Sound federation ∧ Met federation loc := by
  have all := sound.pending
  rw [pending] at all
  refine ⟨⟨?_, sound.seen, sound.asked⟩, all loc List.mem_cons_self⟩
  exact fun other member => all other (List.mem_cons_of_mem loc member)

theorem run_ends (sound : search.Sound federation) (enough : search.budget federation ≤ fuel) :
    ∃ final, Search.run federation fuel search = some final := by
  induction fuel generalizing search with
  | zero =>
      cases pending : search.pending with
      | nil => exact ⟨search, run_nil pending⟩
      | cons loc rest =>
          rw [Search.budget, pending, List.length_cons] at enough
          omega
  | succ fuel induction =>
      cases pending : search.pending with
      | nil => exact ⟨search, run_nil pending⟩
      | cons loc rest =>
          obtain ⟨popped, met⟩ := popped_sound sound pending
          have turned := turn_turned federation loc { search with pending := rest }
          have paid := turned.budget (met_known met)
          rw [run_cons pending]
          apply induction (turned.sound popped met)
          apply Nat.le_trans paid
          rw [Search.budget, pending, List.length_cons] at enough
          change rest.length + unasked federation search.seen ≤ fuel
          omega

def Search.Had (federation : Federation) (search : Search) (list : List LocationInfo) : Prop :=
  list = federation.first ∨ ∃ address ∈ search.asked, federation.answer address = some list

/-- The entry is accounted for: a server is held as one, a manager was asked. -/
def Search.Settled (search : Search) (loc : LocationInfo) : Prop :=
  ∃ known, search.seen.get? loc.address = some known ∧
    (loc.isManager = false → known.isManager = false) ∧
    (loc.isManager = true → loc.address ∈ search.asked)

/-- Every entry of the answers had is still to be taken, or settled. -/
def Search.Swept (federation : Federation) (search : Search) : Prop :=
  ∀ list, search.Had federation list → ∀ loc ∈ list, loc ∈ search.pending ∨ search.Settled loc

theorem start_swept (federation : Federation) : (Search.start federation).Swept federation := by
  rintro list (rfl | ⟨address, member, -⟩) loc listed
  · exact .inl (List.mem_reverse.mpr listed)
  · cases member

theorem settled_set {other : LocationInfo} {asked : List Text} {pending : List LocationInfo}
    (settled : search.Settled other) (grows : ∀ address ∈ search.asked, address ∈ asked)
    (server : search.seen.get? loc.address = none ∨ loc.isManager = false) :
    ({ seen := search.seen.set loc.address loc, pending, asked } : Search).Settled other := by
  obtain ⟨known, found, held, wasAsked⟩ := settled
  by_cases here : other.address = loc.address
  · refine ⟨loc, ?_, ?_, fun manager => grows _ (wasAsked manager)⟩
    · rw [here]
      exact Dict.get_set_self _ _ _
    · intro _
      rcases server with fresh | server
      · rw [here, fresh] at found
        cases found
      · exact server
  · refine ⟨known, ?_, held, fun manager => grows _ (wasAsked manager)⟩
    rw [← found]
    exact Dict.get_set_other _ here _

theorem Turned.swept {after : Search} (turned : Turned federation loc search after)
    (swept : ({ search with pending := loc :: search.pending } : Search).Swept federation)
    (clear : ¬search.Passes loc) : after.Swept federation := by
  have before : ∀ list, search.Had federation list → ∀ other ∈ list,
      other = loc ∨ other ∈ search.pending ∨ search.Settled other := by
    intro list had other listed
    rcases swept list had other listed with pending | settled
    · exact (List.mem_cons.mp pending).imp id .inl
    · exact .inr (.inr settled)
  cases turned with
  | upgraded seen server =>
      intro list had other listed
      rcases before list had other listed with rfl | pending | settled
      · exact .inr ⟨other, Dict.get_set_self _ _ _, id, fun manager => by simp [server] at manager⟩
      · exact .inl pending
      · exact .inr (settled_set settled (fun _ member => member) (.inr server))
  | @kept known seen same =>
      intro list had other listed
      rcases before list had other listed with rfl | pending | settled
      · refine .inr ⟨known, seen, fun server => ?_, fun manager => ?_⟩
        · by_contra holds
          rw [same (by simpa using holds)] at server
          cases server
        · by_contra absent
          exact clear ⟨manager, Dict.mem_keys_of_get seen, absent⟩
      · exact .inl pending
      · exact .inr settled
  | asked fresh manager =>
      have grows : ∀ address ∈ search.asked, address ∈ search.asked ++ [loc.address] :=
        fun address member => List.mem_append_left _ member
      have old : ∀ list, search.Had federation list → ∀ other ∈ list,
          other ∈ ((federation.answer loc.address).getD []).reverse ++ search.pending ∨
          ({ seen := search.seen.set loc.address loc
             pending := ((federation.answer loc.address).getD []).reverse ++ search.pending
             asked := search.asked ++ [loc.address] } : Search).Settled other := by
        intro list had other listed
        rcases before list had other listed with rfl | pending | settled
        · refine .inr ⟨other, Dict.get_set_self _ _ _, id, fun _ => ?_⟩
          exact List.mem_append_right _ (List.mem_singleton_self _)
        · exact .inl (List.mem_append_right _ pending)
        · exact .inr (settled_set settled grows (.inl fresh))
      rintro list (first | ⟨address, member, answered⟩) other listed
      · exact old list (.inl first) other listed
      · rcases List.mem_append.mp member with earlier | new
        · exact old list (.inr ⟨address, earlier, answered⟩) other listed
        · rw [List.mem_singleton.mp new] at answered
          left
          apply List.mem_append_left
          rw [answered]
          exact List.mem_reverse.mpr listed
  | taken fresh server =>
      intro list had other listed
      rcases before list had other listed with rfl | pending | settled
      · exact .inr ⟨other, Dict.get_set_self _ _ _, id, fun manager => by simp [server] at manager⟩
      · exact .inl pending
      · exact .inr (settled_set settled (fun _ member => member) (.inr server))

theorem Ran.swept (ran : Ran federation final fuel search) (swept : search.Swept federation)
    (clear : ¬Search.PassesOver federation fuel search) : final.Swept federation := by
  induction ran with
  | ended none => exact swept
  | @turned fuel search loc rest pending _ induction =>
      rw [passes_over_cons pending, not_or] at clear
      have whole : ({ search with pending := loc :: rest } : Search) = search := by
        rw [← pending]
      exact induction ((turn_turned federation loc { search with pending := rest }).swept
        (whole ▸ swept) clear.1) clear.2

theorem mem_found : loc ∈ search.found ↔
    (∃ address, search.seen.get? address = some loc) ∧ loc.isManager = false := by
  rw [Search.found, List.mem_filter, Bool.not_eq_true', List.mem_map]
  apply and_congr_left'
  constructor
  · rintro ⟨⟨address, value⟩, member, rfl⟩
    exact ⟨address, (Dict.get_eq_some _ _ _).mpr member⟩
  · rintro ⟨address, found⟩
    exact ⟨(address, loc), (Dict.get_eq_some _ _ _).mp found, rfl⟩

theorem found_nodup (sound : search.Sound federation) :
    (search.found.map LocationInfo.address).Nodup := by
  have addresses : (search.seen.entries.map Prod.snd).map LocationInfo.address =
      search.seen.keys := by
    rw [List.map_map]
    apply List.map_congr_left
    intro entry member
    exact (sound.seen entry.1 entry.2 ((Dict.get_eq_some _ _ _).mpr member)).1
  have distinct := search.seen.keys_nodup
  rw [← addresses] at distinct
  exact (List.filter_sublist.map LocationInfo.address).nodup distinct

theorem found_reported (sound : search.Sound federation) {address : Text}
    (found : address ∈ search.found.map LocationInfo.address) : Reported federation address := by
  obtain ⟨loc, member, rfl⟩ := List.mem_map.mp found
  obtain ⟨⟨address, held⟩, server⟩ := mem_found.mp member
  exact ⟨loc, (sound.seen address loc held).2, rfl, server⟩

theorem answers_had (swept : search.Swept federation) (none : search.pending = [])
    {list : List LocationInfo} (answers : Answers federation list) : search.Had federation list := by
  induction answers with
  | first => exact .inl rfl
  | behind _ member manager answered had =>
      rcases swept _ had _ member with pending | ⟨known, -, -, asked⟩
      · rw [none] at pending
        cases pending
      · exact .inr ⟨_, asked manager, answered⟩

theorem reported_found (sound : search.Sound federation) (swept : search.Swept federation)
    (none : search.pending = []) {address : Text} (reported : Reported federation address) :
    address ∈ search.found.map LocationInfo.address := by
  obtain ⟨loc, ⟨list, answers, member⟩, rfl, server⟩ := reported
  rcases swept list (answers_had swept none answers) loc member with pending | settled
  · rw [none] at pending
    cases pending
  · obtain ⟨known, found, held, -⟩ := settled
    rw [← (sound.seen _ _ found).1]
    exact List.mem_map_of_mem (mem_found.mpr ⟨⟨_, found⟩, held server⟩)

theorem Ran.sound (ran : Ran federation final fuel search) (sound : search.Sound federation) :
    final.Sound federation := by
  apply ran.keeps _ sound
  intro search after loc rest pending sound turned
  obtain ⟨popped, met⟩ := popped_sound sound pending
  exact turned.sound popped met

theorem Turned.asked_grows {after : Search} (turned : Turned federation loc search after) :
    ∀ address ∈ search.asked, address ∈ after.asked := by
  intro address member
  cases turned with
  | upgraded seen server => exact member
  | kept seen same => exact member
  | asked fresh manager => exact List.mem_append_left _ member
  | taken fresh server => exact member

theorem Ran.asked_grows (ran : Ran federation final fuel search) :
    ∀ address ∈ search.asked, address ∈ final.asked := by
  induction ran with
  | ended none => exact fun _ member => member
  | turned pending _ induction =>
      exact fun address member => induction address ((turn_turned _ _ _).asked_grows address member)

theorem Turned.unasked {after : Search} (turned : Turned federation loc search after)
    {address : Text} (unasked : address ∈ search.seen.keys ∧ address ∉ search.asked) :
    address ∈ after.seen.keys ∧ address ∉ after.asked := by
  have grown : address ∈ (search.seen.set loc.address loc).keys :=
    (Dict.mem_keys_set _ _ _ _).mpr (.inr unasked.1)
  cases turned with
  | upgraded seen server => exact ⟨grown, unasked.2⟩
  | kept seen same => exact unasked
  | asked fresh manager =>
      refine ⟨grown, fun member => ?_⟩
      rcases List.mem_append.mp member with old | new
      · exact unasked.2 old
      · exact (Dict.get_eq_none _ _).mp fresh (List.mem_singleton.mp new ▸ unasked.1)
  | taken fresh server => exact ⟨grown, unasked.2⟩

theorem Ran.passed_over (ran : Ran federation final fuel search)
    (sound : search.Sound federation) (passes : Search.PassesOver federation fuel search) :
    ∃ loc, Met federation loc ∧ loc.isManager = true ∧ loc.address ∉ final.asked := by
  induction ran with
  | ended none => exact absurd passes (passes_over_nil none)
  | @turned fuel search loc rest pending later induction =>
      obtain ⟨popped, met⟩ := popped_sound sound pending
      have turned := turn_turned federation loc { search with pending := rest }
      rcases (passes_over_cons pending).mp passes with ⟨manager, unasked⟩ | behind
      · have kept := later.keeps (fun _ _ _ _ _ holds turned => Turned.unasked turned holds)
          (turned.unasked unasked)
        exact ⟨loc, met, manager, kept.2⟩
      · exact induction (turned.sound popped met) behind

theorem turn_alike {other : Federation}
    (alike : ∀ address ∈ (Search.turn federation loc search).asked,
      other.answer address = federation.answer address) :
    Search.turn other loc search = Search.turn federation loc search := by
  unfold Search.turn at alike ⊢
  cases seen : search.seen.get? loc.address with
  | some known => rfl
  | none =>
      rw [seen] at alike
      dsimp only at alike ⊢
      split
      · next manager =>
          rw [if_pos manager] at alike
          rw [alike loc.address (List.mem_append_right _ (List.mem_singleton_self _))]
      · rfl

theorem Ran.alike {other : Federation} (ran : Ran federation final fuel search)
    (alike : ∀ address ∈ final.asked, other.answer address = federation.answer address) :
    Ran other final fuel search ∧
      (Search.PassesOver federation fuel search → Search.PassesOver other fuel search) := by
  induction ran with
  | ended none => exact ⟨.ended none, fun passes => absurd passes (passes_over_nil none)⟩
  | @turned fuel search loc rest pending later induction =>
      have same := turn_alike fun address member => alike address (later.asked_grows address member)
      obtain ⟨ran, passes⟩ := induction
      rw [← same] at ran
      refine ⟨.turned pending ran, ?_⟩
      rw [passes_over_cons pending, passes_over_cons pending, same]
      exact Or.imp id passes

theorem address_elsewhere (federation : Federation) : ∃ address, address ∉ federation.nodes := by
  refine ⟨'x' :: federation.nodes.flatten, fun member => ?_⟩
  have shorter := (List.sublist_flatten_of_mem member).length_le
  rw [List.length_cons] at shorter
  omega

/-- One entry for each address that an answer to be had reports as a server. -/
def Exact (federation : Federation) (found : List LocationInfo) : Prop :=
  (found.map LocationInfo.address).Nodup ∧
    ∀ address, address ∈ found.map LocationInfo.address ↔ Reported federation address

/-- The federation where every node that was not asked would answer with one server
elsewhere. -/
def Federation.hiding (federation : Federation) (asked : List Text) (elsewhere : Text) :
    Federation where
  first := federation.first
  answer := fun address =>
    if address ∈ asked then federation.answer address else some [⟨elsewhere, 'S', 'r'⟩]
  nodes := elsewhere :: federation.nodes
  first_known := fun loc member => List.mem_cons_of_mem _ (federation.first_known loc member)
  answer_known := by
    intro address list answered loc member
    split at answered
    · exact List.mem_cons_of_mem _ (federation.answer_known address list answered loc member)
    · cases answered
      rw [List.mem_singleton.mp member]
      exact List.mem_cons_self

/-- The same federation with the entries of its answers in another order. -/
structure Reordered (federation other : Federation) : Prop where
  first : other.first.Perm federation.first
  answer : ∀ address, Option.Rel List.Perm (other.answer address) (federation.answer address)

theorem answers_reordered {other : Federation} (reordered : Reordered federation other)
    {list : List LocationInfo} (answers : Answers federation list) :
    ∃ list', Answers other list' ∧ list'.Perm list := by
  induction answers with
  | first => exact ⟨other.first, .first, reordered.first⟩
  | @behind list next loc _ member manager answered induction =>
      obtain ⟨list', answers, same⟩ := induction
      have alike := reordered.answer loc.address
      rw [answered] at alike
      cases found : other.answer loc.address with
      | none =>
          rw [found] at alike
          cases alike
      | some next' =>
          rw [found] at alike
          cases alike with
          | some shuffled =>
              exact ⟨next', .behind answers (same.mem_iff.mpr member) manager found, shuffled⟩

theorem reported_reordered {other : Federation} (reordered : Reordered federation other)
    {address : Text} (reported : Reported federation address) : Reported other address := by
  obtain ⟨loc, ⟨list, answers, member⟩, here, server⟩ := reported
  obtain ⟨list', answers, same⟩ := answers_reordered reordered answers
  exact ⟨loc, ⟨list', answers, same.mem_iff.mpr member⟩, here, server⟩

/-- The search ends. What it finds is right, whatever the nodes that were not asked would
have answered, exactly where it passes over no manager that was never asked; and what
there is to find does not depend on the order of the entries. -/
theorem deep_locate_exact_iff (federation : Federation) {fuel : Nat}
    (enough : (Search.start federation).budget federation ≤ fuel) :
    (∃ final, Search.run federation fuel (Search.start federation) = some final ∧
      deepLocate federation fuel = some final.found ∧
      ((∀ other : Federation, other.first = federation.first →
          (∀ address ∈ final.asked, other.answer address = federation.answer address) →
          Exact other final.found) ↔
        ¬Search.PassesOver federation fuel (Search.start federation))) ∧
    ∀ other, Reordered federation other → ∀ address,
      Reported federation address → Reported other address := by
  refine ⟨?_, fun other reordered address => reported_reordered reordered⟩
  obtain ⟨final, done⟩ := run_ends (start_sound federation) enough
  have ran := run_iff_ran.mp done
  refine ⟨final, done, by rw [deepLocate, done]; rfl, ?_⟩
  constructor
  · intro right passes
    obtain ⟨elsewhere, absent⟩ := address_elsewhere federation
    have alike : ∀ address ∈ final.asked,
        (federation.hiding final.asked elsewhere).answer address = federation.answer address :=
      fun address member => if_pos member
    obtain ⟨ran', passed⟩ := ran.alike alike
    obtain ⟨loc, ⟨list, had, member⟩, manager, unasked⟩ :=
      ran'.passed_over (start_sound (federation.hiding final.asked elsewhere)) (passed passes)
    have reported : Reported (federation.hiding final.asked elsewhere) elsewhere :=
      ⟨⟨elsewhere, 'S', 'r'⟩, ⟨_, .behind had member manager (if_neg unasked),
        List.mem_singleton_self _⟩, rfl, rfl⟩
    have found := ((right (federation.hiding final.asked elsewhere) rfl alike).2 elsewhere).mpr reported
    obtain ⟨known, met, rfl, -⟩ := found_reported (ran.sound (start_sound federation)) found
    exact absent (met_known met)
  · intro clear other first alike
    obtain ⟨ran', -⟩ := ran.alike alike
    have clear' : ¬Search.PassesOver other fuel (Search.start federation) := fun passes =>
      clear ((ran'.alike fun address member => (alike address member).symm).2 passes)
    have start : Search.start federation = Search.start other := by
      rw [Search.start, Search.start, first]
    rw [start] at ran' clear'
    have sound := ran'.sound (start_sound other)
    have swept := ran'.swept (start_swept other) clear'
    refine ⟨found_nodup sound, fun address => ?_⟩
    exact ⟨found_reported sound, reported_found sound swept ran'.ends⟩

end Search

def managerAt (address : Text) : LocationInfo := ⟨address, 'M', 'r'⟩

def serverAt (address : Text) : LocationInfo := ⟨address, 'S', 'r'⟩

/-- Node `a` holds the file and stands in front of node `b`: the first answer reports it
both ways, in the order given. -/
def supervised (first : List LocationInfo)
    (known : ∀ loc ∈ first, loc.address ∈ [str "a", str "b"]) : Federation where
  first := first
  answer := fun address => if address = str "a" then some [serverAt (str "b")] else none
  nodes := [str "a", str "b"]
  first_known := known
  answer_known := by
    intro address list answered loc member
    split at answered
    · cases answered
      rw [List.mem_singleton.mp member]
      decide
    · cases answered

theorem supervisor_located :
    deepLocate (supervised [serverAt (str "a"), managerAt (str "a")] (by decide)) 3 =
        some [serverAt (str "a"), serverAt (str "b")] ∧
      Exact (supervised [serverAt (str "a"), managerAt (str "a")] (by decide))
        [serverAt (str "a"), serverAt (str "b")] := by
  have located : deepLocate (supervised [serverAt (str "a"), managerAt (str "a")] (by decide)) 3 =
      some [serverAt (str "a"), serverAt (str "b")] := by decide
  have enough : (Search.start (supervised [serverAt (str "a"), managerAt (str "a")]
      (by decide))).budget (supervised [serverAt (str "a"), managerAt (str "a")] (by decide)) ≤ 3 := by
    decide
  obtain ⟨⟨final, done, found, right⟩, -⟩ := deep_locate_exact_iff _ enough
  rw [located] at found
  refine ⟨located, ?_⟩
  rw [Option.some.inj found]
  refine right.mpr ?_ _ rfl fun _ _ => rfl
  rintro (⟨-, seen, -⟩ | ⟨manager, -⟩ | ⟨manager, -⟩ | none)
  · exact absurd seen (by decide)
  · exact absurd manager (by decide)
  · exact absurd manager (by decide)
  · exact none

/-- Met as a server first, it is not asked, and the server behind it is lost. -/
theorem supervisor_passed_over :
    deepLocate (supervised [managerAt (str "a"), serverAt (str "a")] (by decide)) 3 =
        some [serverAt (str "a")] ∧
      Reported (supervised [managerAt (str "a"), serverAt (str "a")] (by decide)) (str "b") ∧
      ¬∀ (federation : Federation) (fuel : Nat),
        (Search.start federation).budget federation ≤ fuel →
        ∃ found, deepLocate federation fuel = some found ∧ Exact federation found := by
  have found : deepLocate (supervised [managerAt (str "a"), serverAt (str "a")] (by decide)) 3 =
      some [serverAt (str "a")] := by decide
  have reported : Reported (supervised [managerAt (str "a"), serverAt (str "a")] (by decide))
      (str "b") :=
    ⟨serverAt (str "b"), ⟨_, .behind .first List.mem_cons_self rfl rfl, List.mem_singleton_self _⟩,
      rfl, rfl⟩
  refine ⟨found, reported, fun all => ?_⟩
  obtain ⟨list, located, exact_⟩ :=
    all (supervised [managerAt (str "a"), serverAt (str "a")] (by decide)) 3 (by decide)
  rw [found] at located
  cases located
  exact absurd ((exact_.2 (str "b")).mpr reported) (by decide)

end XRootDClient.Client
