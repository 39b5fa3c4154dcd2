import XRootDClient.Client.Url
import XRootDClient.Lib.Query

/-!
# Opaque data

What `_abs` makes of a path, for every path and every query of the filesystem's URL:
the pairs that are spelled out, then each pair of the URL whose key is not among them.
Every key of the URL is named in what comes out, so that nothing is added a second time.
-/

set_option autoImplicit false

namespace XRootDClient.Url

open Lib Lib.Percent

section Suffix

variable (explicit : Text) (query : Dict Text Text)

def inherited : List (Text × Text) :=
  query.entries.filter fun entry => entry.1 ∉ (parseQsl explicit).map Prod.fst

theorem cgi_bare (none : inherited explicit query = []) :
    cgi explicit query = if explicit = [] then [] else '?' :: explicit := by
  unfold cgi
  dsimp only
  split_ifs with empty nothing blank blank
  · rfl
  · rfl
  · rfl
  · rfl
  all_goals exact absurd ((urlencode_eq_nil _).mpr none) (by assumption)

theorem cgi_extended (some : inherited explicit query ≠ []) :
    cgi explicit query = '?' :: (if explicit = [] then urlencode (inherited explicit query)
      else explicit ++ '&' :: urlencode (inherited explicit query)) := by
  have full : query.entries ≠ [] := by
    intro empty
    rw [inherited, empty] at some
    exact some rfl
  have extra : ¬urlencode (inherited explicit query) = [] := fun nothing =>
    some ((urlencode_eq_nil _).mp nothing)
  unfold cgi
  rw [if_neg full]
  dsimp only
  rw [← inherited, if_neg extra]
  split_ifs
  · rfl
  · rfl

theorem cgi_marked : cgi explicit query = [] ∨ (cgi explicit query).head? = some '?' := by
  by_cases none : inherited explicit query = []
  · rw [cgi_bare explicit query none]
    split_ifs
    · exact .inl rfl
    · exact .inr rfl
  · rw [cgi_extended explicit query none]
    exact .inr rfl

theorem cgi_spelled : explicit <+: (cgi explicit query).tail := by
  by_cases blank : explicit = []
  · rw [blank]
    exact List.nil_prefix
  · by_cases none : inherited explicit query = []
    · rw [cgi_bare explicit query none, if_neg blank]
      exact ⟨[], List.append_nil explicit⟩
    · rw [cgi_extended explicit query none, if_neg blank]
      exact List.prefix_append explicit _

theorem parse_cgi :
    parseQsl (cgi explicit query).tail = parseQsl explicit ++ inherited explicit query := by
  by_cases none : inherited explicit query = []
  · rw [cgi_bare explicit query none, none, List.append_nil]
    split_ifs with blank
    · rw [blank]
      rfl
    · rfl
  · rw [cgi_extended explicit query none, List.tail_cons]
    split_ifs with blank
    · rw [parse_urlencode, blank]
      rfl
    · rw [parse_qsl_append, parse_urlencode]

theorem inherited_again : inherited (cgi explicit query).tail query = [] := by
  rw [inherited, List.filter_eq_nil_iff]
  intro entry member
  rw [decide_eq_true_eq, not_not, parse_cgi, List.map_append, List.mem_append]
  by_cases named : entry.1 ∈ (parseQsl explicit).map Prod.fst
  · exact .inl named
  · apply Or.inr
    apply List.mem_map_of_mem
    exact List.mem_filter.mpr ⟨member, decide_eq_true named⟩

theorem cgi_again : cgi (cgi explicit query).tail query = cgi explicit query := by
  rw [cgi_bare _ _ (inherited_again explicit query)]
  rcases cgi_marked explicit query with nothing | marked
  · rw [nothing]
    rfl
  · by_cases blank : (cgi explicit query).tail = []
    · -- a lone question mark would have been no suffix at all
      have lone : cgi explicit query = ['?'] := by
        rw [← List.cons_head?_tail marked, blank]
      have before : explicit = [] := by
        have front := cgi_spelled explicit query
        rw [blank] at front
        exact List.prefix_nil.mp front
      have none := parse_cgi explicit query
      rw [blank, before] at none
      rw [before, cgi_bare [] query none.symm] at lone
      cases lone
    · rw [if_neg blank]
      exact List.cons_head?_tail marked

end Suffix

namespace XRootDURL

variable (url : XRootDURL)

/-- The URL of a filesystem as it is parsed: its path is one from the root, and its
query is apart. -/
structure Based : Prop where
  rooted : url.path.head? = some '/'
  bare : '?' ∉ url.path

def resolved (path : Text) : Text :=
  let base := (Text.partition '?' path).1
  if base.head? = some '/' then base
  else Posix.join (if url.path = [] then ['/'] else url.path) base

end XRootDURL

def spelled (path : Text) : Text := (Text.partition '?' path).2.2

section Paths

variable {url : XRootDURL}

theorem abs_eq (path : Text) :
    url.abs path = Posix.normpath (url.resolved path) ++ cgi (spelled path) url.query := by
  have given : (if (Text.partition '?' path).2.1 = true then spelled path else []) =
      spelled path := by
    unfold spelled Text.partition
    dsimp only
    split <;> rfl
  change Posix.normpath (url.resolved path) ++
    cgi (if (Text.partition '?' path).2.1 = true then spelled path else []) url.query = _
  rw [given]

theorem resolved_rooted (based : url.Based) (path : Text) :
    (url.resolved path).head? = some '/' ∧ '?' ∉ url.resolved path := by
  have some : url.path ≠ [] := by
    intro none
    have rooted := based.rooted
    rw [none] at rooted
    cases rooted
  have bare := partition_front '?' path
  unfold XRootDURL.resolved
  dsimp only
  rw [if_neg some]
  split_ifs with absolute
  · exact ⟨absolute, bare⟩
  · exact ⟨Client.join_head based.rooted _, Client.join_bare based.bare bare⟩

/-- A path from the root is normalized once and for all, and holds no more than it did. -/
theorem normpath_settled {path : Text} (rooted : path.head? = some '/') (bare : '?' ∉ path) :
    (Posix.normpath path).head? = some '/' ∧ '?' ∉ Posix.normpath path ∧
      Posix.normpath (Posix.normpath path) = Posix.normpath path := by
  obtain ⟨front, shape⟩ := Posix.normpath_rooted rooted
  have plain : ∀ name ∈ Posix.parts true path, Client.Plain name := fun name member =>
    ⟨Posix.parts_proper path name member, Posix.parts_mem bare name member⟩
  rw [shape]
  exact ⟨Client.render_head front, Client.render_bare front plain,
    Posix.normpath_render front fun name member => (plain name member).1⟩

theorem split_marked {place suffix : Text} (bare : '?' ∉ place)
    (marked : suffix = [] ∨ suffix.head? = some '?') :
    Client.splitCgi (place ++ suffix) = (place, suffix) := by
  unfold Client.splitCgi
  rw [Client.partition_marked bare marked]
  cases suffix with
  | nil => rfl
  | cons char rest =>
      rcases marked with none | same
      · cases none
      · cases same
        rfl

theorem abs_suffixed {place : Text} (rooted : place.head? = some '/') (bare : '?' ∉ place)
    (explicit : Text) :
    url.abs (place ++ cgi explicit url.query) =
      Posix.normpath place ++ cgi explicit url.query := by
  have cut := Client.partition_marked bare (cgi_marked explicit url.query)
  have kept : url.resolved (place ++ cgi explicit url.query) = place := by
    unfold XRootDURL.resolved
    rw [cut]
    exact if_pos rooted
  have tail : spelled (place ++ cgi explicit url.query) = (cgi explicit url.query).tail := by
    unfold spelled
    rw [cut]
  rw [abs_eq, kept, tail, cgi_again]

theorem normalize_settled {path : Text} (bare : '?' ∉ path) :
    (Client.normalize path).head? = some '/' ∧ '?' ∉ Client.normalize path := by
  obtain ⟨trailing, shape, either⟩ := Client.normalize_shape path
  have plain : ∀ name ∈ Posix.parts true path, Client.Plain name := fun name member =>
    ⟨Posix.parts_proper path name member, Posix.parts_mem bare name member⟩
  have clean := Client.render_bare (.inl rfl) plain
  rw [shape]
  constructor
  · rfl
  · rw [List.mem_append, not_or]
    rcases either with rfl | ⟨rfl, -, -⟩
    · exact ⟨clean, List.not_mem_nil⟩
    · exact ⟨clean, by decide⟩

/-- Every URL that is parsed, but for those of local files, is one of a filesystem. -/
theorem parse_based {python : Python} (lowers : python.Lowers) {text : Text}
    (read : parse python text = .ok url) (remote : url.scheme ≠ fileScheme) : url.Based := by
  have named := parse_scheme lowers read
  unfold parse at read
  cases found : splitScheme text with
  | none =>
      rw [found] at named
      exact absurd named remote
  | some parts =>
      rw [found] at read named
      dsimp only at read named
      rw [if_neg (named ▸ remote)] at read
      unfold parseRest at read
      dsimp only at read
      split at read
      · cases read
      · cases read
        have settled := normalize_settled (partition_front '?'
          (if (Text.partition '/' parts.2).2.1 then '/' :: (Text.partition '/' parts.2).2.2
            else ['/']))
        exact ⟨settled.1, settled.2⟩

end Paths

/-- Opaque data as it should be carried by what `_abs` makes of a path. -/
structure Carried (url : XRootDURL) (path : Text) : Prop where
  again : url.abs (url.abs path) = url.abs path
  whole : (Client.splitCgi (url.abs path)).1 ++ (Client.splitCgi (url.abs path)).2 = url.abs path
  rooted : (Client.splitCgi (url.abs path)).1.head? = some '/'
  bare : '?' ∉ (Client.splitCgi (url.abs path)).1
  normal : Posix.normpath (Client.splitCgi (url.abs path)).1 = (Client.splitCgi (url.abs path)).1
  unchanged : spelled path <+: (Client.splitCgi (url.abs path)).2.tail
  pairs : parseQsl (Client.splitCgi (url.abs path)).2.tail =
    parseQsl (spelled path) ++
      url.query.entries.filter fun entry => entry.1 ∉ (parseQsl (spelled path)).map Prod.fst
  back : ∀ other : Text, other.head? = some '/' → '?' ∉ other →
    url.abs (other ++ (Client.splitCgi (url.abs path)).2) =
      Posix.normpath other ++ (Client.splitCgi (url.abs path)).2

/-- The opaque data of a path is carried exactly once, through every path that is made
with it. -/
theorem abs_carried {url : XRootDURL} (based : url.Based) (path : Text) : Carried url path := by
  obtain ⟨rooted, bare⟩ := resolved_rooted based path
  obtain ⟨first, clean, normal⟩ := normpath_settled rooted bare
  have split : Client.splitCgi (url.abs path) =
      (Posix.normpath (url.resolved path), cgi (spelled path) url.query) := by
    rw [abs_eq, split_marked clean (cgi_marked _ _)]
  constructor
  · rw [@abs_eq url path, abs_suffixed first clean, normal]
  · rw [split, abs_eq]
  · rw [split]
    exact first
  · rw [split]
    exact clean
  · rw [split]
    exact normal
  · rw [split]
    exact cgi_spelled _ _
  · rw [split]
    exact parse_cgi _ _
  · intro other absolute plain
    rw [split]
    exact abs_suffixed absolute plain _

def tokened : XRootDURL where
  path := str "/store"
  query := Dict.update ∅ [(authz, str "T&1"), (str "x", [])]

theorem tokened_carried : Carried tokened (str "run/../a?x=1&&y") ∧
    tokened.abs (str "run/../a?x=1&&y") = str "/store/a?x=1&&y&authz=T%261" :=
  ⟨abs_carried ⟨rfl, by decide⟩ _, by decide +kernel⟩

end XRootDClient.Url
