import XRootDClient.Client.Url

/-!
# Secrets in a URL

Two texts that differ in nothing but the password and the values of `authz`, and what is
shown of the URLs that the same operations make of both. What is shown stays the same as
long as the secrets are in the fields that are blotted out: where the parser looks for
them, and not in a path that took the query of its filesystem's URL along.
-/

set_option autoImplicit false

namespace XRootDClient.Url

open Lib Lib.Percent Lib.Run

inductive Use
  | withPath
  | evolve
  | parse

inductive Operation
  | parse
  | reparse
  | evolve (changes : Changes)
  | withPath (path : Text)
  | join (parts : List Text)
  | truediv (part : Text)
  | withQuery (params : Dict Text (Option Text))
  | urlFor (path : Text)
  | abs (path : Text) (use : Use)

section Performing

variable (python : Python)

def Use.apply (url : XRootDURL) (path : Text) : Use → Option XRootDURL
  | .withPath => some (url.withPath python path)
  | .evolve => some (url.evolve python { path := some path })
  | .parse => (Url.parse python path).toOption

def perform (operation : Operation) (url : XRootDURL) : Option XRootDURL :=
  match operation with
  | .parse => some url
  | .reparse => (parse python url.toText).toOption
  | .evolve changes => some (url.evolve python changes)
  | .withPath path => some (url.withPath python path)
  | .join parts => some (url.join python parts)
  | .truediv part => some (url.truediv python part)
  | .withQuery params => some (url.withQuery python params)
  | .urlFor path => some (url.urlFor python path)
  | .abs path use => use.apply python url (url.abs path)

def step (operation : Operation) (url : Option XRootDURL) : Option XRootDURL :=
  url.bind (perform python operation)

def start (text : Text) : Option XRootDURL := (parse python text).toOption

def shown (operations : List Operation) (text : Text) : Option Text :=
  (run (step python) operations (start python text)).map fun url => url.repr python

end Performing

/-- A URL text taken apart: a user name with a password, what stands before the query,
and the query. -/
structure Spelling where
  scheme : Text
  login : Option (Text × Text)
  front : Text
  query : Option Text

namespace Spelling

variable (spelling : Spelling)

def userinfo : Text :=
  match spelling.login with
  | none => []
  | some (username, password) => username ++ ':' :: password ++ ['@']

def cgi : Text :=
  match spelling.query with
  | none => []
  | some query => '?' :: query

def text : Text :=
  spelling.scheme ++ ':' :: '/' :: '/' :: (spelling.userinfo ++ (spelling.front ++ spelling.cgi))

def password : Text := (spelling.login.map Prod.snd).getD []

structure Formed : Prop where
  scheme : splitScheme spelling.scheme = none
  username : ∀ login ∈ spelling.login, ':' ∉ login.1 ∧ '/' ∉ login.1
  password : ∀ login ∈ spelling.login, '/' ∉ login.2

def Authorized : Prop :=
  ∃ query ∈ spelling.query, ∃ field ∈ query.splitOn '&', nameOf field = authz

def Secret : Prop := spelling.login ≠ none ∨ spelling.Authorized

end Spelling

/-- Two fields that are the same, or give `authz` two values. -/
def Secretly (field other : Text) : Prop :=
  field = other ∨ nameOf field = authz ∧ nameOf other = authz

structure Differ (left right : Spelling) : Prop where
  scheme : left.scheme = right.scheme
  username : left.login.map Prod.fst = right.login.map Prod.fst
  front : left.front = right.front
  query : Option.Rel (fun query other =>
    List.Forall₂ Secretly (query.splitOn '&') (other.splitOn '&')) left.query right.query

/-- What is shown of two texts that differ in their secrets is the same, whatever is done
with them. -/
def Hidden (python : Python) : Prop :=
  ∀ left right : Spelling, left.Formed → right.Formed → Differ left right →
    ∀ operations, shown python operations left.text = shown python operations right.text

/-- The parser finds the secrets of a text where they stand: it is not the text of a file,
and the query is the first one behind a slash. -/
structure Found (python : Python) (spelling : Spelling) : Prop where
  formed : spelling.Formed
  remote : python.lower spelling.scheme ≠ fileScheme
  query : spelling.Authorized →
    '/' ∈ spelling.front ∧ '?' ∉ (Text.partition '/' spelling.front).2.2

def Legible (python : Python) (spelling : Spelling) : Prop :=
  spelling.Secret → Found python spelling

def spell (url : XRootDURL) : Spelling where
  scheme := url.scheme
  login :=
    if url.username = [] ∨ url.password = [] then none
    else some (quote url.username, quote url.password)
  front := (if url.username = [] ∨ url.password ≠ [] then [] else quote url.username ++ ['@']) ++
    url.place
  query := if url.query.entries = [] then none else some (urlencode url.query.entries)

/-- The path's own query names `authz` where the URL's does. -/
def Named (url : XRootDURL) (path : Text) : Prop :=
  authz ∈ url.query.keys → authz ∈ (parseQsl (Text.partition '?' path).2.2).map Prod.fst

/-- An operation that leaves the secrets of a URL where they are. -/
def Leaves (python : Python) (url : XRootDURL) : Operation → Prop
  | .reparse => url.scheme = fileScheme ∨ Legible python (spell url)
  | .urlFor path => Named url path
  | .abs path _ => Named url path
  | _ => True

def Covered (python : Python) (entry : Entry Operation (Option XRootDURL)) : Prop :=
  ∀ url ∈ entry.before, Leaves python url entry.label

/-- Equal but for the secrets: both have a password or neither has, and only the values of
`authz` differ. -/
structure Alike (left right : XRootDURL) : Prop where
  scheme : left.scheme = right.scheme
  host : left.host = right.host
  port : left.port = right.port
  path : left.path = right.path
  username : left.username = right.username
  password : left.password = [] ↔ right.password = []
  query : Dict.Related (fun key value other => key = authz ∨ value = other) left.query right.query

theorem Alike.refl (url : XRootDURL) : Alike url url where
  scheme := rfl
  host := rfl
  port := rfl
  path := rfl
  username := rfl
  password := Iff.rfl
  query := List.forall₂_same.mpr fun _ _ => ⟨rfl, .inr rfl⟩

variable {python : Python} {left right : XRootDURL}

theorem Alike.post_init (alike : Alike left right) :
    Alike (postInit python left) (postInit python right) where
  scheme := congrArg python.lower alike.scheme
  host := congrArg python.lower alike.host
  port := alike.port
  path := alike.path
  username := alike.username
  password := alike.password
  query := alike.query

theorem Alike.keys (alike : Alike left right) : left.query.keys = right.query.keys :=
  alike.query.keys

theorem Alike.entries (alike : Alike left right) :
    left.query.entries = [] ↔ right.query.entries = [] := by
  have lengths := alike.query.length_eq
  rw [← List.length_eq_zero_iff, ← List.length_eq_zero_iff, lengths]

theorem contains_iff (query : Dict Text Text) (key : Text) :
    query.contains key = true ↔ key ∈ query.keys := by
  rw [Dict.mem_keys, Dict.contains, Option.isSome_iff_exists]

theorem Alike.blotted (alike : Alike left right) :
    (left.query.mapEntries fun key value => if key = authz then redaction else value) =
      right.query.mapEntries fun key value => if key = authz then redaction else value := by
  apply Dict.Related.map_entries alike.query
  rintro key value other (rfl | rfl)
  · rw [if_pos rfl, if_pos rfl]
  · rfl

theorem blotted_plain {query : Dict Text Text} (absent : ¬query.contains authz) :
    (query.mapEntries fun key value => if key = authz then redaction else value) = query := by
  apply Dict.ext
  rw [Dict.mapEntries]
  conv_rhs => rw [← List.map_id query.entries]
  apply List.map_congr_left
  intro entry member
  have other : entry.1 ≠ authz := by
    intro same
    rw [contains_iff, ← same] at absent
    exact absent (List.mem_map_of_mem member)
  rw [if_neg other]
  rfl

theorem Alike.redacted (alike : Alike left right) :
    left.redacted python = right.redacted python := by
  have known : left.query.contains authz = true ↔ right.query.contains authz = true := by
    rw [contains_iff, contains_iff, alike.keys]
  unfold XRootDURL.redacted
  by_cases secret : left.password ≠ [] ∨ left.query.contains authz = true
  · have both : right.password ≠ [] ∨ right.query.contains authz = true :=
      secret.imp (mt alike.password.mpr) known.mp
    rw [if_pos secret, if_pos both]
    apply congrArg (postInit python)
    apply XRootDURL.ext
    · exact alike.scheme
    · exact alike.host
    · exact alike.port
    · exact alike.path
    · exact alike.username
    · simp only [alike.password]
    · exact alike.blotted
  · have neither : ¬(right.password ≠ [] ∨ right.query.contains authz = true) := fun both =>
      secret (both.imp (mt alike.password.mp) known.mpr)
    rw [if_neg secret, if_neg neither]
    rw [not_or, not_not] at secret neither
    apply XRootDURL.ext
    · exact alike.scheme
    · exact alike.host
    · exact alike.port
    · exact alike.path
    · exact alike.username
    · rw [secret.1, neither.1]
    · rw [← blotted_plain secret.2, alike.blotted, blotted_plain neither.2]

theorem Alike.repr (alike : Alike left right) : left.repr python = right.repr python := by
  rw [XRootDURL.repr, XRootDURL.repr, alike.redacted]

theorem Alike.evolve (alike : Alike left right) (changes : Changes) :
    Alike (left.evolve python changes) (right.evolve python changes) := by
  apply Alike.post_init
  constructor
  · rw [alike.scheme]
  · rw [alike.host]
  · rw [alike.port]
  · rw [alike.path]
  · rw [alike.username]
  · cases changes.password with
    | none => exact alike.password
    | some password => exact Iff.rfl
  · cases changes.query with
    | none => exact alike.query
    | some query => exact (Alike.refl { query }).query

theorem Alike.with_path (alike : Alike left right) (path : Text) :
    Alike (left.withPath python path) (right.withPath python path) :=
  Alike.post_init { alike with path := rfl }

theorem Alike.join (alike : Alike left right) (parts : List Text) :
    Alike (left.join python parts) (right.join python parts) := by
  unfold XRootDURL.join
  rw [alike.path]
  exact alike.with_path _

theorem Alike.with_query (alike : Alike left right) (params : Dict Text (Option Text)) :
    Alike (left.withQuery python params) (right.withQuery python params) := by
  apply Alike.post_init
  exact { alike with
    query := alike.query.update (List.forall₂_same.mpr fun _ _ => ⟨rfl, .inr rfl⟩) }

theorem inherited_alike {named : List Text} {entries others : List (Text × Text)}
    (matched : List.Forall₂ (Dict.Matched fun key value other => key = authz ∨ value = other)
      entries others)
    (taken : authz ∈ entries.map Prod.fst → authz ∈ named) :
    (entries.filter fun entry => entry.1 ∉ named) = others.filter fun entry => entry.1 ∉ named := by
  induction matched with
  | nil => rfl
  | @cons entry other rest more here _ induction =>
      have later := induction fun member => taken (List.mem_cons_of_mem _ member)
      rw [List.filter_cons, List.filter_cons, later, ← here.1]
      by_cases dropped : entry.1 ∈ named
      · simp only [dropped, not_true, decide_false, Bool.false_eq_true, if_false]
      · have plain : entry.1 ≠ authz := fun same =>
          dropped (same ▸ taken (same ▸ List.mem_cons_self))
        rw [Prod.ext here.1 (here.2.resolve_left plain)]

theorem Alike.cgi (alike : Alike left right) {explicit : Text}
    (taken : authz ∈ left.query.keys → authz ∈ (parseQsl explicit).map Prod.fst) :
    cgi explicit left.query = cgi explicit right.query := by
  unfold Url.cgi
  dsimp only
  rw [inherited_alike alike.query taken]
  simp only [alike.entries]

theorem Alike.abs (alike : Alike left right) {path : Text} (named : Named left path) :
    left.abs path = right.abs path := by
  have given : (if (Text.partition '?' path).2.1 then (Text.partition '?' path).2.2 else []) =
      (Text.partition '?' path).2.2 := by
    unfold Text.partition
    split <;> rfl
  unfold XRootDURL.abs
  dsimp only
  rw [given, alike.path, alike.cgi named]

theorem alike_refl (url : Option XRootDURL) : Option.Rel Alike url url := by
  cases url with
  | none => exact .none
  | some url => exact .some (Alike.refl url)

theorem Alike.use (alike : Alike left right) (path : Text) (use : Use) :
    Option.Rel Alike (use.apply python left path) (use.apply python right path) := by
  cases use with
  | withPath => exact .some (alike.with_path path)
  | evolve => exact .some (alike.evolve _)
  | parse => exact alike_refl _

section Reading

variable {first second : Spelling}

/-- Whatever the password is, the user name and what stands behind the last `@` are the
same. -/
theorem credentials_spelled {username : Text} (bare : ':' ∉ username) (rest : Text) :
    ∃ kept last, ∀ password, credentials (username ++ ':' :: password ++ ['@'] ++ rest) =
      (unquote username, unquote (password ++ kept), last) := by
  obtain ⟨kept, last, cut⟩ := rpartition_append '@' rest
  refine ⟨kept, last, fun password => ?_⟩
  have shape : username ++ ':' :: password ++ ['@'] ++ rest =
      (username ++ ':' :: password) ++ '@' :: rest := by simp
  rw [credentials, shape, cut]
  dsimp only
  rw [if_neg (by simp), List.append_assoc, List.cons_append, Text.partition_append bare,
    Text.partition_self]
  simp

theorem Differ.credentials (differ : Differ first second) (formed : first.Formed)
    (both : first.password = [] ↔ second.password = []) (rest : Text) :
    ∃ username hostport password other,
      credentials (first.userinfo ++ rest) = (username, password, hostport) ∧
      credentials (second.userinfo ++ rest) = (username, other, hostport) ∧
      (password = [] ↔ other = []) := by
  have same := differ.username
  unfold Spelling.userinfo
  unfold Spelling.password at both
  cases found : first.login with
  | none =>
      rw [found] at same
      rw [Option.map_eq_none_iff.mp same.symm]
      exact ⟨_, _, _, _, rfl, rfl, Iff.rfl⟩
  | some login =>
      rw [found] at same
      obtain ⟨other, there, equal⟩ := Option.map_eq_some_iff.mp same.symm
      rw [found, there] at both
      obtain ⟨kept, last, cut⟩ := credentials_spelled (formed.username login found).1 rest
      rw [there]
      dsimp only
      rw [equal]
      refine ⟨_, _, _, _, cut login.2, cut other.2, ?_⟩
      rw [unquote_eq_nil, unquote_eq_nil, List.append_eq_nil_iff, List.append_eq_nil_iff]
      exact and_congr_left fun _ => both

theorem pairs_alike {fields others : List Text} (secretly : List.Forall₂ Secretly fields others) :
    List.Forall₂ (Dict.Matched fun key value other => key = authz ∨ value = other)
      (fields.filterMap pair) (others.filterMap pair) := by
  have some {field : Text} (named : nameOf field = authz) : field ≠ [] := by
    rintro rfl
    revert named
    decide
  induction secretly with
  | nil => exact .nil
  | @cons field other _ _ here _ induction =>
      rw [List.filterMap_cons, List.filterMap_cons]
      rcases here with rfl | ⟨named, again⟩
      · cases pair field with
        | none => exact induction
        | some entry => exact .cons ⟨rfl, .inr rfl⟩ induction
      · rw [pair, pair, if_neg (some named), if_neg (some again)]
        exact .cons ⟨named.trans again.symm, .inl named⟩ induction

theorem query_alike {query other : Text}
    (secretly : List.Forall₂ Secretly (query.splitOn '&') (other.splitOn '&')) :
    Dict.Related (fun key value other => key = authz ∨ value = other)
      (if query = [] then ∅ else Dict.update ∅ (parseQsl query))
      (if other = [] then ∅ else Dict.update ∅ (parseQsl other)) := by
  have whole (query : Text) : (if query = [] then ∅ else Dict.update ∅ (parseQsl query)) =
      Dict.update (∅ : Dict Text Text) (parseQsl query) := by
    split_ifs with none
    · rw [none]
      rfl
    · rfl
  rw [whole, whole]
  exact Dict.Related.update .nil (pairs_alike secretly)

theorem plain_fields {fields others : List Text} (secretly : List.Forall₂ Secretly fields others)
    (plain : ∀ field ∈ fields, nameOf field ≠ authz) : fields = others := by
  induction secretly with
  | nil => rfl
  | @cons field other _ _ here _ induction =>
      rw [here.resolve_right fun named => plain field List.mem_cons_self named.1,
        induction fun field member => plain field (List.mem_cons_of_mem _ member)]

theorem Differ.plain_query (differ : Differ first second) (plain : ¬first.Authorized) :
    first.query = second.query := by
  have related := differ.query
  unfold Spelling.Authorized at plain
  generalize first.query = query, second.query = other at related plain ⊢
  cases related with
  | none => rfl
  | @some query other secretly =>
      have same := plain_fields secretly fun field member named =>
        plain ⟨query, rfl, field, member, named⟩
      have glued (text : Text) : ['&'].intercalate (text.splitOn '&') = text :=
        List.intercalate_splitOn '&'
      rw [← glued query, same, glued]

theorem Spelling.Formed.userinfo_bare (formed : first.Formed) : '/' ∉ first.userinfo := by
  unfold Spelling.userinfo
  split
  · exact List.not_mem_nil
  · rename_i username password found
    have name := (formed.username _ found).2
    have word := formed.password _ found
    simp [name, word]

theorem Differ.target (differ : Differ first second)
    (query : first.Authorized →
      '/' ∈ first.front ∧ '?' ∉ (Text.partition '/' first.front).2.2) :
    ∃ authority sep tail other,
      Text.partition '/' (first.front ++ first.cgi) = (authority, sep, tail) ∧
      Text.partition '/' (second.front ++ second.cgi) = (authority, sep, other) ∧
      (target sep tail).1 = (target sep other).1 ∧
      Dict.Related (fun key value other => key = authz ∨ value = other) (target sep tail).2
        (target sep other).2 := by
  by_cases authorized : first.Authorized
  · obtain ⟨slashed, bare⟩ := query authorized
    obtain ⟨asked, found, -⟩ := authorized
    have related := differ.query
    rw [found] at related
    cases there : second.query with
    | none =>
        rw [there] at related
        cases related
    | some other =>
        rw [there] at related
        cases related with
        | some secretly =>
            have bare : '?' ∉ '/' :: (Text.partition '/' first.front).2.2 := by
              simpa using bare
            rw [← differ.front]
            refine ⟨_, _, _, _, Text.partition_found slashed _, Text.partition_found slashed _, ?_⟩
            unfold Url.target Spelling.cgi
            rw [found, there]
            dsimp only
            rw [if_pos rfl, if_pos rfl, ← List.cons_append, ← List.cons_append,
              Text.partition_append bare, Text.partition_append bare, Text.partition_self,
              Text.partition_self]
            simpa using query_alike secretly
  · unfold Spelling.cgi
    rw [differ.front, differ.plain_query authorized]
    exact ⟨_, _, _, _, rfl, rfl, rfl, List.forall₂_same.mpr fun _ _ => ⟨rfl, .inr rfl⟩⟩

theorem Differ.parse_rest (differ : Differ first second) (found : Found python first)
    (formed : second.Formed) (both : first.password = [] ↔ second.password = [])
    (text other scheme : Text) :
    Option.Rel Alike
      (parseRest python text scheme (first.userinfo ++ (first.front ++ first.cgi))).toOption
      (parseRest python other scheme
        (second.userinfo ++ (second.front ++ second.cgi))).toOption := by
  obtain ⟨authority, sep, tail, other, cut, again, path, query⟩ := differ.target found.query
  obtain ⟨username, hostport, password, word, read, reread, empty⟩ :=
    differ.credentials found.formed both authority
  unfold parseRest
  rw [Text.partition_append found.formed.userinfo_bare, Text.partition_append formed.userinfo_bare,
    cut, again]
  dsimp only
  rw [read, reread]
  dsimp only
  cases portOf python scheme (hostAndPort hostport).2 with
  | none => exact .none
  | some port =>
      apply Option.Rel.some
      apply Alike.post_init
      exact ⟨rfl, rfl, rfl, congrArg Client.normalize path, rfl, empty, query⟩

theorem Differ.start (differ : Differ first second) (legible : Legible python first)
    (formed : first.Secret → second.Formed)
    (both : first.password = [] ↔ second.password = []) :
    Option.Rel Alike (start python first.text) (start python second.text) := by
  by_cases secret : first.Secret
  · have found := legible secret
    have remote := found.remote
    have formed := formed secret
    unfold Url.start parse Spelling.text
    rw [split_scheme_append found.formed.scheme, split_scheme_append formed.scheme,
      ← differ.scheme]
    dsimp only
    rw [if_neg remote, if_neg remote]
    exact differ.parse_rest found formed both _ _ _
  · unfold Spelling.Secret at secret
    rw [not_or, not_not] at secret
    have nobody : second.login = none := by
      have same := differ.username
      rw [secret.1] at same
      exact Option.map_eq_none_iff.mp same.symm
    have same : first.text = second.text := by
      unfold Spelling.text Spelling.userinfo Spelling.cgi
      rw [differ.scheme, differ.front, differ.plain_query secret.2, secret.1, nobody]
    rw [same]
    exact alike_refl _

end Reading

theorem spell_text {url : XRootDURL} (remote : url.scheme ≠ fileScheme) :
    (spell url).text = url.toText := by
  have scheme : str "://" = [':', '/', '/'] := rfl
  unfold XRootDURL.toText Spelling.text Spelling.userinfo Spelling.cgi spell XRootDURL.auth
    XRootDURL.cgiPart
  rw [if_neg remote, scheme]
  dsimp only
  by_cases nobody : url.username = []
  · by_cases bare : url.query.entries = []
    · simp [nobody, bare]
    · simp [nobody, bare]
  · by_cases none : url.password = []
    · by_cases bare : url.query.entries = []
      · simp [nobody, none, bare]
      · simp [nobody, none, bare]
    · by_cases bare : url.query.entries = []
      · simp [nobody, none, bare]
      · simp [nobody, none, bare]

theorem spell_formed {url : XRootDURL} (scheme : splitScheme url.scheme = none) :
    (spell url).Formed := by
  have slashless (text : Text) : '/' ∉ quote text := fun member =>
    (quote_plain text '/' member).1 rfl
  have whole (text : Text) : ':' ∉ quote text := fun member =>
    (quote_plain text ':' member).2.1 rfl
  constructor
  · exact scheme
  · intro login found
    unfold spell at found
    dsimp only at found
    split_ifs at found
    · cases found
    · cases found
      exact ⟨whole _, slashless _⟩
  · intro login found
    unfold spell at found
    dsimp only at found
    split_ifs at found
    · cases found
    · cases found
      exact slashless _

theorem Alike.place (alike : Alike left right) : left.place = right.place := by
  unfold XRootDURL.place XRootDURL.netloc
  rw [alike.scheme, alike.host, alike.port, alike.path]

theorem name_written (value : Text) : nameOf (written (authz, value)) = authz := by
  have plain : quotePlus authz = authz := by decide +kernel
  have bare : '=' ∉ authz := by decide
  have back : unquotePlus authz = authz := by decide +kernel
  rw [nameOf, written, plain, Text.partition_append bare, Text.partition_self, List.append_nil,
    back]

theorem Alike.fields (alike : Alike left right) (some : left.query.entries ≠ []) :
    List.Forall₂ Secretly ((urlencode left.query.entries).splitOn '&')
      ((urlencode right.query.entries).splitOn '&') := by
  rw [split_urlencode some, split_urlencode (mt alike.entries.mpr some),
    List.forall₂_map_left_iff, List.forall₂_map_right_iff]
  apply alike.query.imp
  rintro ⟨key, value⟩ ⟨other, word⟩ ⟨same, hidden | equal⟩
  · cases same
    cases hidden
    exact .inr ⟨name_written value, name_written word⟩
  · cases same
    cases equal
    exact .inl rfl

theorem Alike.spell (alike : Alike left right) : Differ (spell left) (spell right) := by
  unfold Url.spell
  constructor
  · exact alike.scheme
  · dsimp only
    rw [alike.username]
    simp only [alike.password]
    split_ifs <;> rfl
  · dsimp only
    rw [alike.username, alike.place]
    simp only [ne_eq, alike.password]
  · dsimp only
    by_cases bare : left.query.entries = []
    · rw [if_pos bare, if_pos (alike.entries.mp bare)]
      exact .none
    · rw [if_neg bare, if_neg (mt alike.entries.mpr bare)]
      exact .some (alike.fields bare)

theorem Alike.spell_password (alike : Alike left right) :
    (Url.spell left).password = [] ↔ (Url.spell right).password = [] := by
  unfold Url.spell Spelling.password
  rw [alike.username]
  simp only [alike.password]
  split_ifs with none
  · exact Iff.rfl
  · rw [not_or] at none
    have here := quote_some (mt alike.password.mp none.2)
    have there := quote_some none.2
    simp [here, there]

theorem Alike.reparse (alike : Alike left right)
    (legible : left.scheme = fileScheme ∨ Legible python (Url.spell left)) :
    Option.Rel Alike (start python left.toText) (start python right.toText) := by
  by_cases file : left.scheme = fileScheme
  · have same : left.toText = right.toText := by
      unfold XRootDURL.toText
      rw [if_pos file, if_pos (alike.scheme ▸ file), alike.path]
    rw [same]
    exact alike_refl _
  · have legible := legible.resolve_left file
    have there : right.scheme ≠ fileScheme := alike.scheme ▸ file
    rw [← spell_text file, ← spell_text there]
    apply alike.spell.start legible _ alike.spell_password
    intro secret
    apply spell_formed
    rw [← alike.scheme]
    exact (legible secret).formed.scheme

theorem Alike.perform (alike : Alike left right) {operation : Operation}
    (leaves : Leaves python left operation) :
    Option.Rel Alike (perform python operation left) (perform python operation right) := by
  cases operation with
  | parse => exact .some alike
  | reparse => exact alike.reparse leaves
  | evolve changes => exact .some (alike.evolve changes)
  | withPath path => exact .some (alike.with_path path)
  | join parts => exact .some (alike.join parts)
  | truediv part => exact .some (alike.join [part])
  | withQuery params => exact .some (alike.with_query params)
  | urlFor path =>
      apply Option.Rel.some
      unfold XRootDURL.urlFor
      rw [alike.abs leaves]
      exact alike.evolve _
  | abs path use =>
      unfold Url.perform
      dsimp only
      rw [alike.abs leaves]
      exact alike.use _ use

theorem step_alike {url other : Option XRootDURL} {operation : Operation}
    (covered : Covered python ⟨url, operation, step python operation url⟩)
    (alike : Option.Rel Alike url other) :
    Option.Rel Alike (step python operation url) (step python operation other) := by
  cases alike with
  | none => exact .none
  | @some url other alike => exact alike.perform (covered url rfl)

/-- As long as every secret is in a field that is blotted out, what is shown of two texts
that differ in their secrets is the same. -/
theorem shown_alike {first second : Spelling} (differ : Differ first second)
    (legible : Legible python first) (formed : second.Formed)
    (both : first.password = [] ↔ second.password = []) (operations : List Operation)
    (covered : ∀ entry ∈ history (step python) operations (start python first.text),
      Covered python entry) :
    shown python operations first.text = shown python operations second.text := by
  have alike := run_related (step python) (Covered python) (Option.Rel Alike)
    (fun _ _ _ => step_alike) operations _ _ covered
    (differ.start legible (fun _ => formed) both)
  unfold shown
  generalize run (step python) operations (start python first.text) = url,
    run (step python) operations (start python second.text) = other at alike ⊢
  cases alike with
  | none => rfl
  | some alike => exact congrArg some alike.repr

def interpreter : Python := { asciiOnly with cwd := str "/home" }

/-- `root://host/data?authz=…`, with a user name and a password in front or without. -/
def granted (login : Option (Text × Text)) (token : Text) : Spelling where
  scheme := str "root"
  login := login
  front := str "host/data"
  query := some (str "authz=" ++ token)

theorem tokens_secretly : List.Forall₂ Secretly ((str "authz=" ++ str "A").splitOn '&')
    ((str "authz=" ++ str "B").splitOn '&') := by
  have first : (str "authz=" ++ str "A").splitOn '&' = [str "authz=A"] := by decide +kernel
  have second : (str "authz=" ++ str "B").splitOn '&' = [str "authz=B"] := by decide +kernel
  rw [first, second]
  exact .cons (.inr ⟨by decide +kernel, by decide +kernel⟩) .nil

theorem granted_formed {login : Option (Text × Text)} (token : Text)
    (username : ∀ pair ∈ login, ':' ∉ pair.1 ∧ '/' ∉ pair.1)
    (password : ∀ pair ∈ login, '/' ∉ pair.2) : (granted login token).Formed :=
  ⟨show splitScheme (str "root") = none by decide +kernel, username, password⟩

theorem granted_shown :
    shown interpreter [.join [str "run"], .urlFor (str "file?authz=mine")]
        (granted (some (str "alice", str "A")) (str "A")).text =
      shown interpreter [.join [str "run"], .urlFor (str "file?authz=mine")]
        (granted (some (str "alice", str "B")) (str "B")).text := by
  apply shown_alike
  · exact ⟨rfl, rfl, rfl, .some tokens_secretly⟩
  · intro
    constructor
    · exact granted_formed _ (by decide +kernel) (by decide +kernel)
    · decide +kernel
    · exact fun _ => by decide +kernel
  · exact granted_formed _ (by decide +kernel) (by decide +kernel)
  · decide
  · intro entry member
    simp only [history, List.mem_cons, List.not_mem_nil, or_false] at member
    rcases member with rfl | rfl
    · exact fun _ _ => trivial
    · exact fun _ _ _ => by decide +kernel

/-- The URL of a file below `root://host/data?authz=A` is shown with the token in its path. -/
theorem token_shown : ¬Hidden interpreter := by
  have differs : shown interpreter [.urlFor (str "file")] (granted none (str "A")).text ≠
      shown interpreter [.urlFor (str "file")] (granted none (str "B")).text := by decide +kernel
  have formed (token : Text) : (granted none token).Formed :=
    granted_formed token (by decide) (by decide)
  intro hidden
  apply differs
  exact hidden (granted none (str "A")) (granted none (str "B")) (formed _) (formed _)
    ⟨rfl, rfl, rfl, .some tokens_secretly⟩ _

end XRootDClient.Url
