import Mathlib.Data.List.DropRight
import XRootDClient.Client.Walk

/-!
# Listings of an object store, page by page

The loop of `S3FileSystem.scandir` with the queries it asks: the token of a page goes
into the query for the next one unless it is empty. A store that answers for a prefix
with the delimiter lists the keys below it that hold no further slash, and what is up to
the next slash of the others.
-/

set_option autoImplicit false

namespace XRootDClient.S3

open Lib Lib.Posix Client

structure Page extends S3Page where
  nextContinuationToken : Text := []

def Page.truncated (page : Page) : Bool := Text.strip page.isTruncated = str "true"

abbrev Query := List (Text × Text)

def listQuery (skip token : Text) : Query :=
  [(str "list-type", str "2"), (str "delimiter", str "/"), (str "prefix", skip)] ++
    if token = [] then [] else [(str "continuation-token", token)]

variable (python : Builtins) (iso8601 : Text → Int)

/-- The loop of `scandir`: the queries it asks and what it returns. A query behind the
last page is not answered. -/
def scandirFrom (skip here : Text) (md5 : Bool) (token : Text) :
    List Page → List Query × Raises (List DirEntry)
  | [] => ([listQuery skip token], .error (.connectionError []))
  | page :: rest =>
      let dirs := commonPrefixes skip here page.prefixes
      match contents python iso8601 skip here md5 page.contents with
      | .error raised => ([listQuery skip token], .error raised)
      | .ok files =>
          if page.truncated then
            let (queries, others) :=
              scandirFrom skip here md5 (Text.strip page.nextContinuationToken) rest
            (listQuery skip token :: queries, others.map fun others => dirs ++ files ++ others)
          else ([listQuery skip token], .ok (dirs ++ files))

def prefixOf (fs : FileSystem) (path : Text) : Text :=
  let key := lstrip (fs.abs path)
  if key = [] then [] else key ++ [slash]

/-- `S3FileSystem.scandir`, with the queries it asks. -/
def scandir (fs : FileSystem) (path algorithm : Text) (pages : List Page) :
    List Query × Raises (List DirEntry) :=
  if algorithm ≠ [] ∧ python.lower algorithm ≠ str "md5" then
    ([], .error (.serverError .unsupported 3013
      (str "a " ++ algorithm ++ str " checksum per listing entry has no S3 equivalent") none))
  else
    let skip := prefixOf fs path
    scandirFrom python iso8601 skip (slash :: rstrip skip) (algorithm ≠ []) [] pages

theorem scandir_from_pages (skip here : Text) (md5 : Bool) (token : Text) (pages : List Page) :
    (scandirFrom python iso8601 skip here md5 token pages).2 =
      s3Pages python iso8601 skip here md5 (pages.map Page.toS3Page) := by
  induction pages generalizing token with
  | nil => rfl
  | cons page rest induction =>
      rw [scandirFrom, List.map_cons, s3Pages]
      dsimp only
      cases contents python iso8601 skip here md5 page.contents with
      | error raised => rfl
      | ok files =>
          dsimp only [bind, Except.bind]
          by_cases more : page.truncated = true
          · rw [if_pos more, if_neg (not_not.mpr (of_decide_eq_true more)), ← induction]
            rfl
          · rw [if_neg more, if_pos fun same => more (decide_eq_true same)]
            rfl

theorem list_query_injective (skip : Text) : Function.Injective (listQuery skip) := by
  intro first second same
  unfold listQuery at same
  have tail := List.append_cancel_left same
  split_ifs at tail with one two two
  · rw [one, two]
  · rw [List.cons.injEq, Prod.mk.injEq] at tail
    exact tail.1.2

section Queries

variable (skip here : Text) (md5 : Bool)

def followed : List Page → List Page
  | [] => []
  | page :: rest =>
      if (contents python iso8601 skip here md5 page.contents).isOk && page.truncated then
        page :: followed rest
      else []

theorem scandir_from_queries (token : Text) (pages : List Page) :
    (scandirFrom python iso8601 skip here md5 token pages).1 =
      listQuery skip token :: (followed python iso8601 skip here md5 pages).map
        fun page => listQuery skip (Text.strip page.nextContinuationToken) := by
  induction pages generalizing token with
  | nil => rfl
  | cons page rest induction =>
      rw [scandirFrom, followed]
      dsimp only
      cases contents python iso8601 skip here md5 page.contents with
      | error raised => rfl
      | ok files =>
          by_cases more : page.truncated = true
          · simp only [more, if_true, induction]
            rfl
          · simp only [more, Bool.false_eq_true, if_false, Bool.and_false]
            rfl

theorem scandir_from_nodup_iff (pages : List Page) :
    (scandirFrom python iso8601 skip here md5 [] pages).1.Nodup ↔
      (∀ page ∈ followed python iso8601 skip here md5 pages,
        Text.strip page.nextContinuationToken ≠ []) ∧
      ((followed python iso8601 skip here md5 pages).map fun page =>
        Text.strip page.nextContinuationToken).Nodup := by
  rw [scandir_from_queries, List.nodup_cons]
  apply and_congr
  · rw [List.mem_map, not_exists]
    apply forall_congr'
    intro page
    rw [not_and]
    exact imp_congr_right fun _ => not_congr (list_query_injective skip).eq_iff
  · have composed : (followed python iso8601 skip here md5 pages).map
        (fun page => listQuery skip (Text.strip page.nextContinuationToken)) =
        ((followed python iso8601 skip here md5 pages).map fun page =>
          Text.strip page.nextContinuationToken).map (listQuery skip) := by
      rw [List.map_map]
      rfl
    rw [composed, List.nodup_map_iff (list_query_injective skip)]

end Queries

/-- What a page lists: the text of a common prefix, or an object. -/
abbrev Item := Text ⊕ S3Content

def Page.items (page : Page) : List Item := page.prefixes.map .inl ++ page.contents.map .inr

/-- The child an item is, by its name and whether it is a directory: the prefix itself is
none. -/
def child (skip : Text) : Item → Option (Text × Bool)
  | .inl text =>
      let name := (text.drop skip.length).dropLast
      if name = [] then none else some (name, true)
  | .inr content =>
      let name := content.key.drop skip.length
      if name = [] then none else some (name, false)

def taken (skip : Text) : Item → Option (Text × Bool)
  | .inl text => if prefixName skip text = [] then none else some (prefixName skip text, true)
  | .inr content =>
      if keyName skip content = [] ∨ slash ∈ keyName skip content then none
      else some (keyName skip content, false)

/-- What a store lists below a prefix, with the delimiter. -/
def Serves (skip : Text) : Item → Prop
  | .inl text => ∃ name, slash ∉ name ∧ text = skip ++ name ++ [slash]
  | .inr content => ∃ name, slash ∉ name ∧ content.key = skip ++ name

def spelling : Item → Text
  | .inl text => text
  | .inr content => content.key

def sized : Item → Bool
  | .inl _ => true
  | .inr content => (contentSize python content).isOk

/-- A child without blanks around its key, and of a size that can be read. -/
def Legible (skip : Text) (item : Item) : Prop :=
  (child skip item).isSome → Text.strip (spelling item) = spelling item ∧ sized python item

def DirEntry.view (entry : DirEntry) : Text × Bool := (entry.name, entry.isDirectory)

section Reading

variable {skip here : Text} {md5 : Bool}

theorem common_prefixes_view (prefixes : List Text) :
    (commonPrefixes skip here prefixes).map DirEntry.view =
      (prefixes.map Sum.inl).filterMap (taken skip) := by
  rw [commonPrefixes, List.filterMap_map, List.filterMap_map, List.map_filterMap]
  apply List.filterMap_congr
  intro text _
  dsimp only [Function.comp_apply, taken]
  split_ifs
  · rfl
  · rfl

theorem contents_ok_iff (keys : List S3Content) :
    (contents python iso8601 skip here md5 keys).isOk ↔
      ∀ content ∈ keys, (taken skip (.inr content)).isSome → (contentSize python content).isOk := by
  induction keys with
  | nil => simp [contents, Except.isOk, Except.toBool]
  | cons content rest induction =>
      rw [contents, List.forall_mem_cons, ← induction]
      by_cases skipped : keyName skip content = [] ∨ slash ∈ keyName skip content
      · simp [taken, skipped]
      · rw [if_neg skipped]
        simp only [taken, if_neg skipped, Option.isSome_some, true_imp_iff]
        cases contentSize python content with
        | error raised => simp [bind, Except.bind, Except.isOk, Except.toBool]
        | ok size =>
            cases contents python iso8601 skip here md5 rest with
            | error raised => simp [bind, Except.bind, Except.isOk, Except.toBool]
            | ok others => simp [bind, Except.bind, Except.isOk, Except.toBool, pure, Except.pure]

theorem contents_view {keys : List S3Content} {files : List DirEntry}
    (returned : contents python iso8601 skip here md5 keys = .ok files) :
    files.map DirEntry.view = (keys.map Sum.inr).filterMap (taken skip) := by
  induction keys generalizing files with
  | nil =>
      cases returned
      rfl
  | cons content rest induction =>
      rw [contents] at returned
      by_cases skipped : keyName skip content = [] ∨ slash ∈ keyName skip content
      · rw [if_pos skipped] at returned
        rw [induction returned]
        simp [taken, skipped]
      · rw [if_neg skipped] at returned
        obtain ⟨size, -, returned⟩ := Stateful.except_returns returned
        obtain ⟨others, later, returned⟩ := Stateful.except_returns returned
        cases returned
        rw [List.map_cons, induction later]
        simp only [List.map_cons, List.filterMap_cons, taken, if_neg skipped]
        rfl

theorem scandir_from_view {truncated : List Page} {last : Page} {entries : List DirEntry}
    (token : Text) (more : ∀ page ∈ truncated, page.truncated) (ends : ¬ last.truncated)
    (returned : (scandirFrom python iso8601 skip here md5 token (truncated ++ [last])).2 =
      .ok entries) :
    entries.map DirEntry.view =
      ((truncated ++ [last]).flatMap Page.items).filterMap (taken skip) := by
  induction truncated generalizing token entries with
  | nil =>
      rw [List.nil_append, scandirFrom] at returned
      dsimp only at returned
      cases read : contents python iso8601 skip here md5 last.contents with
      | error raised =>
          rw [read] at returned
          cases returned
      | ok files =>
          rw [read] at returned
          dsimp only at returned
          rw [if_neg ends] at returned
          cases returned
          rw [List.map_append, common_prefixes_view, contents_view python iso8601 read,
            ← List.filterMap_append]
          simp [Page.items]
  | cons page rest induction =>
      rw [List.cons_append, scandirFrom] at returned
      dsimp only at returned
      cases read : contents python iso8601 skip here md5 page.contents with
      | error raised =>
          rw [read] at returned
          cases returned
      | ok files =>
          rw [read] at returned
          dsimp only at returned
          rw [if_pos (more page List.mem_cons_self)] at returned
          dsimp only at returned
          cases later : (scandirFrom python iso8601 skip here md5
              (Text.strip page.nextContinuationToken) (rest ++ [last])).2 with
          | error raised =>
              rw [later] at returned
              cases returned
          | ok others =>
              rw [later] at returned
              cases returned
              rw [List.map_append, List.map_append, common_prefixes_view,
                contents_view python iso8601 read,
                induction _ (fun page member => more page (List.mem_cons_of_mem _ member)) later,
                ← List.filterMap_append, ← List.filterMap_append]
              rfl

end Reading

theorem strip_infix (text : Text) : Text.strip text <:+: text := by
  have front : ((text.dropWhile Text.isSpace).reverse.dropWhile Text.isSpace).reverse <+:
      text.dropWhile Text.isSpace :=
    List.reverse_suffix.mp (by simpa using List.dropWhile_suffix Text.isSpace)
  exact front.isInfix.trans (List.dropWhile_suffix _).isInfix

theorem strip_concat (text : Text) {mark : Char} (solid : Text.isSpace mark = false) :
    Text.strip (text ++ [mark]) = text.dropWhile Text.isSpace ++ [mark] := by
  have front : (text ++ [mark]).dropWhile Text.isSpace =
      text.dropWhile Text.isSpace ++ [mark] := by
    rw [List.dropWhile_append]
    split_ifs with none
    · rw [List.isEmpty_iff.mp none]
      simp [solid]
    · rfl
  rw [Text.strip, front, List.reverse_append]
  simp [solid]

theorem rstrip_concat (text : Text) : rstrip (text ++ [slash]) = rstrip text := by
  simp [rstrip]

theorem rstrip_bare {name : Text} (single : slash ∉ name) : rstrip name = name := by
  rw [rstrip, List.dropWhile_eq_self_iff.mpr, List.reverse_reverse]
  intro some
  have member : name.reverse[0] ∈ name := List.mem_reverse.mp (List.getElem_mem some)
  have other : name.reverse[0] ≠ slash := fun same => single (same ▸ member)
  simpa using other

section Blanks

variable {skip name : Text} {content : S3Content}

theorem prefix_name_served :
    prefixName skip (skip ++ name ++ [slash]) =
      rstrip (((skip ++ name).dropWhile Text.isSpace).drop skip.length) := by
  rw [prefixName, strip_concat _ (by decide)]
  generalize (skip ++ name).dropWhile Text.isSpace = body
  by_cases long : skip.length ≤ body.length
  · rw [List.drop_append_of_le_length long, rstrip_concat]
  · rw [List.drop_eq_nil_of_le (by simp; omega), List.drop_eq_nil_of_le (by omega)]

theorem prefix_taken_iff (single : slash ∉ name) (some : name ≠ []) :
    prefixName skip (skip ++ name ++ [slash]) = name ↔
      Text.strip (skip ++ name ++ [slash]) = skip ++ name ++ [slash] := by
  rw [prefix_name_served, strip_concat _ (by decide), List.append_left_inj]
  have shorter := List.dropWhile_suffix (l := skip ++ name) Text.isSpace
  constructor
  · intro same
    apply shorter.eq_of_length_le
    have trimmed_ : (rstrip (((skip ++ name).dropWhile Text.isSpace).drop skip.length)).length ≤
        (((skip ++ name).dropWhile Text.isSpace).drop skip.length).length :=
      (List.rdropWhile_prefix (· = slash) _).length_le
    have positive := List.length_pos_iff.mpr some
    rw [same, List.length_drop] at trimmed_
    rw [List.length_append]
    omega
  · intro same
    rw [same, List.drop_left, rstrip_bare single]

theorem prefix_name_nil : prefixName skip (skip ++ [] ++ [slash]) = [] := by
  rw [prefix_name_served]
  have shorter := (List.dropWhile_suffix (l := skip ++ []) Text.isSpace).length_le
  rw [List.append_nil] at shorter ⊢
  rw [List.drop_eq_nil_of_le shorter]
  rfl

theorem key_taken_iff (key : content.key = skip ++ name) (some : name ≠ []) :
    keyName skip content = name ↔ Text.strip content.key = content.key := by
  have inside := strip_infix content.key
  rw [keyName]
  constructor
  · intro same
    apply inside.eq_of_length_le
    have positive := List.length_pos_iff.mpr some
    have length := congrArg List.length same
    rw [List.length_drop] at length
    rw [key, List.length_append, ← key]
    omega
  · intro same
    rw [same, key, List.drop_left]

theorem key_name_nil (key : content.key = skip) : keyName skip content = [] := by
  have shorter := ( strip_infix content.key).length_le
  rw [key] at shorter
  rw [keyName, key, List.drop_eq_nil_of_le shorter]

end Blanks

theorem taken_child {skip : Text} {item : Item} (serves : Serves skip item)
    (some : (taken skip item).isSome) : (child skip item).isSome := by
  cases item with
  | inl text =>
      obtain ⟨name, -, rfl⟩ := serves
      have named_ : ((skip ++ name ++ [slash]).drop skip.length).dropLast = name := by simp
      rw [child, named_]
      split_ifs with none
      · subst none
        rw [taken, prefix_name_nil] at some
        cases some
      · rfl
  | inr content =>
      obtain ⟨name, -, key⟩ := serves
      rw [child, key, List.drop_left]
      split_ifs with none
      · rw [none, List.append_nil] at key
        rw [taken, key_name_nil key] at some
        cases some
      · rfl

theorem taken_iff {skip : Text} {item : Item} (serves : Serves skip item) :
    taken skip item = child skip item ↔
      ((child skip item).isSome → Text.strip (spelling item) = spelling item) := by
  by_cases none : child skip item = none
  · rw [none]
    simp only [Option.isSome_none, Bool.false_eq_true, false_imp_iff, iff_true]
    by_contra some
    have found := taken_child serves (Option.isSome_iff_ne_none.mpr some)
    rw [none] at found
    cases found
  cases item with
  | inl text =>
      obtain ⟨name, single, rfl⟩ := serves
      have named_ : ((skip ++ name ++ [slash]).drop skip.length).dropLast = name := by simp
      rw [child, named_] at none ⊢
      have some : name ≠ [] := fun same => none (if_pos same)
      rw [if_neg some, spelling, ← prefix_taken_iff single some]
      simp only [taken, Option.isSome_some, true_imp_iff]
      generalize prefixName skip (skip ++ name ++ [slash]) = read
      split_ifs with gone
      · simp [gone, some.symm]
      · simp
  | inr content =>
      obtain ⟨name, single, key⟩ := serves
      have named_ : content.key.drop skip.length = name := by rw [key, List.drop_left]
      rw [child, named_] at none ⊢
      have some : name ≠ [] := fun same => none (if_pos same)
      rw [if_neg some, spelling, ← key_taken_iff key some]
      simp only [taken, Option.isSome_some, true_imp_iff]
      generalize keyName skip content = read
      split_ifs with gone
      · constructor
        · intro same
          cases same
        · intro same
          rw [same] at gone
          exact absurd gone (by simp [some, single])
      · simp

section Pointwise

variable {α β : Type} {first second : α → Option β} {items : List α}

theorem filter_map_length_le
    (fewer : ∀ item ∈ items, (first item).isSome → (second item).isSome) :
    (items.filterMap first).length ≤ (items.filterMap second).length := by
  induction items with
  | nil => exact le_rfl
  | cons item rest induction =>
      have later := induction fun other member => fewer other (List.mem_cons_of_mem _ member)
      have here := fewer item List.mem_cons_self
      rw [List.filterMap_cons, List.filterMap_cons]
      cases one : first item with
      | none => cases second item <;> simp <;> omega
      | some value =>
          obtain ⟨other, two⟩ := Option.isSome_iff_exists.mp (here (one ▸ rfl))
          simpa [two] using later

/-- Two readings of a list agree on every item if one finds nothing that the other does
not and they come to the same. -/
theorem filter_map_pointwise
    (fewer : ∀ item ∈ items, (first item).isSome → (second item).isSome)
    (same : items.filterMap first = items.filterMap second) :
    ∀ item ∈ items, first item = second item := by
  induction items with
  | nil => exact fun item member => absurd member List.not_mem_nil
  | cons item rest induction =>
      have fewerLater : ∀ other ∈ rest, (first other).isSome → (second other).isSome :=
        fun other member => fewer other (List.mem_cons_of_mem _ member)
      have shorter := filter_map_length_le fewerLater
      have here := fewer item List.mem_cons_self
      rw [List.filterMap_cons, List.filterMap_cons] at same
      rw [List.forall_mem_cons]
      cases one : first item with
      | none =>
          cases two : second item with
          | none =>
              rw [one, two] at same
              exact ⟨rfl, induction fewerLater same⟩
          | some value =>
              rw [one, two] at same
              have length := congrArg List.length same
              simp at length
              omega
      | some value =>
          obtain ⟨other, two⟩ := Option.isSome_iff_exists.mp (here (one ▸ rfl))
          rw [one, two] at same
          have parts := List.cons.inj same
          exact ⟨by rw [two, parts.1], induction fewerLater parts.2⟩

end Pointwise

/-- One query for each page; each behind the first holds the token of the page before it;
none is asked twice; and every child is returned once, in the order of the pages. -/
structure Complete (skip : Text) (pages : List Page)
    (listing : List Query × Raises (List DirEntry)) : Prop where
  requests : listing.1.length = pages.length
  tokens : ∀ turn page query, pages[turn]? = some page → listing.1[turn + 1]? = some query →
    query.lookup (str "continuation-token") = some page.nextContinuationToken
  fresh : listing.1.Nodup
  children : ∃ entries, listing.2 = .ok entries ∧
    entries.map DirEntry.view = (pages.flatMap Page.items).filterMap (child skip)

/-- The tokens of the pages lead on, as they are, and every child can be read. -/
structure Orderly (skip : Text) (truncated : List Page) (last : Page) : Prop where
  tokens : ∀ page ∈ truncated, page.nextContinuationToken ≠ [] ∧
    Text.strip page.nextContinuationToken = page.nextContinuationToken
  apart : (truncated.map Page.nextContinuationToken).Nodup
  legible : ∀ page ∈ truncated ++ [last], ∀ item ∈ page.items, Legible python skip item

section Whole

variable {skip here : Text} {md5 : Bool} {truncated : List Page} {last : Page}

theorem scandir_from_ok_iff (token : Text) (more : ∀ page ∈ truncated, page.truncated)
    (ends : ¬ last.truncated) :
    (scandirFrom python iso8601 skip here md5 token (truncated ++ [last])).2.isOk ↔
      ∀ page ∈ truncated ++ [last],
        (contents python iso8601 skip here md5 page.contents).isOk := by
  induction truncated generalizing token with
  | nil =>
      rw [List.nil_append, List.forall_mem_singleton, scandirFrom]
      dsimp only
      cases contents python iso8601 skip here md5 last.contents with
      | error raised => exact Iff.rfl
      | ok files =>
          dsimp only
          rw [if_neg ends]
          exact Iff.rfl
  | cons page rest induction =>
      rw [List.cons_append, List.forall_mem_cons, scandirFrom]
      dsimp only
      cases contents python iso8601 skip here md5 page.contents with
      | error raised => simp [Except.isOk, Except.toBool]
      | ok files =>
          dsimp only
          rw [if_pos (more page List.mem_cons_self), ← induction
            (Text.strip page.nextContinuationToken)
            (fun page member => more page (List.mem_cons_of_mem _ member))]
          dsimp only
          cases (scandirFrom python iso8601 skip here md5
            (Text.strip page.nextContinuationToken) (rest ++ [last])).2 with
          | error raised => simp [Except.map, Except.isOk, Except.toBool]
          | ok others => simp [Except.map, Except.isOk, Except.toBool]

theorem followed_all (more : ∀ page ∈ truncated, page.truncated) (ends : ¬ last.truncated)
    (read : ∀ page ∈ truncated ++ [last],
      (contents python iso8601 skip here md5 page.contents).isOk) :
    followed python iso8601 skip here md5 (truncated ++ [last]) = truncated := by
  induction truncated with
  | nil => simp [followed, ends]
  | cons page rest induction =>
      rw [List.cons_append, List.forall_mem_cons] at read
      rw [List.cons_append, followed, read.1, more page List.mem_cons_self,
        induction (fun page member => more page (List.mem_cons_of_mem _ member)) read.2]
      rfl

theorem list_query_lookup (skip token : Text) :
    (listQuery skip token).lookup (str "continuation-token") =
      if token = [] then none else some token := by
  unfold listQuery
  split_ifs
  · rfl
  · rfl

theorem complete_iff (more : ∀ page ∈ truncated, page.truncated) (ends : ¬ last.truncated)
    (serves : ∀ page ∈ truncated ++ [last], ∀ item ∈ page.items, Serves skip item) :
    Complete skip (truncated ++ [last])
        (scandirFrom python iso8601 skip here md5 [] (truncated ++ [last])) ↔
      Orderly python skip truncated last := by
  have served : ∀ item ∈ (truncated ++ [last]).flatMap Page.items, Serves skip item := by
    intro item member
    obtain ⟨page, listed_, inside⟩ := List.mem_flatMap.mp member
    exact serves page listed_ item inside
  constructor
  · intro complete
    obtain ⟨entries, returned, children⟩ := complete.children
    have read := (scandir_from_ok_iff python iso8601 [] more ends).mp (by rw [returned]; rfl)
    have queries := scandir_from_queries python iso8601 skip here md5 [] (truncated ++ [last])
    rw [followed_all python iso8601 more ends read] at queries
    rw [scandir_from_view python iso8601 [] more ends returned] at children
    have agree := filter_map_pointwise (fun item member => taken_child (served item member)) children
    have tokens : ∀ page ∈ truncated, page.nextContinuationToken ≠ [] ∧
        Text.strip page.nextContinuationToken = page.nextContinuationToken := by
      intro page member
      obtain ⟨turn, bound, rfl⟩ := List.getElem_of_mem member
      have there := complete.tokens turn truncated[turn]
        (listQuery skip (Text.strip truncated[turn].nextContinuationToken))
        (by rw [List.getElem?_append_left bound, List.getElem?_eq_getElem bound])
        (by rw [queries]; simp [bound])
      rw [list_query_lookup] at there
      split_ifs at there with none
      have same := Option.some.inj there
      exact ⟨same ▸ none, same⟩
    refine ⟨tokens, ?_, ?_⟩
    · have fresh := ((scandir_from_nodup_iff python iso8601 skip here md5 _).mp complete.fresh).2
      rw [followed_all python iso8601 more ends read] at fresh
      rwa [List.map_congr_left fun page member => (tokens page member).2] at fresh
    · intro page member item inside some
      have listed_ : item ∈ (truncated ++ [last]).flatMap Page.items :=
        List.mem_flatMap.mpr ⟨page, member, inside⟩
      have same := agree item listed_
      refine ⟨(taken_iff (served item listed_)).mp same some, ?_⟩
      cases item with
      | inl text => rfl
      | inr content =>
          have held : content ∈ page.contents := by simpa [Page.items] using inside
          exact (contents_ok_iff python iso8601 page.contents).mp (read page member) content held
            (same ▸ some)
  · intro orderly
    have agree : ∀ item ∈ (truncated ++ [last]).flatMap Page.items,
        taken skip item = child skip item := by
      intro item member
      obtain ⟨page, listed_, inside⟩ := List.mem_flatMap.mp member
      exact (taken_iff (served item member)).mpr fun some =>
        (orderly.legible page listed_ item inside some).1
    have read : ∀ page ∈ truncated ++ [last],
        (contents python iso8601 skip here md5 page.contents).isOk := by
      intro page member
      apply (contents_ok_iff python iso8601 page.contents).mpr
      intro content held some
      have inside : Sum.inr content ∈ page.items := by simpa [Page.items] using held
      rw [agree _ (List.mem_flatMap.mpr ⟨page, member, inside⟩)] at some
      exact (orderly.legible page member _ inside some).2
    have queries := scandir_from_queries python iso8601 skip here md5 [] (truncated ++ [last])
    have all := followed_all python iso8601 more ends read
    rw [all] at queries
    refine ⟨?_, ?_, ?_, ?_⟩
    · rw [queries]
      simp
    · intro turn page query answered asked_
      rw [queries, List.getElem?_cons_succ, List.getElem?_map] at asked_
      obtain ⟨found, there, rfl⟩ := Option.map_eq_some_iff.mp asked_
      have bound : turn < truncated.length := (List.getElem?_eq_some_iff.mp there).1
      rw [List.getElem?_append_left bound, there] at answered
      cases Option.some.inj answered
      obtain ⟨some, plain⟩ := orderly.tokens page (List.mem_of_getElem? there)
      rw [list_query_lookup, plain, if_neg some]
    · apply (scandir_from_nodup_iff python iso8601 skip here md5 _).mpr
      rw [all, List.map_congr_left fun page member => (orderly.tokens page member).2]
      refine ⟨fun page member => ?_, orderly.apart⟩
      rw [(orderly.tokens page member).2]
      exact (orderly.tokens page member).1
    · have ok := (scandir_from_ok_iff python iso8601 [] more ends).mpr read
      cases returned : (scandirFrom python iso8601 skip here md5 [] (truncated ++ [last])).2 with
      | error raised =>
          rw [returned] at ok
          cases ok
      | ok entries =>
          refine ⟨entries, rfl, ?_⟩
          rw [scandir_from_view python iso8601 [] more ends returned]
          exact List.filterMap_congr agree

end Whole

/-- No listing asks for a page again exactly when the tokens it follows are different and
none is empty; and one whose last page is the first that is not truncated is complete
exactly when its pages are in order. -/
theorem scandir_complete_iff (fs : FileSystem) (path algorithm : Text)
    (supported : algorithm = [] ∨ python.lower algorithm = str "md5") :
    (∀ pages, (scandir python iso8601 fs path algorithm pages).1.Nodup ↔
      (∀ page ∈ followed python iso8601 (prefixOf fs path) (slash :: rstrip (prefixOf fs path))
          (algorithm ≠ []) pages, Text.strip page.nextContinuationToken ≠ []) ∧
      ((followed python iso8601 (prefixOf fs path) (slash :: rstrip (prefixOf fs path))
          (algorithm ≠ []) pages).map fun page => Text.strip page.nextContinuationToken).Nodup) ∧
    ∀ truncated last, (∀ page ∈ truncated, Page.truncated page) → ¬ last.truncated →
      (∀ page ∈ truncated ++ [last], ∀ item ∈ page.items, Serves (prefixOf fs path) item) →
      (Complete (prefixOf fs path) (truncated ++ [last])
          (scandir python iso8601 fs path algorithm (truncated ++ [last])) ↔
        Orderly python (prefixOf fs path) truncated last) := by
  have known (pages : List Page) : scandir python iso8601 fs path algorithm pages =
      scandirFrom python iso8601 (prefixOf fs path) (slash :: rstrip (prefixOf fs path))
        (algorithm ≠ []) [] pages := by
    rw [scandir, if_neg]
    rcases supported with none | md5
    · simp [none]
    · simp [md5]
  constructor
  · intro pages
    rw [known]
    exact scandir_from_nodup_iff python iso8601 _ _ _ pages
  · intro truncated last more ends serves
    rw [known]
    exact complete_iff python iso8601 more ends serves

def firstPage (token : Text) : Page where
  prefixes := []
  contents := [⟨str "d/a", [], str "1", []⟩]
  isTruncated := str "true"
  nextContinuationToken := token

def lastPage : Page where
  prefixes := [str "d/b/"]
  contents := []
  isTruncated := str "false"

theorem served_pages (token : Text) : ∀ page ∈ [firstPage token] ++ [lastPage],
    ∀ item ∈ page.items, Serves (prefixOf atRoot (str "/d")) item := by
  have skip : prefixOf atRoot (str "/d") = str "d/" := by decide +kernel
  rw [skip]
  intro page member item inside
  simp only [List.cons_append, List.nil_append, List.mem_cons, List.not_mem_nil, or_false] at member
  rcases member with rfl | rfl
  · cases List.mem_singleton.mp inside
    exact ⟨str "a", by decide, rfl⟩
  · cases List.mem_singleton.mp inside
    exact ⟨str "b", by decide, rfl⟩

theorem two_pages_complete :
    Complete (prefixOf atRoot (str "/d")) ([firstPage (str "t")] ++ [lastPage])
      (scandir identities (fun _ => 0) atRoot (str "/d") [] ([firstPage (str "t")] ++ [lastPage])) := by
  apply ((scandir_complete_iff identities (fun _ => 0) atRoot (str "/d") [] (.inl rfl)).2
    [firstPage (str "t")] lastPage (by decide +kernel) (by decide +kernel)
    (served_pages (str "t"))).mpr
  refine ⟨by decide +kernel, by decide +kernel, fun page member item inside _ => ?_⟩
  simp only [List.cons_append, List.nil_append, List.mem_cons, List.not_mem_nil, or_false] at member
  rcases member with rfl | rfl
  · cases List.mem_singleton.mp inside
    exact ⟨by decide +kernel, by decide +kernel⟩
  · cases List.mem_singleton.mp inside
    exact ⟨by decide +kernel, by decide +kernel⟩

/-- Behind a truncated page without a token the listing begins again, and the page is read
a second time. -/
theorem listing_restarted :
    (∀ page ∈ [firstPage []] ++ [lastPage], ∀ item ∈ page.items,
      Serves (prefixOf atRoot (str "/d")) item) ∧
    (scandir identities (fun _ => 0) atRoot (str "/d") [] [firstPage [], firstPage [], lastPage]).1 =
      List.replicate 3 (listQuery (str "d/") []) ∧
    ¬ (scandir identities (fun _ => 0) atRoot (str "/d") [] [firstPage [], lastPage]).1.Nodup ∧
    ¬ Complete (prefixOf atRoot (str "/d")) [firstPage [], lastPage]
      (scandir identities (fun _ => 0) atRoot (str "/d") [] [firstPage [], lastPage]) := by
  have again : ¬ (scandir identities (fun _ => 0) atRoot (str "/d") []
      [firstPage [], lastPage]).1.Nodup := by decide +kernel
  exact ⟨served_pages [], by decide +kernel, again, fun complete => again complete.fresh⟩

end XRootDClient.S3
