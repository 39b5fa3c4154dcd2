import Mathlib.Algebra.BigOperators.Group.List.Basic
import XRootDClient.Client.Url
import XRootDClient.Lib.Doubles
import XRootDClient.Root.Ml

/-!
# Datasets

A file of trees as a training loop wants it: the trees are sorted into splits by their
names, the columns into the inputs and the answer, and a split can be cut in two in every
tree. Whatever is cut and however many workers read, an epoch of all the parts gives the
rows of the file, and none of them more often than its tree is listed.
-/

set_option autoImplicit false

namespace XRootDClient.Root.Dataset

open Lib Lib.Doubles Lib.Extent Lib.Shares Branches Ml Url

inductive DatasetError
  | load (raised : LoadError)
  | valueError (message : Text)
  | zeroDivision
  deriving DecidableEq

def SPLITS : List Text :=
  [str "train", str "validation", str "valid", str "val", str "dev", str "eval", str "test"]

def ANSWERS : List Text := [str "label", str "target", str "class", str "y"]

def BOOKKEEPING : List Text := [str "index", str "entry"]

def POOL_BYTES : Nat := 64 * 1024 * 1024

variable {Object Memory : Type}

/-- A file: what it is called, the names in it, those of trees, and for each of these what
reading it gives, what the tree calls itself and what it says its columns hold. -/
structure File (Object Memory : Type) where
  name : Text
  keys : List Text
  trees : List Text
  sources : Nat → Source Object Memory
  called : Nat → Text
  typenames : Nat → List (Text × Text)

structure Column where
  name : Text
  typecode : Code
  width : Nat

def Column.itemsize (column : Column) : Nat := column.typecode.layout.1

/-- Rows of one tree, and the class they all are. A tree is named by its place in what
`trees()` lists. -/
structure Part where
  tree : Nat
  start : Int
  stop : Int
  label : Text
  deriving DecidableEq

def Part.rows (part : Part) : Int := part.stop - part.start

structure Listed where
  tree : Nat
  label : Text
  deriving DecidableEq

variable (python : Python) (repr : Text → Text)

def sorted (named : Text × Nat) : Text × Listed :=
  let (head, _, label) := Text.partition '_' named.1
  if python.lower head ∈ SPLITS then (python.lower head, ⟨named.2, label⟩)
  else (str "all", ⟨named.2, []⟩)

def gather (grouped : Dict Text (List Listed)) : List (Text × Listed) → Dict Text (List Listed)
  | [] => grouped
  | (split, listed) :: rest =>
      gather (grouped.set split ((grouped.getD split []) ++ [listed])) rest

def order (split : Text) : Nat := if split ∈ SPLITS then SPLITS.idxOf split else 99

def before (one other : Text) : Bool :=
  order one < order other || order one == order other && decide (one ≤ other)

def grouped (file : File Object Memory) : Except DatasetError (List (Text × List Listed)) :=
  if file.trees = [] then
    let held := Text.join (str ", ") file.keys
    .error (.valueError (file.name ++ str " holds no trees, so there are no rows to train on; " ++
      str "it holds " ++ if held = [] then str "nothing" else held))
  else
    let grouped := gather ∅ (file.trees.zipIdx.map (sorted python))
    .ok ((grouped.keys.mergeSort before).map fun split => (split, grouped.getD split []))

def columns (file : File Object Memory) (tree : Nat) : Except DatasetError (List Column) :=
  let source := file.sources tree
  let found := (numeric source).filterMap fun name =>
    (source.tree.branches.lookup name).map fun branch =>
      Column.mk name (source.code name) (match branch.column with
        | .rows _ _ _ _ => 0
        | _ => length branch)
  if found = [] then
    .error (.valueError (file.called tree ++ str " has no columns of numbers to learn from; it has " ++
      Text.join (str ", ") ((file.typenames tree).map fun named =>
        named.1 ++ str " (" ++ named.2 ++ str ")")))
  else .ok found

def noColumn (name : Text) (columns : List Column) (where_ : Text) : DatasetError :=
  .valueError (where_ ++ str " has no column of numbers called " ++ repr name ++ str "; it has " ++
    Text.join (str ", ") (columns.map Column.name))

def answer (columns : List Column) (named : Option Text) (where_ : Text) :
    Except DatasetError (Option Text) :=
  match named with
  | some named =>
      if named ∈ columns.map Column.name then .ok (some named)
      else .error (noColumn repr named columns where_)
  | none =>
      -- of names that are the same in lower case, the last one counts
      .ok (ANSWERS.findSome? fun name =>
        (columns.map Column.name).reverse.find? fun column => python.lower column = name)

def inputs (columns : List Column) (named : Option (List Text)) (answer : Option Text)
    (where_ : Text) : Except DatasetError (List Text) :=
  match named with
  | some named =>
      match named.find? (· ∉ columns.map Column.name) with
      | some missing => .error (noColumn repr missing columns where_)
      | none => .ok named
  | none =>
      let inputs := (columns.map Column.name).filter fun name =>
        some name ≠ answer && python.lower name ∉ BOOKKEEPING
      if inputs = [] then
        .error (.valueError (str "every column of " ++ where_ ++
          str " is either the answer or bookkeeping, so there is " ++
          str "nothing to learn from; name the inputs yourself with inputs=[...]"))
      else .ok inputs

def pool (columns : List Column) (wanted : List Text) (trees : Nat) : Except DatasetError Nat :=
  let row := (wanted.map fun name =>
    ((columns.find? (·.name = name)).map fun column => max 1 column.width * column.itemsize).getD 0).sum
  if row * trees = 0 then .error .zeroDivision
  else .ok (max 256 (min (POOL_BYTES / (row * trees)) 16384))

structure Split where
  name : Text
  parts : List Part

def Split.len (split : Split) : Int := (split.parts.map Part.rows).sum

structure Dataset (Object Memory : Type) where
  sources : Nat → Source Object Memory
  wanted : List Text
  step : Int
  splits : List (Text × Split)

def whole (sources : Nat → Source Object Memory) (listed : Listed) : Part :=
  ⟨listed.tree, 0, (sources listed.tree).tree.entries, listed.label⟩

def splitsOf (file : File Object Memory) (groups : List (Text × List Listed)) : List (Text × Split) :=
  groups.map fun group => (group.1, Split.mk group.1 (group.2.map (whole file.sources)))

def stepOf (columns : List Column) (wanted : List Text) (groups : List (Text × List Listed))
    (step : Option Int) : Except DatasetError Int :=
  match step.filter (· ≠ 0) with
  | some step => .ok step
  | none =>
      (pool columns wanted ((groups.map fun group => group.2.length).foldl max 0)).map Int.ofNat

/-- `Dataset.__init__`. -/
def Dataset.new (file : File Object Memory) (inputsNamed : Option (List Text))
    (answerNamed : Option Text) (step : Option Int) : Except DatasetError (Dataset Object Memory) := do
  let groups ← grouped python file
  let first := (groups.head?.bind fun group => group.2.head?.map Listed.tree).getD 0
  let columns ← columns file first
  let answer ← answer python repr columns answerNamed file.name
  let inputs ← inputs python repr columns inputsNamed answer file.name
  let wanted := inputs ++ answer.toList.filter (· ≠ [])
  let step ← stepOf columns wanted groups step
  return ⟨file.sources, wanted, step, splitsOf file groups⟩

def Dataset.len (data : Dataset Object Memory) : Int := (data.splits.map fun split => split.2.len).sum

/-- How a split is asked to be cut: the fraction, if it lies between nought and one, and how it
and what it leaves of one are printed. -/
structure Cut where
  fraction : Option Fraction
  printed : Text
  percent : Text
  remaining : Text

def Part.cut (fraction : Fraction) (part : Part) : Int := part.start + fraction.of part.rows.toNat

def Split.split (split : Split) (cut : Cut) : Except DatasetError (Split × Split) :=
  match cut.fraction with
  | none => .error (.valueError (str "a fraction cuts the rows in two, so it lies between 0 and 1: " ++
      cut.printed ++ str " would leave one side empty"))
  | some fraction =>
      .ok (⟨split.name ++ str " (first " ++ cut.percent ++ str ")",
          split.parts.map fun part => { part with stop := part.cut fraction }⟩,
        ⟨split.name ++ str " (last " ++ cut.remaining ++ str ")",
          split.parts.map fun part => { part with start := part.cut fraction }⟩)

/-- `Split.dataset`, up to how a batch is put together. -/
def Split.dataset (torch : Torch) (data : Dataset Object Memory) (split : Split) (batch : Option Int)
    (shuffle : Bool) : Except DatasetError (Loader Object Memory) :=
  (mixed torch data.sources (split.parts.map Part.tree) (some data.wanted) data.step batch shuffle
    (some (split.parts.map fun part => (part.start, part.stop)))).mapError .load

inductive Cutting
  | uncut
  | two (cut : Cut) (one other : Cutting)

def Split.pieces (split : Split) : Cutting → Except DatasetError (List Split)
  | .uncut => .ok [split]
  | .two cut one other => do
      let (first, last) ← split.split cut
      let ones ← first.pieces one
      let others ← last.pieces other
      return ones ++ others

def Cutting.Proper : Cutting → Prop
  | .uncut => True
  | .two cut one other => cut.fraction.isSome ∧ one.Proper ∧ other.Proper

section Grouping

variable {python} {file : File Object Memory}

theorem gather_perm (dict : Dict Text (List Listed)) (items : List (Text × Listed)) :
    ((gather dict items).entries.flatMap Prod.snd).Perm
      (dict.entries.flatMap Prod.snd ++ items.map Prod.snd) := by
  induction items generalizing dict with
  | nil =>
      rw [List.map_nil, List.append_nil]
      exact List.Perm.refl _
  | cons item rest induction =>
      rw [gather]
      apply (induction _).trans
      have behind : dict.entries.flatMap Prod.snd ++ (item :: rest).map Prod.snd =
          dict.entries.flatMap Prod.snd ++ [item.2] ++ rest.map Prod.snd := by
        rw [List.map_cons, List.append_assoc]
        rfl
      rw [behind]
      apply List.Perm.append_right
      have written := (Dict.set_perm dict item.1 (dict.getD item.1 [] ++ [item.2])).flatMap_right Prod.snd
      apply written.trans
      rw [List.flatMap_cons]
      cases found : dict.get? item.1 with
      | none =>
          rw [Dict.getD, found, Dict.erase_absent dict found]
          exact List.perm_append_comm
      | some held =>
          have parted := (Dict.entries_perm found).flatMap_right Prod.snd
          rw [List.flatMap_cons] at parted
          rw [Dict.getD, found, Option.getD_some, List.append_assoc]
          apply List.Perm.trans _ (parted.symm.append_right _)
          rw [List.append_assoc]
          exact List.perm_append_comm.append_left held

theorem gather_some (dict : Dict Text (List Listed)) (items : List (Text × Listed))
    (some_ : ∀ entry ∈ dict.entries, entry.2 ≠ []) :
    ∀ entry ∈ (gather dict items).entries, entry.2 ≠ [] := by
  induction items generalizing dict with
  | nil => exact some_
  | cons item rest induction =>
      apply induction
      intro entry member
      have found := (Dict.get_eq_some _ _ _).mpr member
      rw [Dict.get_set] at found
      by_cases same : entry.1 = item.1
      · rw [if_pos same] at found
        rw [← Option.some.inj found]
        exact List.append_ne_nil_of_right_ne_nil _ (List.cons_ne_nil _ _)
      · rw [if_neg same] at found
        exact some_ entry ((Dict.get_eq_some _ _ _).mp found)

theorem grouped_parts {groups : List (Text × List Listed)}
    (sorted_ : grouped python file = .ok groups) :
    ((groups.flatMap Prod.snd).map Listed.tree).Perm (List.range file.trees.length) ∧
      (groups.map Prod.fst).Nodup ∧ ∀ group ∈ groups, group.2 ≠ [] := by
  rw [grouped] at sorted_
  by_cases empty : file.trees = []
  · rw [if_pos empty] at sorted_
    cases sorted_
  rw [if_neg empty] at sorted_
  dsimp only at sorted_
  generalize gathered : gather ∅ (file.trees.zipIdx.map (sorted python)) = dict at sorted_
  cases sorted_
  have ordered : (dict.keys.mergeSort before).Perm dict.keys := List.mergeSort_perm _ _
  have entries : dict.keys.map (fun split => (split, dict.getD split [])) = dict.entries := by
    rw [Dict.keys, List.map_map]
    conv_rhs => rw [← List.map_id dict.entries]
    apply List.map_congr_left
    intro entry member
    have found : dict.get? entry.1 = some entry.2 := (Dict.get_eq_some _ _ _).mpr member
    rw [Function.comp_apply, Dict.getD, found]
    rfl
  have same := ordered.map fun split => (split, dict.getD split [])
  rw [entries] at same
  refine ⟨?_, ?_, ?_⟩
  · have whole := gather_perm ∅ (file.trees.zipIdx.map (sorted python))
    rw [gathered] at whole
    have trees := ((same.flatMap_right Prod.snd).trans whole).map Listed.tree
    apply trees.trans
    have listed : ((∅ : Dict Text (List Listed)).entries.flatMap Prod.snd ++
        (file.trees.zipIdx.map (sorted python)).map Prod.snd).map Listed.tree =
      List.range file.trees.length := by
      have empty : (∅ : Dict Text (List Listed)).entries = [] := rfl
      rw [empty, List.flatMap_nil, List.nil_append, List.map_map, List.map_map]
      have place : ∀ named : Text × Nat, (sorted python named).2.tree = named.2 := by
        intro named
        rw [sorted]
        dsimp only
        split <;> rfl
      have snd : ((Listed.tree ∘ Prod.snd) ∘ sorted python) = Prod.snd := funext place
      rw [snd, List.zipIdx_map_snd, List.range_eq_range']
    rw [listed]
  · rw [List.map_map]
    have first : (Prod.fst ∘ fun split => (split, dict.getD split [])) = id := rfl
    rw [first, List.map_id]
    exact ordered.nodup_iff.mpr dict.keys_nodup
  · intro group member
    have inside := same.mem_iff.mp member
    have filled := gather_some ∅ (file.trees.zipIdx.map (sorted python)) (by
      intro entry none_
      cases none_)
    rw [gathered] at filled
    exact filled group inside

end Grouping

section Halves

variable {sources : Nat → Source Object Memory} {contents : Nat → Text → List (List (Piece Object))}

def Part.pair (part : Part) : Nat × (Int × Int) := (part.tree, (part.start, part.stop))

def partRows (sources : Nat → Source Object Memory)
    (contents : Nat → Text → List (List (Piece Object))) (parts : List Part) : List Row :=
  parts.flatMap fun part => spanRows sources contents part.pair

/-- Parts in their trees, which are no larger than a double counts exactly. -/
def Fits (sources : Nat → Source Object Memory) (trees : List Nat) (split : Split) : Prop :=
  split.parts.map Part.tree = trees ∧
    ∀ part ∈ split.parts, Spans sources part.pair ∧ (sources part.tree).tree.entries < 2 ^ 53

theorem cut_inside (fraction : Fraction) {part : Part} (inside : Spans sources part.pair)
    (small : (sources part.tree).tree.entries < 2 ^ 53) :
    part.start ≤ part.cut fraction ∧ part.cut fraction ≤ part.stop := by
  obtain ⟨low, ordered, high⟩ := inside
  dsimp only [Part.pair] at low ordered high
  have exact_ : part.rows.toNat < 2 ^ 53 := by
    rw [Part.rows]
    omega
  have fewer := fraction.of_le exact_
  rw [Part.cut]
  rw [Part.rows] at fewer ⊢
  omega

theorem sum_halves (fraction : Fraction) (parts : List Part) :
    ((parts.map fun part => { part with stop := part.cut fraction }).map Part.rows).sum +
        ((parts.map fun part => { part with start := part.cut fraction }).map Part.rows).sum =
      (parts.map Part.rows).sum := by
  induction parts with
  | nil => rfl
  | cons part rest induction =>
      simp only [List.map_cons, List.sum_cons] at induction ⊢
      simp only [Part.rows] at induction ⊢
      omega

theorem fits_changed {trees : List Nat} {split : Split} (fits : Fits sources trees split)
    {change : Part → Part} (tree : ∀ part, (change part).tree = part.tree)
    (lies : ∀ part ∈ split.parts, Spans sources (change part).pair) (name : Text) :
    Fits sources trees ⟨name, split.parts.map change⟩ := by
  obtain ⟨listed, inside⟩ := fits
  constructor
  · rw [← listed, List.map_map]
    exact List.map_congr_left fun part _ => tree part
  · intro part member
    obtain ⟨uncut, given, rfl⟩ := List.mem_map.mp member
    rw [tree]
    exact ⟨lies uncut given, (inside uncut given).2⟩

/-- The halves of a split are of its trees, have its rows between them and are as long. -/
theorem split_halves {trees : List Nat} {split : Split} (fits : Fits sources trees split) {cut : Cut}
    (proper : cut.fraction.isSome) :
    ∃ one other, split.split cut = .ok (one, other) ∧ Fits sources trees one ∧
      Fits sources trees other ∧ one.len + other.len = split.len ∧
      (partRows sources contents one.parts ++ partRows sources contents other.parts).Perm
        (partRows sources contents split.parts) := by
  obtain ⟨fraction, given⟩ := Option.isSome_iff_exists.mp proper
  have made : split.split cut =
      .ok (⟨split.name ++ str " (first " ++ cut.percent ++ str ")",
          split.parts.map fun part => { part with stop := part.cut fraction }⟩,
        ⟨split.name ++ str " (last " ++ cut.remaining ++ str ")",
          split.parts.map fun part => { part with start := part.cut fraction }⟩) := by
    rw [Split.split, given]
  have between : ∀ part ∈ split.parts, part.start ≤ part.cut fraction ∧ part.cut fraction ≤ part.stop :=
    fun part member => cut_inside fraction (fits.2 part member).1 (fits.2 part member).2
  refine ⟨_, _, made, ?_, ?_, sum_halves fraction split.parts, ?_⟩
  · apply fits_changed fits
    · exact fun _ => rfl
    intro part member
    obtain ⟨low, _, high⟩ := (fits.2 part member).1
    exact ⟨low, (between part member).1, (between part member).2.trans high⟩
  · apply fits_changed fits
    · exact fun _ => rfl
    intro part member
    obtain ⟨low, _, high⟩ := (fits.2 part member).1
    exact ⟨low.trans (between part member).1, (between part member).2, high⟩
  · rw [partRows, partRows, List.flatMap_map, List.flatMap_map]
    apply (List.flatMap_append_perm _ _ _).trans
    have joined : (split.parts.flatMap fun part =>
        spanRows sources contents ({ part with stop := part.cut fraction } : Part).pair ++
          spanRows sources contents ({ part with start := part.cut fraction } : Part).pair) =
        partRows sources contents split.parts := by
      apply List.flatMap_congr
      intro part member
      exact fetch_ranges (fits.2 part member).1.1 (between part member).1 (between part member).2
    rw [joined]

theorem pieces_fit {trees : List Nat} {split : Split} (fits : Fits sources trees split)
    {cutting : Cutting} (proper : cutting.Proper) :
    ∃ pieces, split.pieces cutting = .ok pieces ∧ (∀ piece ∈ pieces, Fits sources trees piece) ∧
      (pieces.map Split.len).sum = split.len ∧
      (pieces.flatMap fun piece => partRows sources contents piece.parts).Perm
        (partRows sources contents split.parts) := by
  induction cutting generalizing split with
  | uncut =>
      refine ⟨[split], rfl, ?_, ?_, ?_⟩
      · intro piece member
        rw [List.mem_singleton.mp member]
        exact fits
      · simp
      · simp
  | two cut one other first_ last_ =>
      obtain ⟨first, last, made, fitsFirst, fitsLast, lengths, rows⟩ :=
        @split_halves _ _ sources contents trees split fits cut proper.1
      obtain ⟨ones, madeOnes, fitOnes, lenOnes, rowsOnes⟩ := first_ fitsFirst proper.2.1
      obtain ⟨others, madeOthers, fitOthers, lenOthers, rowsOthers⟩ := last_ fitsLast proper.2.2
      refine ⟨ones ++ others, ?_, ?_, ?_, ?_⟩
      · rw [Split.pieces, made]
        simp only [bind, Except.bind, madeOnes, madeOthers, pure, Except.pure]
      · intro piece member
        rcases List.mem_append.mp member with these | those
        · exact fitOnes piece these
        · exact fitOthers piece those
      · rw [List.map_append, List.sum_append, lenOnes, lenOthers, lengths]
      · rw [List.flatMap_append]
        exact (rowsOnes.append rowsOthers).trans rows

end Halves

section Epochs

variable [Inhabited Memory] (torch : Option Worker → Torch) (data : Dataset Object Memory)
  (kind : Text → Kind) (world : Option Worker → World) (batch : Option Int) (shuffle : Bool)

def processes : Option Nat → List (Option Worker)
  | none => [none]
  | some count => (List.range count).map fun id => some ⟨id, count⟩

/-- An epoch of a split, in all its processes, gives these rows. -/
def Gives (workers : Option Nat) (split : Split) (rows : List Row) : Prop :=
  ∃ parts : Option Worker → List (List Row),
    (∀ process ∈ processes workers, ∃ loader later,
      split.dataset (torch process) data batch shuffle = .ok loader ∧
      loader.iterate process (world process) =
        .ok ((parts process).map (columnsOf data.wanted kind), later)) ∧
    rows = (processes workers).flatMap fun process => (parts process).flatten

variable {torch data kind world batch shuffle} {contents : Nat → Text → List (List (Piece Object))}
  {workers : Option Nat}

omit [Inhabited Memory] in
theorem processes_working (working : ∀ count ∈ workers, 1 ≤ count) {process : Option Worker}
    (member : process ∈ processes workers) : ∀ one ∈ process, 0 < one.numWorkers := by
  intro one given
  cases workers with
  | none =>
      rw [List.mem_singleton.mp member] at given
      cases given
  | some count =>
      obtain ⟨id, _, rfl⟩ := List.mem_map.mp member
      cases given
      exact working count rfl

omit [Inhabited Memory] in
theorem processes_span {sources : Nat → Source Object Memory} {pair : Nat × (Int × Int)}
    (spans : Spans sources pair) (working : ∀ count ∈ workers, 1 ≤ count) :
    ((processes workers).flatMap fun process =>
        spanRows sources contents (pair.1, shareOf process pair.2)) =
      spanRows sources contents pair := by
  cases workers with
  | none => simp [processes, shareOf]
  | some count =>
      rw [processes, List.flatMap_map]
      exact shares_span contents spans (working count rfl)

theorem split_given {trees : List Nat} {split : Split} (lawful : ∀ process, (torch process).Lawful)
    (stepped : 0 < data.step) (sized : ∀ size ∈ batch, 1 ≤ size) (columned : data.wanted ≠ [])
    (filled : trees ≠ []) (fits : Fits data.sources trees split)
    (feeds : ∀ tree ∈ trees,
      (data.sources tree).Feeds (contents tree) (some data.wanted) data.wanted kind)
    (right : ∀ process, ∀ tree ∈ trees,
      (data.sources tree).tree.Right ((world process).caches tree))
    (working : ∀ count ∈ workers, 1 ≤ count) :
    ∃ rows, Gives torch data kind world batch shuffle workers split rows ∧
      rows.Perm (partRows data.sources contents split.parts) := by
  obtain ⟨rfl, inside⟩ := fits
  let spans := split.parts.map fun part => (part.start, part.stop)
  let loader : Option Worker → Loader Object Memory := fun process =>
    ⟨torch process, data.sources, split.parts.map Part.tree, some data.wanted, data.step, batch,
      shuffle, spans⟩
  have made : ∀ process, split.dataset (torch process) data batch shuffle = .ok (loader process) := by
    intro process
    have apiece : ¬ spans.length ≠ (split.parts.map Part.tree).length := by
      simp [spans]
    rw [Split.dataset, mixed, if_neg filled]
    dsimp only [rangesOf, Option.getD_some]
    rw [if_neg apiece]
    rfl
  have ready : ∀ process, (loader process).Ready contents data.wanted kind := fun process =>
    ⟨lawful process, stepped, sized, columned, feeds⟩
  have pairs : (split.parts.map Part.tree).zip spans = split.parts.map Part.pair := by
    rw [List.zip_map']
    rfl
  have spanned : ∀ pair ∈ (split.parts.map Part.tree).zip spans, Spans data.sources pair := by
    rw [pairs]
    intro pair member
    obtain ⟨part, given, rfl⟩ := List.mem_map.mp member
    exact (inside part given).1
  have each : ∀ process ∈ processes workers, ∃ parts : List (List Row),
      (∃ later, (loader process).iterate process (world process) =
        .ok (parts.map (columnsOf data.wanted kind), later)) ∧
      parts.flatten.Perm ((split.parts.map Part.pair).flatMap fun pair =>
        spanRows data.sources contents (pair.1, shareOf process pair.2)) := by
    intro process member
    obtain ⟨parts, later, ran, rows, _⟩ := iterate_given (ready process) (right process)
      (processes_working working member) spanned
    have listed : parts.flatten.Perm (((split.parts.map Part.tree).zip spans).flatMap fun pair =>
        spanRows data.sources contents (pair.1, shareOf process pair.2)) := rows
    rw [pairs] at listed
    exact ⟨parts, ⟨later, ran⟩, listed⟩
  choose! parts ran rows using each
  refine ⟨_, ⟨parts, ?_, rfl⟩, ?_⟩
  · intro process member
    obtain ⟨later, ended⟩ := ran process member
    exact ⟨loader process, later, made process, ended⟩
  · have shared := List.Perm.flatMap_left (processes workers) rows
    have gathered := gathered_perm (processes workers) (split.parts.map Part.pair)
      fun process pair => spanRows data.sources contents (pair.1, shareOf process pair.2)
    have joined : ((split.parts.map Part.pair).flatMap fun pair =>
        (processes workers).flatMap fun process =>
          spanRows data.sources contents (pair.1, shareOf process pair.2)) =
        partRows data.sources contents split.parts := by
      rw [partRows, List.flatMap_map]
      apply List.flatMap_congr
      intro part member
      exact processes_span (inside part member).1 working
    rw [joined] at gathered
    exact shared.trans gathered

end Epochs

section Files

variable {python : Python} {repr : Text → Text} {file : File Object Memory}
  {contents : Nat → Text → List (List (Piece Object))}

theorem inputs_some {columns : List Column} {named : Option (List Text)} {answer : Option Text}
    {where_ : Text} {chosen : List Text} (given : named ≠ some [])
    (made : inputs python repr columns named answer where_ = .ok chosen) : chosen ≠ [] := by
  cases named with
  | some named =>
      rw [inputs] at made
      split at made
      · cases made
      · cases made
        exact fun none_ => given (congrArg some none_)
  | none =>
      rw [inputs] at made
      split at made
      · cases made
      · cases made
        assumption

theorem step_positive {columns : List Column} {wanted : List Text}
    {groups : List (Text × List Listed)} {step : Option Int} {chosen : Int}
    (given : ∀ asked ∈ step, 0 ≤ asked) (made : stepOf columns wanted groups step = .ok chosen) :
    0 < chosen := by
  rw [stepOf] at made
  split at made
  case h_1 _ asked found =>
      obtain ⟨member, other⟩ := Option.filter_eq_some_iff.mp found
      have low := given asked member
      have nonzero : asked ≠ 0 := by simpa using other
      cases made
      omega
  case h_2 =>
      rw [pool] at made
      split at made
      · cases made
      · cases made
        rw [Int.ofNat_eq_natCast]
        omega

theorem new_made {inputsNamed : Option (List Text)} {answerNamed : Option Text} {step : Option Int}
    {data : Dataset Object Memory} (named : inputsNamed ≠ some []) (given : ∀ asked ∈ step, 0 ≤ asked)
    (made : Dataset.new python repr file inputsNamed answerNamed step = .ok data) :
    ∃ groups, grouped python file = .ok groups ∧ data.sources = file.sources ∧
      data.splits = splitsOf file groups ∧ data.wanted ≠ [] ∧ 0 < data.step := by
  rw [Dataset.new] at made
  obtain ⟨groups, sorted_, made⟩ := Stateful.except_returns made
  obtain ⟨columns, _, made⟩ := Stateful.except_returns made
  obtain ⟨answer, _, made⟩ := Stateful.except_returns made
  obtain ⟨chosen, asked, made⟩ := Stateful.except_returns made
  obtain ⟨step, stepped, made⟩ := Stateful.except_returns made
  cases made
  refine ⟨groups, sorted_, rfl, rfl, ?_, step_positive given stepped⟩
  exact List.append_ne_nil_of_left_ne_nil (inputs_some named asked) _

theorem whole_rows (listed : Listed) :
    spanRows file.sources contents (whole file.sources listed).pair =
      (file.sources listed.tree).rows (contents listed.tree) := by
  rw [spanRows, whole, Part.pair]
  dsimp only
  have count : ((file.sources listed.tree).rows (contents listed.tree)).length =
      (file.sources listed.tree).tree.entries := by
    rw [Source.rows, List.length_map, List.length_range]
  apply fetch_all
  omega

theorem splits_trees (groups : List (Text × List Listed)) :
    ((splitsOf file groups).flatMap fun named => named.2.parts.map Part.tree) =
      (groups.flatMap Prod.snd).map Listed.tree := by
  rw [splitsOf, List.flatMap_map, List.map_flatMap]
  apply List.flatMap_congr
  intro group _
  rw [List.map_map]
  rfl

theorem splits_rows (groups : List (Text × List Listed)) :
    ((splitsOf file groups).flatMap fun named => partRows file.sources contents named.2.parts) =
      ((groups.flatMap Prod.snd).map Listed.tree).flatMap fun tree =>
        (file.sources tree).rows (contents tree) := by
  rw [splitsOf, List.flatMap_map, List.flatMap_map, List.flatMap_assoc]
  apply List.flatMap_congr
  intro group _
  rw [partRows, List.flatMap_map]
  exact List.flatMap_congr fun listed _ => whole_rows listed

theorem splits_len (groups : List (Text × List Listed)) :
    ((splitsOf file groups).map fun named => named.2.len).sum =
      (((groups.flatMap Prod.snd).map Listed.tree).map fun tree =>
        ((file.sources tree).tree.entries : Int)).sum := by
  induction groups with
  | nil => rfl
  | cons group rest induction =>
      rw [splitsOf] at induction ⊢
      rw [List.map_cons, List.map_cons, List.sum_cons, induction, List.flatMap_cons, List.map_append,
        List.map_append, List.sum_append, Split.len]
      congr 1
      rw [List.map_map, List.map_map]
      rfl

theorem splits_fit {groups : List (Text × List Listed)} {count : Nat}
    (small : ∀ tree < count, (file.sources tree).tree.entries < 2 ^ 53)
    (known : ∀ tree ∈ (groups.flatMap Prod.snd).map Listed.tree, tree < count)
    (filled : ∀ group ∈ groups, group.2 ≠ []) {named : Text × Split}
    (member : named ∈ splitsOf file groups) :
    ∃ trees, trees ≠ [] ∧ (∀ tree ∈ trees, tree < count) ∧ Fits file.sources trees named.2 := by
  obtain ⟨group, listed, rfl⟩ := List.mem_map.mp member
  have inside : ∀ tree ∈ group.2.map Listed.tree, tree < count := by
    intro tree member
    obtain ⟨one, here, rfl⟩ := List.mem_map.mp member
    exact known one.tree (List.mem_map_of_mem (List.mem_flatMap.mpr ⟨group, listed, here⟩))
  refine ⟨group.2.map Listed.tree, ?_, inside, ?_, ?_⟩
  · exact fun none_ => filled group listed (List.map_eq_nil_iff.mp none_)
  · rw [List.map_map]
    rfl
  · intro part member
    obtain ⟨one, here, rfl⟩ := List.mem_map.mp member
    refine ⟨⟨Int.le_refl _, Int.natCast_nonneg _, Int.le_refl _⟩, ?_⟩
    exact small one.tree (inside one.tree (List.mem_map_of_mem here))

end Files

def twoTrees : File Unit Unit where
  name := str "f"
  keys := [str "train_0", str "train_1"]
  trees := [str "train_0", str "train_1"]
  sources _ := threeSource
  called _ := str "t"
  typenames _ := [(str "n", str "uint8")]

def twoTreesRead : Dataset Unit Unit where
  sources _ := threeSource
  wanted := [str "n"]
  step := 16384
  splits := [(str "train", ⟨str "train", [⟨0, 0, 3, str "0"⟩, ⟨1, 0, 3, str "1"⟩]⟩)]

theorem two_trees_grouped : grouped asciiOnly twoTrees =
    .ok [(str "train", [⟨0, str "0"⟩, ⟨1, str "1"⟩])] := by
  have keys : (gather ∅ (twoTrees.trees.zipIdx.map (sorted asciiOnly))).keys = [str "train"] := by
    decide
  have listed : (gather ∅ (twoTrees.trees.zipIdx.map (sorted asciiOnly))).getD (str "train") [] =
      [⟨0, str "0"⟩, ⟨1, str "1"⟩] := by
    decide
  have some_ : twoTrees.trees ≠ [] := List.cons_ne_nil _ _
  rw [grouped, if_neg some_]
  dsimp only
  rw [keys, List.mergeSort_singleton, List.map_cons, List.map_nil, listed]

theorem two_trees_made :
    Dataset.new asciiOnly id twoTrees none none none = .ok twoTreesRead := by
  rw [Dataset.new, two_trees_grouped]
  rfl

/-- `0.8`. -/
def fourFifths : Fraction where
  significand := 7205759403792794
  exponent := 53
  positive := by decide
  precise := by decide
  below := by decide

end XRootDClient.Root.Dataset
