import Mathlib.Algebra.BigOperators.Group.List.Basic
import Mathlib.Data.List.Basic

/-!
# Histogram bins

A histogram keeps its bins as one flat run, x fastest, with two more along each axis
for what fell off its ends. `Histogram._shaped` cuts the run into nested lists, x
outermost: a row along the last axis is a slice with a stride, and the axes before it
are lists of what is below. Without the ends it is the same lists with the first and
the last element of every axis taken off.
-/

set_option autoImplicit false

namespace XRootDClient.Root.Hist

variable {Value : Type}

/-- `flat[start:stop:step]`, for a step forwards from a place not before the first. -/
def slice (flat : List Value) (start stop step : Nat) : List Value :=
  (List.range ((min stop flat.length - start + (step - 1)) / step)).filterMap fun index =>
    flat[start + index * step]?

inductive Nested (Value : Type)
  | row (values : List Value)
  | rows (parts : List (Nested Value))

/-- `math.prod(widths[:level])`. -/
def stride (widths : List Nat) (level : Nat) : Nat := (widths.take level).prod

def edge (flow : Bool) : Nat := if flow then 0 else 1

def count (flow : Bool) (widths : List Nat) (level : Nat) : Nat :=
  if flow then widths.getD level 0 else widths.getD level 0 - 2

def cut (widths : List Nat) (flat : List Value) (flow : Bool) : Nat → Nat → Nat → Nested Value
  | 0, level, base =>
      let start := base + edge flow * stride widths level
      .row (slice flat start (start + count flow widths level * stride widths level)
        (stride widths level))
  | below + 1, level, base =>
      .rows ((List.range (count flow widths level)).map fun step =>
        cut widths flat flow below (level + 1)
          (base + (step + edge flow) * stride widths level))

def shaped (widths : List Nat) (flat : List Value) (flow : Bool) : Nested Value :=
  cut widths flat flow (widths.length - 1) 0 0

/-- The parts of a histogram that its bins are read with: how many there are along each
axis, and the bins themselves, enough of them. -/
structure Histogram (Value : Type) where
  shape : List Nat
  bins : List Value
  axes : shape ≠ []
  enough : (shape.map (· + 2)).prod ≤ bins.length

def Histogram.widths (histogram : Histogram Value) : List Nat := histogram.shape.map (· + 2)

/-- `Histogram.__init__`: bins that are too few are refused. -/
def Histogram.init (shape : List Nat) (bins : List Value) (axes : shape ≠ []) :
    Except Unit (Histogram Value) :=
  if enough : (shape.map (· + 2)).prod ≤ bins.length then .ok ⟨shape, bins, axes, enough⟩
  else .error ()

def Histogram.values (histogram : Histogram Value) (flow : Bool) : Nested Value :=
  shaped histogram.widths histogram.bins flow

/-- `nested[i][j]...`. -/
def Nested.entry : List Nat → Nested Value → Option Value
  | [index], .row values => values[index]?
  | index :: rest, .rows parts => parts[index]?.bind (entry rest)
  | _, _ => none

/-- The place of a bin in the flat run, `i + width * (j + ...)`. -/
def place : List Nat → List Nat → Nat
  | width :: widths, index :: indices => index + width * place widths indices
  | _, _ => 0

def inside : List Nat → List Nat → Bool
  | [], [] => true
  | width :: widths, index :: indices => index < width && inside widths indices
  | _, _ => false

def dropEnds {Item : Type} (items : List Item) : List Item := items.tail.dropLast

/-- The bins without the first and the last along each of so many axes. -/
def Nested.trim : Nat → Nested Value → Nested Value
  | _, .row values => .row (dropEnds values)
  | level + 1, .rows parts => .rows ((dropEnds parts).map (trim level))
  | 0, .rows parts => .rows parts

theorem length_filterMap_range {f : Nat → Option Value} {most : Nat}
    (all : ∀ index < most, (f index).isSome = true) :
    ((List.range most).filterMap f).length = most := by
  induction most with
  | zero => rfl
  | succ most induction =>
      obtain ⟨value, found⟩ := Option.isSome_iff_exists.mp (all most (by omega))
      rw [List.range_succ, List.filterMap_append, List.length_append,
        induction fun index bound => all index (by omega), List.filterMap_cons_some found]
      rfl

theorem getElem?_filterMap_range {f : Nat → Option Value} {most : Nat}
    (all : ∀ index < most, (f index).isSome = true) (index : Nat) :
    ((List.range most).filterMap f)[index]? = if index < most then f index else none := by
  induction most with
  | zero => simp
  | succ most induction =>
      obtain ⟨value, found⟩ := Option.isSome_iff_exists.mp (all most (by omega))
      have earlier : ∀ index < most, (f index).isSome = true := fun index bound =>
        all index (by omega)
      rw [List.range_succ, List.filterMap_append, List.filterMap_cons_some found,
        List.filterMap_nil, List.getElem?_append, length_filterMap_range earlier]
      rcases Nat.lt_trichotomy index most with less | rfl | more
      · rw [if_pos less, if_pos (by omega), induction earlier, if_pos less]
      · simp [found]
      · rw [if_neg (by omega), if_neg (by omega), List.getElem?_eq_none (by simp; omega)]

theorem slice_many {flat : List Value} {start step count : Nat} (forwards : 0 < step)
    (some : 0 < count) (fits : start + (count - 1) * step < flat.length) :
    slice flat start (start + count * step) step =
        (List.range count).filterMap (fun index => flat[start + index * step]?) ∧
      ∀ index < count, (flat[start + index * step]?).isSome = true := by
  have reach : (count - 1) * step + step = count * step := by
    rw [← Nat.succ_mul]
    congr 1
    omega
  have many : (min (start + count * step) flat.length - start + (step - 1)) / step = count := by
    apply Nat.div_eq_of_lt_le
    · omega
    · rw [Nat.succ_mul]
      omega
  refine ⟨by rw [slice, many], fun index bound => ?_⟩
  have short : index * step ≤ (count - 1) * step := Nat.mul_le_mul_right step (by omega)
  rw [List.getElem?_eq_getElem (by omega)]
  rfl

section Cut

variable {widths : List Nat} {flat : List Value}

theorem getD_known {level : Nat} (known : level < widths.length) :
    widths.getD level 0 = widths.get ⟨level, known⟩ := by
  rw [List.getD_eq_getElem?_getD, List.getElem?_eq_getElem known]
  rfl

theorem drop_known {level : Nat} (known : level < widths.length) :
    widths.drop level = widths.getD level 0 :: widths.drop (level + 1) := by
  rw [getD_known known]
  exact List.drop_eq_getElem_cons known

theorem stride_succ {level : Nat} (known : level < widths.length) :
    stride widths (level + 1) = stride widths level * widths.getD level 0 := by
  rw [stride, stride, List.take_succ_eq_append_getElem known, List.prod_append,
    List.prod_singleton, getD_known known]
  rfl

theorem width_least (wide : ∀ width ∈ widths, 3 ≤ width) {level : Nat}
    (known : level < widths.length) : 3 ≤ widths.getD level 0 := by
  rw [getD_known known]
  exact wide _ (List.get_mem _ _)

theorem count_edge (flow : Bool) {level : Nat} (wide : 3 ≤ widths.getD level 0) :
    count flow widths level + 2 * edge flow = widths.getD level 0 ∧ 0 < count flow widths level := by
  cases flow with
  | true => exact ⟨rfl, by rw [count, if_pos rfl]; omega⟩
  | false =>
      rw [count, if_neg (by simp), edge, if_neg (by simp)]
      omega

theorem stride_pos (wide : ∀ width ∈ widths, 3 ≤ width) {level : Nat}
    (known : level ≤ widths.length) : 0 < stride widths level := by
  induction level with
  | zero => exact Nat.zero_lt_one
  | succ level induction =>
      rw [stride_succ known]
      have width := width_least wide known
      exact Nat.mul_pos (induction (by omega)) (by omega)

theorem stride_whole (level : Nat) :
    stride widths level * (widths.drop level).prod = widths.prod := by
  rw [stride, ← List.prod_append, List.take_append_drop]

theorem place_below {below indices : List Nat} (within : inside below indices = true) :
    place below indices < below.prod := by
  induction below generalizing indices with
  | nil =>
      cases indices with
      | nil => exact Nat.zero_lt_one
      | cons index indices => cases within
  | cons width below induction =>
      cases indices with
      | nil => cases within
      | cons index indices =>
          rw [inside, Bool.and_eq_true, decide_eq_true_eq] at within
          have less := induction within.2
          rw [place, List.prod_cons]
          have more : width * (place below indices + 1) ≤ width * below.prod :=
            Nat.mul_le_mul_left width less
          rw [Nat.mul_add, Nat.mul_one] at more
          omega

theorem base_next {base level step : Nat} (known : level < widths.length)
    (room : base < stride widths level) (bound : step < widths.getD level 0) :
    base + step * stride widths level < stride widths (level + 1) := by
  rw [stride_succ known]
  have more : stride widths level * (step + 1) ≤ stride widths level * widths.getD level 0 :=
    Nat.mul_le_mul_left _ bound
  rw [Nat.mul_add, Nat.mul_one, Nat.mul_comm] at more
  omega

def row (widths : List Nat) (flat : List Value) (flow : Bool) (level base : Nat) : List Value :=
  let start := base + edge flow * stride widths level
  slice flat start (start + count flow widths level * stride widths level) (stride widths level)

theorem row_many (wide : ∀ width ∈ widths, 3 ≤ width) (enough : widths.prod ≤ flat.length)
    {level base : Nat} (last : level + 1 = widths.length) (room : base < stride widths level)
    (flow : Bool) :
    row widths flat flow level base = (List.range (count flow widths level)).filterMap (fun index =>
        flat[base + edge flow * stride widths level + index * stride widths level]?) ∧
      ∀ index < count flow widths level,
        (flat[base + edge flow * stride widths level + index * stride widths level]?).isSome =
          true := by
  have known : level < widths.length := by omega
  have kept := count_edge flow (width_least wide known)
  have whole := @stride_whole widths (level + 1)
  rw [List.drop_eq_nil_of_le (by omega), List.prod_nil, Nat.mul_one] at whole
  apply slice_many (stride_pos wide (Nat.le_of_lt known)) kept.2
  have next := @base_next widths base level (count flow widths level - 1 + edge flow) known room
    (by omega)
  rw [Nat.add_mul] at next
  omega

theorem length_row (wide : ∀ width ∈ widths, 3 ≤ width) (enough : widths.prod ≤ flat.length)
    {level base : Nat} (last : level + 1 = widths.length) (room : base < stride widths level)
    (flow : Bool) : (row widths flat flow level base).length = count flow widths level := by
  obtain ⟨same, all⟩ := row_many wide enough last room flow
  rw [same, length_filterMap_range all]

theorem getElem?_row (wide : ∀ width ∈ widths, 3 ≤ width) (enough : widths.prod ≤ flat.length)
    {level base : Nat} (last : level + 1 = widths.length) (room : base < stride widths level)
    (flow : Bool) (index : Nat) :
    (row widths flat flow level base)[index]? =
      if index < count flow widths level then
        flat[base + (index + edge flow) * stride widths level]?
      else none := by
  obtain ⟨same, all⟩ := row_many wide enough last room flow
  rw [same, getElem?_filterMap_range all, Nat.add_mul, Nat.add_assoc,
    Nat.add_comm (index * stride widths level)]

/-- The bin at some indices below a level, counted from the base the level was cut at. -/
theorem cut_entry (wide : ∀ width ∈ widths, 3 ≤ width) (enough : widths.prod ≤ flat.length)
    {below level : Nat} (levels : level + below + 1 = widths.length) {base : Nat}
    (room : base < stride widths level) (indices : List Nat) :
    (cut widths flat true below level base).entry indices =
      if inside (widths.drop level) indices then
        flat[base + stride widths level * place (widths.drop level) indices]?
      else none := by
  induction below generalizing level base indices with
  | zero =>
      have known : level < widths.length := by omega
      change (Nested.row (row widths flat true level base)).entry indices = _
      rw [drop_known known, List.drop_eq_nil_of_le (by omega)]
      cases indices with
      | nil => rfl
      | cons index rest =>
          cases rest with
          | nil =>
              rw [Nested.entry, getElem?_row wide enough levels room true index]
              simp only [inside, place, Bool.and_true, decide_eq_true_eq, Nat.mul_zero,
                Nat.add_zero, count, if_true, edge]
              rw [Nat.mul_comm index]
          | cons next rest => simp [Nested.entry, inside]
  | succ below induction =>
      have known : level < widths.length := by omega
      rw [cut, drop_known known]
      cases indices with
      | nil => rfl
      | cons index rest =>
          rw [Nested.entry, List.getElem?_map, inside, place]
          by_cases bound : index < widths.getD level 0
          · rw [List.getElem?_range (by exact bound)]
            have next := base_next known room bound
            simp only [Option.map_some, Option.bind_some, edge, if_true, Nat.add_zero, bound,
              decide_true, Bool.true_and]
            rw [induction (by omega) next, stride_succ known]
            congr 2
            rw [Nat.mul_add, Nat.mul_assoc, Nat.mul_comm index]
            omega
          · rw [List.getElem?_eq_none (by
              rw [List.length_range]
              exact Nat.le_of_not_lt bound), decide_eq_false bound]
            rfl

theorem getElem?_dropEnds {Item : Type} (items : List Item) (index : Nat) :
    (dropEnds items)[index]? = if index + 2 < items.length then items[index + 1]? else none := by
  rw [dropEnds, List.getElem?_dropLast, List.length_tail, List.getElem?_tail]
  congr 1
  rw [eq_iff_iff]
  omega

theorem dropEnds_range {Item : Type} (f : Nat → Item) {many : Nat} (most : 3 ≤ many) :
    dropEnds ((List.range many).map f) = (List.range (many - 2)).map fun index => f (index + 1) := by
  apply List.ext_getElem?
  intro index
  rw [getElem?_dropEnds, List.length_map, List.length_range, List.getElem?_map, List.getElem?_map]
  by_cases bound : index + 2 < many
  · rw [if_pos bound, List.getElem?_range (by omega), List.getElem?_range (by omega)]
    rfl
  · rw [if_neg bound, List.getElem?_eq_none (by rw [List.length_range]; omega)]
    rfl

theorem cut_trim (wide : ∀ width ∈ widths, 3 ≤ width) (enough : widths.prod ≤ flat.length)
    {below level : Nat} (levels : level + below + 1 = widths.length) {base : Nat}
    (room : base < stride widths level) :
    cut widths flat false below level base =
      (cut widths flat true below level base).trim below := by
  induction below generalizing level base with
  | zero =>
      have known : level < widths.length := by omega
      have width := width_least wide known
      change Nested.row (row widths flat false level base) =
        (Nested.row (row widths flat true level base)).trim 0
      rw [Nested.trim]
      congr 1
      apply List.ext_getElem?
      intro index
      rw [getElem?_row wide enough levels room, getElem?_dropEnds, length_row wide enough levels room,
        getElem?_row wide enough levels room]
      simp only [count, edge, if_true, Bool.false_eq_true, if_false, Nat.add_zero]
      split_ifs <;> first | rfl | omega
  | succ below induction =>
      have known : level < widths.length := by omega
      have width := width_least wide known
      rw [cut, cut, Nested.trim, dropEnds_range _ (by exact width), List.map_map]
      congr 1
      apply List.map_congr_left
      intro step member
      rw [List.mem_range] at member
      have bound : step + 1 < widths.getD level 0 := by
        simp only [count, Bool.false_eq_true, if_false] at member
        omega
      exact induction (by omega) (base_next known room bound)

end Cut

/-- Bins come out where they were put: with the ends, the bin at `[i][j][k]` is number
`i + width * (j + width * k)` of the flat run, and there is none but these; without, the
first and last along each axis are gone. -/
theorem values_placed (histogram : Histogram Value) (some : ∀ bins ∈ histogram.shape, 1 ≤ bins) :
    (∀ indices, (histogram.values true).entry indices =
      if inside histogram.widths indices then histogram.bins[place histogram.widths indices]?
      else none) ∧
    (∀ indices, inside histogram.widths indices = true →
      place histogram.widths indices < histogram.bins.length) ∧
    histogram.values false = (histogram.values true).trim (histogram.shape.length - 1) := by
  have wide : ∀ width ∈ histogram.widths, 3 ≤ width := by
    intro width member
    obtain ⟨bins, listed, rfl⟩ := List.mem_map.mp member
    have := some bins listed
    omega
  have length : histogram.widths.length = histogram.shape.length := List.length_map _
  have positive : 0 < histogram.shape.length := List.length_pos_of_ne_nil histogram.axes
  have levels : 0 + (histogram.widths.length - 1) + 1 = histogram.widths.length := by omega
  refine ⟨fun indices => ?_, fun indices within => ?_, ?_⟩
  · have entry := cut_entry wide histogram.enough levels Nat.zero_lt_one indices
    rw [List.drop_zero, stride, List.take_zero, List.prod_nil, Nat.one_mul, Nat.zero_add] at entry
    exact entry
  · exact Nat.lt_of_lt_of_le (place_below within) histogram.enough
  · rw [← length]
    exact cut_trim wide histogram.enough levels Nat.zero_lt_one

def numbered : Histogram Nat where
  shape := [2, 1]
  bins := List.range 12
  axes := List.cons_ne_nil _ _
  enough := by decide

theorem numbered_placed :
    (numbered.values true).entry [1, 2] = some 9 ∧
      (numbered.values false).entry [1, 0] = some 6 ∧
      numbered.values false = (numbered.values true).trim 1 := by
  obtain ⟨entries, -, trimmed⟩ := values_placed numbered (by decide)
  refine ⟨?_, rfl, trimmed⟩
  rw [entries]
  rfl

end XRootDClient.Root.Hist
