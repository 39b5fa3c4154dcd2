import XRootDClient.Root.Rows

/-!
# A file being written

`WritableFile.write` and `WritableFile.tree`. A call checks its name, its object and its
title before it marks the file: the classes it needs and the cycle it was given. What can
still go wrong behind the mark is the record of an object and the columns of a tree, and
a call that ends there has left the mark.

What an object is written as is a given function, and so is what it says its title is.
-/

set_option autoImplicit false

namespace XRootDClient.Root.Writer

open Lib Lib.BigEndian Compression Rows

inductive ObjectError
  | unsupportedFeatureError (message : String)
  | structError
  | raised (message : String)

structure Objects (Object : Type) where
  /-- `_payload`: the class, the bytes and the layouts they need. -/
  payload : Object → Except ObjectError (Text × Bytes × List Text)
  /-- The title of a histogram or a graph; nothing is the title of the others. -/
  title : Object → Except ObjectError Text

inductive FileError
  | closed
  /-- `_checked`: not a `str`, or too long for its length byte. -/
  | unchecked (what : Text)
  | unnamed
  | slash (name : Text)
  | semicolon (name : Text)
  | object (error : ObjectError)
  | unwritten (error : WriteError)
  | undeclared (error : TreeError)

structure WritableFile where
  records : Records
  cycles : Dict Text Nat
  used : Dict Text Unit
  trees : List Tree
  closed : Bool

/-- `WritableFile.__init__`, where the file calls itself by a label. -/
def fresh (algorithm : Option Algorithm) (level : Option Int) (datime : Nat) (label : Text) :
    WritableFile :=
  let keylen := 34 + label.encodeUtf8.length
  let nname := keylen + 2 + label.encodeUtf8.length
  { records :=
      { algorithm
        level := match algorithm, level with
          | some algorithm, none => some algorithm.level
          | _, _ => level
        datime
        data := List.replicate (begin_ + nname + 60) 0
        keys := [] }
    cycles := ∅
    used := ∅
    trees := []
    closed := false }

/-- `_checked`. -/
def checkedText (text : Option Text) (what : Text) : Except FileError Text :=
  match checked text what with
  | .ok text => .ok text
  | .error _ => .error (.unchecked what)

def textOf : Value → Option Text
  | .text text => some text
  | _ => none

inductive Call (Object : Type)
  | write (name : Option Text) (object : Object) (title : Value)
  | tree (name : Option Text) (columns : Option (List (Option Text × Spec))) (title : Value)
      (basketSize : Value)

def Call.setItem {Object : Type} (name : Option Text) (object : Object) : Call Object :=
  .write name object .none

namespace WritableFile

def checkName (file : WritableFile) (name : Option Text) : Except FileError Text :=
  if file.closed then .error .closed
  else do
    let name ← checkedText name (str "name")
    if name = [] then .error .unnamed
    else if '/' ∈ name then .error (.slash name)
    else if ';' ∈ name then .error (.semicolon name)
    else .ok name

def nextCycle (file : WritableFile) (name : Text) : Nat := file.cycles.getD name 0 + 1

section Calls

variable {Object : Type} (objects : Objects Object)

def titleOf (object : Object) : Value → Except FileError Text
  | .none =>
      match objects.title object with
      | .ok title => checkedText (some title) (str "title")
      | .error error => .error (.object error)
  | title => checkedText (textOf title) (str "title")

structure Accepted where
  name : Text
  classname : Text
  payload : Bytes
  used : List Text
  title : Text

def accept (file : WritableFile) (name : Option Text) (object : Object) (title : Value) :
    Except FileError Accepted := do
  let name ← file.checkName name
  match objects.payload object with
  | .error error => .error (.object error)
  | .ok (classname, payload, used) =>
      let title ← titleOf objects object title
      return { name, classname, payload, used, title }

def record (file : WritableFile) (accepted : Accepted) : Record where
  classname := accepted.classname
  name := accepted.name
  title := accepted.title
  payload := accepted.payload
  cycle := file.nextCycle accepted.name
  listed := true

def write (codecs : Codecs) (file : WritableFile) (name : Option Text) (object : Object)
    (title : Value) : WritableFile × Option FileError :=
  match file.accept objects name object title with
  | .error error => (file, some error)
  | .ok accepted =>
      let marked := { file with
        used := file.used.update (accepted.used.map fun used => (used, ()))
        cycles := file.cycles.set accepted.name (file.nextCycle accepted.name) }
      match marked.records.put codecs (file.record accepted) with
      | .error error => (marked, some (.unwritten error))
      | .ok (records, _, _) => ({ marked with records }, none)

/-- `title or ""`. -/
def treeTitle (title : Value) : Option Text :=
  if title.scalar.truthy then textOf title else some []

def acceptTree (file : WritableFile) (name : Option Text) (title : Value) :
    Except FileError (Text × Text) := do
  let name ← file.checkName name
  let title ← checkedText (treeTitle title) (str "title")
  return (name, title)

def classes (tree : Tree) : List Text :=
  str "TTree" :: str "TBranch" :: tree.columns.map fun column => column.typecode.classname

def tree (wide : Bool) (file : WritableFile) (name : Option Text)
    (columns : Option (List (Option Text × Spec))) (title basketSize : Value) :
    WritableFile × Option FileError :=
  match file.acceptTree name title with
  | .error error => (file, some error)
  | .ok (name, title) =>
      let cycle := file.nextCycle name
      let marked := { file with cycles := file.cycles.set name cycle }
      match Tree.create wide name title columns basketSize cycle with
      | .error error => (marked, some (.undeclared error))
      | .ok tree =>
          ({ marked with
              trees := marked.trees ++ [tree]
              used := marked.used.update ((classes tree).map fun used => (used, ())) }, none)

def call (codecs : Codecs) (wide : Bool) (file : WritableFile) :
    Call Object → WritableFile × Option FileError
  | .write name object title => file.write objects codecs name object title
  | .tree name columns title basketSize => file.tree wide name columns title basketSize

end Calls

end WritableFile

section Returns

variable {Error Value Other : Type}

def Returns (result : Except Error Value) : Prop := ∃ value, result = .ok value

theorem returns_ok (value : Value) : Returns (.ok value : Except Error Value) := ⟨value, rfl⟩

theorem returns_pure (value : Value) : Returns (pure value : Except Error Value) ↔ True :=
  iff_true_intro (returns_ok value)

theorem not_returns (error : Error) : ¬Returns (.error error : Except Error Value) := by
  rintro ⟨value, same⟩
  cases same

theorem returns_bind (first : Except Error Value) (rest : Value → Except Error Other) :
    Returns (first >>= rest) ↔ ∃ value, first = .ok value ∧ Returns (rest value) := by
  cases first with
  | ok value =>
      constructor
      · exact fun returned => ⟨value, rfl, returned⟩
      · rintro ⟨other, same, returned⟩
        cases same
        exact returned
  | error error =>
      constructor
      · exact fun returned => absurd returned (not_returns error)
      · rintro ⟨value, same, -⟩
        cases same

theorem returns_bind_iff {first : Except Error Value} {rest : Value → Except Error Other}
    {Rest : Prop} (after : ∀ value, Returns (rest value) ↔ Rest) :
    Returns (first >>= rest) ↔ Returns first ∧ Rest := by
  simp only [returns_bind, after, exists_and_right]
  rfl

end Returns

theorem number_returns (size : Nat) (signed : Bool) (value : Int) :
    Returns (WBuffer.number size signed value) ↔ Struct.Fits size signed value := by
  unfold WBuffer.number Struct.packWhole
  split_ifs with fits
  · exact iff_of_true (returns_ok _) fits
  · exact iff_of_false (not_returns _) fits

theorem string_returns {text : Text} (short : text.encodeUtf8.length < 2 ^ 15) :
    Returns (WBuffer.string text) := by
  unfold WBuffer.string
  dsimp only
  split_ifs with long
  · rw [returns_bind_iff fun mark => returns_bind_iff fun length => returns_pure _,
      WBuffer.u8, WBuffer.i32, number_returns, number_returns]
    simp only [Struct.Fits, and_true]
    omega
  · rw [returns_bind_iff fun length => returns_pure _, WBuffer.u8, number_returns]
    simp only [Struct.Fits, and_true]
    omega

structure Holds (records : Records) (record : Record) (stored : Bytes) : Prop where
  whole : record.keylen + stored.length < 2 ^ 31
  payload : record.payload.length < 2 ^ 31
  datime : records.datime < 2 ^ 32
  keylen : record.keylen < 2 ^ 15
  cycle : -2 ^ 15 ≤ record.cycle ∧ record.cycle < 2 ^ 15

theorem key_returns {records : Records} {record : Record} {stored : Bytes}
    (room : records.data.length ≤ big) :
    Returns (records.key record stored) ↔ Holds records record stored := by
  unfold Records.key
  rw [returns_bind_iff fun _ => returns_bind_iff fun _ => returns_bind_iff fun _ =>
    returns_bind_iff fun _ => returns_bind_iff fun _ => returns_bind_iff fun _ =>
    returns_bind_iff fun _ => returns_bind_iff fun _ => returns_bind_iff fun _ =>
    returns_bind_iff fun _ => returns_bind_iff fun _ => returns_pure _]
  simp only [WBuffer.i32, WBuffer.u16, WBuffer.u32, WBuffer.i16, number_returns, Struct.Fits,
    keyVersion, begin_, big] at room ⊢
  constructor
  · rintro ⟨whole, -, payload, datime, keylen, cycle, -⟩
    exact ⟨by omega, by omega, by omega, by omega, by omega⟩
  · rintro ⟨whole, payload, datime, short, cycle⟩
    have lengths := short
    simp only [Record.keylen, keylen] at lengths
    refine ⟨by omega, by omega, by omega, by omega, by omega, by omega, by omega, by omega, ?_⟩
    exact ⟨string_returns (by omega), string_returns (by omega), string_returns (by omega), trivial⟩

/-- A record that a file can take: there is room in front of it, its payload can be
compressed, and its lengths and its cycle fit the fields of its key. -/
def Takes (codecs : Codecs) (records : Records) (record : Record) : Prop :=
  records.data.length ≤ big ∧
    ∃ stored, records.stored codecs record = .ok stored ∧ Holds records record stored

theorem put_returns (codecs : Codecs) (records : Records) (record : Record) :
    Returns (records.put codecs record) ↔ Takes codecs records record := by
  unfold Records.put Takes
  dsimp only
  by_cases room : records.data.length ≤ big
  · rw [if_neg (Nat.not_lt.mpr room)]
    simp only [room, true_and]
    rw [returns_bind]
    simp only [returns_bind_iff fun _ => returns_pure _, key_returns room, and_true]
  · rw [if_pos (Nat.lt_of_not_le room)]
    exact iff_of_false (not_returns _) fun taken => room taken.1

def Declarable (wide : Bool) (declared : Option Text × Spec) : Prop :=
  ∃ name, declared.1 = some name ∧ name.encodeUtf8.length ≤ 254 ∧ name ≠ [] ∧
    (∀ bad ∈ forbidden, bad ∉ name) ∧ Returns (typecode wide name declared.2)

def Columned (wide : Bool) (columns : Option (List (Option Text × Spec))) (basketSize : Value) :
    Prop :=
  (basketBytes basketSize).isSome = true ∧ ∃ declared, columns = some declared ∧ declared ≠ [] ∧
    ∀ column ∈ declared, Declarable wide column

theorem checked_returns (text : Option Text) (what : Text) :
    Returns (checked text what) ↔ ∃ name, text = some name ∧ name.encodeUtf8.length ≤ 254 := by
  unfold checked
  cases text with
  | none => exact iff_of_false (not_returns _) (by simp)
  | some text =>
      dsimp only
      split_ifs with long
      · exact iff_of_false (not_returns _) (by simpa using long)
      · exact iff_of_true (returns_ok _) ⟨text, rfl, by omega⟩

theorem checked_same {text : Option Text} {what name : Text} (made : checked text what = .ok name) :
    text = some name := by
  unfold checked at made
  split at made
  · cases made
  · split_ifs at made
    cases made
    rfl

theorem declare_returns (wide : Bool) (size : Nat) (given : List (Option Text × Spec)) :
    Returns (declare_ wide size given) ↔ ∀ column ∈ given, Declarable wide column := by
  induction given with
  | nil => exact iff_of_true (returns_ok _) (by simp)
  | cons first rest induction =>
      obtain ⟨column, spec⟩ := first
      rw [List.forall_mem_cons, ← induction, declare_, returns_bind]
      constructor
      · rintro ⟨name, made, later⟩
        obtain ⟨text, same, short⟩ := (checked_returns column _).mp ⟨name, made⟩
        cases checked_same made
        cases same
        dsimp only at later
        split_ifs at later with bad
        · exact absurd later (not_returns _)
        · rw [not_or] at bad
          rw [returns_bind_iff fun _ => returns_bind_iff fun _ => returns_pure _, and_true] at later
          exact ⟨⟨name, rfl, short, bad.1, fun mark inside => not_and.mp (not_exists.mp bad.2 mark) inside,
            later.1⟩, later.2⟩
      · rintro ⟨⟨name, same, short, full, clean, typed⟩, others⟩
        cases same
        obtain ⟨text, made⟩ := (checked_returns (some name) (str "column name")).mpr ⟨name, rfl, short⟩
        cases checked_same made
        refine ⟨name, made, ?_⟩
        dsimp only
        rw [if_neg (by
          rintro (empty | ⟨mark, inside, held⟩)
          · exact full empty
          · exact clean mark inside held)]
        rw [returns_bind_iff fun _ => returns_bind_iff fun _ => returns_pure _, and_true]
        exact ⟨typed, others⟩

theorem create_returns (wide : Bool) (name title : Text)
    (columns : Option (List (Option Text × Spec))) (basketSize : Value) (cycle : Int) :
    Returns (Tree.create wide name title columns basketSize cycle) ↔
      Columned wide columns basketSize := by
  unfold Tree.create Columned
  match columns with
  | none => exact iff_of_false (not_returns _) (by simp)
  | some [] => exact iff_of_false (not_returns _) (by simp)
  | some (first :: rest) =>
      dsimp only
      cases basketBytes basketSize with
      | none => exact iff_of_false (not_returns _) (by simp)
      | some size =>
          dsimp only
          rw [returns_bind_iff fun _ => returns_pure _, declare_returns, and_true]
          constructor
          · exact fun declared => ⟨rfl, _, rfl, List.cons_ne_nil _ _, declared⟩
          · rintro ⟨-, declared, same, -, each⟩
            cases same
            exact each

section Marks

variable {Object : Type} (objects : Objects Object) (codecs : Codecs) (wide : Bool)

def Unmarked (file : WritableFile) : Call Object → Prop
  | .write name object title => ∀ accepted, file.accept objects name object title = .ok accepted →
      Takes codecs file.records (file.record accepted)
  | .tree name columns title basketSize =>
      Returns (file.acceptTree name title) → Columned wide columns basketSize

theorem cycles_moved (file : WritableFile) (name : Text) :
    file.cycles.set name (file.nextCycle name) ≠ file.cycles := by
  intro same
  have next : (file.cycles.set name (file.nextCycle name)).get? name = some (file.nextCycle name) := by
    simp
  rw [same] at next
  have more : file.nextCycle name = file.nextCycle name + 1 := by
    conv => lhs; rw [WritableFile.nextCycle, Dict.getD, next]
    rfl
  omega

theorem write_unmarked_iff (file : WritableFile) (name : Option Text) (object : Object)
    (title : Value) :
    ((file.write objects codecs name object title).2.isSome = true →
        (file.write objects codecs name object title).1 = file) ↔
      Unmarked objects codecs wide file (.write name object title) := by
  rw [Unmarked, WritableFile.write]
  cases accepts : file.accept objects name object title with
  | error error => simp
  | ok accepted =>
      dsimp only
      simp only [Except.ok.injEq, forall_eq', ← put_returns]
      cases put : file.records.put codecs (file.record accepted) with
      | ok result => exact iff_of_true (by simp) (returns_ok _)
      | error error =>
          refine iff_of_false ?_ (not_returns _)
          intro kept
          exact cycles_moved file accepted.name (congrArg WritableFile.cycles (kept rfl))

theorem tree_unmarked_iff (file : WritableFile) (name : Option Text)
    (columns : Option (List (Option Text × Spec))) (title basketSize : Value) :
    ((file.tree wide name columns title basketSize).2.isSome = true →
        (file.tree wide name columns title basketSize).1 = file) ↔
      Unmarked objects codecs wide file (.tree name columns title basketSize) := by
  rw [Unmarked, WritableFile.tree]
  cases accepts : file.acceptTree name title with
  | error error => exact iff_of_true (fun _ => rfl) fun returned => absurd returned (not_returns _)
  | ok accepted =>
      obtain ⟨name, title⟩ := accepted
      dsimp only
      rw [← create_returns wide name title columns basketSize (file.nextCycle name)]
      cases created : Tree.create wide name title columns basketSize (file.nextCycle name) with
      | ok tree => exact iff_of_true (by simp) fun _ => returns_ok _
      | error error =>
          refine iff_of_false ?_ fun returns => not_returns _ (returns (returns_ok _))
          intro kept
          exact cycles_moved file name (congrArg WritableFile.cycles (kept rfl))

/-- A call in a run: the file in front of it and behind it, and what it raised. -/
structure Step (Object : Type) where
  before : WritableFile
  made : Call Object
  after : WritableFile
  raised : Option FileError

def run (file : WritableFile) : List (Call Object) → List (Step Object)
  | [] => []
  | made :: rest =>
      let (after, raised) := file.call objects codecs wide made
      ⟨file, made, after, raised⟩ :: run after rest

def Step.Clean (step : Step Object) : Prop := step.raised.isSome = true → step.after = step.before

theorem step_clean_iff (file : WritableFile) (made : Call Object) :
    Step.Clean ⟨file, made, (file.call objects codecs wide made).1,
        (file.call objects codecs wide made).2⟩ ↔ Unmarked objects codecs wide file made := by
  cases made with
  | write name object title => exact write_unmarked_iff objects codecs wide file name object title
  | tree name columns title basketSize =>
      exact tree_unmarked_iff objects codecs wide file name columns title basketSize

theorem run_clean_iff (file : WritableFile) (calls : List (Call Object)) :
    (∀ step ∈ run objects codecs wide file calls, step.Clean) ↔
      ∀ step ∈ run objects codecs wide file calls,
        Unmarked objects codecs wide step.before step.made := by
  induction calls generalizing file with
  | nil => simp [run]
  | cons made rest induction =>
      rw [run, List.forall_mem_cons, List.forall_mem_cons]
      exact and_congr (step_clean_iff objects codecs wide file made) (induction _)

def finished (file : WritableFile) (calls : List (Call Object)) : WritableFile :=
  calls.foldl (fun file made => (file.call objects codecs wide made).1) file

def taken (file : WritableFile) (calls : List (Call Object)) : List (Call Object) :=
  ((run objects codecs wide file calls).filter fun step => step.raised.isNone).map Step.made

theorem finished_taken {file : WritableFile} {calls : List (Call Object)}
    (clean : ∀ step ∈ run objects codecs wide file calls, step.Clean) :
    finished objects codecs wide file (taken objects codecs wide file calls) =
      finished objects codecs wide file calls := by
  induction calls generalizing file with
  | nil => rfl
  | cons made rest induction =>
      rw [run, List.forall_mem_cons] at clean
      have later := induction clean.2
      unfold taken
      rw [run]
      cases raised : (file.call objects codecs wide made).2 with
      | none =>
          rw [List.filter_cons_of_pos (by simp [raised])]
          exact later
      | some error =>
          have same : (file.call objects codecs wide made).1 = file := clean.1 (by simp [raised])
          rw [List.filter_cons_of_neg (by simp [raised])]
          rw [same] at later
          refine Eq.trans ?_ (later.trans ?_)
          · rw [same]
            rfl
          · rw [finished, finished, List.foldl_cons, same]

/-- Calls that raise leave no mark: the file is as it was behind each, and it ends as if
they had never been made. -/
def NoMark (file : WritableFile) (calls : List (Call Object)) : Prop :=
  (∀ step ∈ run objects codecs wide file calls, step.Clean) ∧
    finished objects codecs wide file (taken objects codecs wide file calls) =
      finished objects codecs wide file calls

/-- In a run on a new file the calls that raise leave no mark exactly where every object
that is accepted has a record the file takes, and every tree that is accepted has columns
and a basket size a tree can have. -/
theorem no_mark_iff (algorithm : Option Algorithm) (level : Option Int) (datime : Nat) (label : Text)
    (calls : List (Call Object)) :
    NoMark objects codecs wide (fresh algorithm level datime label) calls ↔
      ∀ step ∈ run objects codecs wide (fresh algorithm level datime label) calls,
        Unmarked objects codecs wide step.before step.made := by
  rw [← run_clean_iff]
  exact ⟨And.left, fun clean => ⟨clean, finished_taken objects codecs wide clean⟩⟩

end Marks

def texts : Objects Text where
  payload text :=
    match WBuffer.string text with
    | .ok written => .ok (str "string", written, [])
    | .error _ => .error .structError
  title _ := .ok []

/-- A tree of no columns is refused with its cycle taken. -/
theorem empty_tree_marks :
    ¬NoMark texts rootCodecs true (fresh none none 0 (str "out.root"))
      [.tree (some (str "t")) (some []) .none (.int 32000)] := by
  rintro ⟨clean, -⟩
  rw [run_clean_iff] at clean
  have columned := clean _ List.mem_cons_self ⟨_, rfl⟩
  obtain ⟨-, declared, same, some, -⟩ := columned
  cases same
  exact some rfl

end XRootDClient.Root.Writer
