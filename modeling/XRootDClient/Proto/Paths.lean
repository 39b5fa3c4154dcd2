import Mathlib.Data.List.TakeWhile
import XRootDClient.Lib.Posix
import XRootDClient.Proto.Checkpoint

/-!
# Requests of two paths

`kXR_mv` and the two vendor requests framed like it put both paths in the payload, one
blank between them, and the length of the first in the parameters. The length counts
bytes; the server cuts the text it decodes from them, which is counted in characters.
-/

set_option autoImplicit false

namespace XRootDClient.Proto

open Lib Lib.BigEndian Lib.Posix

namespace Request

def twoPath (typeName : Text) (opcode : Nat) (src dst : Text) : Request where
  typeName := typeName
  opcode := opcode
  params := do
    return Writer.zeros 14 ++ (← Writer.u16 (Text.encodeUtf8 src).length)
  payload := .ok (Text.encodeUtf8 (src ++ ' ' :: dst))

/-- `kXR_mv`. -/
def Mv (src dst : Text) : Request := twoPath (str "Mv") kXR_mv src dst

def Symlink (src dst : Text) : Request := twoPath (str "Symlink") kXR_symlink src dst

def Link (src dst : Text) : Request := twoPath (str "Link") kXR_link src dst

end Request

inductive Relation
  | mv
  | symlink
  | link

def Relation.request : Relation → Text → Text → Request
  | mv => Request.Mv
  | symlink => Request.Symlink
  | link => Request.Link

/-- `_clean`: a path without its CGI, normalised from the root. -/
def clean (path : Text) : Text :=
  let base := (Text.partition '?' path).1
  if base = [] then [slash] else normpath (slash :: lstrip base)

/-- `data.decode()`, which raises where the bytes are not UTF-8. -/
def decodeStrict (bytes : Bytes) : Option Text := bytes.toByteArray.utf8Decode?.map Array.toList

def twoPaths (params body : Bytes) : Option (Text × Text) := do
  let split := decode ((params.drop 14).take 2)
  let text ← decodeStrict (body.takeWhile (· ≠ 0))
  return (clean (text.take split), clean (text.drop (split + 1)))

/-- A path that can be sent: no NUL in it, and a length that fits its field. -/
structure Sendable (path : Text) : Prop where
  bare : Char.ofNat 0 ∉ path
  short : (Text.encodeUtf8 path).length < 2 ^ 16

/-- The request is framed, and the server cuts it into the two paths. -/
def Split (relation : Relation) (src dst : Text) (streamid : Nat) : Prop :=
  ∃ frame taken, encode (relation.request src dst) streamid = .ok frame ∧
    takeRequest (fun _ => none) frame = some (taken, []) ∧
    twoPaths taken.params taken.data = some (clean src, clean dst)

section Cut

variable {relation : Relation} {src dst : Text} {streamid : Nat}

theorem decode_strict_encode (text : Text) : decodeStrict (Text.encodeUtf8 text) = some text := by
  have decoded : (Text.encodeUtf8 text).toByteArray.utf8Decode? = some text.toArray :=
    List.utf8Decode?_utf8Encode
  rw [decodeStrict, decoded]
  rfl

theorem encode_append (first second : Text) :
    Text.encodeUtf8 (first ++ second) = Text.encodeUtf8 first ++ Text.encodeUtf8 second :=
  List.flatMap_append

theorem two_path_taken (relation : Relation) (streamid : Nat) (source : Sendable src)
    (target : Sendable dst) :
    ∃ frame opcode, encode (relation.request src dst) streamid = .ok frame ∧
      takeRequest (fun _ => none) frame = some (⟨opcode,
        Writer.zeros 14 ++ BigEndian.encode 2 (Text.encodeUtf8 src).length,
        Text.encodeUtf8 (src ++ ' ' :: dst)⟩, []) := by
  have field : Writer.u16 (Text.encodeUtf8 src).length =
      .ok (BigEndian.encode 2 (Text.encodeUtf8 src).length) := if_pos source.short
  have size : (Text.encodeUtf8 (src ++ ' ' :: dst)).length ≤ 2 ^ 17 := by
    have first := source.short
    have second := target.short
    have blank : (Text.encodeUtf8 (' ' :: dst)).length = 1 + (Text.encodeUtf8 dst).length := by
      rw [show ' ' :: dst = [' '] ++ dst from rfl, encode_append, List.length_append]
      rfl
    rw [encode_append, List.length_append, blank]
    omega
  have block : (relation.request src dst).params =
      .ok (Writer.zeros 14 ++ BigEndian.encode 2 (Text.encodeUtf8 src).length) := by
    cases relation <;>
      (simp only [Relation.request, Request.Mv, Request.Symlink, Request.Link, Request.twoPath,
        field]; rfl)
  have payload : (relation.request src dst).payload =
      .ok (Text.encodeUtf8 (src ++ ' ' :: dst)) := by
    cases relation <;> rfl
  have nothing : (relation.request src dst).pathData = [] ∧
      (relation.request src dst).trailer = [] := by
    cases relation <;> exact ⟨rfl, rfl⟩
  have code : (relation.request src dst).opcode < 0x10000 ∧
      dataPath (relation.request src dst).opcode = fun _ => 0 := by
    cases relation with
    | mv => exact ⟨(by decide : kXR_mv < 0x10000), rfl⟩
    | symlink => exact ⟨(by decide : kXR_symlink < 0x10000), rfl⟩
    | link => exact ⟨(by decide : kXR_link < 0x10000), rfl⟩
  have sixteen : (Writer.zeros 14 ++
      BigEndian.encode 2 (Text.encodeUtf8 src).length).length = 16 := by
    simp [Writer.zeros]
  have short : (Text.encodeUtf8 (src ++ ' ' :: dst)).length < 256 ^ 4 :=
    lt_of_le_of_lt size (by decide)
  obtain ⟨frame, encoded⟩ := encode_writes (relation.request src dst) streamid block sixteen payload
    (by rw [nothing.1]; exact le_trans size (by decide)) code.1
  refine ⟨frame, (relation.request src dst).opcode, encoded, ?_⟩
  obtain ⟨params, body, same, _, alike, _, _, layout⟩ := encode_headed encoded
  rw [block] at same
  cases same
  rw [payload] at alike
  cases alike
  rw [layout, nothing.1, nothing.2, List.append_nil, List.length_nil, Nat.add_zero,
    take_header _ sixteen code.1 short]
  simp only [List.take_length, List.drop_length]

theorem two_paths_read (source : Sendable src) (target : Sendable dst) :
    twoPaths (Writer.zeros 14 ++ BigEndian.encode 2 (Text.encodeUtf8 src).length)
        (Text.encodeUtf8 (src ++ ' ' :: dst)) =
      some (clean ((src ++ ' ' :: dst).take (Text.encodeUtf8 src).length),
        clean ((src ++ ' ' :: dst).drop ((Text.encodeUtf8 src).length + 1))) := by
  have field : ((Writer.zeros 14 ++ BigEndian.encode 2 (Text.encodeUtf8 src).length).drop 14).take
      2 = BigEndian.encode 2 (Text.encodeUtf8 src).length := by
    rw [List.drop_left' (by simp [Writer.zeros]), List.take_of_length_le (by simp)]
  have bare : Char.ofNat 0 ∉ src ++ ' ' :: dst := by
    rw [List.mem_append, List.mem_cons, not_or, not_or]
    exact ⟨source.bare, by decide, target.bare⟩
  have whole : (Text.encodeUtf8 (src ++ ' ' :: dst)).takeWhile (· ≠ 0) =
      Text.encodeUtf8 (src ++ ' ' :: dst) := by
    apply List.takeWhile_eq_self_iff.mpr
    intro byte member
    apply decide_eq_true
    intro zero
    exact Text.encode_no_nul bare (zero ▸ member)
  rw [twoPaths, field, whole, decode_strict_encode, decode_encode source.short]
  rfl

theorem clean_name {name : Text} (proper : Proper name) (plain : '?' ∉ name) :
    clean name = slash :: name := by
  have base : (Text.partition '?' name).1 = name := by
    have cut := Text.partition_append plain []
    rw [List.append_nil] at cut
    rw [cut]
    exact List.append_nil name
  have front : lstrip name = name := by
    cases name with
    | nil => rfl
    | cons char rest =>
        apply List.dropWhile_cons_of_neg
        intro first
        exact proper.single (of_decide_eq_true first ▸ List.mem_cons_self)
  have alone : render [slash] [name] = slash :: name := by
    rw [render, List.intercalate_singleton]
    rfl
  unfold clean
  dsimp only
  rw [base, if_neg proper.some, front, ← alone]
  exact normpath_render (.inl rfl) fun other member => List.mem_singleton.mp member ▸ proper

/-- A target that is cut in the middle where the cut comes `late` characters late. -/
def cutTarget (late : Nat) : Text := List.replicate late 'a' ++ ['b']

theorem mem_cut_target {late : Nat} {char : Char} (member : char ∈ cutTarget late) :
    char = 'a' ∨ char = 'b' := by
  rcases List.mem_append.mp member with early | last
  · exact .inl (List.eq_of_mem_replicate early)
  · exact .inr (List.mem_singleton.mp last)

theorem clean_cut_target (late : Nat) : clean (cutTarget late) = slash :: cutTarget late := by
  apply clean_name
  · have last : 'b' ∈ cutTarget late := List.mem_append_right _ List.mem_cons_self
    constructor
    · exact List.ne_nil_of_mem last
    · intro member
      rcases mem_cut_target member with same | same <;> exact absurd same (by decide)
    · intro same
      rw [same] at last
      exact absurd last (by decide)
    · intro same
      rw [same] at last
      exact absurd last (by decide)
  · intro member
    rcases mem_cut_target member with same | same <;> exact absurd same (by decide)

theorem cut_target_length (late : Nat) : (Text.encodeUtf8 (cutTarget late)).length = late + 1 := by
  have single : ∀ char ∈ cutTarget late, char.toNat < 0x80 := by
    intro char member
    rcases mem_cut_target member with rfl | rfl <;> decide
  rw [(Text.encode_length_iff _).mpr single]
  simp [cutTarget]

theorem cut_target_sendable {late : Nat} (short : late + 1 < 2 ^ 16) :
    Sendable (cutTarget late) := by
  constructor
  · intro member
    rcases mem_cut_target member with same | same <;> exact absurd same (by decide)
  · rw [cut_target_length]
    exact short

/-- The frame of two paths is cut into them, whatever the second one is, exactly where the
first one is written with one byte for each character. -/
theorem two_paths_iff (relation : Relation) (streamid : Nat) {src : Text}
    (source : Sendable src) :
    (∀ dst, Sendable dst → Split relation src dst streamid) ↔ ∀ char ∈ src, char.toNat < 0x80 := by
  rw [← Text.encode_length_iff]
  constructor
  · intro splits
    by_contra longer
    have more := Text.encode_length_le src
    have short := source.short
    obtain ⟨late, apart⟩ : ∃ late, (Text.encodeUtf8 src).length = src.length + (late + 1) :=
      ⟨(Text.encodeUtf8 src).length - src.length - 1, by omega⟩
    have target : Sendable (cutTarget (late + 1)) := by
      apply cut_target_sendable
      cases src with
      | nil => exact absurd rfl longer
      | cons char rest =>
          rw [apart, List.length_cons] at short
          omega
    obtain ⟨frame, taken, encoded, read, cut⟩ := splits (cutTarget (late + 1)) target
    obtain ⟨same, opcode, again, held⟩ := two_path_taken relation streamid source target
    rw [encoded] at again
    cases again
    rw [read] at held
    cases held
    rw [two_paths_read source target] at cut
    have second := congrArg Prod.snd (Option.some.inj cut)
    have left : (src ++ ' ' :: cutTarget (late + 1)).drop ((Text.encodeUtf8 src).length + 1) =
        cutTarget 0 := by
      have place : (Text.encodeUtf8 src).length + 1 = src.length + (late + 1 + 1) := by omega
      rw [place, ← List.drop_drop, List.drop_left, List.drop_succ_cons, cutTarget,
        List.drop_left' List.length_replicate]
      rfl
    dsimp only at second
    rw [left, clean_cut_target, clean_cut_target] at second
    have lengths := congrArg List.length (List.cons.inj second).2
    simp [cutTarget] at lengths
  · intro single dst target
    obtain ⟨frame, opcode, encoded, read⟩ := two_path_taken relation streamid source target
    refine ⟨frame, _, encoded, read, ?_⟩
    rw [two_paths_read source target, single, List.take_left, ← List.drop_drop, List.drop_left]
    rfl

end Cut

theorem ascii_split : Split .mv (str "/a b") (str "/é") 3 := by
  have plain : ((str "/a b").all fun char => decide (char.toNat < 0x80)) = true := by decide
  apply (two_paths_iff .mv 3 _).mpr
  · exact fun char member => of_decide_eq_true (List.all_eq_true.mp plain char member)
  · constructor
    · decide
    · decide +kernel
  · constructor
    · decide
    · decide +kernel

/-- A first path of one character and two bytes takes the blank with it, and the second
path loses its first character. -/
theorem accent_split_late :
    (∃ frame taken, encode (Request.Mv (str "é") (str "ab")) 3 = .ok frame ∧
      takeRequest (fun _ => none) frame = some (taken, []) ∧
      twoPaths taken.params taken.data = some (str "/é ", str "/b")) ∧
    ¬∀ src dst, Sendable src → Sendable dst → ∀ relation streamid, Split relation src dst streamid := by
  have source : Sendable (str "é") := ⟨by decide, by decide +kernel⟩
  have target : Sendable (str "ab") := ⟨by decide, by decide +kernel⟩
  obtain ⟨frame, opcode, encoded, read⟩ := two_path_taken .mv 3 source target
  have cut := two_paths_read source target
  have cleaned : (clean ((str "é" ++ ' ' :: str "ab").take (Text.encodeUtf8 (str "é")).length),
      clean ((str "é" ++ ' ' :: str "ab").drop ((Text.encodeUtf8 (str "é")).length + 1))) =
      (str "/é ", str "/b") := by decide +kernel
  rw [cleaned] at cut
  constructor
  · exact ⟨frame, _, encoded, read, cut⟩
  · intro all
    obtain ⟨other, taken, again, held, split⟩ := all _ _ source target .mv 3
    rw [encoded] at again
    cases again
    rw [read] at held
    cases held
    rw [cut] at split
    exact absurd (Option.some.inj split) (by decide +kernel)

end XRootDClient.Proto
