import XRootDClient.Proto.Cursor

/-!
# A cursor with more received

A cursor that holds a frame takes the same frame when it holds more. A cursor
that waits finds, with more received, what it would find had it stood where it
waited. The one length that does not bear being cut is a negative one.
-/

set_option autoImplicit false

namespace XRootDClient.Proto

open Lib Lib.BigEndian

namespace Framer

def extend (more : Bytes) (framer : Framer) : Framer :=
  { framer with buffer := framer.buffer ++ more }

/-- The cursor is not about to take all but so many bytes of what it holds, or
it holds no more than those, whatever else comes of this length. -/
def Steady (more : Bytes) (framer : Framer) : Prop :=
  0 ≤ framer.needTrailer ∨ framer.buffer.length + more.length ≤ (-framer.needTrailer).toNat

theorem extend_extend (framer : Framer) (first second : Bytes) :
    (framer.extend first).extend second = framer.extend (first ++ second) := by
  simp [extend]

theorem take_body_extend_frame {framer left : Framer} {header read : ResponseHeader} {body : Bytes}
    (more : Bytes) (takes : framer.takeBody header = .frame read body left) :
    (framer.extend more).takeBody header = .frame read body (left.extend more) := by
  unfold takeBody at takes ⊢
  split at takes
  · cases takes
  next received =>
  cases takes
  have long := Nat.le_of_not_lt received
  rw [if_neg (by simp only [extend, List.length_append]; omega)]
  simp only [extend, List.take_append_of_le_length long, List.drop_append_of_le_length long]

theorem take_body_waits {framer left : Framer} {header : ResponseHeader}
    (waits : framer.takeBody header = .waits left) : left = framer := by
  unfold takeBody at waits
  split at waits
  · cases waits
    rfl
  · cases waits

theorem take_body_not_raises {framer : Framer} {header : ResponseHeader} {error : Exception} :
    framer.takeBody header ≠ .raises error := by
  unfold takeBody
  split <;> simp

theorem take_body_not_trailer {framer left : Framer} {header : ResponseHeader} {sid : Option Nat}
    {data : Bytes} : framer.takeBody header ≠ .trailer sid data left := by
  unfold takeBody
  split <;> simp

/-- What a cursor finds next, by where it stands. -/
inductive Stand (framer : Framer) : Turn → Prop
  | collecting (due : framer.needTrailer ≠ 0)
      (short : (framer.buffer.length : Int) < framer.needTrailer) : Stand framer (.waits framer)
  | collected (due : framer.needTrailer ≠ 0)
      (received : ¬(framer.buffer.length : Int) < framer.needTrailer) :
      Stand framer (.trailer framer.trailerFor (sliceTo framer.buffer framer.needTrailer)
        { framer with
          buffer := sliceFrom framer.buffer framer.needTrailer
          needTrailer := 0
          trailerFor := none })
  | inside (header : ResponseHeader) (idle : framer.needTrailer = 0)
      (opened : framer.header = some header) : Stand framer (framer.takeBody header)
  | outside (idle : framer.needTrailer = 0) (fresh : framer.header = none)
      (short : framer.buffer.length < RESPONSE_HDRLEN) : Stand framer (.waits framer)
  | refused (error : Exception) (idle : framer.needTrailer = 0) (fresh : framer.header = none)
      (received : ¬framer.buffer.length < RESPONSE_HDRLEN)
      (unread : decodeHeader (framer.buffer.take RESPONSE_HDRLEN) = .error error) :
      Stand framer (.raises error)
  | opening (header : ResponseHeader) (idle : framer.needTrailer = 0)
      (fresh : framer.header = none) (received : ¬framer.buffer.length < RESPONSE_HDRLEN)
      (read : decodeHeader (framer.buffer.take RESPONSE_HDRLEN) = .ok header) :
      Stand framer (takeBody { framer with
        header := some header, buffer := framer.buffer.drop RESPONSE_HDRLEN } header)

theorem next_stand (framer : Framer) : Stand framer framer.next := by
  unfold next
  by_cases due : framer.needTrailer ≠ 0
  · rw [if_pos due]
    by_cases short : (framer.buffer.length : Int) < framer.needTrailer
    · rw [if_pos short]
      exact .collecting due short
    · rw [if_neg short]
      exact .collected due short
  · rw [if_neg due]
    have idle : framer.needTrailer = 0 := not_not.mp due
    cases opened : framer.header with
    | some header => exact .inside header idle opened
    | none =>
        dsimp only
        by_cases short : framer.buffer.length < RESPONSE_HDRLEN
        · rw [if_pos short]
          exact .outside idle opened short
        · rw [if_neg short]
          cases read : decodeHeader (framer.buffer.take RESPONSE_HDRLEN) with
          | error error => exact .refused error idle opened short read
          | ok header => exact .opening header idle opened short read

theorem next_inside (framer : Framer) {header : ResponseHeader} (idle : framer.needTrailer = 0)
    (opened : framer.header = some header) : framer.next = framer.takeBody header := by
  simp [next, idle, opened]

theorem next_opening (framer : Framer) {header : ResponseHeader} (idle : framer.needTrailer = 0)
    (fresh : framer.header = none) (received : ¬framer.buffer.length < RESPONSE_HDRLEN)
    (read : decodeHeader (framer.buffer.take RESPONSE_HDRLEN) = .ok header) :
    framer.next = takeBody { framer with
      header := some header, buffer := framer.buffer.drop RESPONSE_HDRLEN } header := by
  simp [next, idle, fresh, received, read]

section Extend

variable {framer : Framer} (more : Bytes)

theorem header_extend (received : ¬framer.buffer.length < RESPONSE_HDRLEN) :
    ¬(framer.extend more).buffer.length < RESPONSE_HDRLEN ∧
      (framer.extend more).buffer.take RESPONSE_HDRLEN = framer.buffer.take RESPONSE_HDRLEN ∧
      (framer.extend more).buffer.drop RESPONSE_HDRLEN =
        framer.buffer.drop RESPONSE_HDRLEN ++ more := by
  have long := Nat.le_of_not_lt received
  refine ⟨?_, List.take_append_of_le_length long, List.drop_append_of_le_length long⟩
  simp only [extend, List.length_append]
  omega

theorem next_extend_raises {error : Exception} (raises : framer.next = .raises error) :
    (framer.extend more).next = .raises error := by
  have stand := framer.next_stand
  generalize framer.next = turn at stand raises
  cases stand with
  | collecting | collected | outside => cases raises
  | inside | opening => exact absurd raises take_body_not_raises
  | refused _ idle fresh received unread =>
      cases raises
      obtain ⟨still, same, -⟩ := header_extend more received
      rw [← same] at unread
      simp [next, show (framer.extend more).needTrailer = 0 from idle,
        show (framer.extend more).header = none from fresh, still, unread]

theorem next_extend_frame {header : ResponseHeader} {body : Bytes} {left : Framer}
    (takes : framer.next = .frame header body left) :
    (framer.extend more).next = .frame header body (left.extend more) := by
  have stand := framer.next_stand
  generalize framer.next = turn at stand takes
  cases stand with
  | collecting | collected | outside | refused => cases takes
  | inside read idle opened =>
      rw [next_inside (framer.extend more) idle opened]
      exact take_body_extend_frame more takes
  | opening read idle fresh received decoded =>
      obtain ⟨still, same, rest⟩ := header_extend more received
      rw [← same] at decoded
      rw [next_opening (framer.extend more) idle fresh still decoded, rest]
      exact take_body_extend_frame more takes

/-- A cursor that waits finds with more received what it would find from where it
waits. -/
theorem next_extend_waits {left : Framer} (waits : framer.next = .waits left) :
    (framer.extend more).next = (left.extend more).next := by
  have stand := framer.next_stand
  generalize framer.next = turn at stand waits
  cases stand with
  | collecting | outside =>
      cases waits
      rfl
  | collected | refused => cases waits
  | inside header idle opened => rw [take_body_waits waits]
  | opening header idle fresh received decoded =>
      obtain ⟨still, same, rest⟩ := header_extend more received
      rw [← same] at decoded
      rw [next_opening (framer.extend more) idle fresh still decoded, rest,
        take_body_waits waits]
      exact (next_inside (Framer.extend more { framer with
        header := some header, buffer := framer.buffer.drop RESPONSE_HDRLEN }) idle rfl).symm

theorem raises_unmoved {left : Framer} {error : Exception} (waits : framer.next = .waits left)
    (raises : (left.extend more).next = .raises error) : left = framer := by
  have stand := framer.next_stand
  generalize framer.next = turn at stand waits
  cases stand with
  | collecting | outside =>
      cases waits
      rfl
  | collected | refused => cases waits
  | inside header idle opened => exact take_body_waits waits
  | opening header idle fresh received decoded =>
      rw [take_body_waits waits, next_inside (Framer.extend more { framer with
        header := some header, buffer := framer.buffer.drop RESPONSE_HDRLEN }) idle rfl] at raises
      exact absurd raises take_body_not_raises

theorem next_extend_trailer {sid : Option Nat} {data : Bytes} {left : Framer}
    (steady : framer.Steady more) (takes : framer.next = .trailer sid data left) :
    (framer.extend more).next = .trailer sid data (left.extend more) := by
  have stand := framer.next_stand
  generalize framer.next = turn at stand takes
  cases stand with
  | collecting | outside | refused => cases takes
  | inside | opening => exact absurd takes take_body_not_trailer
  | collected due received =>
      cases takes
      have still : ¬((framer.extend more).buffer.length : Int) < (framer.extend more).needTrailer := by
        simp only [extend, List.length_append]
        omega
      rw [next, if_pos (show (framer.extend more).needTrailer ≠ 0 from due), if_neg still]
      simp only [extend, sliceTo, sliceFrom, List.length_append]
      rcases steady with positive | short
      · have long : framer.needTrailer.toNat ≤ framer.buffer.length := by omega
        simp only [if_pos positive, List.take_append_of_le_length long,
          List.drop_append_of_le_length long]
      · have negative : ¬0 ≤ framer.needTrailer := by omega
        have none : framer.buffer.length + more.length - (-framer.needTrailer).toNat = 0 := by omega
        have fewer : framer.buffer.length - (-framer.needTrailer).toNat = 0 := by omega
        simp only [if_neg negative, none, fewer, List.take_zero, List.drop_zero]

end Extend

theorem take_body_left {framer left : Framer} {header read : ResponseHeader} {body : Bytes}
    (takes : framer.takeBody header = .frame read body left) :
    left.buffer.length + header.dlen = framer.buffer.length ∧ left.header = none ∧
      left.needTrailer = framer.needTrailer := by
  unfold takeBody at takes
  split at takes
  · cases takes
  next received =>
  cases takes
  refine ⟨?_, rfl, rfl⟩
  simp only [List.length_drop]
  omega

/-- A frame leaves the buffer without its body, and without its header unless
that had been read before. -/
theorem frame_left {framer left : Framer} {header : ResponseHeader} {body : Bytes}
    (takes : framer.next = .frame header body left) :
    framer.needTrailer = 0 ∧ left.header = none ∧ left.needTrailer = 0 ∧
      left.buffer.length ≤ framer.buffer.length ∧
      (framer.header = none → left.buffer.length + RESPONSE_HDRLEN ≤ framer.buffer.length) ∧
      ∀ read, framer.header = some read →
        left.buffer.length + read.dlen = framer.buffer.length := by
  have stand := framer.next_stand
  generalize framer.next = turn at stand takes
  cases stand with
  | collecting | collected | outside | refused => cases takes
  | inside read idle opened =>
      obtain ⟨length, fresh, none⟩ := take_body_left takes
      refine ⟨idle, fresh, none.trans idle, by omega, by simp [opened], ?_⟩
      intro other same
      rw [opened, Option.some.injEq] at same
      rw [← same]
      exact length
  | opening read idle fresh received decoded =>
      obtain ⟨length, closed, none⟩ := take_body_left takes
      simp only [List.length_drop] at length
      exact ⟨idle, closed, none.trans idle, by omega, fun _ => by omega, by simp [fresh]⟩

theorem trailer_left {framer left : Framer} {sid : Option Nat} {data : Bytes}
    (takes : framer.next = .trailer sid data left) :
    framer.needTrailer ≠ 0 ∧ framer.needTrailer ≤ framer.buffer.length ∧ left.needTrailer = 0 ∧
      left.header = framer.header ∧ left.buffer.length ≤ framer.buffer.length ∧ sid = framer.trailerFor ∧
      data = sliceTo framer.buffer framer.needTrailer ∧
      left.buffer = sliceFrom framer.buffer framer.needTrailer := by
  have stand := framer.next_stand
  generalize framer.next = turn at stand takes
  cases stand with
  | collecting | outside | refused => cases takes
  | inside | opening => exact absurd takes take_body_not_trailer
  | collected due received =>
      cases takes
      refine ⟨due, Int.not_lt.mp received, rfl, rfl, ?_, rfl, rfl, rfl⟩
      simp only [sliceFrom]
      split_ifs <;> simp

theorem waits_late {framer left after : Framer} {more : Bytes} (waits : framer.next = .waits left)
    (gone : (∃ header body, (framer.extend more).next = .frame header body after) ∨
      ∃ sid data, (framer.extend more).next = .trailer sid data after) :
    after.buffer.length < more.length := by
  rw [next_extend_waits more waits] at gone
  have stand := framer.next_stand
  generalize framer.next = turn at stand waits
  cases stand with
  | collected | refused => cases waits
  | collecting due short =>
      cases waits
      rcases gone with ⟨header, body, takes⟩ | ⟨sid, data, takes⟩
      · exact absurd (frame_left takes).1 due
      · obtain ⟨-, received, -, -, -, -, -, rest⟩ := trailer_left takes
        have positive : 0 ≤ (framer.extend more).needTrailer := by
          simp only [extend]
          omega
        rw [rest, sliceFrom, if_pos positive]
        simp only [extend, List.length_drop, List.length_append] at received ⊢
        omega
  | outside idle fresh short =>
      cases waits
      rcases gone with ⟨header, body, takes⟩ | ⟨sid, data, takes⟩
      · have length := (frame_left takes).2.2.2.2.1 fresh
        simp only [extend, List.length_append] at length
        omega
      · exact absurd idle (trailer_left takes).1
  | inside header idle opened =>
      have short : framer.buffer.length < header.dlen := by
        unfold takeBody at waits
        split at waits
        · assumption
        · cases waits
      rw [take_body_waits waits] at gone
      rcases gone with ⟨read, body, takes⟩ | ⟨sid, data, takes⟩
      · have length := (frame_left takes).2.2.2.2.2 header opened
        simp only [extend, List.length_append] at length
        omega
      · exact absurd idle (trailer_left takes).1
  | opening header idle fresh received decoded =>
      have short : (framer.buffer.drop RESPONSE_HDRLEN).length < header.dlen := by
        unfold takeBody at waits
        split at waits
        · assumption
        · cases waits
      rw [take_body_waits waits] at gone
      rcases gone with ⟨read, body, takes⟩ | ⟨sid, data, takes⟩
      · have length := (frame_left takes).2.2.2.2.2 header rfl
        simp only [extend, List.length_append] at length
        omega
      · exact absurd idle (trailer_left takes).1

def distance (framer : Framer) : Nat :=
  2 * framer.buffer.length + (if framer.header.isSome then 2 else 0) +
    (if framer.needTrailer = 0 then 0 else 1)

theorem waits_distance {framer left : Framer} (more : Bytes) (waits : framer.next = .waits left) :
    (left.extend more).distance ≤ (framer.extend more).distance := by
  have stand := framer.next_stand
  generalize framer.next = turn at stand waits
  cases stand with
  | collecting | outside =>
      cases waits
      exact Nat.le_refl _
  | collected | refused => cases waits
  | inside header idle opened => rw [take_body_waits waits]
  | opening header idle fresh received decoded =>
      rw [take_body_waits waits]
      simp only [RESPONSE_HDRLEN] at received
      simp only [distance, extend, idle, fresh, if_true, Option.isSome_some, Option.isSome_none,
        Bool.false_eq_true, if_false, List.length_append, List.length_drop, RESPONSE_HDRLEN]
      omega

theorem trailer_closer {framer left : Framer} {sid : Option Nat} {data : Bytes}
    (takes : framer.next = .trailer sid data left) : left.distance < framer.distance := by
  obtain ⟨due, -, none, same, shorter, -, -, -⟩ := trailer_left takes
  simp only [distance, same, none, if_neg due, if_true]
  omega

theorem frame_closer {framer left : Framer} {header : ResponseHeader} {body : Bytes}
    (takes : framer.next = .frame header body left) : left.distance + 1 < framer.distance := by
  obtain ⟨idle, closed, none, shorter, fresh, opened⟩ := frame_left takes
  simp only [distance, closed, none, idle, if_true, Option.isSome_none, Bool.false_eq_true,
    if_false]
  cases held : framer.header with
  | none =>
      have length := fresh held
      simp only [RESPONSE_HDRLEN] at length
      simp
      omega
  | some read => simp; omega

end Framer

end XRootDClient.Proto
