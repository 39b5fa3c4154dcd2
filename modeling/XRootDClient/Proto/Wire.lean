import XRootDClient.Proto.Boundaries
import XRootDClient.Proto.Framing

/-!
# Frames on their way

A frame the server has sent on a link, with the request it is an answer to. What
is in a link's buffer and what is still on its way are together the frames the
link has yet to take, the first of them perhaps in part; a turn takes from the
front of these, and from nowhere else.
-/

set_option autoImplicit false

namespace XRootDClient.Proto

open Lib Lib.BigEndian

/-- A frame sent on a link. The tag is the number of the submission it answers;
a notice answers none. -/
structure Sent where
  link : Nat
  tag : Option Nat
  frame : ServerFrame

def Sent.bytes (sent : Sent) : Bytes := sent.frame.bytes

/-- These frames are still to be taken off a link: the rest of the first may be
all that is left of it. -/
inductive Reads (wire : Bytes) : List Sent → Framer → Prop
  | between {rest : List Sent} (framer : Framer) (fresh : framer.header = none)
      (idle : framer.needTrailer = 0)
      (bytes : framer.buffer ++ wire = rest.flatMap Sent.bytes) : Reads wire rest framer
  | inside {sent : Sent} {rest : List Sent} (framer : Framer)
      (opened : framer.header = some sent.frame.header) (idle : framer.needTrailer = 0)
      (bytes : framer.buffer ++ wire =
        sent.frame.body ++ (sent.frame.data ++ rest.flatMap Sent.bytes)) :
      Reads wire (sent :: rest) framer
  | behind {sent : Sent} {rest : List Sent} (framer : Framer) (fresh : framer.header = none)
      (due : framer.needTrailer = sent.frame.data.length) (some : sent.frame.data ≠ [])
      (bytes : framer.buffer ++ wire = sent.frame.data ++ rest.flatMap Sent.bytes) :
      Reads wire (sent :: rest) framer

/-- What a turn finds on a link that has these frames to take. -/
inductive Takes (wire : Bytes) (framer : Framer) : List Sent → Turn → Prop
  | waits {rest : List Sent} {left : Framer} (reads : Reads wire rest left)
      (due : left.needTrailer = framer.needTrailer)
      (owner : left.trailerFor = framer.trailerFor) : Takes wire framer rest (.waits left)
  | raises {rest : List Sent} {error : Exception} : Takes wire framer rest (.raises error)
  | frame {sent : Sent} {rest : List Sent} {left : Framer} (fresh : left.header = none)
      (idle : left.needTrailer = 0)
      (bytes : left.buffer ++ wire = sent.frame.data ++ rest.flatMap Sent.bytes) :
      Takes wire framer (sent :: rest) (.frame sent.frame.header sent.frame.body left)
  | trailer {sent : Sent} {rest : List Sent} {left : Framer} {owner : Option Nat}
      (due : framer.needTrailer ≠ 0) (held : framer.trailerFor = owner)
      (fresh : left.header = none) (idle : left.needTrailer = 0)
      (bytes : left.buffer ++ wire = rest.flatMap Sent.bytes) :
      Takes wire framer (sent :: rest) (.trailer owner sent.frame.data left)

namespace Reads

variable {wire : Bytes} {rest : List Sent} {framer : Framer}

theorem sends (reads : Reads wire rest framer) (sent : Sent) :
    Reads (wire ++ sent.bytes) (rest ++ [sent]) framer := by
  cases reads with
  | between _ fresh idle bytes =>
      refine .between framer fresh idle ?_
      rw [← List.append_assoc, bytes, List.flatMap_append, List.flatMap_singleton]
  | @inside _ rest _ opened idle bytes =>
      refine .inside framer opened idle ?_
      rw [← List.append_assoc, bytes, show (rest.append [sent]) = rest ++ [sent] from rfl,
        List.flatMap_append, List.flatMap_singleton]
      simp only [List.append_assoc]
  | @behind _ rest _ fresh due some bytes =>
      refine .behind framer fresh due some ?_
      rw [← List.append_assoc, bytes, show (rest.append [sent]) = rest ++ [sent] from rfl,
        List.flatMap_append, List.flatMap_singleton]
      simp only [List.append_assoc]

theorem arrives {data : Bytes} (reads : Reads (data ++ wire) rest framer) :
    Reads wire rest { framer with buffer := framer.buffer ++ data } := by
  cases reads with
  | between _ fresh idle bytes =>
      exact .between _ fresh idle (by rw [← bytes, List.append_assoc])
  | inside _ opened idle bytes =>
      exact .inside _ opened idle (by rw [← bytes, List.append_assoc])
  | behind _ fresh due some bytes =>
      exact .behind _ fresh due some (by rw [← bytes, List.append_assoc])

theorem take_body {sent : Sent} {left : Framer} (opened : left.header = some sent.frame.header)
    (idle : left.needTrailer = 0) (due : left.needTrailer = framer.needTrailer)
    (owner : left.trailerFor = framer.trailerFor)
    (bytes : left.buffer ++ wire =
      sent.frame.body ++ (sent.frame.data ++ rest.flatMap Sent.bytes)) :
    Takes wire framer (sent :: rest) (left.takeBody sent.frame.header) := by
  by_cases short : left.buffer.length < sent.frame.header.dlen
  · rw [Framer.takeBody, if_pos short]
    exact .waits (.inside left opened idle bytes) due owner
  · have received : sent.frame.body.length ≤ left.buffer.length := by
      rw [← sent.frame.dlen]
      exact Nat.le_of_not_lt short
    obtain ⟨body, behind⟩ := front_received bytes received
    rw [Framer.takeBody, if_neg short, sent.frame.dlen, body]
    exact .frame rfl idle behind

theorem next (reads : Reads wire rest framer) : Takes wire framer rest framer.next := by
  cases reads with
  | between _ fresh idle bytes =>
      by_cases received : RESPONSE_HDRLEN ≤ framer.buffer.length
      · cases rest with
        | nil =>
            have empty : framer.buffer = [] := (List.append_eq_nil_iff.mp bytes).1
            rw [empty] at received
            cases received
        | cons sent rest =>
            have whole : framer.buffer ++ wire =
                (sent.frame :: rest.map Sent.frame).flatMap ServerFrame.bytes := by
              rw [bytes, List.flatMap_cons, List.flatMap_cons, List.flatMap_map]
              rfl
            rcases Machine.header_received fresh idle received whole with
              ⟨-, error, raises⟩ | ⟨-, next, behind⟩
            · rw [raises]
              exact .raises
            · rw [next]
              refine take_body rfl idle rfl rfl ?_
              rw [behind, List.flatMap_map]
              rfl
      · have waits : framer.next = .waits framer := by
          simp [Framer.next, idle, fresh, Nat.lt_of_not_le received]
        rw [waits]
        exact .waits (.between framer fresh idle bytes) rfl rfl
  | inside _ opened idle bytes =>
      rw [Framer.next_inside framer idle opened]
      exact take_body opened idle rfl rfl bytes
  | @behind sent rest _ fresh due some bytes =>
      have nonzero : framer.needTrailer ≠ 0 := by
        rw [due]
        simpa using some
      by_cases short : framer.buffer.length < sent.frame.data.length
      · have waits : framer.next = .waits framer := by
          rw [Framer.next, if_pos nonzero, if_pos (by rw [due]; exact_mod_cast short)]
        rw [waits]
        exact .waits (.behind framer fresh due some bytes) rfl rfl
      · obtain ⟨data, left⟩ := front_received bytes (Nat.le_of_not_lt short)
        have takes : framer.next = .trailer framer.trailerFor sent.frame.data { framer with
            buffer := framer.buffer.drop sent.frame.data.length, needTrailer := 0
            trailerFor := none } := by
          rw [Framer.next, if_pos nonzero, if_neg (by rw [due]; exact_mod_cast short), due]
          simp [sliceTo, sliceFrom, data]
        rw [takes]
        exact .trailer nonzero rfl fresh rfl left

end Reads

end XRootDClient.Proto
