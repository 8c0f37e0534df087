import Mathlib
import Arborist.File.Read
import Arborist.Proofs.Text.Decoding
import Arborist.Proofs.Text.Lines
import Arborist.Proofs.Text.OneLine

/-!
Lines before and after reading.  If returns stand only before feeds, the lines of the text that is read are
the lines of the bytes, each read by itself.
-/

namespace Arborist

open Text (byteLines feedLines feedLines_append feedLines_of_not_mem unifyNewlines unifyNewlines_cons
  linesWhere_append linesWhere_of_unended line_induction)
open Text.Utf8 (decode decode_append decode_ne_nil mem_of_mem_decode)

/-! Bytes as a list. -/

theorem byteList_loop (bytes : ByteArray) (index : Nat) (before : List UInt8) :
    ByteArray.toList.loop bytes index before = before.reverse ++ bytes.data.toList.drop index := by
  induction index, before using ByteArray.toList.loop.induct bytes with
  | case1 index before inside ih =>
      have below : index < bytes.data.toList.length := by simpa using inside
      have first : bytes.get! index = bytes.data.toList[index] := by
        rw [Array.getElem_toList]
        exact getElem!_pos bytes.data index inside
      rw [ByteArray.toList.loop, if_pos inside, ih, List.drop_eq_getElem_cons below, first, List.reverse_cons,
        List.append_assoc, List.singleton_append]
  | case2 index before outside =>
      have beyond : bytes.data.toList.length ≤ index := by simpa using outside
      rw [ByteArray.toList.loop, if_neg outside, List.drop_eq_nil_of_le beyond, List.append_nil]

theorem byteList_eq (bytes : ByteArray) : bytes.toList = bytes.data.toList := by
  rw [ByteArray.toList, byteList_loop]
  rfl

/-! Returns and feeds. -/

/-- Every carriage return is followed by a line feed. -/
def ReturnsBeforeFeeds : List UInt8 → Prop
  | [] => True
  | byte :: rest => (byte = 13 → rest.head? = some 10) ∧ ReturnsBeforeFeeds rest

def ReturnsBeforeFeeds.decide : (bytes : List UInt8) → Decidable (ReturnsBeforeFeeds bytes)
  | [] => .isTrue trivial
  | byte :: rest =>
    have := decide rest
    inferInstanceAs (Decidable ((byte = 13 → rest.head? = some 10) ∧ ReturnsBeforeFeeds rest))

instance : DecidablePred ReturnsBeforeFeeds := ReturnsBeforeFeeds.decide

namespace ReturnsBeforeFeeds

theorem of_append {front back : List UInt8} (paired : ReturnsBeforeFeeds (front ++ back)) :
    ReturnsBeforeFeeds back := by
  induction front with
  | nil => exact paired
  | cons byte rest ih => exact ih paired.2

theorem not_mem_of_unended {front : List UInt8} (paired : ReturnsBeforeFeeds front)
    (noFeed : ∀ byte ∈ front, (byte == 10) = false) : 13 ∉ front := by
  induction front with
  | nil => exact List.not_mem_nil
  | cons byte rest ih =>
      have onRest := ih paired.2 fun later member => noFeed later (List.mem_cons_of_mem byte member)
      intro member
      rcases List.mem_cons.mp member with isReturn | later
      · have next := List.mem_of_mem_head? (paired.1 isReturn.symm)
        have feed := noFeed 10 (List.mem_cons_of_mem byte next)
        cases feed
      · exact onRest later

theorem exists_body {front back : List UInt8} (paired : ReturnsBeforeFeeds (front ++ 10 :: back))
    (noFeed : ∀ byte ∈ front, (byte == 10) = false) :
    ∃ body, 13 ∉ body ∧ (front = body ∨ front = body ++ [13]) := by
  induction front with
  | nil => exact ⟨[], List.not_mem_nil, .inl rfl⟩
  | cons byte rest ih =>
      have inRest := fun later member => noFeed later (List.mem_cons_of_mem byte member)
      by_cases isReturn : byte = 13
      · have next := paired.1 isReturn
        cases rest with
        | nil => exact ⟨[], List.not_mem_nil, .inr (by rw [isReturn]; rfl)⟩
        | cons second others =>
            have feed := inRest second List.mem_cons_self
            obtain rfl : second = 10 := Option.some.inj next
            cases feed
      · obtain ⟨body, noReturn, shape⟩ := ih paired.2 inRest
        refine ⟨byte :: body, by simp [noReturn, Ne.symm isReturn], ?_⟩
        exact shape.imp (congrArg (byte :: ·)) (congrArg (byte :: ·))

end ReturnsBeforeFeeds

namespace File

theorem unifyNewlines_append {front : List Char} (noReturn : '\r' ∉ front) (back : List Char) :
    unifyNewlines (front ++ back) = front ++ unifyNewlines back := by
  induction front with
  | nil => rfl
  | cons c rest ih =>
      rw [List.mem_cons, not_or] at noReturn
      rw [List.cons_append, unifyNewlines_cons, if_pos (Ne.symm noReturn.1), ih noReturn.2]
      rfl

theorem feed_not_mem_decode {bytes : List UInt8} (noFeed : ∀ byte ∈ bytes, (byte == 10) = false) :
    '\n' ∉ decode bytes := by
  intro member
  have feed := noFeed 10 (@mem_of_mem_decode 10 bytes (by decide) (by decide) member)
  cases feed

theorem return_not_mem_decode {bytes : List UInt8} (noReturn : 13 ∉ bytes) : '\r' ∉ decode bytes :=
  fun member => noReturn (@mem_of_mem_decode 13 bytes (by decide) (by decide) member)

theorem unifyNewlines_of_not_mem {text : List Char} (noReturn : '\r' ∉ text) : unifyNewlines text = text := by
  have whole : unifyNewlines (text ++ []) = text ++ [] := unifyNewlines_append noReturn []
  rwa [List.append_nil] at whole

theorem exists_unifyNewlines_line {front back : List UInt8} (paired : ReturnsBeforeFeeds (front ++ 10 :: back))
    (noFeed : ∀ byte ∈ front, (byte == 10) = false) :
    ∃ text, '\n' ∉ text ∧
      ∀ rest, unifyNewlines (decode front ++ '\n' :: rest) = text ++ '\n' :: unifyNewlines rest := by
  have atFeed : ∀ rest, unifyNewlines ('\n' :: rest) = '\n' :: unifyNewlines rest := by
    intro rest
    rw [unifyNewlines_cons, if_pos (by decide)]
  obtain ⟨body, noReturn, shape⟩ := paired.exists_body noFeed
  have inBody : ∀ byte ∈ body, (byte == 10) = false := by
    intro byte member
    refine noFeed byte ?_
    rcases shape with rfl | rfl
    · exact member
    · exact List.mem_append_left [13] member
  refine ⟨decode body, feed_not_mem_decode inBody, fun rest => ?_⟩
  rcases shape with rfl | rfl
  · rw [unifyNewlines_append (return_not_mem_decode noReturn), atFeed]
  · have ended : decode (body ++ [13]) = decode body ++ ['\r'] := decode_append body (by decide) []
    rw [ended, List.append_assoc, unifyNewlines_append (return_not_mem_decode noReturn), List.singleton_append,
      unifyNewlines_cons, if_neg (by decide), List.head?_cons, if_pos rfl, atFeed]

theorem feedLines_unifyNewlines_decode {bytes : List UInt8} (paired : ReturnsBeforeFeeds bytes) :
    feedLines (unifyNewlines (decode bytes)) = (byteLines bytes).map fun line => unifyNewlines (decode line) := by
  induction bytes using @line_induction UInt8 (· == 10) with
  | nil => rfl
  | unended front nonempty noFeed =>
      have unchanged := unifyNewlines_of_not_mem (return_not_mem_decode (paired.not_mem_of_unended noFeed))
      have oneLine := feedLines_of_not_mem (decode_ne_nil nonempty) (feed_not_mem_decode noFeed)
      have one : byteLines front = [front] := linesWhere_of_unended nonempty noFeed
      rw [one, List.map_singleton, unchanged, oneLine]
  | line front final back noFeed ends ih =>
      obtain rfl : final = 10 := eq_of_beq ends
      obtain ⟨text, noFeedIn, read⟩ := exists_unifyNewlines_line paired noFeed
      have first : unifyNewlines (decode (front ++ [10])) = text ++ ['\n'] := by
        rw [decode_append front (by decide) []]
        exact read []
      have whole : unifyNewlines (decode (front ++ 10 :: back)) =
          text ++ '\n' :: unifyNewlines (decode back) := by
        rw [decode_append front (by decide) back]
        exact read (decode back)
      have parted : byteLines (front ++ 10 :: back) = (front ++ [10]) :: byteLines back :=
        linesWhere_append noFeed ends back
      rw [whole, feedLines_append noFeedIn, ih paired.of_append.2, parted, List.map_cons, first]

theorem length_textLines {bytes : ByteArray} (paired : ReturnsBeforeFeeds bytes.toList) :
    (textLines bytes).length = (byteLines bytes.toList).length := by
  rw [textLines, List.length_map, plainText, feedLines_unifyNewlines_decode paired, List.length_map]

end File

end Arborist
