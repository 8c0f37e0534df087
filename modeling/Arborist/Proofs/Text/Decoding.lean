import Mathlib
import Arborist.Text.Utf8

/-!
Lenient decoding around single-byte characters.  Such a byte always gives its own character: it completes
nothing that has begun, and nothing that follows it depends on what came before.  No other bytes give one of
these characters, well formed or not.
-/

namespace Arborist.Text.Utf8

variable {byte : UInt8} {pending : Option Pending} {bytes : List UInt8}

/-- The bytes that can go on are no single-byte characters, and neither is what they can complete. -/
structure Pending.Sound (pending : Pending) : Prop where
  low_le : 0x80 ≤ pending.low.toNat
  wide : 2 ≤ pending.bits * 64 + (pending.low.toNat - 0x80)
  last : pending.missing ≤ 1 → 0x80 ≤ pending.bits * 64 + (pending.low.toNat - 0x80)

/-- No single-byte character, but for the null, which stands for numbers of no character. -/
def Beyond (c : Char) : Prop := c.toNat = 0 ∨ 0x80 ≤ c.toNat

theorem beyond_replacementChar : Beyond replacementChar := .inr (by decide)

theorem beyond_ofNat {code : Nat} (large : 0x80 ≤ code) : Beyond (Char.ofNat code) := by
  unfold Beyond
  rw [Char.toNat_ofNat]
  split
  · exact .inr large
  · exact .inl rfl

/-! One byte. -/

theorem opening_of_lt (small : byte.toNat < 0x80) :
    opening byte = .whole (Char.ofNat byte.toNat) := by
  rw [opening, if_pos small]

theorem sound_of_last {low high : UInt8} {bits : Nat} (start : 0x80 ≤ low.toNat) (enough : 2 ≤ bits) :
    Pending.Sound ⟨1, low, high, bits⟩ where
  low_le := start
  wide := Nat.le_add_right_of_le (by dsimp only; omega)
  last _ := Nat.le_add_right_of_le (by dsimp only; omega)

theorem sound_of_wide {missing : Nat} {low high : UInt8} {bits : Nat} (more : 2 ≤ missing)
    (start : 0x80 ≤ low.toNat) (wide : 2 ≤ bits * 64 + (low.toNat - 0x80)) :
    Pending.Sound ⟨missing, low, high, bits⟩ where
  low_le := start
  wide := wide
  last few := absurd (more.trans few) (by decide)

theorem opening_of_le (large : 0x80 ≤ byte.toNat) :
    opening byte = .stray ∨ ∃ pending, opening byte = .partly pending ∧ pending.Sound := by
  unfold opening
  dsimp only
  rw [if_neg (by omega)]
  split
  · exact .inl rfl
  split
  · exact .inr ⟨_, rfl, sound_of_last (by decide) (by omega)⟩
  split
  · exact .inr ⟨_, rfl, sound_of_wide (by decide) (by decide) (by decide)⟩
  split
  · exact .inr ⟨_, rfl, sound_of_wide (by decide) (by decide) (by decide)⟩
  split
  · exact .inr ⟨_, rfl, sound_of_wide (by decide) (by decide) (Nat.le_add_right_of_le (by omega))⟩
  split
  · exact .inr ⟨_, rfl, sound_of_wide (by decide) (by decide) (by decide)⟩
  split
  · exact .inr ⟨_, rfl, sound_of_wide (by decide) (by decide) (Nat.le_add_right_of_le (by omega))⟩
  split
  · exact .inr ⟨_, rfl, sound_of_wide (by decide) (by decide) (by decide)⟩
  · exact .inl rfl

def leftover (pending : Option Pending) : List Char := pending.toList.map fun _ => replacementChar

def Begun (pending : Option Pending) : Prop := ∀ begun ∈ pending, begun.Sound

theorem begun_none : Begun none := nofun

theorem beyond_of_mem_leftover {c : Char} (member : c ∈ leftover pending) :
    Beyond c := by
  obtain ⟨_, -, rfl⟩ := List.mem_map.mp member
  exact beyond_replacementChar

theorem open_output (output : List Char) (byte : UInt8) :
    Decoder.open ⟨none, output⟩ byte =
      ⟨(Decoder.open {} byte).pending, (Decoder.open {} byte).output ++ output⟩ := by
  unfold Decoder.open
  cases opening byte <;> rfl

theorem step_of_unfit (unfit : ∀ begun ∈ pending, (begun.low ≤ byte && byte ≤ begun.high) = false)
    (output : List Char) :
    Decoder.step ⟨pending, output⟩ byte = Decoder.open ⟨none, leftover pending ++ output⟩ byte := by
  cases pending with
  | none => rfl
  | some begun =>
      unfold Decoder.step
      simp only [unfit begun rfl]
      rfl

theorem step_output (pending : Option Pending) (output : List Char) (byte : UInt8) :
    Decoder.step ⟨pending, output⟩ byte =
      ⟨(Decoder.step ⟨pending, []⟩ byte).pending, (Decoder.step ⟨pending, []⟩ byte).output ++ output⟩ := by
  by_cases unfit : ∀ begun ∈ pending, (begun.low ≤ byte && byte ≤ begun.high) = false
  · rw [step_of_unfit unfit, step_of_unfit unfit, open_output, open_output (leftover pending ++ [])]
    simp
  · simp only [not_forall, Bool.not_eq_false] at unfit
    obtain ⟨begun, rfl, fits⟩ := unfit
    unfold Decoder.step
    simp only [fits, if_true]
    split <;> rfl

theorem step_of_lt (begun : Begun pending) (small : byte.toNat < 0x80) :
    Decoder.step ⟨pending, []⟩ byte = ⟨none, Char.ofNat byte.toNat :: leftover pending⟩ := by
  have unfit : ∀ first ∈ pending, (first.low ≤ byte && byte ≤ first.high) = false := by
    intro first member
    have low := (begun first member).low_le
    have below : ¬ first.low ≤ byte := by
      rw [UInt8.le_iff_toNat_le]
      omega
    simp [below]
  rw [step_of_unfit unfit, List.append_nil, Decoder.open, opening_of_lt small]

structure Decoder.Aside (decoder : Decoder) : Prop where
  begun : Begun decoder.pending
  beyond : ∀ c ∈ decoder.output, Beyond c
  moved : decoder.pending = none → decoder.output ≠ []

theorem aside_open (large : 0x80 ≤ byte.toNat) : (Decoder.open {} byte).Aside := by
  unfold Decoder.open
  rcases opening_of_le large with stray | ⟨pending, opens, sound⟩
  · rw [stray]
    exact ⟨begun_none, by simpa using beyond_replacementChar, by simp⟩
  · rw [opens]
    refine ⟨?_, by simp, nofun⟩
    rintro _ ⟨⟩
    exact sound

theorem aside_step_of_fit {begun : Pending} (sound : begun.Sound)
    (fits : (begun.low ≤ byte && byte ≤ begun.high) = true) : (Decoder.step ⟨some begun, []⟩ byte).Aside := by
  have low : begun.low.toNat ≤ byte.toNat := by
    rw [Bool.and_eq_true, decide_eq_true_eq] at fits
    exact UInt8.le_iff_toNat_le.mp fits.1
  have bits : begun.bits * 64 + (begun.low.toNat - 0x80) ≤ begun.bits * 64 + (byte.toNat - 0x80) := by omega
  unfold Decoder.step
  simp only [fits, if_true]
  split
  next final =>
    have whole := beyond_ofNat ((sound.last final).trans bits)
    exact ⟨begun_none, by simpa using whole, by simp⟩
  next =>
    -- with one more byte the number is large enough, whatever follows
    have wide := sound.wide.trans bits
    refine ⟨?_, by simp, nofun⟩
    rintro _ ⟨⟩
    refine ⟨by simp, ?_, fun _ => ?_⟩
    · simp only [UInt8.reduceToNat]
      omega
    · simp only [UInt8.reduceToNat]
      omega

theorem aside_step (begun : Begun pending) (large : 0x80 ≤ byte.toNat) : (Decoder.step ⟨pending, []⟩ byte).Aside := by
  by_cases unfit : ∀ first ∈ pending, (first.low ≤ byte && byte ≤ first.high) = false
  · obtain ⟨sound, beyond, moved⟩ := aside_open large
    rw [step_of_unfit unfit, List.append_nil, open_output]
    refine ⟨sound, ?_, fun closed => List.append_ne_nil_of_left_ne_nil (moved closed) _⟩
    intro c member
    rcases List.mem_append.mp member with new | left
    · exact beyond c new
    · exact beyond_of_mem_leftover left
  · simp only [not_forall, Bool.not_eq_false] at unfit
    obtain ⟨first, rfl, fits⟩ := unfit
    exact aside_step_of_fit (begun first rfl) fits

/-! All bytes. -/

def decodeFrom (pending : Option Pending) (bytes : List UInt8) : List Char :=
  (bytes.foldl Decoder.step ⟨pending, []⟩).finish

theorem decodeFrom_nil (pending : Option Pending) : decodeFrom pending [] = leftover pending := by
  cases pending <;> rfl

theorem finish_foldl_step (bytes : List UInt8) (pending : Option Pending) (output : List Char) :
    (bytes.foldl Decoder.step ⟨pending, output⟩).finish = output.reverse ++ decodeFrom pending bytes := by
  induction bytes generalizing pending output with
  | nil =>
      rw [decodeFrom_nil]
      cases pending <;> simp [Decoder.finish, leftover]
  | cons byte rest ih =>
      have own : decodeFrom pending (byte :: rest) = (Decoder.step ⟨pending, []⟩ byte).output.reverse ++
          decodeFrom (Decoder.step ⟨pending, []⟩ byte).pending rest := ih _ _
      rw [List.foldl_cons, step_output, ih, own, List.reverse_append, List.append_assoc]

theorem decodeFrom_cons (pending : Option Pending) (byte : UInt8) (rest : List UInt8) :
    decodeFrom pending (byte :: rest) = (Decoder.step ⟨pending, []⟩ byte).output.reverse ++
      decodeFrom (Decoder.step ⟨pending, []⟩ byte).pending rest := by
  rw [decodeFrom, List.foldl_cons]
  exact finish_foldl_step rest _ _

theorem decodeFrom_cons_of_lt (begun : Begun pending) (small : byte.toNat < 0x80) (rest : List UInt8) :
    decodeFrom pending (byte :: rest) = leftover pending ++ Char.ofNat byte.toNat :: decode rest := by
  have turned : (leftover pending).reverse = leftover pending := by cases pending <;> rfl
  rw [decodeFrom_cons, step_of_lt begun small, List.reverse_cons, turned, List.append_assoc]
  rfl

theorem begun_step (begun : Begun pending) (byte : UInt8) :
    Begun (Decoder.step ⟨pending, []⟩ byte).pending := by
  rcases Nat.lt_or_ge byte.toNat 0x80 with small | large
  · rw [step_of_lt begun small]
    exact begun_none
  · exact (aside_step begun large).begun

theorem decodeFrom_append (begun : Begun pending) (front : List UInt8) (small : byte.toNat < 0x80)
    (back : List UInt8) :
    decodeFrom pending (front ++ byte :: back) =
      decodeFrom pending front ++ Char.ofNat byte.toNat :: decode back := by
  induction front generalizing pending with
  | nil => rw [List.nil_append, decodeFrom_cons_of_lt begun small, decodeFrom_nil]
  | cons first rest ih =>
      rw [List.cons_append, decodeFrom_cons, ih (begun_step begun first), decodeFrom_cons, List.append_assoc]

/-- A single-byte character parts the text around it. -/
theorem decode_append (front : List UInt8) (small : byte.toNat < 0x80) (back : List UInt8) :
    decode (front ++ byte :: back) = decode front ++ Char.ofNat byte.toNat :: decode back :=
  decodeFrom_append begun_none front small back

theorem beyond_or_mem_of_mem_decodeFrom (begun : Begun pending) {c : Char} (member : c ∈ decodeFrom pending bytes) :
    Beyond c ∨ ∃ byte ∈ bytes, c = Char.ofNat byte.toNat := by
  induction bytes generalizing pending with
  | nil =>
      rw [decodeFrom_nil] at member
      exact .inl (beyond_of_mem_leftover member)
  | cons byte rest ih =>
      rw [decodeFrom_cons, List.mem_append, List.mem_reverse] at member
      rcases member with here | later
      · rcases Nat.lt_or_ge byte.toNat 0x80 with small | large
        · rw [step_of_lt begun small] at here
          rcases List.mem_cons.mp here with same | left
          · exact .inr ⟨byte, List.mem_cons_self, same⟩
          · exact .inl (beyond_of_mem_leftover left)
        · exact .inl ((aside_step begun large).beyond c here)
      · refine (ih (begun_step begun byte) later).imp_right ?_
        rintro ⟨other, among, same⟩
        exact ⟨other, List.mem_cons_of_mem byte among, same⟩

/-- No bytes but its own give a single-byte character. -/
theorem mem_of_mem_decode (small : byte.toNat < 0x80) (positive : byte ≠ 0)
    (member : Char.ofNat byte.toNat ∈ decode bytes) : byte ∈ bytes := by
  have code : ∀ other : UInt8, (Char.ofNat other.toNat).toNat = other.toNat := by
    intro other
    have bound := other.toNat_lt
    rw [Char.toNat_ofNat, if_pos (.inl (by omega))]
  rcases beyond_or_mem_of_mem_decodeFrom begun_none member with beyond | ⟨other, among, same⟩
  · unfold Beyond at beyond
    rw [code] at beyond
    rcases beyond with null | large
    · exact absurd (UInt8.toNat_inj.mp null) positive
    · omega
  · have codes := congrArg Char.toNat same
    rw [code, code] at codes
    rwa [UInt8.toNat_inj.mp codes]

theorem decodeFrom_ne_nil (begun : Begun pending) (something : pending ≠ none ∨ bytes ≠ []) :
    decodeFrom pending bytes ≠ [] := by
  induction bytes generalizing pending with
  | nil =>
      rw [decodeFrom_nil]
      cases pending with
      | none => simp at something
      | some first => exact List.cons_ne_nil _ _
  | cons byte rest ih =>
      rw [decodeFrom_cons]
      rcases Nat.lt_or_ge byte.toNat 0x80 with small | large
      · rw [step_of_lt begun small]
        simp
      · have aside := aside_step begun large
        by_cases closed : (Decoder.step ⟨pending, []⟩ byte).pending = none
        · have moved := aside.moved closed
          exact List.append_ne_nil_of_left_ne_nil (by simpa using moved) _
        · exact List.append_ne_nil_of_right_ne_nil _ (ih aside.begun (.inl closed))

theorem decode_ne_nil (nonempty : bytes ≠ []) : decode bytes ≠ [] :=
  decodeFrom_ne_nil begun_none (.inr nonempty)

end Arborist.Text.Utf8
