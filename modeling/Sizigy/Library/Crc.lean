import Mathlib.Logic.Function.Iterate
import Mathlib.Tactic.Ring

/-! Reflected cyclic redundancy checks of any width. The register takes in the bits of a message
one by one, lowest first. Shifting is linear, so a whole word of bits can be taken in at once with
a table of what shifting does to each word. -/
namespace Crc

variable {w : Nat}

/-- The register with one more bit of the message taken in. -/
def feed (poly r : BitVec w) (bit : Bool) : BitVec w :=
  (r >>> 1) ^^^ if r.getLsbD 0 ^^ bit then poly else 0

def register (poly init : BitVec w) (message : List Bool) : BitVec w := message.foldl (feed poly) init

/-- The lowest `n` bits of a number, lowest first. -/
def bits : Nat → Nat → List Bool
  | 0, _ => []
  | n + 1, word => word.testBit 0 :: bits n (word / 2)

def shift (poly r : BitVec w) : BitVec w := feed poly r false

theorem shift_xor (poly a b : BitVec w) : shift poly (a ^^^ b) = shift poly a ^^^ shift poly b := by
  have both (p q : Bool) : (if p ^^ q then poly else 0) = (if p then poly else 0) ^^^ if q then poly else 0 := by
    cases p <;> cases q <;> simp
  simp only [shift,feed,Bool.xor_false,BitVec.getLsbD_xor,BitVec.ushiftRight_xor_distrib,both]
  ac_rfl

theorem shifts_xor (poly a b : BitVec w) (n : Nat) :
    (shift poly)^[n] (a ^^^ b) = (shift poly)^[n] a ^^^ (shift poly)^[n] b := by
  induction n generalizing a b with
  | zero => rfl
  | succ n ih => simp only [Function.iterate_succ_apply,shift_xor,ih]

/-- Zeros at the low end move out and leave no trace. -/
theorem shifts_zeros (poly r : BitVec w) (n : Nat) (zeros : ∀ i < n, r.getLsbD i = false) :
    (shift poly)^[n] r = r >>> n := by
  induction n generalizing r with
  | zero => simp
  | succ n ih =>
    have first : shift poly r = r >>> 1 := by simp [shift,feed,zeros 0 (Nat.succ_pos n)]
    have rest : ∀ i < n, (r >>> 1).getLsbD i = false := by
      intro i less
      simpa [Nat.add_comm] using zeros (i + 1) (Nat.succ_lt_succ less)
    rw [Function.iterate_succ_apply,first,ih _ rest,← BitVec.shiftRight_add,Nat.add_comm]

theorem low_xor_high (r : BitVec w) (n : Nat) :
    BitVec.ofNat w (r.toNat % 2 ^ n) ^^^ (r >>> n <<< n) = r := by
  apply BitVec.eq_of_getLsbD_eq
  intro i inside
  simp only [BitVec.getLsbD_xor,BitVec.getLsbD_ofNat,Nat.testBit_mod_two_pow,BitVec.getLsbD_shiftLeft,
    BitVec.getLsbD_ushiftRight,BitVec.testBit_toNat]
  by_cases low : i < n
  · simp [low,inside]
  · simp [low,inside,Nat.not_lt.mp low]

/-- Shifting a word out leaves what shifting does to the word, on top of what stood above it. -/
theorem shifts_split (poly r : BitVec w) (n : Nat) :
    (shift poly)^[n] r = (shift poly)^[n] (BitVec.ofNat w (r.toNat % 2 ^ n)) ^^^ (r >>> n) := by
  have high : (shift poly)^[n] (r >>> n <<< n) = r >>> n := by
    rw [shifts_zeros poly _ n fun i less => by simp [less]]
    apply BitVec.eq_of_getLsbD_eq
    intro i _
    simp only [BitVec.getLsbD_shiftLeft,BitVec.getLsbD_ushiftRight]
    by_cases room : n + i < w
    · simp [room]
    · simp [room,BitVec.getLsbD_of_ge r (n + i) (Nat.not_lt.mp room)]
  calc (shift poly)^[n] r
    _ = (shift poly)^[n] (BitVec.ofNat w (r.toNat % 2 ^ n) ^^^ (r >>> n <<< n)) := by rw [low_xor_high]
    _ = (shift poly)^[n] (BitVec.ofNat w (r.toNat % 2 ^ n)) ^^^ (r >>> n) := by rw [shifts_xor,high]

theorem word_ushiftRight (small : word < 2 ^ w) (n : Nat) :
    BitVec.ofNat w word >>> n = BitVec.ofNat w (word / 2 ^ n) := by
  have smaller : word / 2 ^ n < 2 ^ w := Nat.lt_of_le_of_lt (Nat.div_le_self word _) small
  apply BitVec.eq_of_toNat_eq
  rw [BitVec.toNat_ushiftRight,BitVec.toNat_ofNat,BitVec.toNat_ofNat,Nat.mod_eq_of_lt small,
    Nat.mod_eq_of_lt smaller,Nat.shiftRight_eq_div_pow]

theorem feed_xor (poly r : BitVec w) (positive : 0 < w) (small : word < 2 ^ w) :
    feed poly r (word.testBit 0) ^^^ BitVec.ofNat w (word / 2) = shift poly (r ^^^ BitVec.ofNat w word) := by
  have half : BitVec.ofNat w word >>> 1 = BitVec.ofNat w (word / 2) := word_ushiftRight small 1
  have lowest : (r ^^^ BitVec.ofNat w word).getLsbD 0 = (r.getLsbD 0 ^^ word.testBit 0) := by
    rw [BitVec.getLsbD_xor,BitVec.getLsbD_ofNat,decide_eq_true positive,Bool.true_and]
  simp only [shift,feed,lowest,Bool.xor_false,BitVec.ushiftRight_xor_distrib,half]
  ac_rfl

/-- Taking in a word bit by bit is adding it to the register and shifting it out. -/
theorem register_bits (poly r : BitVec w) (fits : n ≤ w) (small : word < 2 ^ n) :
    register poly r (bits n word) = (shift poly)^[n] (r ^^^ BitVec.ofNat w word) := by
  induction n generalizing r word with
  | zero =>
    obtain rfl : word = 0 := by simpa using small
    simp [register,bits]
  | succ n ih =>
    have half : word / 2 < 2 ^ n := by omega
    have inside : word < 2 ^ w := Nat.lt_of_lt_of_le small (Nat.pow_le_pow_right Nat.two_pos fits)
    calc register poly r (bits (n + 1) word)
      _ = register poly (feed poly r (word.testBit 0)) (bits n (word / 2)) := rfl
      _ = (shift poly)^[n] (feed poly r (word.testBit 0) ^^^ BitVec.ofNat w (word / 2)) := ih _ (by omega) half
      _ = (shift poly)^[n + 1] (r ^^^ BitVec.ofNat w word) := by
        rw [feed_xor poly r (by omega) inside,Function.iterate_succ_apply]

/-- Taking in a word at once: what shifting does to the low word of the sum, on top of the rest of
the register. -/
theorem register_word (poly r : BitVec w) (fits : n ≤ w) (small : word < 2 ^ n) :
    register poly r (bits n word) =
      (shift poly)^[n] (BitVec.ofNat w ((r ^^^ BitVec.ofNat w word).toNat % 2 ^ n)) ^^^ (r >>> n) := by
  have inside : word < 2 ^ w := Nat.lt_of_lt_of_le small (Nat.pow_le_pow_right Nat.two_pos fits)
  have gone : BitVec.ofNat w word >>> n = 0#w := by rw [word_ushiftRight inside,Nat.div_eq_of_lt small]
  have rest : (r ^^^ BitVec.ofNat w word) >>> n = r >>> n := by
    rw [BitVec.ushiftRight_xor_distrib,gone,BitVec.xor_zero]
  rw [register_bits poly r fits small,shifts_split,rest]

end Crc
