import Mathlib.Data.List.Basic
import Mathlib.Tactic.Linarith
import Mathlib.Tactic.Ring

/-! Byte memory and big-endian numbers of any width. Memory is total: what lies outside an
allocation is there to be read and overwritten, and bounds are a separate matter. -/
namespace Bytes

abbrev Memory := Nat → UInt8

def load (mem : Memory) (pos n : Nat) : List UInt8 := (List.range n).map fun i => mem (pos + i)

def store (mem : Memory) (pos : Nat) (bytes : List UInt8) : Memory := fun i =>
  if pos ≤ i then bytes.getD (i - pos) (mem i) else mem i

@[simp] theorem load_length (mem : Memory) (pos n : Nat) : (load mem pos n).length = n := by
  simp [load]

@[simp] theorem load_zero (mem : Memory) (pos : Nat) : load mem pos 0 = [] := rfl

theorem load_add (mem : Memory) (pos a b : Nat) :
    load mem pos (a + b) = load mem pos a ++ load mem (pos + a) b := by
  simp [load,List.range_add,Function.comp_def,Nat.add_assoc]

theorem load_getElem? (mem : Memory) (pos n i : Nat) (inside : i < n) :
    (load mem pos n)[i]? = some (mem (pos + i)) := by
  simp [load,inside]

theorem load_congr {mem mem' : Memory} {pos n : Nat} (same : ∀ i < n, mem (pos + i) = mem' (pos + i)) :
    load mem pos n = load mem' pos n := by
  apply List.map_congr_left
  intro i member
  exact same i (List.mem_range.mp member)

theorem store_below (mem : Memory) (pos : Nat) (bytes : List UInt8) (below : i < pos) :
    store mem pos bytes i = mem i := by
  simp [store,Nat.not_le.mpr below]

theorem load_store_below (mem : Memory) (bytes : List UInt8) (below : pos + n ≤ at') :
    load (store mem at' bytes) pos n = load mem pos n :=
  load_congr fun i less => store_below mem at' bytes (by omega)

@[simp] theorem load_store (mem : Memory) (pos : Nat) (bytes : List UInt8) :
    load (store mem pos bytes) pos bytes.length = bytes := by
  apply List.ext_getElem?
  intro i
  by_cases inside : i < bytes.length
  · rw [load_getElem? _ _ _ _ inside]
    simp [store,inside]
  · rw [List.getElem?_eq_none (by simpa using inside),List.getElem?_eq_none (by simpa using inside)]

theorem load_store_store (mem : Memory) (bytes more : List UInt8) :
    load (store (store mem 0 bytes) bytes.length more) 0 (bytes.length + more.length) = bytes ++ more := by
  rw [load_add,load_store_below _ _ (Nat.zero_add _).le,load_store,Nat.zero_add,load_store]

/-- Big-endian bytes of a number, most significant first. -/
def encode : Nat → Nat → List UInt8
  | 0, _ => []
  | n + 1, value => UInt8.ofNat (value / 256 ^ n) :: encode n value

def decode : List UInt8 → Nat
  | [] => 0
  | byte :: bytes => byte.toNat * 256 ^ bytes.length + decode bytes

@[simp] theorem encode_length (n value : Nat) : (encode n value).length = n := by
  induction n with
  | zero => rfl
  | succ n ih => simp [encode,ih]

theorem decode_encode (n value : Nat) : decode (encode n value) = value % 256 ^ n := by
  induction n with
  | zero => simp [encode,decode,Nat.mod_one]
  | succ n ih =>
    have split := Nat.mod_mul (x := value) (a := 256 ^ n) (b := 256)
    simp only [encode,decode,encode_length,ih,UInt8.toNat_ofNat']
    calc value / 256 ^ n % 256 * 256 ^ n + value % 256 ^ n
        = value % 256 ^ n + 256 ^ n * (value / 256 ^ n % 256) := by ring
      _ = value % 256 ^ (n + 1) := by rw [pow_succ,split]

theorem decode_lt (bytes : List UInt8) : decode bytes < 256 ^ bytes.length := by
  induction bytes with
  | nil => simp [decode]
  | cons byte bytes ih =>
    have small := byte.toNat_lt
    have room : (byte.toNat + 1) * 256 ^ bytes.length ≤ 256 * 256 ^ bytes.length :=
      Nat.mul_le_mul_right _ small
    simp only [decode,List.length_cons,pow_succ]
    linarith [Nat.succ_mul byte.toNat (256 ^ bytes.length)]

theorem decode_encode_of_lt {n value : Nat} (small : value < 256 ^ n) :
    decode (encode n value) = value := by
  rw [decode_encode,Nat.mod_eq_of_lt small]

/-- Higher digits do not show in a fixed width. -/
theorem encode_add_mul (n a value : Nat) : encode n (a * 256 ^ n + value) = encode n value := by
  induction n generalizing a with
  | zero => rfl
  | succ n ih =>
    have shape : a * 256 ^ (n + 1) + value = (a * 256) * 256 ^ n + value := by ring
    have digit : ((a * 256) * 256 ^ n + value) / 256 ^ n = value / 256 ^ n + 256 * a := by
      rw [Nat.mul_comm (a * 256),Nat.mul_add_div (Nat.pow_pos (by decide))]
      ring
    simp only [encode,shape,ih]
    congr 1
    apply UInt8.toNat_inj.mp
    simp only [UInt8.toNat_ofNat',digit]
    omega

theorem encode_decode (bytes : List UInt8) : encode bytes.length (decode bytes) = bytes := by
  induction bytes with
  | nil => rfl
  | cons byte bytes ih =>
    have digit : (byte.toNat * 256 ^ bytes.length + decode bytes) / 256 ^ bytes.length = byte.toNat := by
      rw [Nat.mul_comm,Nat.mul_add_div (Nat.pow_pos (by decide)),
        Nat.div_eq_of_lt (decode_lt bytes),Nat.add_zero]
    simp only [List.length_cons,encode,decode,encode_add_mul,ih,digit,UInt8.ofNat_toNat]

end Bytes
