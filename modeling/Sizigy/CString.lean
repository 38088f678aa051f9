import Mathlib.Data.List.TakeWhile

/-! C strings as the program sees them: the bytes before the terminating NUL. -/
namespace Sizigy

structure CString where
  bytes : List UInt8
  nulFree : 0 ∉ bytes
  deriving DecidableEq

def strlen (s : CString) : Nat := s.bytes.length

/-- The string that a NUL-terminated copy of some bytes stands for. -/
def cstr (raw : List UInt8) : CString :=
  ⟨raw.takeWhile (· ≠ 0), fun member => by simpa using List.mem_takeWhile_imp member⟩

theorem strlen_cstr_le (raw : List UInt8) : strlen (cstr raw) ≤ raw.length :=
  List.IsPrefix.length_le (List.takeWhile_prefix _)

@[simp] theorem cstr_bytes (s : CString) : cstr s.bytes = s := by
  have all : s.bytes.takeWhile (· ≠ 0) = s.bytes := by
    apply List.takeWhile_eq_self_iff.mpr
    intro byte member
    have apart : byte ≠ 0 := fun zero => s.nulFree (zero ▸ member)
    simpa using apart
  cases s
  simpa [cstr] using all

end Sizigy
