/-
  C STRINGS: bytes up to a terminating zero.

  A text that is handed on as `const char*` is what comes before its first zero (`cStr`).  What may be read
  of it are these bytes and the terminator after them (`terminated`).
-/
import Mathlib.Data.List.TakeWhile

namespace CString

/-- What a reader of `c_str()` sees. -/
def cStr (str : List UInt8) : List UInt8 := str.takeWhile fun c => decide (c ≠ 0)

/-- And the zero behind it. -/
def terminated (str : List UInt8) : List UInt8 := cStr str ++ [0]

theorem ne_zero_of_mem {str : List UInt8} {c : UInt8} (h : c ∈ cStr str) : c ≠ 0 := by
  have hc := @List.mem_takeWhile_imp _ (fun c : UInt8 => decide (c ≠ 0)) str c h
  exact of_decide_eq_true hc

theorem cStr_eq_self {str : List UInt8} (h : ∀ c ∈ str, c ≠ 0) : cStr str = str :=
  List.takeWhile_eq_self_iff.mpr fun c hc => decide_eq_true (h c hc)

end CString
