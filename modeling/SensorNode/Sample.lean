/-
Samples: measured values as the 64 bits of an IEEE 754 binary64 number. A sample keeps the sign of a NaN, which
arithmetic does not, because the total order of the standard (`Sample.rank`) places negative NaNs before and positive
NaNs after all numbers.
-/
namespace SensorNode

/-- one measured value, bit for bit -/
structure Sample where
  bits : UInt64
  deriving DecidableEq, Repr, Inhabited

namespace Sample

/-- the number that arithmetic sees -/
def value (s : Sample) : Float := Float.ofBits s.bits

def ofFloat (x : Float) : Sample := ⟨x.toBits⟩

/-- neither infinite nor a NaN: the exponent bits are not all ones -/
def isFinite (s : Sample) : Bool := (s.bits >>> 52) &&& 0x7ff != 0x7ff

/-- place in the total order: the bits above zero, and below it their mirror image -/
def rank (s : Sample) : Int :=
  if s.bits < 0x8000000000000000 then s.bits.toNat else 0x8000000000000000 - 1 - (s.bits.toNat : Int)

/-- the total order of binary64: -NaN, -∞, …, -0, +0, …, +∞, +NaN -/
def le (a b : Sample) : Bool := a.rank ≤ b.rank

theorem rank_injective (a b : Sample) (h : a.rank = b.rank) : a = b := by
  obtain ⟨a⟩ := a
  obtain ⟨b⟩ := b
  simp only [rank] at h
  have ha := a.toNat_lt
  have hb := b.toNat_lt
  congr 1
  apply UInt64.toNat_inj.1
  split at h <;> split at h <;> rename_i h1 h2 <;>
    simp only [UInt64.lt_iff_toNat_lt] at h1 h2 <;>
    simp at h1 h2 <;> omega

end Sample

end SensorNode
