/-!
# Saturating counts

Derived counts are 64-bit words that stop at the largest word, and at zero, instead of wrapping
around.
-/

namespace SolarBill.Count

/-- The largest word. -/
def largest : Nat := 0xFFFFFFFFFFFFFFFF

/-- Sum, at most the largest word. -/
def add (a b : UInt64) : UInt64 :=
  .ofNatClamp (a.toNat + b.toNat)

/-- Difference, at least zero. -/
def sub (a b : UInt64) : UInt64 :=
  .ofNatClamp (a.toNat - b.toNat)

/-- Product, at most the largest word. -/
def mul (a b : UInt64) : UInt64 :=
  .ofNatClamp (a.toNat * b.toNat)

/-- A number that is too large counts as the largest. -/
theorem toNat_ofNatClamp (n : Nat) : (UInt64.ofNatClamp n).toNat = min n largest := by
  unfold UInt64.ofNatClamp largest
  split
  · next h =>
    have : n < 0x10000000000000000 := h
    rw [UInt64.toNat_ofNatLT]
    omega
  · next h =>
    have : ¬ n < 0x10000000000000000 := h
    simp only [UInt64.toNat_ofNatLT, UInt64.size]
    omega

/-- Addition saturates. -/
@[simp] theorem toNat_add (a b : UInt64) :
    (add a b).toNat = min (a.toNat + b.toNat) largest :=
  toNat_ofNatClamp _

/-- Subtraction stops at zero. -/
@[simp] theorem toNat_sub (a b : UInt64) : (sub a b).toNat = a.toNat - b.toNat := by
  rw [sub, toNat_ofNatClamp]
  have h : a.toNat < 0x10000000000000000 := a.toNat_lt
  unfold largest
  omega

/-- Multiplication saturates. -/
@[simp] theorem toNat_mul (a b : UInt64) :
    (mul a b).toNat = min (a.toNat * b.toNat) largest :=
  toNat_ofNatClamp _

end SolarBill.Count
