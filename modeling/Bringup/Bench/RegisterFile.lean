namespace Bringup.Bench

/-- A byte for each of the 256 register addresses. -/
structure RegisterFile where
  bytes : Vector UInt8 256
  deriving DecidableEq, Repr

namespace RegisterFile

def zero : RegisterFile := ⟨Vector.replicate 256 0⟩

def get (f : RegisterFile) (r : UInt8) : UInt8 :=
  have := r.toNat_lt
  f.bytes[r.toNat]

def set (f : RegisterFile) (r byte : UInt8) : RegisterFile :=
  ⟨f.bytes.set r.toNat byte r.toNat_lt⟩

/-- Store bytes at consecutive addresses; the last address is followed by the first. -/
def setAll (f : RegisterFile) (start : UInt8) : List UInt8 → RegisterFile
  | [] => f
  | byte :: rest => (f.set start byte).setAll (start + 1) rest

@[simp]
theorem get_zero (r : UInt8) : zero.get r = 0 := by simp [zero, get]

@[simp]
theorem get_set_self (f : RegisterFile) (r byte : UInt8) : (f.set r byte).get r = byte := by
  simp [get, set]

theorem get_set_of_ne (f : RegisterFile) {r q : UInt8} (byte : UInt8) (h : r ≠ q) :
    (f.set r byte).get q = f.get q := by
  have : r.toNat ≠ q.toNat := fun e => h (UInt8.toNat_inj.mp e)
  simp [get, set, Vector.getElem_set_ne, this]

theorem get_set (f : RegisterFile) (r byte q : UInt8) :
    (f.set r byte).get q = if r = q then byte else f.get q := by
  split
  · rename_i same
    rw [same, get_set_self]
  · rename_i other
    exact get_set_of_ne f byte other

@[ext]
theorem ext {f g : RegisterFile} (h : ∀ r, f.get r = g.get r) : f = g := by
  cases f with | mk a =>
  cases g with | mk b =>
  congr 1
  apply Vector.ext
  intro i hi
  have := h (UInt8.ofNat i)
  simpa [get, UInt8.toNat_ofNat', Nat.mod_eq_of_lt hi] using this

end RegisterFile

end Bringup.Bench
