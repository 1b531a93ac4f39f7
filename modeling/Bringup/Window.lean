import Bringup.Program

namespace Bringup

/-- A value for the word at an offset. -/
structure WordWrite where
  offset : Nat
  value : UInt32
  deriving DecidableEq, Repr

namespace Window

def load (w : Window) (offset : Nat) : Program UInt32 := Program.load w offset

def store (w : Window) (offset : Nat) (value : UInt32) : Program Unit :=
  Program.store w offset value

/-- Replace the bits in `mask` by those of `value`. Always writes. -/
def storeMasked (w : Window) (offset : Nat) (value mask : UInt32) : Program Unit := do
  let current ← w.load offset
  w.store offset ((current &&& ~~~mask) ||| (value &&& mask))

def storeAll (w : Window) (writes : List WordWrite) : Program Unit :=
  writes.forM fun x => w.store x.offset x.value

end Window

end Bringup
