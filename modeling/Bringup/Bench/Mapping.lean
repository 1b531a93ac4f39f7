import Bringup.Program.Run

namespace Bringup.Bench

/-- Words by address; a word never written is zero. -/
structure Words where
  cells : List (Nat × UInt32)
  deriving DecidableEq, Repr

namespace Words

def zero : Words := ⟨[]⟩

def get (w : Words) (address : Nat) : UInt32 := (w.cells.lookup address).getD 0

def set (w : Words) (address : Nat) (word : UInt32) : Words := ⟨(address, word) :: w.cells⟩

/-- Words at consecutive addresses, four bytes apart. -/
def ofList (base : Nat) (words : List UInt32) : Words :=
  ⟨words.zipIdx.map fun (word, i) => (base + 4 * i, word)⟩

@[simp]
theorem get_zero (address : Nat) : zero.get address = 0 := rfl

@[simp]
theorem get_set_self (w : Words) (address : Nat) (word : UInt32) :
    (w.set address word).get address = word := by
  simp [get, set]

theorem get_set_of_ne (w : Words) {a b : Nat} (word : UInt32) (h : a ≠ b) :
    (w.set a word).get b = w.get b := by
  have : (b == a) = false := by simp [h.symm]
  simp [get, set, List.lookup_cons, this]

end Words

/-- A register window mapped into memory at a base address. -/
structure Mapping where
  base : Nat
  deriving DecidableEq, Repr

/-- Any window is served from the mapped words. There is nothing else on this board: transfers
over the bus fail, and no host is found. -/
def Mapping.board (m : Mapping) : Program.Board Words
  | w, .load _ offset => (w.get (m.base + offset), w)
  | w, .store _ offset value => ((), w.set (m.base + offset) value)
  | w, .busRead _ _ _ => (.error 0, w)
  | w, .busWrite _ _ _ => (.error 0, w)
  | w, .detectHost _ => (false, w)
  | w, .setVariable _ _ => (.ok (), w)
  | w, .loadImage _ => (.ok (), w)
  | w, .wait _ => ((), w)
  | w, .reset _ _ => ((), w)
  | w, .showDisplay _ => ((), w)
  | w, .log _ => ((), w)

end Bringup.Bench
