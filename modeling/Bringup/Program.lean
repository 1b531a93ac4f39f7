import Bringup.Request

/-! Programs are trees: a request and what to do with each answer to it. How a board answers
is left to whoever runs the program. -/
namespace Bringup

inductive Program (α : Type) where
  | done (value : α)
  | fault (cause : Fault)
  | ask (request : Request) (next : request.Answer → Program α)

namespace Program

def bind {α β : Type} : Program α → (α → Program β) → Program β
  | done a, f => f a
  | fault c, _ => fault c
  | ask r next, f => ask r fun answer => (next answer).bind f

instance : Monad Program where
  pure := done
  bind := bind

theorem bind_done {α : Type} (p : Program α) : p.bind done = p := by
  induction p with
  | done | fault => rfl
  | ask r next ih => simp only [bind, ih]

theorem bind_assoc {α β γ : Type} (p : Program α) (f : α → Program β) (g : β → Program γ) :
    (p.bind f).bind g = p.bind fun a => (f a).bind g := by
  induction p with
  | done | fault => rfl
  | ask r next ih => simp only [bind, ih]

instance : LawfulMonad Program :=
  LawfulMonad.mk' Program bind_done (fun _ _ => rfl) bind_assoc

def busRead (address start : UInt8) (count : Nat) : Program (Except Int (Vector UInt8 count)) :=
  ask (.busRead address start count) done

def busWrite (address start : UInt8) (bytes : List UInt8) : Program (Except Int Unit) :=
  ask (.busWrite address start bytes) done

def load (window : Window) (offset : Nat) : Program UInt32 := ask (.load window offset) done

def store (window : Window) (offset : Nat) (value : UInt32) : Program Unit :=
  ask (.store window offset value) done

def wait (milliseconds : Nat) : Program Unit := ask (.wait milliseconds) done

def detectHost (milliseconds : Nat) : Program Bool := ask (.detectHost milliseconds) done

def setVariable (name value : String) : Program (Except String Unit) :=
  ask (.setVariable name value) done

def loadImage (locations : List ImageLocation) : Program (Except String Unit) :=
  ask (.loadImage locations) done

def reset (line : ResetLine) (asserted : Bool) : Program Unit := ask (.reset line asserted) done

def showDisplay (setup : DisplaySetup) : Program Unit := ask (.showDisplay setup) done

def log (level : Log.Level) (text : String) : Program Unit := ask (.log ⟨level, text⟩) done

/-- Arithmetic that goes wrong ends the whole program. -/
def ofChecked {α : Type} : Checked α → Program α
  | .ok a => done a
  | .error c => fault c

instance : MonadLift Checked Program where
  monadLift := ofChecked

end Program

end Bringup
