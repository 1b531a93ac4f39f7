import Bringup.Program

/-! Running a program against a board. What a program does is the events it leaves behind; the
laws below follow it through sequencing and through each kind of request. -/
namespace Bringup.Program

/-- How a board in some state answers each request, and the state after it. -/
abbrev Board (σ : Type) := σ → (r : Request) → r.Answer × σ

/-- What came of a program: its value or the fault that ended it, what happened on the way,
and the board afterwards. -/
structure Run (σ α : Type) where
  outcome : Checked α
  events : List Event
  board : σ

namespace Run

variable {σ α β : Type}

/-- Go on from a finished run; a faulted one stays as it is. -/
def andThen (r : Run σ α) (next : α → σ → Run σ β) : Run σ β :=
  match r.outcome with
  | .ok a =>
      let rest := next a r.board
      { rest with events := r.events ++ rest.events }
  | .error c => ⟨.error c, r.events, r.board⟩

@[simp]
theorem andThen_ok (a : α) (events : List Event) (s : σ) (next : α → σ → Run σ β) :
    andThen ⟨.ok a, events, s⟩ next =
      ⟨(next a s).outcome, events ++ (next a s).events, (next a s).board⟩ := rfl

@[simp]
theorem andThen_error (c : Fault) (events : List Event) (s : σ) (next : α → σ → Run σ β) :
    andThen ⟨.error c, events, s⟩ next = ⟨.error c, events, s⟩ := rfl

end Run

variable {σ α β : Type} (board : Board σ)

def run : Program α → σ → Run σ α
  | done a, s => ⟨.ok a, [], s⟩
  | fault c, s => ⟨.error c, [], s⟩
  | ask r next, s =>
      let (answer, s) := board s r
      let rest := (next answer).run s
      { rest with events := ⟨r, answer⟩ :: rest.events }

@[simp]
theorem run_pure (a : α) (s : σ) : (pure a : Program α).run board s = ⟨.ok a, [], s⟩ := rfl

@[simp]
theorem run_bind (p : Program α) (f : α → Program β) (s : σ) :
    (p >>= f).run board s = (p.run board s).andThen fun a s => (f a).run board s := by
  induction p generalizing s with
  | done | fault => rfl
  | ask r next ih =>
      change (ask r fun answer => next answer >>= f).run board s = _
      simp only [run, ih, Run.andThen]
      split <;> simp_all

@[simp]
theorem run_map (g : α → β) (p : Program α) (s : σ) :
    (g <$> p).run board s =
      ⟨(p.run board s).outcome.map g, (p.run board s).events, (p.run board s).board⟩ := by
  rw [map_eq_pure_bind, run_bind]
  rcases p.run board s with ⟨_ | _, events, s⟩ <;> simp [Except.map]

/-- An error leaves out the rest, and so does a fault. -/
theorem run_bind_except {ε : Type} (p : ExceptT ε Program α) (f : α → ExceptT ε Program β) (s : σ) :
    (p >>= f).run.run board s = (p.run.run board s).andThen fun r s =>
      match r with
      | .ok a => (f a).run.run board s
      | .error e => ⟨.ok (.error e), [], s⟩ := by
  rw [ExceptT.run_bind, run_bind]
  congr
  funext r s
  cases r <;> rfl

@[simp]
theorem run_ofChecked (c : Checked α) (s : σ) : (ofChecked c).run board s = ⟨c, [], s⟩ := by
  cases c <;> rfl

/-! A single request leaves one event, and its answer is the value. -/

/-- The run of a program that is nothing but one request. -/
def single (r : Request) (s : σ) : Run σ r.Answer :=
  ⟨.ok (board s r).1, [⟨r, (board s r).1⟩], (board s r).2⟩

@[simp]
theorem run_busRead (address start : UInt8) (count : Nat) (s : σ) :
    (busRead address start count).run board s = single board (.busRead address start count) s := rfl

@[simp]
theorem run_busWrite (address start : UInt8) (bytes : List UInt8) (s : σ) :
    (busWrite address start bytes).run board s = single board (.busWrite address start bytes) s := rfl

@[simp]
theorem run_load (window : Window) (offset : Nat) (s : σ) :
    (load window offset).run board s = single board (.load window offset) s := rfl

@[simp]
theorem run_store (window : Window) (offset : Nat) (value : UInt32) (s : σ) :
    (store window offset value).run board s = single board (.store window offset value) s := rfl

@[simp]
theorem run_wait (milliseconds : Nat) (s : σ) :
    (wait milliseconds).run board s = single board (.wait milliseconds) s := rfl

@[simp]
theorem run_detectHost (milliseconds : Nat) (s : σ) :
    (detectHost milliseconds).run board s = single board (.detectHost milliseconds) s := rfl

@[simp]
theorem run_setVariable (name value : String) (s : σ) :
    (setVariable name value).run board s = single board (.setVariable name value) s := rfl

@[simp]
theorem run_loadImage (locations : List ImageLocation) (s : σ) :
    (loadImage locations).run board s = single board (.loadImage locations) s := rfl

@[simp]
theorem run_reset (line : ResetLine) (asserted : Bool) (s : σ) :
    (reset line asserted).run board s = single board (.reset line asserted) s := rfl

@[simp]
theorem run_showDisplay (setup : DisplaySetup) (s : σ) :
    (showDisplay setup).run board s = single board (.showDisplay setup) s := rfl

@[simp]
theorem run_log (level : Log.Level) (text : String) (s : σ) :
    (log level text).run board s = single board (.log ⟨level, text⟩) s := rfl

end Bringup.Program
