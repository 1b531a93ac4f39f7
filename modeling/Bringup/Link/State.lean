import Bringup.Program

namespace Bringup

namespace Link

/-- How far bring-up has come. Each phase needs the one before it. -/
inductive Phase where
  | uninitialized
  | phyConfigured
  | resetReleased
  | phyReady
  | timingPrepared
  | infoframesSet
  | enabled
  deriving DecidableEq, Repr

/-- What can feed the link. -/
inductive Source where
  | display0
  | display1
  | converter
  deriving DecidableEq, Repr

def Source.index : Source → UInt8
  | .display0 => 0
  | .display1 => 1
  | .converter => 2

inductive LinkError where
  /-- The analogue part did not lock in time, and was switched off. -/
  | phyNotReady
  | unsupportedPreset (index : UInt8)
  | unsupportedSource (index : UInt8)
  /-- A step out of order; says where bring-up stands. -/
  | invalidState (phase : Phase)
  deriving DecidableEq, Repr

def Source.ofIndex (i : UInt8) : Except LinkError Source :=
  if i = 0 then .ok .display0
  else if i = 1 then .ok .display1
  else if i = 2 then .ok .converter
  else .error (.unsupportedSource i)

def presetOfIndex (i : UInt8) : Except LinkError Video.Preset :=
  match Video.Preset.ofIndex? i with
  | some p => .ok p
  | none => .error (.unsupportedPreset i)

end Link

/-- What the driver of the link remembers between steps. -/
structure Link where
  phase : Link.Phase
  /-- Sending DVI, which has no packets. -/
  dvi : Bool
  deriving DecidableEq, Repr

namespace Link

def initial : Link := ⟨.uninitialized, false⟩

/-- A step of bring-up. What it changed stays changed when it fails. -/
abbrev Action := ExceptT LinkError (StateT Link Program)

namespace Action

variable {α β : Type}

/-- What an action comes to from where the link stands, and where it leaves the link. -/
def exec (a : Action α) (link : Link) : Program (Except LinkError α × Link) := a.run.run link

@[simp]
theorem exec_pure (x : α) (link : Link) : exec (pure x) link = pure (.ok x, link) := rfl

@[simp]
theorem exec_throw (e : LinkError) (link : Link) :
    exec (throw e : Action α) link = pure (.error e, link) := rfl

/-- An error leaves out the rest. -/
@[simp]
theorem exec_bind (a : Action α) (f : α → Action β) (link : Link) :
    exec (a >>= f) link = exec a link >>= fun r =>
      match r.1 with
      | .ok x => exec (f x) r.2
      | .error e => pure (.error e, r.2) := by
  simp only [exec, ExceptT.run_bind, StateT.run_bind]
  congr
  funext r
  cases r.1 <;> rfl

@[simp]
theorem exec_get (link : Link) : exec get link = pure (.ok link, link) := rfl

@[simp]
theorem exec_modify (f : Link → Link) (link : Link) :
    exec (modify f) link = pure (.ok (), f link) := rfl

@[simp]
theorem exec_liftM (p : Program α) (link : Link) :
    exec (liftM p) link = (fun x => (.ok x, link)) <$> p := by
  change (p >>= fun x => pure (x, link)) >>= (fun r => pure (Except.ok r.1, r.2)) = _
  simp

end Action

def setPhase (phase : Phase) : Action Unit := modify fun link => { link with phase }

def require (allowed : List Phase) : Action Unit := do
  let link ← get
  if link.phase ∈ allowed then
    return ()
  else
    throw (.invalidState link.phase)

@[simp]
theorem exec_setPhase (phase : Phase) (link : Link) :
    (setPhase phase).exec link = pure (.ok (), { link with phase }) := rfl

@[simp]
theorem exec_require (allowed : List Phase) (link : Link) :
    (require allowed).exec link =
      pure (if link.phase ∈ allowed then .ok () else .error (.invalidState link.phase), link) := by
  simp only [require, Action.exec_bind, Action.exec_get, pure_bind]
  split <;> simp

end Link

end Bringup
