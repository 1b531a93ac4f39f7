import Bringup.Proofs.DisplayOutcome

/-! Steps out of order. A step that asks for another phase is turned away before it does anything,
and a step that takes several others along is turned away at the first of them or not at all. -/
namespace Bringup.Link

open Program (Only)

/-- The operation asks for a phase that the link is not in. Most ask for none, a whole setup and a
full bring-up among them. -/
def Operation.OutOfOrder : Operation → Phase → Prop
  | .releaseResets, phase => phase ∉ [.phyConfigured]
  | .awaitAnalog, phase => phase ∉ [.resetReleased]
  | .prepare _, phase => phase ∉ [.phyReady, .timingPrepared]
  | .sendInfoframes .., phase => phase ∉ [.timingPrepared]
  | .enable _, phase => phase ∉ [.phyReady, .timingPrepared]
  | _, _ => False

section
variable {σ α β : Type} {board : Program.Board σ} {op : Operation} {link : Link}

/-! ## Turned away -/

/-- What follows an error is left out. -/
theorem exec_bind_error {a : Action α} {e : LinkError}
    (h : a.exec link = pure (.error e, link)) (f : α → Action β) :
    (a >>= f).exec link = pure (.error e, link) := by
  rw [Action.exec_bind, h]
  rfl

theorem exec_out_of_order (h : op.OutOfOrder link.phase) :
    op.perform.exec link = pure (.error (.invalidState link.phase), link) := by
  cases op with
  | releaseResets => exact exec_bind_error (exec_refused h _) _
  | awaitAnalog => exact exec_bind_error (exec_refused h _) _
  | prepare timing => exact exec_bind_error (exec_refused h _) _
  | sendInfoframes code timing format => exact exec_bind_error (exec_refused h _) _
  | enable preset => exact exec_bind_error (enable_refused preset h) _
  | _ => exact absurd h id

theorem performAll_out_of_order (h : op.OutOfOrder link.phase) (ops : List Operation) :
    performAll (op :: ops) link = performAll ops link := by
  rw [performAll, exec_out_of_order h]
  rfl

theorem recordAll_out_of_order (h : op.OutOfOrder link.phase) (ops : List Operation) :
    recordAll (op :: ops) link =
      ((.error (.invalidState link.phase), link.phase) :: ·) <$> recordAll ops link := by
  rw [recordAll, exec_out_of_order h]
  rfl

/-! ## Taken -/

/-- The program comes to an end on every board, and does not end in a refusal. -/
def Taken (board : Program.Board σ) (p : Program (Except LinkError α × Link)) : Prop :=
  Program.Triple board (fun _ _ => True) p fun r _ _ => ∀ phase, r.1 ≠ .error (.invalidState phase)

/-- All that matters here about a part of a program is that it ends. -/
theorem Taken.after {ok : Request → Prop} {p : Program β} (hp : p.Only ok)
    {f : β → Program (Except LinkError α × Link)} (h : ∀ x, Taken board (f x)) :
    Taken board (p >>= f) := by
  have ended : Program.Triple board (fun _ _ => True) p fun _ _ _ => True := by
    intro s past _
    obtain ⟨x, outcome, -⟩ := hp.ends board s
    exact ⟨x, outcome, trivial⟩
  exact ended.bind h

theorem Taken.ok (x : α) (link : Link) : Taken board (pure (.ok x, link)) :=
  .pure fun _ _ _ _ => nofun

/-- A lock that is waited for in vain is an error of its own. -/
theorem Taken.await {f : Program (Except LinkError α × Link)} (h : Taken board f) (link : Link) :
    Taken board (do
      if ← Analog.awaitLock Analog.pollBudget then
        f
      else
        giveUp
        return (.error .phyNotReady, link)) := by
  have waited : (Analog.awaitLock Analog.pollBudget).Only fun _ => True :=
    only_awaitLock trivial trivial _
  have off : (Analog.store Analog.switchOff).Only fun _ => True := .forM fun _ _ => .request trivial
  have gaveUp : giveUp.Only fun _ => True := Only.bind (.request trivial) fun _ => off
  refine .after waited fun found => ?_
  split
  · exact h
  · exact .after gaveUp fun _ => .pure fun _ _ _ _ => nofun

/-- An action that cannot fail is not refused either. -/
theorem Taken.of_never {a : Action α} {pre : Link → Assertion σ} {post : α → Link → Assertion σ}
    (h : Action.Triple board never pre a post) (hpre : ∀ s past, pre link s past) :
    Taken board (a.exec link) := by
  refine (h link).conseq (fun s past _ => hpre s past) fun r s past ended phase refused => ?_
  rw [refused] at ended
  exact ended

/-- What becomes of a value does not matter. -/
theorem Taken.map {a : Action α} (h : Taken board (a.exec link)) (g : α → β) :
    Taken board ((do return g (← a) : Action β).exec link) := by
  rw [Action.exec_bind]
  refine Program.Triple.bind h fun (result, link) => ?_
  cases result with
  | ok x => exact .pure fun _ _ _ _ => nofun
  | error e =>
    refine .pure fun _ _ same phase refused => same phase ?_
    exact congrArg Except.error (Except.error.inj refused)

theorem taken_setUp (source : Source) (p : Video.Preset) (link : Link) :
    Taken board ((setUp source p).exec link) := by
  have started : (startClock p).Only fun _ => True :=
    only_startClock (fun _ => trivial) (fun _ _ => trivial) (fun _ _ _ => trivial) p
  have laid : (layOut source p).Only fun _ => True :=
    only_layOut (fun _ => trivial) (fun _ _ _ => trivial) source p
  rw [setUp_exec]
  exact .after started fun _ => .await (.after laid fun _ => .ok () _) _

/-- Once the clock has locked, what is left finds the raster set. -/
theorem taken_display (controller preset : UInt8) (link : Link) :
    Taken board ((display controller preset).exec link) := by
  have logged (level : Log.Level) (text : String) : (Program.log level text).Only fun _ => True :=
    .request trivial
  by_cases hpreset : preset ≤ 2
  case neg =>
    rw [display_exec_preset (UInt8.not_le.mp hpreset)]
    exact .after (logged _ _) fun _ => .after (logged _ _) fun _ => .pure fun _ _ _ _ => nofun
  by_cases hcontroller : controller ≤ 2
  case neg =>
    rw [display_exec_source hpreset (UInt8.not_le.mp hcontroller)]
    exact .after (logged _ _) fun _ => .after (logged _ _) fun _ => .pure fun _ _ _ _ => nofun
  have hp := presetOfIndex_supported hpreset
  generalize modeOf preset = p at hp
  obtain ⟨source, hsource⟩ := sourceOfIndex_supported hcontroller
  obtain ⟨feed, hfeed⟩ := feed_ends p
  have opened : (opening controller p).Only fun _ => True :=
    only_opening (fun _ => trivial) (fun _ _ => trivial) (fun _ _ _ => trivial) controller p
  have laid : (layOut source p).Only fun _ => True :=
    only_layOut (fun _ => trivial) (fun _ _ _ => trivial) source p
  have shown : (Program.showDisplay ⟨controller, p.resolution, p.timing, feed⟩).Only
      fun _ => True := .request trivial
  have allowed : Phase.timingPrepared ∈ [.phyReady, .timingPrepared] := by decide
  have enabled : Taken board ((enable p).exec ⟨.timingPrepared, link.dvi⟩) :=
    .of_never (enable_succeeds p allowed) fun _ _ => rfl
  rw [display_exec source p link hp hsource hfeed]
  refine .after opened fun _ => .await (.after laid fun _ => .after shown fun _ => ?_) _
  refine Program.Triple.bind enabled fun (result, link) => .pure fun _ _ same phase refused => ?_
  cases result with
  | ok _ => cases refused
  | error e => exact same phase (congrArg Except.error (Except.error.inj refused))

/-- In its phase no operation is refused, whatever the board answers. -/
theorem perform_taken (h : ¬ op.OutOfOrder link.phase) : Taken board (op.perform.exec link) := by
  have steady : Steady board (fun _ => False) (inPhase link.phase) := steady_inPhase _
  have succeeded {a : Action Unit} {post : Unit → Link → Assertion σ}
      (h : Action.Triple board never (inPhase link.phase) a post) :
      Taken board ((do a; return none : Action (Option Video.Resolution)).exec link) :=
    .map (.of_never h fun _ _ => rfl) _
  cases op with
  | pulseCore => exact succeeded (steady.lift (only_pulse fun _ _ => trivial))
  | loadAnalog p =>
    exact succeeded <| (steady.lift (only_analog (fun _ _ => id) (analog_offsets p).1)).bind
      fun _ => (steady.log _ _).bind fun _ => setPhase_inPhase _
  | disable =>
    exact succeeded <| (steady.lift (only_analog (fun _ _ => id) (analog_offsets .hd720).2)).bind
      fun _ => setPhase_inPhase _
  | releaseResets =>
    have pulse (asserted : Bool) :
        (linkResets.forM fun line => Program.reset line asserted).Only fun _ => True :=
      .forM fun _ _ => .request trivial
    have released : Taken board (releaseResets.exec link) := by
      rw [releaseResets_exec link (List.mem_singleton.mp (Decidable.not_not.mp h))]
      exact .after (pulse true) fun _ => .after (pulse false) fun _ => .ok () _
    exact .map released _
  | awaitAnalog =>
    have logged : (Program.log .info "HDMI: phy ready...").Only fun _ => True := .request trivial
    have awaited : Taken board (awaitAnalog.exec link) := by
      rw [awaitAnalog_exec link (List.mem_singleton.mp (Decidable.not_not.mp h))]
      exact .await (.after logged fun _ => .ok () _) _
    exact .map awaited _
  | selectSource source => exact succeeded (steady.selectSource source)
  | prepare timing => exact succeeded (prepare_succeeds timing (Decidable.not_not.mp h))
  | sendInfoframes code timing format =>
    have prepared : link.phase = .timingPrepared := List.mem_singleton.mp (Decidable.not_not.mp h)
    exact .map (.of_never (sendInfoframes_succeeds code timing format) fun _ _ => prepared) _
  | setAudioClock rate => exact succeeded (steady.setAudioClock (fun _ _ _ => id) rate)
  | setUpDigitalAudio codec bits =>
    exact succeeded (steady.lift (only_digitalAudio (fun _ _ _ => id) codec bits))
  | setUpAudio => exact succeeded (steady.setUpAudio (fun _ _ _ => id) fun _ _ _ => id)
  | enableAudio on => exact succeeded (steady.lift (only_enableAudio id on))
  | setDvi dvi => exact succeeded (steady.setDvi id id dvi)
  | setUp source p => exact .map (taken_setUp source p link) _
  | enable p => exact succeeded (enable_succeeds p (Decidable.not_not.mp h))
  | display controller preset => exact .map (taken_display controller preset link) _

end

/-! ## Exactly when -/

/-- The operation from where the link stands. -/
abbrev performRun {σ : Type} (board : Program.Board σ) (op : Operation) (link : Link) (s : σ) :
    Program.Run σ (Except LinkError (Option Video.Resolution) × Link) :=
  (op.perform.exec link).run board s

/-- The call has not been, but for its answer. The board was asked nothing, the link stands where it
stood, and so all later calls come to what they would have come to. -/
structure WithoutEffect {σ : Type} (board : Program.Board σ) (op : Operation) (link : Link) (s : σ)
    (phase : Phase) (link' : Link) : Prop where
  shown : phase = link.phase
  same : link' = link
  silent : (performRun board op link s).events = []
  untouched : (performRun board op link s).board = s
  later (ops : List Operation) :
    (performAll (op :: ops) link).run board s = (performAll ops link).run board s
  results (ops : List Operation) :
    (recordAll (op :: ops) link).run board s =
      (((.error (.invalidState phase), link'.phase) :: ·) <$> recordAll ops link).run board s

/-- An operation answers that it is out of order exactly in the phases that it does not ask for,
and then that was all. This holds wherever the link stands and whatever the board answers, so it
holds after every history of operations. -/
theorem invalid_state_iff {σ : Type} (board : Program.Board σ) (op : Operation) (link : Link)
    (s : σ) :
    ((∃ phase link', (performRun board op link s).outcome =
      .ok (.error (.invalidState phase), link')) ↔ op.OutOfOrder link.phase) ∧
    ∀ phase link', (performRun board op link s).outcome =
      .ok (.error (.invalidState phase), link') → WithoutEffect board op link s phase link' := by
  have outOfOrder {phase : Phase} {link' : Link} (refused : (performRun board op link s).outcome =
      .ok (.error (.invalidState phase), link')) : op.OutOfOrder link.phase := by
    refine Classical.byContradiction fun inOrder => ?_
    have taken : Taken board (op.perform.exec link) := perform_taken inOrder
    obtain ⟨r, outcome, not_refused⟩ := taken s [] trivial
    obtain rfl := Except.ok.inj (outcome.symm.trans refused)
    exact not_refused phase rfl
  refine ⟨⟨?_, ?_⟩, ?_⟩
  · rintro ⟨phase, link', refused⟩
    exact outOfOrder refused
  · intro h
    refine ⟨link.phase, link, ?_⟩
    rw [performRun, exec_out_of_order h]
    rfl
  · intro phase link' refused
    have h := outOfOrder refused
    have run : performRun board op link s =
        ⟨.ok (.error (.invalidState link.phase), link), [], s⟩ := by
      rw [performRun, exec_out_of_order h]
      rfl
    rw [run] at refused
    cases refused
    refine ⟨rfl, rfl, ?_, ?_, ?_, ?_⟩
    · rw [run]
    · rw [run]
    · intro ops
      rw [performAll_out_of_order h]
    · intro ops
      rw [recordAll_out_of_order h]

/-- A new link cannot be enabled, and it makes no difference that someone tried. -/
theorem new_link_not_enabled :
    (performRun WindowMemory.board (.enable .fhd1080) .initial lockedWindows).outcome =
      .ok (.error (.invalidState .uninitialized), .initial) ∧
    WithoutEffect WindowMemory.board (.enable .fhd1080) .initial lockedWindows .uninitialized
      .initial := by
  have refused : (performRun WindowMemory.board (.enable .fhd1080) .initial lockedWindows).outcome =
      .ok (.error (.invalidState .uninitialized), .initial) := rfl
  exact ⟨refused, (invalid_state_iff WindowMemory.board _ _ _).2 _ _ refused⟩

end Bringup.Link
