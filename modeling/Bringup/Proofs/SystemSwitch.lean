import Bringup.Bench.World
import Bringup.Proofs.LinkProgress

/-! The system bit. Beside the operations that switch the link on, the first control word is set by
the raster, which clears the bit, and by the audio switch, which puts back the bit it has read. -/
namespace Bringup.Link

/-- Whoever stores the system bit has just read it set: the event before the store is a look at
the first control word that found the bit there. -/
def Guarded (past : List Event) : Prop :=
  ∀ before value after, past = before ++ storeEvent .hdmi ⟨0x10000, value⟩ :: after →
    value &&& 0x01 ≠ 0 → ∃ earlier, ∃ word : UInt32,
      before = earlier ++ [⟨.load .hdmi 0x10000, word⟩] ∧ word &&& 0x01 ≠ 0

theorem stored_value {w : Window} {offset : Nat} {value value' : UInt32}
    {answer : (Request.store w offset value).Answer}
    (h : (⟨.store w offset value, answer⟩ : Event) = storeEvent w ⟨offset, value'⟩) :
    value = value' := by
  injection h with request
  injection request

/-! ## Traces that grow -/

theorem guarded_nil : Guarded [] := by
  intro before value after h
  simp at h

/-- One more event, which may be a store of the bit right after a look at it. -/
theorem Guarded.snoc {past : List Event} {e : Event} (h : Guarded past)
    (last : ∀ value, e = storeEvent .hdmi ⟨0x10000, value⟩ → value &&& 0x01 ≠ 0 →
      ∃ earlier, ∃ word : UInt32,
        past = earlier ++ [⟨.load .hdmi 0x10000, word⟩] ∧ word &&& 0x01 ≠ 0) :
    Guarded (past ++ [e]) := by
  intro before value after split set
  rcases List.eq_nil_or_concat after with rfl | ⟨front, final, rfl⟩
  · obtain ⟨rfl, same⟩ := List.append_inj' split rfl
    exact last value (List.singleton_inj.mp same) set
  · rw [List.concat_eq_append, ← List.cons_append, ← List.append_assoc] at split
    obtain ⟨inner, -⟩ := List.append_inj' split rfl
    exact h before value front inner set

/-- Whatever is not a store to the first control word. -/
theorem Guarded.append {past more : List Event} (h : Guarded past)
    (quiet : ∀ e ∈ more, Request.Spares (· = Register.control0) e.request) :
    Guarded (past ++ more) := by
  induction more generalizing past with
  | nil => rwa [List.append_nil]
  | cons e more ih =>
    obtain ⟨he, hmore⟩ := List.forall_mem_cons.mp quiet
    rw [List.append_cons]
    refine ih (h.snoc fun value same => ?_) hmore
    subst same
    exact absurd rfl he

/-! ## The steps that store the word -/

section
variable {σ : Type} {board : Program.Board σ}

/-- The trace is guarded, wherever the link stands. -/
def guarded : Assertion σ := fun _ past => Guarded past

theorem steady_guarded : Steady board (· = Register.control0) fun _ => guarded :=
  .of_trace (P := fun _ => Guarded) (fun _ _ _ h quiet => h.append quiet) fun _ _ _ h => h

/-- The raster starts with the control word, the system bit clear, and does not come back to it. -/
theorem raster_guarded (t : Video.Timing) :
    Program.Triple board guarded (Window.hdmi.storeAll (Raster.writes t)) fun _ => guarded := by
  have cleared : Program.Triple board guarded (Window.hdmi.store Register.control0 0x10)
      fun _ => guarded := by
    refine .ask fun s past h => h.snoc fun value same set => absurd ?_ set
    obtain rfl := stored_value same
    decide
  have others : (Window.hdmi.storeAll (Raster.writes t).tail).Only
      (Request.Spares (· = Register.control0)) := only_storeAll (raster_tail t)
  exact cleared.bind fun _ => steady_guarded.keep others .initial

/-- The audio switch changes another bit of the word it has read. -/
theorem enableAudio_guarded (on : Bool) :
    Program.Triple board guarded (enableAudio on) fun _ => guarded := by
  have looked : Program.Triple board guarded (Window.hdmi.load Register.control0)
      fun word _ past => Guarded past ∧ ∃ earlier,
        past = earlier ++ [⟨.load .hdmi Register.control0, word⟩] := by
    refine .ask fun s past h => ⟨h.append ?_, past, rfl⟩
    simp [Request.Spares]
  refine looked.bind fun word => .ask ?_
  rintro s past ⟨h, earlier, hpast⟩
  refine h.snoc fun value same set => ⟨earlier, word, hpast, ?_⟩
  obtain rfl := stored_value same
  rwa [masked_and (by decide)] at set

theorem keeps_guarded : Keeps board (· = Register.control0) guarded where
  steady := steady_guarded
  analog _ above same := absurd above (by subst same; decide)
  packets _ above _ same := absurd above (by subst same; decide)
  mode := by decide
  preamble := by decide
  raster := raster_guarded
  digitalAudio codec bits := by
    have elsewhere : ∀ offset, Register.digitalBase ≤ offset → offset < Register.analogBase →
        ¬ offset = Register.control0 := fun _ above _ same => absurd above (by subst same; decide)
    exact steady_guarded.keep (only_digitalAudio elsewhere codec bits) .initial
  enableAudio := enableAudio_guarded

end

/-! ## What bring-up may say of itself -/

/-- Whatever was asked of the link since it was new, and whatever its registers answered, its phase
is justified; and no operation but those that switch the link on stores the system bit unless it
has just read it. -/
theorem progress_earned {σ : Type} (board : Program.Board σ) (s : σ) :
    (∀ ops, ∃ link, ((performAll ops .initial).run board s).outcome = .ok link ∧
      Justified link.phase ((performAll ops .initial).run board s).events) ∧
    ∀ (op : Operation) (link : Link), ¬ op.SwitchesOn →
      Guarded ((op.perform.exec link).run board s).events := by
  constructor
  · intro ops
    exact performAll_keeps perform_justified ops .initial s [] (.inl rfl)
  · intro op link others
    have kept : Kept board guarded op.perform :=
      keeps_guarded.perform op fun switches => absurd switches others
    obtain ⟨_, -, h⟩ := kept.either link s [] guarded_nil
    exact h

theorem audio_switch_guarded :
    ¬ (Operation.enableAudio true).SwitchesOn ∧
      Guarded (((Operation.enableAudio true).perform.exec .initial).run
        Bench.World.board .initial).events :=
  have others : ¬ (Operation.enableAudio true).SwitchesOn := id
  ⟨others, (progress_earned Bench.World.board .initial).2 _ .initial others⟩

end Bringup.Link
