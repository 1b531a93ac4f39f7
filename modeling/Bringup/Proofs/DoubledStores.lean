import Bringup.Bench.World
import Bringup.Proofs.BringUpStores
import Bringup.Proofs.LinkProgress

/-! The analogue part settles only if every store to it comes twice in a row. It is loaded and
switched off by lists of doubled stores, and no other store of the link comes near it, so the pairs
hold through every history of operations. -/
namespace Bringup.Link

/-! ## Traces in pairs -/

/-- A store to the analogue part. -/
def ToAnalog (x : WordStore) : Prop := x.1 = .hdmi ∧ Register.analogBase ≤ x.2.offset

instance : DecidablePred ToAnalog := fun _ => inferInstanceAs (Decidable (_ ∧ _))

/-- Every store to the analogue part is one of two that are the same, and nothing comes between
these two. -/
inductive Paired : List Event → Prop where
  | nil : Paired []
  | other {e : Event} {rest : List Event} (off : offAnalog e.request) (paired : Paired rest) :
      Paired (e :: rest)
  | pair {x : WordWrite} {rest : List Event} (analog : Register.analogBase ≤ x.offset)
      (paired : Paired rest) : Paired (storeEvent .hdmi x :: storeEvent .hdmi x :: rest)

namespace Paired

variable {events more : List Event}

theorem append (h : Paired events) (h' : Paired more) : Paired (events ++ more) := by
  induction h with
  | nil => exact h'
  | other off _ ih => exact .other off ih
  | pair analog _ ih => exact .pair analog ih

theorem of_off (h : ∀ e ∈ events, offAnalog e.request) : Paired events := by
  induction events with
  | nil => exact .nil
  | cons e events ih =>
    obtain ⟨off, others⟩ := List.forall_mem_cons.mp h
    exact .other off (ih others)

theorem doubled {writes : List WordWrite}
    (h : ∀ x ∈ Analog.doubled writes, Register.analogBase ≤ x.offset) :
    Paired ((Analog.doubled writes).map (storeEvent .hdmi)) := by
  induction writes with
  | nil => exact .nil
  | cons x writes ih =>
    obtain ⟨analog, again⟩ := List.forall_mem_cons.mp h
    exact .pair analog (ih (List.forall_mem_cons.mp again).2)

theorem storesOf_off {e : Event} (off : offAnalog e.request) :
    (storesOf [e]).filter (ToAnalog ·) = [] := by
  refine List.filter_eq_nil_iff.mpr fun x hx => ?_
  obtain ⟨⟨request, answer⟩, he, stored⟩ := List.mem_filterMap.mp hx
  obtain rfl := List.mem_singleton.mp he
  cases request with
  | store w offset value =>
    obtain rfl := Option.some.inj stored
    simp only [decide_eq_true_eq]
    rintro ⟨rfl, analog⟩
    exact off analog
  | _ => cases stored

/-- The stores to the analogue part, all else left out, are a list with every entry doubled. -/
theorem stores (h : Paired events) :
    ∃ writes, (storesOf events).filter (ToAnalog ·) = onHdmi (Analog.doubled writes) := by
  induction h with
  | nil => exact ⟨[], rfl⟩
  | @other e rest off _ ih =>
    obtain ⟨writes, stored⟩ := ih
    refine ⟨writes, ?_⟩
    rw [← List.singleton_append, storesOf_append, List.filter_append, storesOf_off off, stored,
      List.nil_append]
  | @pair x rest analog _ ih =>
    obtain ⟨writes, stored⟩ := ih
    have split : storesOf (storeEvent .hdmi x :: storeEvent .hdmi x :: rest) =
        (.hdmi, x) :: (.hdmi, x) :: storesOf rest := rfl
    have counts : ToAnalog (.hdmi, x) := ⟨rfl, analog⟩
    refine ⟨x :: writes, ?_⟩
    rw [split, List.filter_cons_of_pos (by simpa using counts),
      List.filter_cons_of_pos (by simpa using counts), stored]
    rfl

end Paired

/-! ## What every operation keeps -/

section
variable {σ : Type} {board : Program.Board σ} {inv : Assertion σ}

/-- An assertion that bears any store but those to the analogue part. -/
theorem keepsDigital_of_steady (steady : Steady board (Register.analogBase ≤ ·) fun _ => inv) :
    KeepsDigital board (Register.analogBase ≤ ·) inv where
  steady := steady
  packets _ _ below := off_analog below
  mode := off_analog (by decide)
  preamble := off_analog (by decide)
  raster t := steady.keep (only_raster (fun _ below => off_analog below) t) .initial
  digitalAudio codec bits :=
    steady.keep (only_digitalAudio (fun _ _ below => Nat.not_le.mpr below) codec bits) .initial
  enableAudio on := steady.keep (only_enableAudio (off_analog (by decide)) on) .initial

/-- The trace is in pairs. -/
def paired : Assertion σ := fun _ past => Paired past

theorem keepsDigital_paired : KeepsDigital board (Register.analogBase ≤ ·) paired :=
  keepsDigital_of_steady <| .of_trace (P := fun _ => Paired)
    (fun _ _ _ h quiet => h.append (.of_off quiet)) fun _ _ _ h => h

theorem analog_paired {writes : List WordWrite}
    (h : ∀ x ∈ Analog.doubled writes, Register.analogBase ≤ x.offset) :
    Program.Triple board paired (Analog.store writes) fun _ => paired := by
  intro s past hpast
  obtain ⟨outcome, events⟩ := run_storeAll board .hdmi (Analog.doubled writes) s
  refine ⟨(), outcome, ?_⟩
  have more : Paired ((Analog.store writes).run board s).events := events ▸ .doubled h
  exact hpast.append more

theorem keepsAnalog_paired : KeepsAnalog board paired where
  load p := analog_paired (analog_offsets p).1
  off := analog_paired (analog_offsets .hd720).2

theorem perform_paired (op : Operation) : Kept board paired op.perform :=
  keepsDigital_paired.perform op (fun _ => keepsAnalog_paired) fun _ => off_analog (by decide)

/-- The trace holds no store to the analogue part. -/
def untouched : Assertion σ := fun _ past => ∀ e ∈ past, offAnalog e.request

theorem keepsDigital_untouched : KeepsDigital board (Register.analogBase ≤ ·) untouched :=
  keepsDigital_of_steady <| .of_trace (P := fun _ past => ∀ e ∈ past, offAnalog e.request)
    (fun _ _ _ h quiet => List.forall_mem_append.mpr ⟨h, quiet⟩) fun _ _ _ h => h

theorem perform_untouched {op : Operation} (h : ¬ op.ReachesAnalog) :
    Kept board untouched op.perform :=
  keepsDigital_untouched.perform op (fun reaches => absurd reaches h) fun _ =>
    off_analog (by decide)

end

/-- Whatever was asked of the link, wherever it stood, and whatever its registers answered, the
stores to the analogue part have come in pairs, each of two equal stores with nothing between them;
and all of them came from the operations that load it, switch it off, or call one that does. -/
theorem analog_stores_doubled {σ : Type} (board : Program.Board σ) (s : σ) (link : Link) :
    (∀ ops, ∃ link', ((performAll ops link).run board s).outcome = .ok link' ∧
      Paired ((performAll ops link).run board s).events ∧
      ∃ writes, (storesOf ((performAll ops link).run board s).events).filter (ToAnalog ·) =
        onHdmi (Analog.doubled writes)) ∧
    ∀ op : Operation, ¬ op.ReachesAnalog →
      ∀ e ∈ ((op.perform.exec link).run board s).events, offAnalog e.request := by
  constructor
  · intro ops
    obtain ⟨link', outcome, h⟩ := performAll_keeps perform_paired ops link s [] .nil
    exact ⟨link', outcome, h, Paired.stores h⟩
  · intro op others
    obtain ⟨_, -, h⟩ := (perform_untouched others).either link s [] nofun
    exact h

/-- Switching the analogue part off stores to it twice. Switching the link on leaves it alone. -/
theorem enable_off_analog :
    let off := (performAll [.disable] .initial).run Bench.World.board .initial
    (Paired off.events ∧ storesOf off.events = [(.hdmi, ⟨0x5007C, 0⟩), (.hdmi, ⟨0x5007C, 0⟩)]) ∧
    ¬ (Operation.enable .hd720).ReachesAnalog ∧
      ∀ e ∈ (((Operation.enable .hd720).perform.exec ⟨.phyReady, false⟩).run
        Bench.World.board .initial).events, offAnalog e.request := by
  intro off
  obtain ⟨runs, -⟩ := analog_stores_doubled Bench.World.board .initial .initial
  obtain ⟨-, -, paired, -⟩ := runs [.disable]
  have others : ¬ (Operation.enable .hd720).ReachesAnalog := id
  exact ⟨⟨paired, rfl⟩, others,
    (analog_stores_doubled Bench.World.board .initial ⟨.phyReady, false⟩).2 _ others⟩

end Bringup.Link
