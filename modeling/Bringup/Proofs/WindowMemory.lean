import Bringup.Link.Register
import Bringup.Program.Run
import Bringup.Window

/-! Windows of plain memory. After a program, every word holds what was stored to it last; only
the lock status of the transmitter shows what it likes. -/
namespace Bringup

/-- A store to a word of one of the windows. -/
abbrev WordStore := Window × WordWrite

abbrev WindowWords := Window → Nat → UInt32

/-- The word that is stored, and where. -/
def Event.store? : Event → Option WordStore
  | ⟨.store w offset value, _⟩ => some (w, ⟨offset, value⟩)
  | _ => none

/-- The stores of a trace, in order. -/
def storesOf (events : List Event) : List WordStore := events.filterMap Event.store?

@[simp]
theorem storesOf_append (events events' : List Event) :
    storesOf (events ++ events') = storesOf events ++ storesOf events' :=
  List.filterMap_append

/-- Stores carried out in order. -/
def place (words : WindowWords) (stores : List WordStore) : WindowWords :=
  stores.foldl (fun words x w offset =>
    if w = x.1 ∧ offset = x.2.offset then x.2.value else words w offset) words

section
variable {words words' : WindowWords} {stores : List WordStore} {w : Window} {offset : Nat}

theorem place_cons (words : WindowWords) (x : WordStore) (stores : List WordStore) :
    place words (x :: stores) = place (fun w offset =>
      if w = x.1 ∧ offset = x.2.offset then x.2.value else words w offset) stores := rfl

theorem place_append (words : WindowWords) (stores stores' : List WordStore) :
    place words (stores ++ stores') = place (place words stores) stores' :=
  List.foldl_append

/-- A word that no store names is left alone. -/
theorem place_of_spared (h : ∀ x ∈ stores, ¬ (w = x.1 ∧ offset = x.2.offset)) :
    place words stores w offset = words w offset := by
  induction stores generalizing words with
  | nil => rfl
  | cons x stores ih =>
    obtain ⟨hx, hstores⟩ := List.forall_mem_cons.mp h
    rw [place_cons, ih hstores, if_neg hx]

/-- What a word holds afterwards depends on the stores, and on what the word itself held. -/
theorem place_congr (h : words w offset = words' w offset) :
    place words stores w offset = place words' stores w offset := by
  induction stores generalizing words words' with
  | nil => exact h
  | cons x stores ih =>
    refine ih ?_
    dsimp only
    rw [h]

/-- What a word held before it was stored to is forgotten. -/
theorem place_forgets (h : ∃ value, (w, ⟨offset, value⟩) ∈ stores) :
    place words stores w offset = place words' stores w offset := by
  obtain ⟨value, mem⟩ := h
  obtain ⟨before, after, rfl⟩ := List.append_of_mem mem
  rw [place_append, place_append, place_cons, place_cons]
  refine place_congr ?_
  dsimp only
  rw [if_pos ⟨rfl, rfl⟩, if_pos ⟨rfl, rfl⟩]

end

/-! ## The board -/

/-- Words of all windows, and what the lock status is going to show, look by look. -/
structure WindowMemory where
  words : WindowWords
  statuses : Nat → UInt32

namespace WindowMemory

/-- The lock status shows what it likes, whatever is stored there. -/
def look (m : WindowMemory) (w : Window) (offset : Nat) : UInt32 × WindowMemory :=
  if w = .hdmi ∧ offset = Link.Register.analogStatus then
    (m.statuses 0, { m with statuses := fun n => m.statuses (n + 1) })
  else
    (m.words w offset, m)

/-- Windows beside which nothing else is there. -/
def board : Program.Board WindowMemory
  | m, .load w offset => m.look w offset
  | m, .store w offset value => ((), { m with words := place m.words [(w, ⟨offset, value⟩)] })
  | m, .busRead .. => (.error 0, m)
  | m, .busWrite .. => (.error 0, m)
  | m, .detectHost _ => (true, m)
  | m, .setVariable .. => (.ok (), m)
  | m, .loadImage _ => (.ok (), m)
  | m, .wait _ => ((), m)
  | m, .reset .. => ((), m)
  | m, .showDisplay _ => ((), m)
  | m, .log _ => ((), m)

@[simp]
theorem look_words (m : WindowMemory) (w : Window) (offset : Nat) :
    (m.look w offset).2.words = m.words := by
  unfold look
  split <;> rfl

theorem look_plain (m : WindowMemory) {w : Window} {offset : Nat}
    (h : ¬ (w = .hdmi ∧ offset = Link.Register.analogStatus)) :
    m.look w offset = (m.words w offset, m) :=
  if_neg h

/-- One request changes the words by its store, if it is one. -/
theorem board_words (m : WindowMemory) (r : Request) :
    (board m r).2.words = place m.words (storesOf [⟨r, (board m r).1⟩]) := by
  cases r with
  | load w offset => exact look_words m w offset
  | _ => rfl

/-- After a program, the words are those before it with its stores carried out. -/
theorem run_words {α : Type} (p : Program α) (m : WindowMemory) :
    (p.run board m).board.words = place m.words (storesOf (p.run board m).events) := by
  induction p generalizing m with
  | done | fault => rfl
  | ask r next ih =>
    have split : storesOf (((Program.ask r next).run board m).events) =
        storesOf [⟨r, (board m r).1⟩] ++
          storesOf (((next (board m r).1).run board (board m r).2).events) :=
      storesOf_append [_] _
    rw [split, place_append, ← board_words]
    exact ih _ _

end WindowMemory

end Bringup
