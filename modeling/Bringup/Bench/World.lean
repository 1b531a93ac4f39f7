import Bringup.Bench.Mapping
import Bringup.Bench.PowerChip

namespace Bringup.Bench

/-- A register window on the bench: words, and values they are yet to show. -/
structure WordWindow where
  words : Words
  queues : Queues Nat UInt32
  deriving DecidableEq, Repr

/-- Words and values to show, put into a window behind everyone's back. -/
structure WindowChange where
  words : List (Nat × UInt32)
  queues : List (Nat × List UInt32)
  deriving DecidableEq, Repr

namespace WordWindow

def initial : WordWindow := ⟨.zero, .empty⟩

def poke (w : WordWindow) (c : WindowChange) : WordWindow where
  words := c.words.foldl (fun words x => words.set x.1 x.2) w.words
  queues := c.queues.foldl (fun queues x => queues.put x.1 x.2) w.queues

def look (w : WordWindow) (offset : Nat) : UInt32 × WordWindow :=
  match w.queues.pop? offset with
  | none => (w.words.get offset, w)
  | some (word, queues) => (word, { queues, words := w.words.set offset word })

def store (w : WordWindow) (offset : Nat) (word : UInt32) : WordWindow :=
  { w with words := w.words.set offset word }

end WordWindow

/-- Everything around the programs: the power chip, the windows, answers of the host detector,
variables the environment refuses to set, and what loading an image comes to. -/
structure World where
  chip : PowerChip
  hdmi : WordWindow
  displayTop : WordWindow
  alive : WordWindow
  hosts : List Bool
  refused : List String
  image : Except String Unit

namespace World

def initial : World := ⟨.initial, .initial, .initial, .initial, [], [], .ok ()⟩

def window (w : World) : Window → WordWindow
  | .hdmi => w.hdmi
  | .displayTop => w.displayTop
  | .alive => w.alive

def setWindow (w : World) (which : Window) (window : WordWindow) : World :=
  match which with
  | .hdmi => { w with hdmi := window }
  | .displayTop => { w with displayTop := window }
  | .alive => { w with alive := window }

/-- The detector's last answer stays; with none given it finds a host. -/
def nextHost : List Bool → Bool × List Bool
  | [] => (true, [])
  | [answer] => (answer, [answer])
  | answer :: rest => (answer, rest)

/-- The environment says no with the name of the variable. -/
def setVariable (w : World) (name : String) : Except String Unit :=
  if name ∈ w.refused then .error name else .ok ()

def board : Program.Board World
  | w, .busRead _ start count =>
      let (answer, chip) := w.chip.read start count
      (answer, { w with chip })
  | w, .busWrite _ start bytes =>
      let (answer, chip) := w.chip.write start bytes
      (answer, { w with chip })
  | w, .load which offset =>
      let (answer, window) := (w.window which).look offset
      (answer, w.setWindow which window)
  | w, .store which offset value => ((), w.setWindow which ((w.window which).store offset value))
  | w, .detectHost _ =>
      let (answer, hosts) := nextHost w.hosts
      (answer, { w with hosts })
  | w, .setVariable name _ => (w.setVariable name, w)
  | w, .loadImage _ => (w.image, w)
  | w, .wait _ => ((), w)
  | w, .reset _ _ => ((), w)
  | w, .showDisplay _ => ((), w)
  | w, .log _ => ((), w)

end World

/-- A program run on the bench. -/
def run {α : Type} (p : Program α) (w : World) : Program.Run World α := p.run World.board w

end Bringup.Bench
