import Bringup.Bench.World
import Bringup.Board.Splash

/-! The address of the frame buffer as it is published. Every number is written with lower-case
digits and no zero in front of them, and is read back from these. So an address never outgrows the
buffer that it is written to, and two addresses never share a text. -/
namespace Bringup

namespace Hex

/-! ## Numerals -/

/-- The value of a digit. Letters of either case are digits. -/
def value? (c : Char) : Option Nat :=
  if '0' ≤ c ∧ c ≤ '9' then some (c.toNat - '0'.toNat)
  else if 'a' ≤ c ∧ c ≤ 'f' then some (10 + (c.toNat - 'a'.toNat))
  else if 'A' ≤ c ∧ c ≤ 'F' then some (10 + (c.toNat - 'A'.toNat))
  else none

/-- Read on after a number. -/
def readOn (n : Nat) : List Char → Option Nat
  | [] => some n
  | c :: text => (value? c).bind fun d => readOn (16 * n + d) text

/-- The number that a text stands for in base sixteen. There has to be a digit. -/
def read? : List Char → Option Nat
  | [] => none
  | c :: text => readOn 0 (c :: text)

/-- A digit that is no capital letter. -/
def Lower (c : Char) : Prop := '0' ≤ c ∧ c ≤ '9' ∨ 'a' ≤ c ∧ c ≤ 'f'

instance (c : Char) : Decidable (Lower c) := inferInstanceAs (Decidable (_ ∨ _))

/-- How a number is written. -/
structure Writes (digits : List Char) (n : Nat) : Prop where
  lower : ∀ c ∈ digits, Lower c
  leading : digits.head? = some '0' → digits = ['0']
  zero : n = 0 → digits = ['0']
  reads : read? digits = some n

theorem readOn_append (n : Nat) (text more : List Char) :
    readOn n (text ++ more) = (readOn n text).bind fun m => readOn m more := by
  induction text generalizing n with
  | nil => rfl
  | cons c text ih =>
    simp only [List.cons_append, readOn, Option.bind_assoc]
    congr
    funext d
    exact ih _

theorem value?_digitChar : ∀ d < 16, value? d.digitChar = some d := by decide

theorem lower_digitChar : ∀ d < 16, Lower d.digitChar := by decide

theorem Writes.ne_nil {digits : List Char} {n : Nat} (h : Writes digits n) : digits ≠ [] := by
  rintro rfl
  cases h.reads

theorem writes_digit {d : Nat} (h : d < 16) : Writes [d.digitChar] d := by
  constructor
  · simpa using lower_digitChar d h
  · simp
  · rintro rfl
    rfl
  · simp [read?, readOn, value?_digitChar d h]

/-- One digit more is sixteen times as much and the digit. It is never put behind a lone zero. -/
theorem Writes.snoc {digits : List Char} {n d : Nat} (h : Writes digits n) (positive : 0 < n)
    (hd : d < 16) : Writes (digits ++ [d.digitChar]) (16 * n + d) := by
  obtain ⟨c, others, rfl⟩ := List.exists_cons_of_ne_nil h.ne_nil
  have first : c ≠ '0' := by
    rintro rfl
    have reads := h.reads
    rw [h.leading rfl] at reads
    cases reads
    omega
  constructor
  · intro x hx
    rcases List.mem_append.mp hx with earlier | last
    · exact h.lower x earlier
    · rw [List.mem_singleton.mp last]
      exact lower_digitChar d hd
  · intro zero
    exact absurd (Option.some.inj zero) first
  · omega
  · have reads : readOn 0 (c :: others) = some n := h.reads
    change readOn 0 ((c :: others) ++ [d.digitChar]) = _
    rw [readOn_append, reads]
    simp [readOn, value?_digitChar d hd]

theorem writes_toDigits (n : Nat) : Writes (Nat.toDigits 16 n) n := by
  induction n using Nat.strongRecOn with
  | ind n ih =>
    rw [Nat.toDigits_eq_if (by decide)]
    split
    · exact writes_digit ‹_›
    · -- The digits before the last are those of a smaller number, which is not zero.
      have more := (ih (n / 16) (by omega)).snoc (by omega) (Nat.mod_lt n (by decide : 0 < 16))
      rwa [Nat.div_add_mod] at more

theorem Lower.utf8Size {c : Char} (h : Lower c) : c.utf8Size = 1 := by
  rw [Char.utf8Size_eq_one_iff]
  rcases h with ⟨-, digit⟩ | ⟨-, letter⟩
  · exact UInt32.le_trans digit (by decide)
  · exact UInt32.le_trans letter (by decide)

/-- Digits take a byte each. -/
theorem utf8ByteSize_of_lower {digits : List Char} (h : ∀ c ∈ digits, Lower c) :
    (String.ofList digits).utf8ByteSize = digits.length := by
  induction digits with
  | nil => rfl
  | cons c digits ih =>
    obtain ⟨hc, hdigits⟩ := List.forall_mem_cons.mp h
    rw [String.ofList_cons, String.utf8ByteSize_append, String.utf8ByteSize_singleton, hc.utf8Size,
      ih hdigits, List.length_cons, Nat.add_comm]

end Hex

/-! ## Texts of bounded size -/

/-- A text that never takes more than `capacity` bytes. -/
structure Buffer (capacity : Nat) where
  text : String
  fits : text.utf8ByteSize ≤ capacity

namespace Buffer

variable {capacity : Nat}

def empty : Buffer capacity := ⟨"", Nat.zero_le _⟩

/-- Write a piece behind what is there, if it fits as a whole. -/
def push? (b : Buffer capacity) (piece : String) : Option (Buffer capacity) :=
  if fits : (b.text ++ piece).utf8ByteSize ≤ capacity then some ⟨b.text ++ piece, fits⟩ else none

theorem push?_eq_some_iff {b b' : Buffer capacity} {piece : String} :
    b.push? piece = some b' ↔ b'.text = b.text ++ piece := by
  obtain ⟨text, fits⟩ := b'
  unfold push?
  constructor
  · intro h
    split at h
    · cases h
      rfl
    · cases h
  · rintro rfl
    exact dif_pos fits

/-- Pieces fit one after another just when they fit together. -/
theorem pushAll_eq_some_iff {b b' : Buffer capacity} {pieces : List String} :
    pieces.foldlM push? b = some b' ↔ b'.text = b.text ++ String.join pieces := by
  induction pieces generalizing b with
  | nil =>
    obtain ⟨text, fits⟩ := b
    obtain ⟨text', fits'⟩ := b'
    rw [List.foldlM_nil, String.join_nil, String.append_empty]
    constructor
    · intro h
      cases h
      rfl
    · rintro rfl
      rfl
  | cons piece pieces ih =>
    rw [List.foldlM_cons, String.join_cons, ← String.append_assoc]
    constructor
    · intro h
      obtain ⟨next, hnext, later⟩ := Option.bind_eq_some_iff.mp h
      rw [ih.mp later, push?_eq_some_iff.mp hnext]
    · intro whole
      -- What has been written by now is no longer than what is there in the end.
      have fits : (b.text ++ piece).utf8ByteSize ≤ capacity := by
        have all := b'.fits
        rw [whole, String.utf8ByteSize_append] at all
        omega
      exact Option.bind_eq_some_iff.mpr ⟨⟨_, fits⟩, push?_eq_some_iff.mpr rfl, ih.mpr whole⟩

end Buffer

namespace Board

/-! ## Texts of addresses -/

/-- The text stands for the address: the mark of the base and the digits, in a few bytes. -/
structure NamesAddress (text : String) (address : UInt64) : Prop where
  numeral : ∃ digits, text = "0x" ++ String.ofList digits ∧ Hex.Writes digits address.toNat
  length : text.length ≤ 18
  size : text.utf8ByteSize ≤ 18

theorem addressText_names (address : UInt64) : NamesAddress (addressText address) address := by
  have writes := Hex.writes_toDigits address.toNat
  have short : (Nat.toDigits 16 address.toNat).length ≤ 16 :=
    (Nat.length_toDigits_le_iff (by decide) (by decide)).mpr address.toNat_lt
  have length : (addressText address).length = 2 + (Nat.toDigits 16 address.toNat).length := by
    rw [addressText, Hex.digits, String.length_append]
    exact congrArg (2 + ·) String.length_ofList
  have size : (addressText address).utf8ByteSize = 2 + (Nat.toDigits 16 address.toNat).length := by
    rw [addressText, Hex.digits, String.utf8ByteSize_append, Hex.utf8ByteSize_of_lower writes.lower]
    rfl
  constructor
  · exact ⟨_, rfl, writes⟩
  · omega
  · omega

/-- The widest address fills its buffer. -/
example : addressText 0xFFFFFFFFFFFFFFFF = "0xffffffffffffffff" := by decide +kernel

/-- The digits are read back, so they are of one address only. -/
theorem NamesAddress.unique {text : String} {a b : UInt64} (ha : NamesAddress text a)
    (hb : NamesAddress text b) : a = b := by
  obtain ⟨digits, rfl, reads⟩ := ha.numeral
  obtain ⟨digits', same, reads'⟩ := hb.numeral
  obtain rfl := String.ofList_injective ((String.append_right_inj _).mp same)
  exact UInt64.toNat_inj.mp (Option.some.inj (reads.reads.symm.trans reads'.reads))

/-! ## Publishing -/

/-- The ways for the splash step to end, with everything that it asks of the board. -/
inductive Publishes {σ : Type} (board : Program.Board σ) (text : String) (s : σ) :
    Program.Run σ (Except SplashError Unit) → Prop
  | unloaded {message : String} {s' : σ}
      (load : board s (.loadImage splashLocations) = (.error message, s')) :
      Publishes board text s ⟨.ok (.error (.load message)),
        [⟨.loadImage splashLocations, .error message⟩], s'⟩
  | refused {message : String} {s' s'' : σ}
      (load : board s (.loadImage splashLocations) = (.ok (), s'))
      (set : board s' (.setVariable "fb_addr" text) = (.error message, s'')) :
      Publishes board text s ⟨.ok (.error (.environment message)),
        [⟨.loadImage splashLocations, .ok ()⟩, ⟨.setVariable "fb_addr" text, .error message⟩], s''⟩
  | published {s' s'' : σ}
      (load : board s (.loadImage splashLocations) = (.ok (), s'))
      (set : board s' (.setVariable "fb_addr" text) = (.ok (), s'')) :
      Publishes board text s ⟨.ok (.ok ()),
        [⟨.loadImage splashLocations, .ok ()⟩, ⟨.setVariable "fb_addr" text, .ok ()⟩], s''⟩

/-- The environment is asked to set the variable. -/
def Sets (events : List Event) (name value : String) : Prop :=
  ∃ answer, ⟨.setVariable name value, answer⟩ ∈ events

section
variable {σ : Type} {board : Program.Board σ} {s : σ}

theorem prepareSplash_run (c : Context) : (prepareSplash c).run = (do
    match ← Program.loadImage splashLocations with
    | .error message => return .error (.load message)
    | .ok () =>
        match ← Program.setVariable "fb_addr" (addressText c.frameBuffer) with
        | .error message => return .error (.environment message)
        | .ok () => return .ok ()) := by
  refine congrArg (Program.ask _) (funext fun loaded => ?_)
  cases loaded with
  | error => rfl
  | ok =>
    refine congrArg (Program.ask _) (funext fun answer => ?_)
    cases answer <;> rfl

theorem prepareSplash_publishes (c : Context) :
    Publishes board (addressText c.frameBuffer) s ((prepareSplash c).run.run board s) := by
  rw [prepareSplash_run, Program.run_bind, Program.run_loadImage, Program.single,
    Program.Run.andThen_ok]
  rcases load : board s (.loadImage splashLocations) with ⟨_ | _, s'⟩
  · exact .unloaded load
  · dsimp only
    rw [Program.run_bind, Program.run_setVariable, Program.single, Program.Run.andThen_ok]
    rcases set : board s' (.setVariable "fb_addr" (addressText c.frameBuffer)) with ⟨_ | _, s''⟩
    · exact .refused load set
    · exact .published load set

theorem Publishes.sets {text name value : String} {run : Program.Run σ (Except SplashError Unit)}
    (h : Publishes board text s run) (sets : Sets run.events name value) :
    name = "fb_addr" ∧ value = text := by
  obtain ⟨answer, made⟩ := sets
  cases h with
  | unloaded => simp at made
  | refused | published => simp_all

end

/-! ## With a buffer -/

/-- Why the splash step ends if it writes the address to a buffer. -/
inductive WriteError where
  | splash (e : SplashError)
  /-- The address does not fit the buffer. -/
  | format
  deriving DecidableEq, Repr

/-- The splash step with a buffer of so many bytes for the text of the address. -/
def prepareSplashWithin (capacity : Nat) (c : Context) : ExceptT WriteError Program Unit := do
  match ← Program.loadImage splashLocations with
  | .error message => throw (.splash (.load message))
  | .ok () =>
      let pieces := ["0x", Hex.digits c.frameBuffer.toNat]
      match pieces.foldlM Buffer.push? (.empty : Buffer capacity) with
      | none => throw .format
      | some buffer =>
          match ← Program.setVariable "fb_addr" buffer.text with
          | .error message => throw (.splash (.environment message))
          | .ok () => return ()

theorem prepareSplashWithin_eq {capacity : Nat} {c : Context}
    (h : (addressText c.frameBuffer).utf8ByteSize ≤ capacity) :
    prepareSplashWithin capacity c = (prepareSplash c).adapt .splash := by
  have written : ["0x", Hex.digits c.frameBuffer.toNat].foldlM Buffer.push? Buffer.empty =
      some (⟨_, h⟩ : Buffer capacity) := by
    rw [Buffer.pushAll_eq_some_iff]
    simp [addressText, Buffer.empty]
  unfold prepareSplashWithin
  simp only [written]
  apply ExceptT.ext
  rw [ExceptT.run_adapt]
  refine congrArg (Program.ask _) (funext fun loaded => ?_)
  cases loaded with
  | error => rfl
  | ok =>
    refine congrArg (Program.ask _) (funext fun answer => ?_)
    cases answer <;> rfl

/-- The splash step asks the board to load the image. Where that fails, its error is the result and
the environment is left alone; otherwise there is one call to the environment, for `fb_addr` and the
text of the address. No address is too long for a buffer of eighteen bytes, and different addresses
are never published under the same text. -/
theorem frame_buffer_published :
    (∀ {σ : Type} (board : Program.Board σ) (c : Context) (s : σ),
      ∃ text, NamesAddress text c.frameBuffer ∧
        Publishes board text s ((prepareSplash c).run.run board s)) ∧
    (∀ c, prepareSplashWithin 18 c = (prepareSplash c).adapt .splash) ∧
    ∀ {σ τ : Type} (board : Program.Board σ) (board' : Program.Board τ) (c c' : Context) (s : σ)
      (s' : τ), c.frameBuffer ≠ c'.frameBuffer →
      ∀ name text, Sets ((prepareSplash c).run.run board s).events name text →
        ¬ Sets ((prepareSplash c').run.run board' s').events name text := by
  refine ⟨?_, ?_, ?_⟩
  · intro σ board c s
    exact ⟨_, addressText_names c.frameBuffer, prepareSplash_publishes c⟩
  · intro c
    exact prepareSplashWithin_eq (addressText_names c.frameBuffer).size
  · intro σ τ board board' c c' s s' differ name text sets sets'
    obtain ⟨-, own⟩ := (prepareSplash_publishes c).sets sets
    obtain ⟨-, other⟩ := (prepareSplash_publishes c').sets sets'
    have same : addressText c'.frameBuffer = addressText c.frameBuffer := other.symm.trans own
    have names := addressText_names c'.frameBuffer
    rw [same] at names
    exact differ ((addressText_names c.frameBuffer).unique names)

/-- Two addresses of which one has the digits of the other and a zero more, on a bench that takes
everything. -/
theorem shorter_address_not_published :
    let context (address : UInt64) : Context := { Context.initial with frameBuffer := address }
    let events (address : UInt64) : List Event :=
      (Bench.run (prepareSplash (context address)).run Bench.World.initial).events
    (0x46000000 : UInt64) ≠ 0x4600000 ∧ Sets (events 0x46000000) "fb_addr" "0x46000000" ∧
      ¬ Sets (events 0x4600000) "fb_addr" "0x46000000" := by
  intro context events
  have differ : (0x46000000 : UInt64) ≠ 0x4600000 := by decide
  have text : addressText 0x46000000 = "0x46000000" := by decide +kernel
  have published : Sets (events 0x46000000) "fb_addr" "0x46000000" :=
    text ▸ ⟨.ok (), List.mem_cons_of_mem _ (List.mem_singleton.mpr rfl)⟩
  have apart := frame_buffer_published.2.2 Bench.World.board Bench.World.board
    (context 0x46000000) (context 0x4600000) .initial .initial differ
  exact ⟨differ, published, apart _ _ published⟩

end Board

end Bringup
