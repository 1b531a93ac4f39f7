import Bringup.Chip.Bus
import Bringup.Link.State
import Bringup.Program.Run

/-! Hoare triples about what a board has been through. An assertion speaks of the board's state
and of all events so far; a triple also says that the program ends without a fault. -/
namespace Bringup

abbrev Assertion (σ : Type) := σ → List Event → Prop

/-- One assertion for values, and another for errors. -/
def Assertion.ofResult {σ ε α : Type} (value : α → Assertion σ) (error : ε → Assertion σ) :
    Except ε α → Assertion σ
  | .ok x => value x
  | .error e => error e

namespace Program

variable {σ α β : Type}

/-- From every state and past that meet `pre`, the program ends with a value, and `post` holds of
it, of the state then, and of the past with the program's events added. -/
def Triple (board : Board σ) (pre : Assertion σ) (p : Program α) (post : α → Assertion σ) : Prop :=
  ∀ s past, pre s past → ∃ x, (p.run board s).outcome = .ok x ∧
    post x (p.run board s).board (past ++ (p.run board s).events)

namespace Triple

variable {board : Board σ} {pre pre' : Assertion σ} {post post' : α → Assertion σ}

theorem pure {x : α} (h : ∀ s past, pre s past → post x s past) :
    Triple board pre (Pure.pure x) post := by
  intro s past hpre
  refine ⟨x, rfl, ?_⟩
  rw [run_pure, List.append_nil]
  exact h s past hpre

theorem bind {p : Program α} {f : α → Program β} {mid : α → Assertion σ} {post : β → Assertion σ}
    (first : Triple board pre p mid) (rest : ∀ x, Triple board (mid x) (f x) post) :
    Triple board pre (p >>= f) post := by
  intro s past hpre
  obtain ⟨x, hx, hmid⟩ := first s past hpre
  obtain ⟨y, hy, hpost⟩ := rest x _ _ hmid
  have hrun : (p >>= f).run board s = ⟨((f x).run board (p.run board s).board).outcome,
      (p.run board s).events ++ ((f x).run board (p.run board s).board).events,
      ((f x).run board (p.run board s).board).board⟩ := by
    rw [run_bind, Run.andThen, hx]
  rw [hrun]
  refine ⟨y, hy, ?_⟩
  rw [← List.append_assoc]
  exact hpost

theorem conseq {p : Program α} (h : Triple board pre p post)
    (before : ∀ s past, pre' s past → pre s past)
    (after : ∀ x s past, post x s past → post' x s past) : Triple board pre' p post' := by
  intro s past hpre
  obtain ⟨x, hx, hpost⟩ := h s past (before s past hpre)
  exact ⟨x, hx, after x _ _ hpost⟩

theorem map {p : Program α} {post : β → Assertion σ} (g : α → β)
    (h : Triple board pre p fun x => post (g x)) : Triple board pre (g <$> p) post := by
  rw [map_eq_pure_bind]
  exact h.bind fun x => .pure fun _ _ hpost => hpost

/-- A fact beside the assertion is one about the program, too. -/
theorem of_fact {φ : Prop} {p : Program α} (h : φ → Triple board pre p post) :
    Triple board (fun s past => φ ∧ pre s past) p post :=
  fun s past ⟨fact, hpre⟩ => h fact s past hpre

/-- A program that may stop with an error goes on only from a value. -/
theorem andThen {ε : Type} {p : ExceptT ε Program α} {f : α → ExceptT ε Program β}
    {mid : α → Assertion σ} {post : Except ε β → Assertion σ}
    (first : Triple board pre p.run (.ofResult mid fun e => post (.error e)))
    (rest : ∀ x, Triple board (mid x) (f x).run post) : Triple board pre (p >>= f).run post := by
  rw [ExceptT.run_bind]
  refine first.bind fun result => ?_
  cases result with
  | ok x => exact rest x
  | error e => exact .pure fun _ _ h => h

/-- Two triples about one program. Both speak of the same run. -/
theorem both {p : Program α} (h : Triple board pre p post) (h' : Triple board pre' p post') :
    Triple board (fun s past => pre s past ∧ pre' s past) p
      fun x s past => post x s past ∧ post' x s past := by
  rintro s past ⟨hpre, hpre'⟩
  obtain ⟨x, outcome, hpost⟩ := h s past hpre
  obtain ⟨y, outcome', hpost'⟩ := h' s past hpre'
  obtain rfl := Except.ok.inj (outcome.symm.trans outcome')
  exact ⟨x, outcome, hpost, hpost'⟩

/-- The run from a start at which nothing has happened. -/
theorem ends {p : Program α} (h : Triple board pre p post) {s : σ} (hpre : pre s []) :
    ∃ x events s', p.run board s = ⟨.ok x, events, s'⟩ ∧ post x s' events := by
  obtain ⟨x, outcome, hpost⟩ := h s [] hpre
  exact ⟨x, (p.run board s).events, (p.run board s).board, by rw [← outcome], hpost⟩

/-- One request. -/
theorem ask {r : Request} {post : r.Answer → Assertion σ}
    (h : ∀ s past, pre s past →
      post (board s r).1 (board s r).2 (past ++ [⟨r, (board s r).1⟩])) :
    Triple board pre (.ask r .done) post := by
  intro s past hpre
  exact ⟨(board s r).1, rfl, h s past hpre⟩

end Triple

/-! ## Programs that keep to some requests -/

/-- The program ends without a fault, and asks for nothing but what is allowed, whatever the
answers are. -/
def Only (ok : Request → Prop) : Program α → Prop
  | done _ => True
  | fault _ => False
  | ask r next => ok r ∧ ∀ answer, (next answer).Only ok

variable {ok : Request → Prop}

theorem Only.bind {p : Program α} {f : α → Program β} (hp : p.Only ok)
    (hf : ∀ x, (f x).Only ok) : (p >>= f).Only ok := by
  induction p with
  | done x => exact hf x
  | fault => exact hp
  | ask r next ih => exact ⟨hp.1, fun answer => ih answer (hp.2 answer)⟩

theorem Only.request {r : Request} (h : ok r) : (ask r done).Only ok := ⟨h, fun _ => trivial⟩

theorem Only.forM {xs : List α} {f : α → Program Unit} (h : ∀ x ∈ xs, (f x).Only ok) :
    (xs.forM f).Only ok := by
  induction xs with
  | nil => trivial
  | cons x xs ih =>
    obtain ⟨hx, hxs⟩ := List.forall_mem_cons.mp h
    exact hx.bind fun _ => ih hxs

theorem Only.ends {p : Program α} (h : p.Only ok) (board : Board σ) (s : σ) :
    ∃ x, (p.run board s).outcome = .ok x ∧ ∀ e ∈ (p.run board s).events, ok e.request := by
  induction p generalizing s with
  | done x => exact ⟨x, rfl, fun _ he => absurd he List.not_mem_nil⟩
  | fault => exact absurd h id
  | ask r next ih =>
    obtain ⟨hr, hnext⟩ := h
    obtain ⟨x, hx, hevents⟩ := ih (board s r).1 (hnext _) (board s r).2
    exact ⟨x, hx, List.forall_mem_cons.mpr ⟨hr, hevents⟩⟩

theorem Only.mono {ok' : Request → Prop} {p : Program α} (h : p.Only ok)
    (weaker : ∀ r, ok r → ok' r) : p.Only ok' := by
  induction p with
  | done => trivial
  | fault => exact h
  | ask r next ih => exact ⟨weaker r h.1, fun answer => ih answer (h.2 answer)⟩

theorem Only.map {p : Program α} (h : p.Only ok) (g : α → β) : (g <$> p).Only ok := by
  rw [map_eq_pure_bind]
  exact h.bind fun _ => trivial

/-- What held of every request so far still does. -/
theorem Only.all {board : Board σ} {p : Program α} (h : p.Only ok) :
    Triple board (fun _ past => ∀ e ∈ past, ok e.request) p
      fun _ _ past => ∀ e ∈ past, ok e.request := by
  intro s past before
  obtain ⟨x, outcome, allowed⟩ := h.ends board s
  exact ⟨x, outcome, List.forall_mem_append.mpr ⟨before, allowed⟩⟩

namespace Only

variable {ε : Type}

theorem returns (x : α) : (Pure.pure x : ExceptT ε Program α).run.Only ok := trivial

theorem lift {p : Program α} (h : p.Only ok) : (liftM p : ExceptT ε Program α).run.Only ok :=
  h.map Except.ok

/-- An error leaves out the rest. -/
theorem andThen {p : ExceptT ε Program α} {f : α → ExceptT ε Program β} (first : p.run.Only ok)
    (rest : ∀ x, (f x).run.Only ok) : (p >>= f).run.Only ok := by
  rw [ExceptT.run_bind]
  refine first.bind fun result => ?_
  cases result with
  | ok x => exact rest x
  | error e => trivial

theorem collect {xs : List α} {f : α → ExceptT ε Program β} (h : ∀ x ∈ xs, (f x).run.Only ok) :
    (xs.mapM f).run.Only ok := by
  induction xs with
  | nil => trivial
  | cons x xs ih =>
    obtain ⟨hx, hxs⟩ := List.forall_mem_cons.mp h
    rw [List.mapM_cons]
    exact hx.andThen fun _ => (ih hxs).andThen fun _ => trivial

theorem each {xs : List α} {f : α → ExceptT ε Program Unit} (h : ∀ x ∈ xs, (f x).run.Only ok) :
    (xs.forM f).run.Only ok := by
  induction xs with
  | nil => trivial
  | cons x xs ih =>
    obtain ⟨hx, hxs⟩ := List.forall_mem_cons.mp h
    exact hx.andThen fun _ => ih hxs

end Only

/-- The program asks for nothing but what is allowed, whatever the answers are. Unlike one that
keeps to some requests only, it may end in a fault. -/
def Asks (ok : Request → Prop) : Program α → Prop
  | done _ => True
  | fault _ => True
  | ask r next => ok r ∧ ∀ answer, (next answer).Asks ok

theorem Only.asks {p : Program α} (h : p.Only ok) : p.Asks ok := by
  induction p with
  | done => trivial
  | fault => trivial
  | ask r next ih => exact ⟨h.1, fun answer => ih answer (h.2 answer)⟩

namespace Asks

theorem bind {p : Program α} {f : α → Program β} (hp : p.Asks ok) (hf : ∀ x, (f x).Asks ok) :
    (p >>= f).Asks ok := by
  induction p with
  | done x => exact hf x
  | fault => trivial
  | ask r next ih => exact ⟨hp.1, fun answer => ih answer (hp.2 answer)⟩

theorem events {p : Program α} (h : p.Asks ok) (board : Board σ) (s : σ) :
    ∀ e ∈ (p.run board s).events, ok e.request := by
  induction p generalizing s with
  | done | fault => exact fun e he => absurd he List.not_mem_nil
  | ask r next ih => exact List.forall_mem_cons.mpr ⟨h.1, ih _ (h.2 _) _⟩

/-- Arithmetic asks for nothing, whatever it comes to. -/
theorem checked (c : Checked α) : (liftM c : Program α).Asks ok := by
  cases c <;> trivial

variable {ε : Type}

theorem lift {p : Program α} (h : p.Asks ok) : (liftM p : ExceptT ε Program α).run.Asks ok := by
  change (Except.ok <$> p).Asks ok
  rw [map_eq_pure_bind]
  exact h.bind fun _ => trivial

/-- An error leaves out the rest. -/
theorem andThen {p : ExceptT ε Program α} {f : α → ExceptT ε Program β} (first : p.run.Asks ok)
    (rest : ∀ x, (f x).run.Asks ok) : (p >>= f).run.Asks ok := by
  rw [ExceptT.run_bind]
  refine first.bind fun result => ?_
  cases result with
  | ok x => exact rest x
  | error e => trivial

end Asks

end Program

/-! ## Transfers that are allowed -/

namespace Chip.Device

variable {ok : Request → Prop} (d : Device) (logged : ∀ entry, ok (.log entry)) {r : UInt8}
include logged

theorem readByte_only (asked : ok (.busRead d.address r 1)) : (d.readByte r).run.Only ok := by
  have found : (d.read r 1).run.Only ok := by
    refine ⟨asked, fun answer => ?_⟩
    cases answer with
    | ok bytes => trivial
    | error code => exact ⟨logged _, fun _ => trivial⟩
  exact found.andThen fun _ => trivial

theorem writeByte_only {byte : UInt8} (asked : ok (.busWrite d.address r [byte])) :
    (d.writeByte r byte).run.Only ok := by
  refine ⟨asked, fun answer => ?_⟩
  cases answer with
  | ok => trivial
  | error code => exact ⟨logged _, fun _ => trivial⟩

/-- Which byte is written depends on the one that was read. -/
theorem update_only {f : Field} (looked : ok (.busRead d.address f.register 1))
    (stored : ∀ byte, ok (.busWrite d.address f.register [byte])) (bits : UInt8) :
    (d.update f bits).run.Only ok := by
  unfold update
  split
  · trivial
  · refine (d.readByte_only logged looked).andThen fun current => ?_
    dsimp only
    split
    · trivial
    · exact (d.writeByte_only logged (stored _)).andThen fun _ => trivial

end Chip.Device

/-! ## Actions -/

namespace Link.Action

variable {σ α β : Type}

/-- The action as a triple from wherever the link stands. An error ends it, and then `fail` has to
hold. -/
def Triple (board : Program.Board σ) (fail pre : Link → Assertion σ) (a : Action α)
    (post : α → Link → Assertion σ) : Prop :=
  ∀ link, Program.Triple board (pre link) (a.exec link) fun r =>
    match r.1 with
    | .ok x => post x r.2
    | .error _ => fail r.2

namespace Triple

variable {board : Program.Board σ} {fail pre pre' : Link → Assertion σ}
  {post post' : α → Link → Assertion σ}

theorem pure {x : α} (h : ∀ link s past, pre link s past → post x link s past) :
    Triple board fail pre (Pure.pure x) post :=
  fun link => .pure (h link)

theorem throw {e : LinkError} (h : ∀ link s past, pre link s past → fail link s past) :
    Triple board fail pre (throw e : Action α) post :=
  fun link => .pure (h link)

theorem bind {a : Action α} {f : α → Action β} {mid : α → Link → Assertion σ}
    {post : β → Link → Assertion σ} (first : Triple board fail pre a mid)
    (rest : ∀ x, Triple board fail (mid x) (f x) post) :
    Triple board fail pre (a >>= f) post := by
  intro link
  rw [exec_bind]
  refine (first link).bind fun r => ?_
  cases hr : r.1 with
  | ok x => simpa [hr] using rest x r.2
  | error e => exact .pure fun s past hfail => by simpa [hr] using hfail

theorem conseq {a : Action α} (h : Triple board fail pre a post)
    (before : ∀ link s past, pre' link s past → pre link s past)
    (after : ∀ x link s past, post x link s past → post' x link s past) :
    Triple board fail pre' a post' := by
  intro link
  refine (h link).conseq (before link) fun r s past hr => ?_
  cases hx : r.1 with
  | ok x =>
    rw [hx] at hr
    exact after x r.2 s past hr
  | error e =>
    rw [hx] at hr
    exact hr

/-- A fact beside the assertion is one about the action, too. -/
theorem of_fact {φ : Prop} {a : Action α} (h : φ → Triple board fail pre a post) :
    Triple board fail (fun link s past => φ ∧ pre link s past) a post :=
  fun link => .of_fact fun fact => h fact link

theorem look {post : Link → Link → Assertion σ}
    (h : ∀ link s past, pre link s past → post link link s past) :
    Triple board fail pre get post :=
  fun link => .pure (h link)

theorem change {post : Unit → Link → Assertion σ} {f : Link → Link}
    (h : ∀ link s past, pre link s past → post () (f link) s past) :
    Triple board fail pre (modify f) post :=
  fun link => .pure (h link)

theorem lift {p : Program α} (h : ∀ link, Program.Triple board (pre link) p fun x => post x link) :
    Triple board fail pre (liftM p) post := by
  intro link
  rw [exec_liftM]
  exact .map _ (h link)

/-- Arithmetic that comes to something does nothing to the link. -/
theorem checked {c : Checked α} {x : α} (hc : c = .ok x)
    (h : ∀ link s past, pre link s past → post x link s past) :
    Triple board fail pre (liftM c) post := by
  subst hc
  exact fun link => .pure (h link)

/-- What holds after success and after an error holds after the action. -/
theorem either {inv : Link → Assertion σ} {a : Action α}
    (h : Triple board inv pre a fun _ => inv) (link : Link) :
    Program.Triple board (pre link) (a.exec link) fun r => inv r.2 := by
  refine (h link).conseq (fun _ _ hpre => hpre) fun r s past hr => ?_
  cases hx : r.1 with
  | ok x =>
    rw [hx] at hr
    exact hr
  | error e =>
    rw [hx] at hr
    exact hr

/-- The link stays as it is where a step is not allowed. -/
theorem require {allowed : List Phase} {post : Unit → Link → Assertion σ}
    (h : ∀ link s past, pre link s past → link.phase ∈ allowed → post () link s past)
    (refused : ∀ link s past, pre link s past → fail link s past) :
    Triple board fail pre (Link.require allowed) post := by
  intro link
  rw [exec_require]
  refine .pure fun s past hpre => ?_
  by_cases hmem : link.phase ∈ allowed
  · rw [if_pos hmem]
    exact h link s past hpre hmem
  · rw [if_neg hmem]
    exact refused link s past hpre

end Triple

/-- A list of lifted programs is a lifted list of programs. -/
theorem exec_forM_lift (xs : List α) (f : α → Program Unit) (link : Link) :
    exec (xs.forM fun x => liftM (f x)) link = (fun u => (.ok u, link)) <$> xs.forM f := by
  induction xs with
  | nil => rfl
  | cons x xs ih =>
    change exec (liftM (f x) >>= fun _ => xs.forM fun x => liftM (f x)) link =
      (fun u => (Except.ok u, link)) <$> (f x >>= fun _ => xs.forM f)
    rw [exec_bind, exec_liftM, map_bind, bind_map_left]
    simp only [ih]

end Link.Action

end Bringup
