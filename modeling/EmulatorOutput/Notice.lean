import EmulatorOutput.Failure

/-!
# Notices

What a session reports while it works. `Logged ε α` is a computation that ends in an `α` or
in an `ε`, together with the notices it gave on the way, first one first. The notices of a
computation that broke off are kept.
-/

namespace EmulatorOutput

/-- The weight of a notice, heaviest first. -/
inductive Level where
  | error
  | warn
  | info
  | debug
  | trace
  deriving DecidableEq, Repr

namespace Level

def label : Level → String
  | .error => "ERROR"
  | .warn => "WARN"
  | .info => "INFO"
  | .debug => "DEBUG"
  | .trace => "TRACE"

/-- The place of a level in the order from errors to traces. -/
def rank : Level → Nat
  | .error => 0
  | .warn => 1
  | .info => 2
  | .debug => 3
  | .trace => 4

/-- The level with a given name, in any case. -/
def ofLabel? (name : String) : Option Level :=
  [error, warn, info, debug, trace].find? fun l => l.label == name.map Char.toUpper

end Level

/-- One reported line. -/
structure Notice where
  level : Level
  text : String
  deriving DecidableEq, Repr

namespace Notice

/-- A notice as one line of text. -/
def line (n : Notice) : String := s!"{n.level.label} {n.text}"

/-- The notices at least as heavy as the given level. -/
def atLeast (least : Level) (ns : List Notice) : List Notice :=
  ns.filter fun n => n.level.rank ≤ least.rank

end Notice

/-- An outcome and the notices given before it. -/
structure Logged (ε α : Type) where
  outcome : Except ε α
  notices : List Notice

namespace Logged

variable {ε α β : Type}

/-- Later notices after earlier ones. Where there are no later ones the earlier stay as they are,
so that results handed on through many levels do not cost a copy at each. -/
def join (earlier later : List Notice) : List Notice :=
  if later.isEmpty then earlier else earlier ++ later

@[simp] theorem join_eq_append (earlier later : List Notice) :
    join earlier later = earlier ++ later := by
  cases later <;> simp [join]

/-- Goes on with the result, and puts the later notices after the earlier ones. -/
def andThen (x : Logged ε α) (f : α → Logged ε β) : Logged ε β :=
  match x.outcome with
  | .ok a =>
    let y := f a
    ⟨y.outcome, join x.notices y.notices⟩
  | .error e => ⟨.error e, x.notices⟩

instance : Monad (Logged ε) where
  pure a := ⟨.ok a, []⟩
  bind := andThen

def ofExcept (x : Except ε α) : Logged ε α := ⟨x, []⟩

instance : MonadLift (Except ε) (Logged ε) where
  monadLift x := ofExcept x

/-- Breaks off. -/
def stop (e : ε) : Logged ε α := ⟨.error e, []⟩

def report (ns : List Notice) : Logged ε Unit := ⟨.ok (), ns⟩

def note (level : Level) (text : String) : Logged ε Unit := report [⟨level, text⟩]

/-- Reports the notices that come with a result. -/
def tell (x : α × List Notice) : Logged ε α := ⟨.ok x.1, x.2⟩

/-- A computation with its refusal as a result. -/
def settle (x : Logged Stop α) : Logged Fault (Except Failure α) :=
  match x.outcome with
  | .ok a => ⟨.ok (.ok a), x.notices⟩
  | .error (.failure e) => ⟨.ok (.error e), x.notices⟩
  | .error (.fault f) => ⟨.error f, x.notices⟩

/-- A computation that cannot be refused, inside one that can. -/
def widen (x : Logged Fault α) : Logged Stop α := ⟨Stop.ofExcept x.outcome, x.notices⟩

instance : MonadLift (Logged Fault) (Logged Stop) where
  monadLift x := widen x

@[simp] theorem outcome_pure (a : α) : (pure a : Logged ε α).outcome = .ok a := rfl

@[simp] theorem notices_pure (a : α) : (pure a : Logged ε α).notices = [] := rfl

@[simp] theorem outcome_report (ns : List Notice) : (report ns : Logged ε Unit).outcome = .ok () :=
  rfl

@[simp] theorem notices_report (ns : List Notice) : (report ns : Logged ε Unit).notices = ns :=
  rfl

theorem outcome_bind (x : Logged ε α) (f : α → Logged ε β) :
    (x >>= f).outcome = x.outcome.bind fun a => (f a).outcome := by
  change (andThen x f).outcome = _
  unfold andThen
  cases x.outcome <;> rfl

theorem bind_of_ok {x : Logged ε α} {a : α} (h : x.outcome = .ok a) (f : α → Logged ε β) :
    x >>= f = ⟨(f a).outcome, x.notices ++ (f a).notices⟩ := by
  change andThen x f = _
  simp [andThen, h]

theorem bind_of_error {x : Logged ε α} {e : ε} (h : x.outcome = .error e) (f : α → Logged ε β) :
    x >>= f = ⟨.error e, x.notices⟩ := by
  change andThen x f = _
  simp [andThen, h]

end Logged

end EmulatorOutput
