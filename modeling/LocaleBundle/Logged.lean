import LocaleBundle.Error

/-!
# Logged computations

A computation may fail, and whether it does or not it leaves log records behind.
`Logged` is such a computation without state; `Job` also changes a state, which
a failure does not undo.
-/

namespace LocaleBundle

/-- How important a log record is. -/
inductive LogLevel where
  | debug
  | info
  | warning
  deriving DecidableEq

/-- The name of a level. -/
def LogLevel.name : LogLevel → String
  | .debug => "DEBUG"
  | .info => "INFO"
  | .warning => "WARNING"

/-- A line of the log. -/
structure LogRecord where
  level : LogLevel
  text : String
  deriving DecidableEq

/-- A log record as one line. -/
def LogRecord.line (r : LogRecord) : String := r.level.name ++ " " ++ r.text

/-- The outcome of a computation and the records it left. -/
structure Logged (α : Type) where
  result : Except Error α
  log : List LogRecord

namespace Logged

variable {α β : Type}

/-- A value without records. -/
def ok (a : α) : Logged α := ⟨.ok a, []⟩

/-- A failure without records. -/
def fail (e : Error) : Logged α := ⟨.error e, []⟩

/-- One record. -/
def record (level : LogLevel) (text : String) : Logged Unit := ⟨.ok (), [⟨level, text⟩]⟩

/-- Goes on with the value; the records come one after the other. -/
def bind (x : Logged α) (f : α → Logged β) : Logged β :=
  match x.result with
  | .error e => ⟨.error e, x.log⟩
  | .ok a => ⟨(f a).result, x.log ++ (f a).log⟩

instance : Monad Logged where
  pure := ok
  bind := bind

/-- An outcome without records. -/
def ofExcept : Except Error α → Logged α
  | .ok a => ok a
  | .error e => fail e

@[simp] theorem pure_eq (a : α) : (pure a : Logged α) = ok a := rfl

end Logged

/-- A state after a step, the outcome and the records. -/
structure Step (σ α : Type) where
  state : σ
  result : Except Error α
  log : List LogRecord

/-- A computation on a state that may fail and leaves log records. -/
def Job (σ α : Type) : Type := σ → Step σ α

namespace Job

variable {σ τ α β : Type}

/-- A value; the state stays. -/
def ok (a : α) : Job σ α := fun s => ⟨s, .ok a, []⟩

/-- A failure; the state stays. -/
def fail (e : Error) : Job σ α := fun s => ⟨s, .error e, []⟩

/-- Goes on with the value and the state that was reached. -/
def bind (job : Job σ α) (next : α → Job σ β) : Job σ β := fun s =>
  let first := job s
  match first.result with
  | .error e => ⟨first.state, .error e, first.log⟩
  | .ok a =>
    let second := next a first.state
    ⟨second.state, second.result, first.log ++ second.log⟩

instance : Monad (Job σ) where
  pure := ok
  bind := bind

/-- The state. -/
def get : Job σ σ := fun s => ⟨s, .ok s, []⟩

/-- Changes the state. -/
def modify (f : σ → σ) : Job σ Unit := fun s => ⟨f s, .ok (), []⟩

/-- One log record. -/
def record (level : LogLevel) (text : String) : Job σ Unit := fun s => ⟨s, .ok (), [⟨level, text⟩]⟩

/-- A computation that does not need the state. -/
def ofLogged (x : Logged α) : Job σ α := fun s => ⟨s, x.result, x.log⟩

/-- An outcome without records. -/
def ofExcept (x : Except Error α) : Job σ α := fun s => ⟨s, x, []⟩

/-- A job on a part of the state. What the job makes of the part is kept, also
when it fails. -/
def within (part : τ → σ) (put : τ → σ → τ) (job : Job σ α) : Job τ α := fun t =>
  let step := job (part t)
  ⟨put t step.state, step.result, step.log⟩

/-- Runs a job for each item in order, up to the first failure. -/
def forEach (items : List α) (job : α → Job σ β) : Job σ (List β) :=
  match items with
  | [] => ok []
  | a :: rest => bind (job a) fun b => bind (forEach rest job) fun bs => ok (b :: bs)

@[simp] theorem pure_eq (a : α) : (pure a : Job σ α) = ok a := rfl

@[simp] theorem bind_eq (job : Job σ α) (next : α → Job σ β) : (job >>= next) = bind job next := rfl

end Job

end LocaleBundle
