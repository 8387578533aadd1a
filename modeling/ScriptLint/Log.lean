import ScriptLint.Failure

/-!
# Activities and their logs

An activity ends with a result or a failure, and leaves a log behind.  The log
is a value, so activities stay functions.  What was logged before a failure is
kept.

`Activity` is a lawful monad: one activity after another concatenates their
logs, and the first failure is the last thing that happens.  `result_bind` says
that results alone compose as they do without a log.
-/

namespace ScriptLint

/-! ## Records -/

/-- How much a record matters. -/
inductive Level where
  /-- For those who watch every step. -/
  | debug
  /-- For all. -/
  | warning
deriving DecidableEq, Repr

/-- The name of a level. -/
def Level.name : Level → String
  | .debug => "DEBUG"
  | .warning => "WARNING"

/-- The part of the program that a record comes from. -/
inductive Topic where
  /-- Parsing. -/
  | parsing
  /-- The scopes of a program. -/
  | scopes
  /-- The choice of rules. -/
  | rules
  /-- Linting. -/
  | linting
  /-- Settings. -/
  | settings
deriving DecidableEq, Repr

/-- The name of a topic. -/
def Topic.name : Topic → String
  | .parsing => "workerlint.parser.parser"
  | .scopes => "workerlint.parser.scope"
  | .rules => "workerlint.lint.rules"
  | .linting => "workerlint.lint.linter"
  | .settings => "workerlint.config"

/-- One entry of a log. -/
structure LogRecord where
  /-- How much it matters. -/
  level : Level
  /-- What it is about. -/
  topic : Topic
  /-- What it says. -/
  text : String
deriving DecidableEq, Repr

namespace LogRecord

/-- A record as a line of text. -/
def line (r : LogRecord) : String :=
  s!"{r.level.name} {r.topic.name}: {r.text}\n"

/-- The lines of a log.  Records for those who watch every step are left out
unless asked for. -/
def lines (verbose : Bool) (log : List LogRecord) : String :=
  String.join ((log.filter fun r => verbose || r.level == .warning).map line)

/-- The texts of the records that are for all. -/
def warnings (log : List LogRecord) : List String :=
  (log.filter fun r => r.level == .warning).map text

end LogRecord

/-! ## Activities -/

/-- Something that was done: what it logged and what came of it. -/
structure Activity (α : Type) where
  /-- What it logged. -/
  log : List LogRecord
  /-- What came of it. -/
  result : Except Failure α

namespace Activity

/-- Nothing but a result. -/
def done {α : Type} (a : α) : Activity α := ⟨[], .ok a⟩

/-- Nothing but a failure. -/
def fail {α : Type} (f : Failure) : Activity α := ⟨[], .error f⟩

/-- A result or a failure. -/
def ofExcept {α : Type} (r : Except Failure α) : Activity α := ⟨[], r⟩

/-- Nothing but a log. -/
def records (log : List LogRecord) : Activity Unit := ⟨log, .ok ()⟩

/-- A record for those who watch every step. -/
def debug (topic : Topic) (text : String) : Activity Unit :=
  records [⟨.debug, topic, text⟩]

/-- A record for all. -/
def warn (topic : Topic) (text : String) : Activity Unit :=
  records [⟨.warning, topic, text⟩]

/-- One activity and then another that depends on its result. -/
def andThen {α β : Type} (a : Activity α) (f : α → Activity β) : Activity β :=
  match a.result with
  | .ok value => ⟨a.log ++ (f value).log, (f value).result⟩
  | .error failure => ⟨a.log, .error failure⟩

instance : Monad Activity where
  pure := done
  bind := andThen

instance : LawfulMonad Activity := .mk' Activity
  (fun ⟨_, result⟩ => by cases result <;> simp [Functor.map, andThen, done])
  (fun _ _ => rfl)
  (fun ⟨log, result⟩ f g => by
    cases result with
    | error failure => rfl
    | ok value =>
        show andThen ⟨log ++ (f value).log, (f value).result⟩ g = _
        cases h : (f value).result <;> simp [Bind.bind, andThen, h])

theorem result_pure {α : Type} (a : α) : (pure a : Activity α).result = .ok a := rfl

/-- Results compose as they do without a log. -/
theorem result_bind {α β : Type} (a : Activity α) (f : α → Activity β) :
    (a >>= f).result = a.result >>= fun value => (f value).result := by
  obtain ⟨log, result⟩ := a
  cases result <;> rfl

/-- An activity for each item of a list, one after the other. -/
def each {α β : Type} (f : α → Activity β) : List α → Activity (List β)
  | [] => done []
  | a :: as => (f a).andThen fun b => (each f as).andThen fun bs => done (b :: bs)

/-- An activity whose failure is part of its result. -/
def attempt {α : Type} (a : Activity α) : Activity (Except Failure α) :=
  ⟨a.log, .ok a.result⟩

end Activity

end ScriptLint
