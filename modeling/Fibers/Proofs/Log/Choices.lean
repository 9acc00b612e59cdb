import Fibers.Proofs.Effect

/-!
The two settings of the log under any calls, in any order. One mark says that the environment was
read, for both settings together. Choosing a threshold sets the mark, so the environment is not read
any more; choosing whether to flush does not, so the environment may be read afterwards. The
threshold is what it should be after any calls: the last one chosen, or else the one that the
environment names. Whether to flush is not, for either of two reasons: the environment's word for it
is never read, or it is read over a choice.
-/

namespace Fibers.Log

/-- A call on the log from outside. -/
inductive Call where
  /-- Reads the environment, unless that is done already. -/
  | init
  | setLevel (l : Level)
  | setFlush (b : Bool)
  /-- Asks for the threshold. -/
  | level
  /-- Asks whether lines are flushed. -/
  | flush
  | write (l : Level) (shown : l ≠ .off) (text : String)
  | piece (text : String)
  | line (text : String)

inductive Answer where
  | done
  | level (l : Level)
  | flush (b : Bool)
  deriving DecidableEq, Repr

namespace Call

/-- The settings that a call leaves. -/
def settle (env : Environment) (s : Settings) : Call → Settings
  | setLevel l => s.setLevel l
  | setFlush b => s.setFlush b
  | init | level | flush | write .. | piece _ | line _ => s.init env

/-- What a call answers, of the settings that it leaves. -/
def answer (s : Settings) : Call → Answer
  | level => .level s.level
  | flush => .flush s.flush
  | init | setLevel _ | setFlush _ | write .. | piece _ | line _ => .done

def level? : Call → Option Level
  | setLevel l => some l
  | _ => none

def flush? : Call → Option Bool
  | setFlush b => some b
  | _ => none

end Call

/-- The last choice of a kind. -/
def lastChoice {α : Type} (kind : Call → Option α) (calls : List Call) : Option α :=
  (calls.filterMap kind).getLast?

/-- The threshold of the environment. -/
def namedLevel (env : Environment) : Level :=
  ((env.text? "FIO_LOG_LEVEL").bind Level.parse?).getD .info

/-- Whether the environment asks to flush, in letters of any case. -/
def namedFlush (env : Environment) : Bool :=
  (env.text? "FIO_FLUSH_EPRINT").any fun text =>
    ["1", "true", "yes", "on"].contains (String.ofList (Text.lowerAscii text.toList))

variable {env : Environment} {s : Settings} {α : Type}

theorem lastChoice_append (kind : Call → Option α) (before after : List Call) :
    lastChoice kind (before ++ after) = (lastChoice kind after).or (lastChoice kind before) := by
  rw [lastChoice, List.filterMap_append, List.getLast?_append]
  rfl

theorem lastChoice_cons (kind : Call → Option α) (c : Call) (calls : List Call) :
    lastChoice kind (c :: calls) = (lastChoice kind calls).or (kind c) := by
  have single : lastChoice kind [c] = kind c := by
    rw [lastChoice, List.filterMap_cons]
    cases kind c <;> rfl
  rw [← List.singleton_append, lastChoice_append, single]

theorem Settings.init_of_initialized (env : Environment) (h : s.initialized = true) :
    s.init env = s := by
  rw [init, if_pos h]

theorem Settings.initialized_init (env : Environment) (s : Settings) :
    (s.init env).initialized = true := by
  rw [init]
  split
  · assumption
  · rfl

/-- Once the environment was read or passed over, a call changes the settings by what it chooses
only. -/
theorem Call.settle_of_initialized (h : s.initialized = true) (c : Call) :
    c.settle env s = { s with level := c.level?.getD s.level, flush := c.flush?.getD s.flush } := by
  have same := Settings.init_of_initialized env h
  cases c with
  | setLevel l => simp [settle, Settings.setLevel, level?, flush?, h]
  | setFlush b => simp [settle, Settings.setFlush, level?, flush?]
  | init | level | flush | write | piece | line => simp [settle, same, level?, flush?]

/-- After that the settings are the last choices. -/
theorem foldl_of_initialized (h : s.initialized = true) (calls : List Call) :
    calls.foldl (Call.settle env) s =
      { s with
        level := (lastChoice Call.level? calls).getD s.level
        flush := (lastChoice Call.flush? calls).getD s.flush } := by
  induction calls generalizing s with
  | nil => rfl
  | cons c calls ih =>
    have settled : (c.settle env s).initialized = true := by
      rw [Call.settle_of_initialized h]
      exact h
    rw [List.foldl_cons, ih settled, Call.settle_of_initialized h, lastChoice_cons, lastChoice_cons]
    simp [Option.getD_or]

theorem init_foldl_of_initialized (h : s.initialized = true) (calls : List Call) :
    (calls.foldl (Call.settle env) s).init env =
      { s with
        level := (lastChoice Call.level? calls).getD s.level
        flush := (lastChoice Call.flush? calls).getD s.flush } := by
  rw [foldl_of_initialized h]
  exact Settings.init_of_initialized env h

/-- Settings before they are read, with a choice whether to flush. -/
def Settings.unread (flush : Bool) : Settings := { Settings.fresh with flush }

theorem Settings.init_unread (env : Environment) (flush : Bool) :
    (Settings.unread flush).init env =
      { initialized := true
        level := namedLevel env
        flush := env.switch "FIO_FLUSH_EPRINT" flush } := by
  have unread : (Settings.unread flush).initialized = false := rfl
  rw [init, if_neg (by simp [unread])]
  simp only [Settings.mk.injEq, true_and]
  constructor
  · rw [namedLevel]
    cases env.text? "FIO_LOG_LEVEL" <;> rfl
  · rw [Environment.switch]
    rfl

def Call.isFlushChoice (c : Call) : Bool := c.flush?.isSome

/-- The environment is passed over: a threshold is chosen before any call reads it. -/
def PassedOver (calls : List Call) : Prop :=
  ∃ l later, calls.dropWhile Call.isFlushChoice = .setLevel l :: later

/-- What the settings come to, once they are read after some calls. -/
structure Outcome (env : Environment) (flush : Bool) (calls : List Call) (s : Settings) : Prop where
  level : s.level = (lastChoice Call.level? calls).getD (namedLevel env)
  passed : PassedOver calls → s.flush = (lastChoice Call.flush? calls).getD flush
  /-- The environment is read over the choices before that. -/
  read : ¬ PassedOver calls →
    s.flush = (lastChoice Call.flush? (calls.dropWhile Call.isFlushChoice)).getD
      (env.switch "FIO_FLUSH_EPRINT"
        ((lastChoice Call.flush? (calls.takeWhile Call.isFlushChoice)).getD flush))

/-- A first call that reads the environment. -/
theorem outcome_of_reads {c : Call} (reads : ∀ s, c.settle env s = s.init env)
    (level : c.level? = none) (flush : c.isFlushChoice = false) (b : Bool) (calls : List Call) :
    Outcome env b (c :: calls)
      (((c :: calls).foldl (Call.settle env) (.unread b)).init env) := by
  have settled := Settings.initialized_init env (.unread b)
  rw [List.foldl_cons, reads, init_foldl_of_initialized settled, Settings.init_unread]
  constructor
  · rw [lastChoice_cons, level, Option.or_none]
  · rintro ⟨l, later, first⟩
    rw [List.dropWhile_cons_of_neg (by simp [flush])] at first
    obtain ⟨rfl, rfl⟩ := List.cons.inj first
    cases level
  · intro _
    have kept : c.flush? = none := by simpa [Call.isFlushChoice] using flush
    rw [List.dropWhile_cons_of_neg (by simp [flush]), List.takeWhile_cons_of_neg (by simp [flush]),
      lastChoice_cons, kept, Option.or_none]
    rfl

/-- By induction on the calls: as long as they choose whether to flush, the settings stay unread. -/
theorem outcome (env : Environment) (b : Bool) (calls : List Call) :
    Outcome env b calls ((calls.foldl (Call.settle env) (.unread b)).init env) := by
  induction calls generalizing b with
  | nil =>
    rw [List.foldl_nil, Settings.init_unread]
    constructor
    · rfl
    · rintro ⟨l, later, first⟩
      cases first
    · intro _
      rfl
  | cons c calls ih =>
    cases c with
    | setLevel l =>
      let s := (Settings.unread b).setLevel l
      have passed : s.initialized = true := rfl
      have first : PassedOver (.setLevel l :: calls) := ⟨l, calls, rfl⟩
      rw [List.foldl_cons, Call.settle, init_foldl_of_initialized passed]
      constructor
      · rw [lastChoice_cons, Option.getD_or]
        rfl
      · intro _
        rw [lastChoice_cons, Option.getD_or]
        rfl
      · intro read
        exact absurd first read
    | setFlush b' =>
      have skipped : (Call.setFlush b' :: calls).dropWhile Call.isFlushChoice =
          calls.dropWhile Call.isFlushChoice := rfl
      have taken : (Call.setFlush b' :: calls).takeWhile Call.isFlushChoice =
          .setFlush b' :: calls.takeWhile Call.isFlushChoice := rfl
      have same : PassedOver (.setFlush b' :: calls) ↔ PassedOver calls := Iff.rfl
      have rest := ih b'
      rw [List.foldl_cons]
      constructor
      · have other : (Call.setFlush b').level? = none := rfl
        rw [lastChoice_cons, other, Option.or_none]
        exact rest.level
      · intro passed
        rw [lastChoice_cons, Option.getD_or]
        exact rest.passed (same.mp passed)
      · intro read
        rw [skipped, taken, lastChoice_cons, Option.getD_or]
        exact rest.read (mt same.mpr read)
    | init | level | flush | write | piece | line =>
      exact outcome_of_reads (fun _ => rfl) rfl rfl b calls

/-- The environment asks to flush, but it is passed over and nothing was chosen instead. -/
def Discards (env : Environment) (calls : List Call) : Prop :=
  PassedOver calls ∧ lastChoice Call.flush? calls = none ∧ namedFlush env = true

/-- The last choice whether to flush was made before the environment is read, which says
otherwise. -/
def Overrules (env : Environment) (calls : List Call) : Prop :=
  ¬ PassedOver calls ∧ lastChoice Call.flush? (calls.dropWhile Call.isFlushChoice) = none ∧
    (env.text? "FIO_FLUSH_EPRINT").isSome = true ∧
    lastChoice Call.flush? calls = some !namedFlush env

theorem isOn_eq_contains (text : String) :
    Environment.isOn text =
      ["1", "true", "yes", "on"].contains (String.ofList (Text.lowerAscii text.toList)) := by
  rw [Environment.isOn]
  split
  · next one => simp [one]
  · next one => simp [one]
  · next one => simp [one]
  · next one => simp [one]
  · next one true yes on =>
    symm
    rw [List.contains_eq_mem, decide_eq_false_iff_not]
    simp only [List.mem_cons, List.not_mem_nil, or_false, not_or]
    exact ⟨one, true, yes, on⟩

/-- Reading the environment replaces a choice if the variable is set. -/
theorem switch_eq (env : Environment) (b : Bool) :
    env.switch "FIO_FLUSH_EPRINT" b =
      if (env.text? "FIO_FLUSH_EPRINT").isSome then namedFlush env else b := by
  rw [Environment.switch, namedFlush]
  cases env.text? "FIO_FLUSH_EPRINT" with
  | none => rfl
  | some text => exact isOn_eq_contains text

theorem Outcome.flush_eq_iff {calls : List Call} (h : Outcome env false calls s) :
    s.flush = (lastChoice Call.flush? calls).getD (namedFlush env) ↔
      ¬ Discards env calls ∧ ¬ Overrules env calls := by
  by_cases passed : PassedOver calls
  · have kept : ¬ Overrules env calls := fun overruled => overruled.1 passed
    rw [h.passed passed]
    cases last : lastChoice Call.flush? calls with
    | none => simp [Discards, passed, last, kept]
    | some b => simp [Discards, last, kept]
  · have read : ¬ Discards env calls := fun discarded => passed discarded.1
    have split := lastChoice_append Call.flush? (calls.takeWhile Call.isFlushChoice)
      (calls.dropWhile Call.isFlushChoice)
    rw [List.takeWhile_append_dropWhile] at split
    rw [h.read passed]
    cases later : lastChoice Call.flush? (calls.dropWhile Call.isFlushChoice) with
    | some b =>
      rw [later, Option.some_or] at split
      simp [Overrules, later, split, read]
    | none =>
      rw [later, Option.none_or] at split
      rw [split]
      cases set : (env.text? "FIO_FLUSH_EPRINT").isSome with
      | false =>
        rw [Option.isSome_eq_false_iff, Option.isNone_iff_eq_none] at set
        simp [switch_eq, namedFlush, Overrules, set, read]
      | true =>
        cases earlier : lastChoice Call.flush? (calls.takeWhile Call.isFlushChoice) with
        | none => simp [switch_eq, set, Overrules, split, earlier, read]
        | some b =>
          simp only [Option.getD_none, Option.getD_some, switch_eq, set, if_true]
          simp [Overrules, passed, later, set, split, earlier, read]
          cases b <;> cases namedFlush env <;> decide

end Fibers.Log

namespace Fibers.Script

/-- Makes a call on the log. -/
def callLog : Log.Call → Act Log.Answer
  | .init => do
    initLog
    return .done
  | .setLevel l => do
    modify fun w => { w with settings := w.settings.setLevel l }
    return .done
  | .setFlush b => do
    modify fun w => { w with settings := w.settings.setFlush b }
    return .done
  | .level => do
    initLog
    return .level (← get).settings.level
  | .flush => do
    initLog
    return .flush (← get).settings.flush
  | .write l _ text => do
    log l text
    return .done
  | .piece text => do
    sendPiece text
    return .done
  | .line text => do
    sendLine .off text
    return .done

/-- The world after some calls. -/
def World.called (w : World) (calls : List Log.Call) : World :=
  calls.foldl (fun w c => ((callLog c).on w).2) w

/-- What calls on the log need of a world and keep in it: the settings, what they are read from, and
lines that go to the error output. -/
structure World.Logging (w : World) (env : Environment) (s : Log.Settings) : Prop where
  environment : w.environment = env
  settings : w.settings = s
  sink : w.sink = none

variable {w : World} {env : Environment} {s : Log.Settings}

theorem initLog_logging (h : w.Logging env s) :
    ∃ w', initLog.on w = (.ok (), w') ∧ w'.Logging env (s.init env) := by
  refine ⟨_, rfl, ?_⟩
  constructor
  · exact h.environment
  · rw [← h.environment, ← h.settings]
  · exact h.sink

theorem writeError_logging (h : w.Logging env s) (text : String) :
    ∃ w', (writeError text).on w = (.ok (), w') ∧ w'.Logging env (s.init env) := by
  obtain ⟨v, on, logging⟩ := initLog_logging h
  refine ⟨{ v with stderr := text :: v.stderr }, ?_, ?_⟩
  · rw [writeError, Act.on_bind_ok on, Act.on_modify]
  · exact ⟨logging.environment, logging.settings, logging.sink⟩

theorem sendLine_logging (h : w.Logging env s) (l : Log.Level) (text : String) :
    ∃ w', (sendLine l text).on w = (.ok (), w') ∧ w'.Logging env (s.init env) := by
  rw [sendLine, Act.on_bind_get, h.sink]
  exact writeError_logging h _

theorem sendPiece_logging (h : w.Logging env s) (text : String) :
    ∃ w', (sendPiece text).on w = (.ok (), w') ∧ w'.Logging env (s.init env) := by
  rw [sendPiece, Act.on_bind_get, h.sink]
  exact writeError_logging h _

/-- A line reads the settings, whether it is written or not. -/
theorem log_logging (h : w.Logging env s) (l : Log.Level) (text : String) :
    ∃ w', (log l text).on w = (.ok (), w') ∧ w'.Logging env (s.init env) := by
  obtain ⟨v, on, logging⟩ := initLog_logging h
  rw [log, Act.on_bind_ok on, Act.on_bind_get]
  split
  · obtain ⟨w', sent, again⟩ := sendLine_logging logging l (Log.line l v.context text)
    rw [Log.Settings.init_of_initialized env (Log.Settings.initialized_init env s)] at again
    exact ⟨w', sent, again⟩
  · exact ⟨v, rfl, logging⟩

theorem on_done {x : Act Unit} {w' : World} (h : x.on w = (.ok (), w')) :
    (x >>= fun _ => pure Log.Answer.done).on w = (.ok .done, w') := by
  rw [Act.on_bind_ok h, Act.on_pure]

/-- A call comes back with its answer, and leaves the settings that it settles. -/
theorem callLog_logging (h : w.Logging env s) (c : Log.Call) :
    ∃ w', (callLog c).on w = (.ok (c.answer (c.settle env s)), w') ∧
      w'.Logging env (c.settle env s) := by
  cases c with
  | init =>
    obtain ⟨w', on, logging⟩ := initLog_logging h
    exact ⟨w', on_done on, logging⟩
  | setLevel l =>
    refine ⟨_, on_done (Act.on_modify _ w), h.environment, ?_, h.sink⟩
    rw [← h.settings]
    rfl
  | setFlush b =>
    refine ⟨_, on_done (Act.on_modify _ w), h.environment, ?_, h.sink⟩
    rw [← h.settings]
    rfl
  | level =>
    obtain ⟨w', on, logging⟩ := initLog_logging h
    refine ⟨w', ?_, logging⟩
    rw [callLog, Act.on_bind_ok on, Act.on_bind_get, logging.settings]
    rfl
  | flush =>
    obtain ⟨w', on, logging⟩ := initLog_logging h
    refine ⟨w', ?_, logging⟩
    rw [callLog, Act.on_bind_ok on, Act.on_bind_get, logging.settings]
    rfl
  | write l shown text =>
    obtain ⟨w', on, logging⟩ := log_logging h l text
    exact ⟨w', on_done on, logging⟩
  | piece text =>
    obtain ⟨w', on, logging⟩ := sendPiece_logging h text
    exact ⟨w', on_done on, logging⟩
  | line text =>
    obtain ⟨w', on, logging⟩ := sendLine_logging h .off text
    exact ⟨w', on_done on, logging⟩

theorem called_logging (h : w.Logging env s) (calls : List Log.Call) :
    (w.called calls).Logging env (calls.foldl (Log.Call.settle env) s) := by
  induction calls generalizing w s with
  | nil => exact h
  | cons c calls ih =>
    obtain ⟨w', on, logging⟩ := callLog_logging h c
    rw [World.called, List.foldl_cons, on]
    exact ih logging

/-- After any calls in a fresh process, the threshold is the last one chosen, or else the one that
the environment names. Whether to flush is the last choice, or else what the environment asks for,
unless the environment was passed over or is read over the choice. -/
theorem log_choices_hold_unless_flush_lost (program : Program) (timing : Timing)
    (env : Environment) (contextual : Bool) (label : String) (calls : List Log.Call) :
    let w := (World.start program timing env .fresh contextual none label).called calls
    ((callLog .level).on w).1 =
      .ok (.level ((Log.lastChoice Log.Call.level? calls).getD (Log.namedLevel env))) ∧
    ∃ flush, ((callLog .flush).on w).1 = .ok (.flush flush) ∧
      (flush = (Log.lastChoice Log.Call.flush? calls).getD (Log.namedFlush env) ↔
        ¬ Log.Discards env calls ∧ ¬ Log.Overrules env calls) := by
  intro w
  have fresh : (World.start program timing env .fresh contextual none label).Logging env
      (.unread false) := ⟨rfl, rfl, rfl⟩
  have outcome := Log.outcome env false calls
  have logging := called_logging fresh calls
  obtain ⟨v, level, -⟩ := callLog_logging logging .level
  obtain ⟨v', flush, -⟩ := callLog_logging logging .flush
  constructor
  · rw [level, ← outcome.level]
    rfl
  · refine ⟨_, by rw [flush]; rfl, ?_⟩
    exact outcome.flush_eq_iff

/-- An environment that asks for debug lines and to flush. -/
def verbose : Environment :=
  ⟨[("FIO_LOG_LEVEL", "Debug".toUTF8), ("FIO_FLUSH_EPRINT", "YES".toUTF8)]⟩

/-- A line reads the environment before a threshold is chosen, so that lines are flushed. -/
theorem log_choices_hold_in_verbose :
    let calls : List Log.Call := [.write .info (by decide) "starts", .setLevel .warn, .piece "a"]
    let w := (World.start ⟨#[[]]⟩ .frozen verbose .fresh false none "main").called calls
    ((callLog .level).on w).1 = .ok (.level .warn) ∧
      ((callLog .flush).on w).1 = .ok (.flush true) := by
  intro calls w
  obtain ⟨level, flush, answered, claimed⟩ :=
    log_choices_hold_unless_flush_lost ⟨#[[]]⟩ .frozen verbose false "main" calls
  have named : Log.namedFlush verbose = true := by decide +kernel
  have read : ¬ Log.PassedOver calls := by
    rintro ⟨l, later, first⟩
    simp [calls, Log.Call.isFlushChoice, Log.Call.flush?] at first
  have unchosen : Log.lastChoice Log.Call.flush? calls = none := by decide
  have kept : ¬ Log.Discards verbose calls := fun discarded => read discarded.1
  have stands : ¬ Log.Overrules verbose calls := by
    rintro ⟨-, -, -, chosen⟩
    rw [unchosen] at chosen
    cases chosen
  have flushes := claimed.mpr ⟨kept, stands⟩
  rw [unchosen, named, Option.getD_none] at flushes
  constructor
  · exact level
  · rw [← flushes]
    exact answered

/-- A threshold that is chosen first takes away what the environment says of flushing, and a choice
to flush is read over by the environment. -/
theorem flush_lost_to_threshold_and_environment :
    let on : Environment := ⟨[("FIO_FLUSH_EPRINT", "1".toUTF8)]⟩
    let off : Environment := ⟨[("FIO_FLUSH_EPRINT", "0".toUTF8)]⟩
    let fresh := fun env => World.start ⟨#[[]]⟩ .frozen env .fresh false none "main"
    (((callLog .flush).on ((fresh on).called [.setLevel .warn])).1.toOption = some (.flush false) ∧
      (Log.lastChoice Log.Call.flush? [.setLevel .warn]).getD (Log.namedFlush on) = true) ∧
    ((callLog .flush).on ((fresh off).called [.setFlush true])).1.toOption = some (.flush false) ∧
      (Log.lastChoice Log.Call.flush? [.setFlush true]).getD (Log.namedFlush off) = true := by
  decide +kernel

end Fibers.Script
