import ArithAsm.Run
import Mathlib.Data.List.Induction
import Mathlib.Data.List.Infix

/-!
# Logged errors are not lost

A reporter is asked to do one thing after the other, and goes on also behind an event that ends the
program.  What it holds after some events is what they say (`after_start`): the backlog is the list
of the messages that were logged, each with the stage of the last checkpoint before it, and stage
and source are those that were set last.  The main statement is `exit_after_start`: a checkpoint
ends the program exactly if something was logged before, and whatever ends it prints all that was
logged before the error that ends it.
-/

namespace ArithAsm.Reporter

/-! ### What the events say -/

/-- The stage that an event starts. -/
def Event.stage? : Event → Option (Option String)
  | .checkpoint stage => some stage
  | _ => none

/-- The source that an event sets. -/
def Event.source? : Event → Option (Option String)
  | .source text => some text
  | _ => none

/-- The stage that the last checkpoint has started, if there was one and it has started one. -/
def stageAfter (events : List Event) : Option String :=
  (events.filterMap Event.stage?).getLast?.join

/-- The source that was set last. -/
def sourceAfter (source : Option String) (events : List Event) : Option String :=
  (events.filterMap Event.source?).getLast?.getD source

/-- What the last of the events has added to the backlog. -/
def added? (events : List Event) : Option String :=
  match events.getLast? with
  | some (.log message) =>
    some ("\x7b" ++ (stageAfter events).getD "None" ++ "\x7d \t| " ++ message)
  | _ => none

/-- **The messages that were logged,** in their order, each with the stage of the last checkpoint
before it. -/
def logged (events : List Event) : List String :=
  events.inits.filterMap added?

/-- How a fatal error tells its stage. -/
def stageLabel : Option String → String
  | none => ""
  | some stage => if stage = "" then "" else "\x7b" ++ stage ++ "\x7d \t| "

/-- **The lines of a fatal error:** the backlog below its header, if there is one, and the error. -/
def fatalLines (backlog : List String) (stage : Option String) (message : String) : List String :=
  (if backlog = [] then [] else ["=== Error backlog ==="]) ++ backlog.map ("[ Error ] " ++ ·)
    ++ ["[ Fatal Error ] | " ++ stageLabel stage ++ message]

/-- Lines as a text. -/
def linesText (lines : List String) : String :=
  String.join (lines.map (· ++ "\n"))

/-- What is fatal about an event, if anything is. -/
def Event.diagnostic? : Event → Option Diagnostic
  | .checkpoint _ => some (.plain "error backlog at checkpoint")
  | .crash d => some d
  | _ => none

/-! ### What the reporter does -/

/-- The reporter after some events, whatever came of them. -/
def after (r : Reporter) (events : List Event) : Reporter :=
  events.foldl (fun r e => (r.handle e).1) r

/-- How the program ends with an event, if it does: with status 1, and the text of the crash on the
standard error. -/
def exit? (r : Reporter) (e : Event) : Option Outcome :=
  (r.handle e).2.map fun text => ⟨1, "", text⟩

variable {events : List Event} {e : Event} {source : Option String}

theorem stageAfter_concat (events : List Event) (e : Event) :
    stageAfter (events ++ [e]) = (e.stage?).getD (stageAfter events) := by
  cases e <;> simp [stageAfter, Event.stage?]

theorem sourceAfter_concat (source : Option String) (events : List Event) (e : Event) :
    sourceAfter source (events ++ [e]) = (e.source?).getD (sourceAfter source events) := by
  cases e <;> simp [sourceAfter, Event.source?]

theorem logged_concat (events : List Event) (e : Event) :
    logged (events ++ [e]) = logged events ++ (added? (events ++ [e])).toList := by
  have hinits : (events ++ [e]).inits = events.inits ++ [events ++ [e]] := by
    rw [List.inits_append]
    rfl
  rw [logged, hinits, List.filterMap_append]
  cases h : added? (events ++ [e]) <;> simp [logged, h]

theorem logged_eq_nil_iff : logged events = [] ↔ ∀ message, .log message ∉ events := by
  induction events using List.reverseRecOn with
  | nil => simp [logged, added?]
  | append_singleton events e ih =>
    rw [logged_concat, List.append_eq_nil_iff, ih]
    cases e <;> simp [added?, forall_and]

theorem logged_ne_nil_iff : logged events ≠ [] ↔ ∃ message, .log message ∈ events := by
  rw [Ne, logged_eq_nil_iff]
  simp

/-- **What the reporter holds is what the events say.** -/
theorem after_start (source : Option String) (events : List Event) :
    (start source).after events
      = ⟨logged events, stageAfter events, sourceAfter source events⟩ := by
  induction events using List.reverseRecOn with
  | nil => rfl
  | append_singleton events e ih =>
    rw [after, List.foldl_append] at *
    rw [ih, List.foldl_cons, List.foldl_nil, logged_concat, stageAfter_concat, sourceAfter_concat]
    cases e with
    | checkpoint stage => simp [handle, checkpoint, enter, added?, Event.stage?, Event.source?]
    | log message =>
      simp [handle, log, stageMark, added?, stageAfter_concat, Event.stage?, Event.source?]
    | crash d => simp [handle, added?, Event.stage?, Event.source?]
    | source text => simp [handle, added?, Event.stage?, Event.source?]

/-! ### The text of a crash -/

theorem fatalLine_eq (r : Reporter) (message : String) :
    r.fatalLine message = "[ Fatal Error ] | " ++ stageLabel r.stage ++ message ++ "\n" := by
  obtain ⟨backlog, _ | stage, source⟩ := r
  · rfl
  · have hlabel : (if stage.isEmpty then "" else stageMark stage) = stageLabel (some stage) := by
      simp only [String.isEmpty_iff]
      rfl
    rw [← hlabel]
    rfl

theorem linesText_append (lines more : List String) :
    linesText (lines ++ more) = linesText lines ++ linesText more := by
  rw [linesText, List.map_append, String.join_append]
  rfl

theorem linesText_singleton (line : String) : linesText [line] = line ++ "\n" := by
  rw [linesText, List.map_singleton, String.join_cons, String.join_nil, String.append_empty]

theorem backlogText_eq (r : Reporter) : r.backlogText =
    linesText ((if r.backlog = [] then [] else ["=== Error backlog ==="])
      ++ r.backlog.map ("[ Error ] " ++ ·)) := by
  by_cases h : r.backlog = []
  · rw [backlogText, h]
    rfl
  · have hheader : "=== Error backlog ===\n" = linesText ["=== Error backlog ==="] := by
      rw [linesText_singleton]
      rfl
    have hsome : r.backlog.isEmpty = false := by simpa using h
    rw [backlogText, hsome, if_neg h, linesText_append, ← hheader, linesText, List.map_map]
    rfl

theorem crash_eq (r : Reporter) (d : Diagnostic) :
    r.crash d = linesText (fatalLines r.backlog r.stage d.message)
      ++ (r.source.map fun source => excerpt source d.spot).getD "" := by
  have hlines : r.backlogText ++ r.fatalLine d.message
      = linesText (fatalLines r.backlog r.stage d.message) := by
    rw [fatalLines, linesText_append, linesText_singleton, backlogText_eq, fatalLine_eq]
  rw [← hlines]
  obtain ⟨backlog, stage, _ | source⟩ := r <;> rfl

theorem header_iff {backlog : List String} {stage : Option String} {message shown : String} :
    "=== Error backlog ===\n".toList
        <+: (linesText (fatalLines backlog stage message) ++ shown).toList ↔ backlog ≠ [] := by
  by_cases h : backlog = []
  · simp [linesText, fatalLines, h]
  · simp [linesText, fatalLines, h]

/-! ### Which events end the program -/

theorem exit?_checkpoint (r : Reporter) (stage : Option String) :
    r.exit? (.checkpoint stage) = if r.backlog = [] then none
      else some ⟨1, "", (r.enter stage).crash (.plain "error backlog at checkpoint")⟩ := by
  by_cases h : r.backlog = []
  · simp [exit?, handle, checkpoint, enter, h]
  · simp [exit?, handle, checkpoint, enter, h]

theorem exit?_checkpoint_after (source : Option String) (events : List Event)
    (stage : Option String) :
    (∃ o, ((start source).after events).exit? (.checkpoint stage) = some o) ↔
      ∃ message, .log message ∈ events := by
  rw [exit?_checkpoint, after_start, ← logged_ne_nil_iff]
  by_cases h : logged events = [] <;> simp [h]

/-- **What an event prints that ends the program.** -/
theorem stderr_of_exit? {o : Outcome} (h : ((start source).after events).exit? e = some o) :
    ∃ d, e.diagnostic? = some d ∧ o.exit = 1 ∧ o.stdout = "" ∧
      o.stderr = linesText (fatalLines (logged events) (stageAfter (events ++ [e])) d.message)
        ++ ((sourceAfter source events).map fun source => excerpt source d.spot).getD "" := by
  cases e with
  | checkpoint stage =>
    rw [exit?_checkpoint] at h
    split at h
    · cases h
    · obtain rfl := Option.some.inj h
      refine ⟨_, rfl, rfl, rfl, ?_⟩
      rw [crash_eq, after_start, stageAfter_concat]
      rfl
  | log message => cases h
  | crash d =>
    obtain rfl := Option.some.inj h
    refine ⟨d, rfl, rfl, rfl, ?_⟩
    rw [crash_eq, after_start, stageAfter_concat]
    rfl
  | source text => cases h

/-- **Logged errors are not lost.**  Behind any events, the backlog is what they have logged, each
message with the stage of the last checkpoint before it.  A checkpoint ends the program with status
1 exactly if something was logged before, also behind events that have ended it already, and so does
the checkpoint at the end of a run.  An error that is fatal always ends the program, and a message
that is logged or a source that is set never does.  Whatever ends it prints the header exactly if
something was logged, then the whole backlog, and then the error with the stage that has just been
reached. -/
theorem exit_after_start (source : Option String) (before : List Event) :
    let r := (start source).after before
    r.backlog = logged before ∧
    (∀ stage, (∃ o, r.exit? (.checkpoint stage) = some o ∧ o.exit = 1) ↔
      ∃ message, .log message ∈ before) ∧
    (∀ printed, (Plan.ending r printed).exit = 1 ↔ ∃ message, .log message ∈ before) ∧
    (∀ d, ∃ o, r.exit? (.crash d) = some o) ∧
    (∀ message, r.exit? (.log message) = none) ∧
    (∀ text, r.exit? (.source text) = none) ∧
    ∀ e o, r.exit? e = some o → ∃ d, e.diagnostic? = some d ∧ o.exit = 1 ∧ o.stdout = "" ∧
      o.stderr = linesText (fatalLines (logged before) (stageAfter (before ++ [e])) d.message)
        ++ ((sourceAfter source before).map fun source => excerpt source d.spot).getD "" ∧
      ("=== Error backlog ===\n".toList <+: o.stderr.toList ↔
        ∃ message, .log message ∈ before) := by
  intro r
  have hstate : r = ⟨logged before, stageAfter before, sourceAfter source before⟩ :=
    after_start source before
  refine ⟨by rw [hstate], fun stage => ?_, fun printed => ?_, fun d => ⟨_, rfl⟩, fun _ => rfl,
    fun _ => rfl, fun e o h => ?_⟩
  · rw [← exit?_checkpoint_after source before stage]
    constructor
    · exact fun ⟨o, ho, _⟩ => ⟨o, ho⟩
    · intro ⟨o, ho⟩
      obtain ⟨d, -, hexit, -⟩ := stderr_of_exit? ho
      exact ⟨o, ho, hexit⟩
  · rw [← logged_ne_nil_iff, hstate]
    by_cases h : logged before = [] <;> simp [Plan.ending, checkpoint, enter, h]
  · obtain ⟨d, hd, hexit, hstdout, hstderr⟩ := stderr_of_exit? h
    refine ⟨d, hd, hexit, hstdout, hstderr, ?_⟩
    rw [hstderr, header_iff, logged_ne_nil_iff]

/-- Two messages in different stages, the second one behind a checkpoint that has ended the program
already, and then an error. -/
theorem exit_after_start_twice :
    let before : List Event := [.log "a", .checkpoint (some "x"), .log "b", .checkpoint (some "")]
    (((start none).after before).exit? (.crash (.plain "c"))).map (·.stderr) = some
      (linesText ["=== Error backlog ===", "[ Error ] \x7bNone\x7d \t| a",
        "[ Error ] \x7bx\x7d \t| b", "[ Fatal Error ] | c"]) := by
  intro before
  obtain ⟨-, -, -, hcrash, -, -, hprints⟩ := exit_after_start none before
  obtain ⟨o, ho⟩ := hcrash (.plain "c")
  obtain ⟨d, hd, -, -, hstderr, -⟩ := hprints _ o ho
  obtain rfl : Diagnostic.plain "c" = d := Option.some.inj hd
  have hlogged : logged before = ["\x7bNone\x7d \t| a", "\x7bx\x7d \t| b"] := by decide
  have hstage : stageAfter (before ++ [.crash (.plain "c")]) = some "" := by decide
  rw [ho, Option.map_some, hstderr, hlogged, hstage]
  rfl

end ArithAsm.Reporter
