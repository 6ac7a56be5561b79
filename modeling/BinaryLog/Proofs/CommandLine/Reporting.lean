import BinaryLog.CommandLine.Report
import BinaryLog.Proofs.Replay.Driving
import BinaryLog.Proofs.Replay.Limit

namespace BinaryLog

/-!
# What the program shows of a replay

The program calls a replay in a loop of its own, which does what a sink does that adds to the
output. So it shows what the calls of the replay tell, up to the same end.

* `Event.line?`, the line that an event is shown as, and `unlines`;
* `CommandLine.showEvents_eq_run`, the program's loop beside a replay with a sink;
* `CommandLine.completion`, what is shown behind the last event;
* `CommandLine.reportLog_eq`, the report on an open log;
* `CommandLine.report_plays_out`, sinks, iterators and the program tell alike.
-/

/-- The line that an event is shown as. Padding is not shown. -/
def Event.line? : Event → Option String
  | .message m => some m.line
  | .checkpoint c => some c.line
  | .padding .. => none

/-- A text of these lines. -/
def unlines (lines : List String) : String := lines.foldr (fun line rest => line ++ "\n" ++ rest) ""

theorem unlines_append (lines more : List String) :
    unlines (lines ++ more) = unlines lines ++ unlines more := by
  induction lines with
  | nil => simp [unlines]
  | cons line lines ih => simp_all [unlines, String.append_assoc]

namespace CommandLine

open Replayer (PlaysOut exists_playsOut itemsOf pulled)

/-- The lines behind those of the events: one with the number of messages if there was no error. -/
def completion (told : List Event) : Except ReplayError Unit → List String
  | .ok _ => [s!"Decompression complete after printing {(messagesOf told).length} log messages"]
  | .error _ => []

/-- The last line of a report counts the messages. -/
theorem completionLine_eq (summary : Summary) : completionLine summary =
    s!"Decompression complete after printing {summary.messages} log messages" ++ "\n" := by
  have hend : " log messages\n" = " log messages" ++ "\n" := by decide +kernel
  unfold completionLine
  rw [hend]
  exact String.append_assoc.symm

/-- An event is written as one line, or as none. -/
theorem eventLine_eq (event : Event) : eventLine event = unlines event.line?.toList := by
  cases event <;> simp [eventLine, Event.line?, unlines]

/-- What the sink of the program makes of events. -/
theorem foldl_eventLine (told : List Event) (output : String) :
    told.foldl (fun shown event => shown ++ eventLine event) output =
      output ++ unlines (told.filterMap Event.line?) := by
  induction told generalizing output with
  | nil => simp [unlines]
  | cons event told ih =>
    rw [List.foldl_cons, ih, eventLine_eq, String.append_assoc, ← unlines_append]
    cases h : event.line? <;> simp [h]

/-- **The program's loop** is a sink that adds the line of each event to the output. -/
theorem showEvents_eq_run (output : String) (r : Replayer) :
    showEvents output r =
      let (result, shown, last) := r.run (fun shown event => shown ++ eventLine event) output
      (result.map fun _ => (), shown, last) := by
  fun_induction showEvents output r with
  | case1 output r event s h ih => rw [Replayer.run_of_event _ _ h, ih]
  | case2 output r s h =>
    have h : r.next = ((Except.ok () : Except ReplayError Unit).map fun _ => none, s) := h
    rw [Replayer.run_of_silence _ _ h]
    rfl
  | case3 output r error s h =>
    have h : r.next = ((Except.error error : Except ReplayError Unit).map fun _ => none, s) := h
    rw [Replayer.run_of_silence _ _ h]
    rfl

/-- What the loop shows of a replay that plays out. -/
theorem showEvents_eq {r last : Replayer} {told : List Event} {outcome : Except ReplayError Unit}
    (output : String) (h : PlaysOut r told outcome last) :
    showEvents output r = (outcome, output ++ unlines (told.filterMap Event.line?), last) := by
  rw [showEvents_eq_run, h.run_eq, foldl_eventLine]
  cases outcome <;> rfl

/-- The totals of a replay from its beginning count the messages it has told. -/
theorem messages_summary {source : Source} {registry : Registry} {config : ReplayConfig}
    {told : List Event} {outcome : Except ReplayError Unit} {last : Replayer}
    (h : PlaysOut (.start source registry config) told outcome last) :
    last.summary.messages = (messagesOf told).length := by
  obtain ⟨s, htells, hs⟩ := h.exists_tells
  have haccounts := htells.accounts (Replayer.accounts_start source registry config)
  -- the call that ends the replay tells no message
  have hsilent : s.event? = none := by
    rw [Replayer.event?, hs]
    cases outcome <;> rfl
  obtain ⟨source, phase, hlast⟩ := Replayer.next_of_event?_eq_none hsilent
  rw [hs] at hlast
  rw [show last = _ from hlast]
  exact haccounts.messages

/-- **The report on an open log** shows all that is told before the replay ends, and behind it the
    number of messages unless the replay has failed. -/
theorem reportLog_eq {source : Source} {registry : Registry} {config : ReplayConfig}
    {told : List Event} {outcome : Except ReplayError Unit} {last : Replayer}
    (output path : String) (h : PlaysOut (.start source registry config) told outcome last) :
    (reportLog output path (.start source registry config)).output =
        output ++ unlines (told.filterMap Event.line? ++ completion told outcome) ∧
      ((reportLog output path (.start source registry config)).exitCode = 0 ↔
        outcome = .ok ()) := by
  rw [reportLog, showEvents_eq output h]
  cases outcome with
  | ok _ =>
    refine ⟨?_, by simp⟩
    show output ++ unlines (told.filterMap Event.line?) ++ completionLine last.summary = _
    rw [completionLine_eq, messages_summary h, unlines_append, String.append_assoc]
    simp [completion, unlines]
  | error error =>
    simp only [completion, List.append_nil]
    exact ⟨rfl, by simp [failure]⟩

/-- **Sinks, iterators and the program tell alike.** Whatever state a replay is in, its calls tell
    events up to the first that tells none. A sink is handed these events, and the totals or the
    error come back; an iterator yields them, then the error if there is one, then nothing for ever.
    On a log that can be opened, the program shows a line for each message and each checkpoint among
    them, also in front of an error; without an error it adds their number and succeeds. -/
theorem report_plays_out :
    (∀ r : Replayer, ∃ told outcome last, PlaysOut r told outcome last ∧
      (∀ (σ : Type) (sink : σ → Event → σ) (state : σ), r.run sink state =
        (outcome.map fun _ => last.summary, told.foldl sink state, last)) ∧
      r.events = (itemsOf told outcome, last) ∧
      ∀ n, (pulled n r).item?.1 = (itemsOf told outcome)[n]?) ∧
    ∀ (arguments : List String) (read : String → FileContent) (o : Options) (catalog : Catalog)
      (source : Source), Invocation.ofArguments arguments = .replay o → o.config.check = .ok () →
      Catalog.ofFile o.catalog (read o.catalog) = .ok catalog →
      openLog (read o.logFile) = .ok source →
      o.config.limit = (if o.maxMessages = 0 then none else some o.maxMessages) ∧
      ∃ told outcome last,
        PlaysOut (.start source (catalog.registry o.origin) o.config) told outcome last ∧
        (run arguments read).output = unlines (("Opening file " ++ o.logFile) ::
          (told.filterMap Event.line? ++ completion told outcome)) ∧
        ((run arguments read).exitCode = 0 ↔ outcome = .ok ()) := by
  refine ⟨fun r => ?_, fun arguments read o catalog source hask hconfig hcatalog hopen => ?_⟩
  · obtain ⟨told, outcome, last, h⟩ := exists_playsOut r
    exact ⟨told, outcome, last, h, fun σ => h.run_eq, h.events_eq, h.item?_pulled⟩
  · obtain ⟨told, outcome, last, h⟩ :=
      exists_playsOut (.start source (catalog.registry o.origin) o.config)
    -- nothing is reported before the log was opened but that it was
    have hrun : run arguments read = reportLog ("Opening file " ++ o.logFile ++ "\n") o.logFile
        (.start source (catalog.registry o.origin) o.config) := by
      rw [run, hask]
      simp only [report, hconfig, hcatalog, hopen]
      rfl
    rw [hrun]
    exact ⟨rfl, told, outcome, last, h, reportLog_eq _ _ h⟩

/-- A message with padding behind it, and a message of a format that the catalog does not know. -/
theorem report_plays_out_of_unknown_format :
    let document := "\x7b\"formats\":[\x7b\"id\":3,\"format\":\"PING\"\x7d]\x7d"
    let read (path : String) : FileContent :=
      if path = "ids" then .ok (Utf8.encode document) else .ok [0x15, 3, 10, 0, 0, 0x15, 6, 5]
    let o : Options := { logFile := "log", catalog := "ids" }
    let source : Source := .ofBytes [0x15, 3, 10, 0, 0, 0x15, 6, 5]
    let report := run ["log", "-c", "ids"] read
    Invocation.ofArguments ["log", "-c", "ids"] = .replay o ∧ o.config.check = .ok () ∧
      openLog (read o.logFile) = .ok source ∧
      report.output = "Opening file log\n   0) +     10.00 ns: PING\n" ∧ report.exitCode = 1 ∧
      ∃ catalog, Catalog.ofFile o.catalog (read o.catalog) = .ok catalog ∧
        ∃ told outcome last,
          PlaysOut (.start source (catalog.registry false) o.config) told outcome last ∧
          report.output = unlines ("Opening file log" ::
            (told.filterMap Event.line? ++ completion told outcome)) ∧
          (report.exitCode = 0 ↔ outcome = .ok ()) := by
  intro document read o source report
  have hask : Invocation.ofArguments ["log", "-c", "ids"] = .replay o := by decide +kernel
  have hcheck : o.config.check = .ok () := by decide +kernel
  have hload : (Catalog.ofFile o.catalog (read o.catalog)).isOk = true := by decide +kernel
  cases hcatalog : Catalog.ofFile o.catalog (read o.catalog) with
  | error error =>
    rw [hcatalog] at hload
    cases hload
  | ok catalog =>
    obtain ⟨-, hshown⟩ := report_plays_out.2 _ read o catalog source hask hcheck hcatalog rfl
    exact ⟨hask, hcheck, rfl, by decide +kernel, by decide +kernel, catalog, rfl, hshown⟩

end CommandLine

end BinaryLog
