import BinaryLog.Proofs.Writer.Layout
import Mathlib.Data.List.Induction

namespace BinaryLog

/-!
# Writing to a sink with a bound

A sink with a bound stores what fits and then nothing more. A writer on such a sink is compared with
one on a sink without a bound. Up to the first command that does not fit they do the same; after it
the first one stands still.

* `Writer.perform_of_fits`, `Writer.perform_of_not_fits` and `Writer.perform_of_not_in_order`, the
  three things that a command can do;
* `Writer.Sound`, the invariant of all writers, and `Writer.written_performAll`, the bytes that are
  counted are those of the acknowledged commands, whatever else is stored;
* `Writer.Stuck`, a writer that no command changes any more;
* `Writer.agrees_or_cutShort`, the two ways in which a run on a bounded sink can go.
-/

/-! ### Commands -/

namespace WriteCommand

/-- What a sink without any room makes of a command: a message that reaches back in time is refused
    for that, and of the others only those without a byte succeed. -/
def answerWhenFull (chain : Chain) : WriteCommand → Except WriteError Unit
  | .message _ timestamp _ =>
    if timestamp < chain.timestamp then .error (.timeReversed chain.timestamp timestamp)
    else .error .sinkFull
  | .checkpoint _ => .error .sinkFull
  | .padding length => if length = 0 then .ok () else .error .sinkFull
  | .flush => .ok ()

/-- Any command in order succeeds on a full sink exactly if it has no bytes. -/
theorem answerWhenFull_of_continues {chain : Chain} {command : WriteCommand}
    (h : command.Continues chain) :
    command.answerWhenFull chain =
      if command.encode chain = [] then .ok () else .error .sinkFull := by
  cases command with
  | message id timestamp payload =>
    have hheader : chain.headerTo { formatId := id, timestamp } ++ payload ≠ [] := by
      simp [Chain.headerTo, Header.encode_eq_cons]
    rw [answerWhenFull, if_neg (UInt64.not_lt.mpr h), encode, if_neg hheader]
  | checkpoint c => rfl
  | padding length => simp [answerWhenFull, encode]
  | flush => rfl

end WriteCommand

/-! ### What a command can do -/

namespace Writer

open WriteCommand

variable {w : Writer} {command : WriteCommand}

/-- The writer after a command whose bytes are all stored. -/
def after (w : Writer) (command : WriteCommand) : Writer :=
  { sink := w.sink.write (command.encode w.chain)
    chain := command.chainAfter w.chain
    messages := w.messages + command.isMessage.toNat
    bytes := w.bytes + (command.encode w.chain).length }

/-- A command without bytes changes nothing. -/
theorem after_of_encode_eq_nil (h : command.encode w.chain = []) : w.after command = w := by
  rw [after, h, Sink.write_nil]
  cases command with
  | message id timestamp payload => simp [encode, Chain.headerTo, Header.encode_eq_cons] at h
  | checkpoint c => cases h
  | padding length => rfl
  | flush => rfl

/-- A command that fits succeeds. -/
theorem perform_of_fits (h : command.Continues w.chain)
    (hfits : w.sink.fits (command.encode w.chain) = true) :
    w.perform command = (.ok (), w.after command) := by
  rw [perform_eq h, append_eq, flatten_pieces, if_pos hfits]
  rfl

/-- A command that does not fit fails, and changes nothing but the sink. -/
theorem perform_of_not_fits (h : command.Continues w.chain)
    (hfits : w.sink.fits (command.encode w.chain) = false) :
    w.perform command =
      (.error .sinkFull, { w with sink := w.sink.write (command.encode w.chain) }) := by
  rw [perform_eq h, append_eq, flatten_pieces, if_neg (Bool.eq_false_iff.mp hfits)]

/-- A message that reaches back in time is refused before anything is written. -/
theorem perform_of_not_in_order (h : ¬ command.Continues w.chain) :
    w.perform command = (command.answerWhenFull w.chain, w) := by
  cases command with
  | message id timestamp payload =>
    have hlt : timestamp < w.chain.timestamp := UInt64.not_le.mp h
    rw [perform, message, if_pos hlt, answerWhenFull, if_pos hlt]
  | checkpoint c => exact absurd trivial h
  | padding length => exact absurd trivial h
  | flush => exact absurd trivial h

/-- **A command hands its bytes over in pieces**, and succeeds if the sink takes them all. -/
theorem perform_eq_writeEach (h : command.Continues w.chain) :
    ((w.perform command).1.isOk, (w.perform command).2.sink) =
      w.sink.writeEach (command.pieces w.chain) := by
  rw [perform_eq h, append]
  rcases w.sink.writeEach (command.pieces w.chain) with ⟨stored, sink⟩
  cases stored <;> rfl

theorem performAll_concat (w : Writer) (commands : List WriteCommand) (command : WriteCommand) :
    w.performAll (commands ++ [command]) = ((w.performAll commands).perform command).2 := by
  rw [performAll, performAll, List.foldl_append]
  rfl

/-- What the writer answers to each of the commands. -/
def answers : Writer → List WriteCommand → List (Except WriteError Unit)
  | _, [] => []
  | w, command :: commands => (w.perform command).1 :: answers (w.perform command).2 commands

theorem answers_concat (w : Writer) (commands : List WriteCommand) (command : WriteCommand) :
    w.answers (commands ++ [command]) =
      w.answers commands ++ [((w.performAll commands).perform command).1] := by
  induction commands generalizing w with
  | nil => rfl
  | cons first commands ih =>
    rw [List.cons_append, answers, answers, ih, performAll_cons, List.cons_append]

/-! ### What commands do to the sink -/

/-- A command writes to the sink, or leaves it as it is. -/
theorem exists_sink_perform (w : Writer) (command : WriteCommand) :
    ∃ bytes, (w.perform command).2.sink = w.sink.write bytes := by
  by_cases h : command.Continues w.chain
  · cases hfits : w.sink.fits (command.encode w.chain) with
    | true => exact ⟨_, by rw [perform_of_fits h hfits]; rfl⟩
    | false => exact ⟨_, by rw [perform_of_not_fits h hfits]⟩
  · exact ⟨[], by rw [perform_of_not_in_order h, Sink.write_nil]⟩

/-- What every write keeps, commands keep. -/
theorem sink_performAll {P : Sink → Prop} (hwrite : ∀ s bytes, P s → P (s.write bytes))
    (h : P w.sink) (commands : List WriteCommand) : P (w.performAll commands).sink := by
  induction commands generalizing w with
  | nil => exact h
  | cons command commands ih =>
    obtain ⟨bytes, hsink⟩ := w.exists_sink_perform command
    exact ih (hsink ▸ hwrite w.sink bytes h)

/-- No command changes the capacity. -/
theorem capacity_performAll (w : Writer) (commands : List WriteCommand) :
    (w.performAll commands).sink.capacity = w.sink.capacity :=
  sink_performAll (P := (·.capacity = w.sink.capacity))
    (fun s bytes h => (s.capacity_write bytes).trans h) rfl commands

/-- Nothing that is stored is lost, by any number of commands. -/
theorem exists_stored_performAll (w : Writer) (commands : List WriteCommand) :
    ∃ more, (w.performAll commands).sink.stored = w.sink.stored ++ more := by
  refine sink_performAll (P := fun s => ∃ more, s.stored = w.sink.stored ++ more) ?_
    ⟨[], (List.append_nil _).symm⟩ commands
  rintro s bytes ⟨more, hmore⟩
  obtain ⟨last, hlast⟩ := s.exists_stored_write bytes
  exact ⟨more ++ last, by rw [hlast, hmore, List.append_assoc]⟩

/-- No sink stores more than its bound. -/
theorem length_stored_performAll_le {capacity : Nat} (hcapacity : w.sink.capacity = some capacity)
    (hle : w.sink.stored.length ≤ capacity) (commands : List WriteCommand) :
    (w.performAll commands).sink.stored.length ≤ capacity := by
  refine (sink_performAll
    (P := fun s => s.capacity = some capacity ∧ s.stored.length ≤ capacity) ?_ ⟨hcapacity, hle⟩
    commands).2
  rintro s bytes ⟨hcapacity, hle⟩
  rw [Sink.capacity_write, Sink.stored_write_of_bounded hcapacity hle]
  exact ⟨hcapacity, List.length_take_le _ _⟩

/-! ### What is counted is there -/

/-- The bytes of the entries that were written whole. -/
def written (w : Writer) : Bytes := w.sink.stored.take w.bytes

/-- What a writer counts is stored, in front. Behind it lies at most what is left of an entry that
    did not fit, and then there is no room for anything. -/
structure Sound (w : Writer) : Prop where
  counted : w.bytes ≤ w.sink.stored.length
  full : w.bytes < w.sink.stored.length → w.sink.IsFull

theorem Sound.of_empty (capacity : Option Nat) : Sound { sink := { capacity } } :=
  ⟨Nat.le_refl _, fun h => absurd h (Nat.lt_irrefl _)⟩

/-- After a command that fits, what is counted has its bytes behind it. -/
theorem Sound.after (h : w.Sound) (hfits : w.sink.fits (command.encode w.chain) = true) :
    (w.after command).Sound ∧
      (w.after command).written = w.written ++ command.encode w.chain := by
  have hstored : (w.after command).sink.stored = w.sink.stored ++ command.encode w.chain :=
    congrArg Sink.stored (Sink.write_of_fits hfits)
  have hbytes : (w.after command).bytes = w.bytes + (command.encode w.chain).length := rfl
  obtain hlt | heq := Nat.lt_or_eq_of_le h.counted
  · -- only a command without bytes still fits
    have hnil := (h.full hlt).fits_iff.mp hfits
    have hsink : (w.after command).sink = w.sink := (h.full hlt).write_eq _
    rw [hnil, List.length_nil, Nat.add_zero] at hbytes
    rw [written, written, hbytes, hsink, hnil, List.append_nil]
    exact ⟨⟨by rw [hbytes, hsink]; exact h.counted, fun _ => hsink ▸ h.full hlt⟩, rfl⟩
  · -- nothing lies behind what is counted, so the new bytes come next
    have hlength : (w.after command).bytes = (w.after command).sink.stored.length := by
      rw [hbytes, hstored, List.length_append, heq]
    refine ⟨⟨Nat.le_of_eq hlength, fun hlt => ?_⟩, ?_⟩
    · rw [hlength] at hlt
      exact absurd hlt (Nat.lt_irrefl _)
    · rw [written, written, hlength, List.take_length, hstored, heq, List.take_length]

/-- After an entry that does not fit, what is counted is what it was. -/
theorem Sound.overflow (h : w.Sound) {entry : Bytes} (hfits : w.sink.fits entry = false) :
    ({ w with sink := w.sink.write entry } : Writer).Sound ∧
      ({ w with sink := w.sink.write entry } : Writer).written = w.written := by
  -- whatever part of the entry was stored lies behind what is counted
  obtain ⟨more, hmore⟩ := Sink.exists_stored_write w.sink entry
  have hle : w.bytes ≤ (w.sink.write entry).stored.length := by
    rw [hmore, List.length_append]
    exact Nat.le_add_right_of_le h.counted
  refine ⟨⟨hle, fun _ => Sink.isFull_write hfits⟩, ?_⟩
  rw [written, written, hmore, List.take_append_of_le_length h.counted]

/-- **What is counted was acknowledged.** On any sink, the bytes that a writer counts are those of
    the commands that succeeded, and it counts the messages among these. -/
theorem written_performAll (h : w.Sound) (commands : List WriteCommand) :
    (w.performAll commands).written = w.written ++ layout w.chain (w.acknowledged commands) ∧
      Ordered w.chain (w.acknowledged commands) ∧
      (w.performAll commands).messages =
        w.messages + (w.acknowledged commands).countP isMessage := by
  induction commands generalizing w with
  | nil => exact ⟨(List.append_nil _).symm, trivial, rfl⟩
  | cons command commands ih =>
    rw [performAll_cons, acknowledged]
    by_cases hinOrder : command.Continues w.chain
    · cases hfits : w.sink.fits (command.encode w.chain) with
      | true =>
        obtain ⟨hsound, hwritten⟩ := h.after hfits
        obtain ⟨ihwritten, ihordered, ihmessages⟩ := ih hsound
        rw [perform_of_fits hinOrder hfits]
        refine ⟨?_, ⟨hinOrder, ihordered⟩, ?_⟩
        · rw [ihwritten, hwritten, List.append_assoc]
          rfl
        · rw [ihmessages]
          show _ = w.messages +
            (command :: acknowledged (w.after command) commands).countP isMessage
          rw [List.countP_cons, Writer.after]
          cases command.isMessage <;> simp [Nat.add_assoc, Nat.add_comm]
      | false =>
        -- a command that does not fit is not counted, whatever it leaves in the sink
        obtain ⟨hsound, hwritten⟩ := h.overflow hfits
        rw [perform_of_not_fits hinOrder hfits]
        have ih := ih hsound
        rw [hwritten] at ih
        exact ih
    -- a command out of order is refused before the sink is touched
    · obtain ⟨hrefused, hsame⟩ := perform_of_not_continues hinOrder
      simp only [hrefused, hsame]
      exact ih h

/-! ### Writers that stand still -/

/-- Whatever commands follow, the writer stays as it is, and answers them by its chain alone. -/
def Stuck (w : Writer) : Prop :=
  ∀ commands : List WriteCommand,
    w.performAll commands = w ∧ w.answers commands = commands.map (answerWhenFull w.chain)

/-- **A full writer** refuses whatever takes a byte, and stays as it is. -/
theorem perform_of_isFull (h : w.sink.IsFull) (command : WriteCommand) :
    w.perform command = (command.answerWhenFull w.chain, w) := by
  by_cases hinOrder : command.Continues w.chain
  · rw [answerWhenFull_of_continues hinOrder]
    cases hfits : w.sink.fits (command.encode w.chain) with
    | true =>
      -- only an entry without bytes fits, and leaves no trace
      have hnil := h.fits_iff.mp hfits
      rw [perform_of_fits hinOrder hfits, if_pos hnil, after_of_encode_eq_nil hnil]
    | false =>
      have hne : command.encode w.chain ≠ [] := fun hnil => by
        rw [h.fits_iff.mpr hnil] at hfits
        cases hfits
      rw [perform_of_not_fits hinOrder hfits, if_neg hne, h.write_eq]
  · exact perform_of_not_in_order hinOrder

/-- **A full sink stays full**, and so the writer stands still. -/
theorem stuck_of_isFull (h : w.sink.IsFull) : w.Stuck := by
  intro commands
  induction commands with
  | nil => exact ⟨rfl, rfl⟩
  | cons command commands ih =>
    rw [performAll_cons, answers, perform_of_isFull h]
    exact ⟨ih.1, congrArg (List.cons _) ih.2⟩

/-! ### Two sinks -/

/-- The writer on a sink with a bound. -/
def bound (w : Writer) (capacity : Nat) : Writer :=
  { w with sink := { w.sink with capacity := some capacity } }

/-- A writer on a bounded sink does the commands, and every first part of them, as one on a sink
    without a bound does. -/
def Agrees (capacity : Nat) (commands : List WriteCommand) : Prop :=
  ∀ earlier, earlier <+: commands →
    (({} : Writer).bound capacity).answers earlier = ({} : Writer).answers earlier ∧
      (({} : Writer).bound capacity).performAll earlier =
        (({} : Writer).performAll earlier).bound capacity

/-- A writer on a bounded sink does the commands `before` as one on a sink without a bound does, and
    then fails at a command for which there is not enough room. -/
structure CutShort (capacity : Nat) (before : List WriteCommand) (command : WriteCommand) :
    Prop where
  agrees : Agrees capacity before
  /-- Without a bound the command succeeds. -/
  accepted : ((({} : Writer).performAll before).perform command).1 = .ok ()
  tooLong : capacity < (({} : Writer).performAll (before ++ [command])).sink.stored.length
  failed : (((({} : Writer).bound capacity).performAll before).perform command).1 =
    .error .sinkFull
  /-- The failure leaves bytes in the sink and changes nothing else. -/
  kept : ∃ sink, (({} : Writer).bound capacity).performAll (before ++ [command]) =
    { ({} : Writer).performAll before with sink }
  stored : ((({} : Writer).bound capacity).performAll (before ++ [command])).sink.stored =
    (({} : Writer).performAll (before ++ [command])).sink.stored.take capacity
  /-- Whatever follows changes nothing any more. -/
  stuck : ((({} : Writer).bound capacity).performAll (before ++ [command])).Stuck

variable {capacity : Nat} {before commands : List WriteCommand}

theorem Agrees.nil (capacity : Nat) : Agrees capacity [] := by
  intro earlier h
  rw [List.prefix_nil.mp h]
  exact ⟨rfl, rfl⟩

/-- A writer that has room for everything stores the same as one without a bound. -/
theorem Agrees.performAll_eq (h : Agrees capacity commands) :
    (({} : Writer).bound capacity).performAll commands =
      (({} : Writer).performAll commands).bound capacity :=
  (h commands (List.prefix_refl commands)).2

/-- One more command that is done alike. -/
theorem Agrees.concat (h : Agrees capacity commands) {answer : Except WriteError Unit} {v : Writer}
    (hfree : (({} : Writer).performAll commands).perform command = (answer, v))
    (hbounded : ((({} : Writer).performAll commands).bound capacity).perform command =
      (answer, v.bound capacity)) : Agrees capacity (commands ++ [command]) := by
  intro earlier hearlier
  obtain rfl | hprefix := List.prefix_concat_iff.mp hearlier
  · rw [answers_concat, answers_concat, performAll_concat, performAll_concat, h.performAll_eq,
      hfree, hbounded, (h commands (List.prefix_refl commands)).1]
    exact ⟨rfl, rfl⟩
  · exact h earlier hprefix

/-- What was stored fits. -/
theorem Agrees.length_le (h : Agrees capacity commands) :
    (({} : Writer).performAll commands).sink.stored.length ≤ capacity := by
  have hle := length_stored_performAll_le (w := ({} : Writer).bound capacity) rfl
    (Nat.zero_le capacity) commands
  rw [h.performAll_eq] at hle
  exact hle

/-- What fits in spite of the bound is stored as without one. -/
theorem after_bound (hw : w.sink.capacity = none)
    (hfits : (w.bound capacity).sink.fits (command.encode w.chain) = true) :
    (w.bound capacity).after command = (w.after command).bound capacity := by
  have hbounded : (w.bound capacity).sink.write (command.encode w.chain) = _ :=
    Sink.write_of_fits hfits
  have hfree : w.sink.write (command.encode w.chain) = _ :=
    Sink.write_of_fits (Sink.fits_of_unbounded hw)
  have hafter : (w.bound capacity).after command =
      { w.after command with sink := (w.bound capacity).sink.write (command.encode w.chain) } := rfl
  rw [hafter, hbounded, bound, Writer.after, hfree]
  rfl

/-- The first command for which there is not enough room. -/
theorem Agrees.cutShort (h : Agrees capacity before)
    (hinOrder : command.Continues (({} : Writer).performAll before).chain)
    (hfits : ((({} : Writer).performAll before).bound capacity).sink.fits
      (command.encode (({} : Writer).performAll before).chain) = false) :
    CutShort capacity before command := by
  have hlength := h.length_le
  -- without a bound there is room, so the two writers part here
  have hroom : (({} : Writer).performAll before).sink.fits
      (command.encode (({} : Writer).performAll before).chain) = true :=
    Sink.fits_of_unbounded (capacity_performAll {} before)
  have hbounded := performAll_concat (({} : Writer).bound capacity) before command
  have hfree := performAll_concat {} before command
  rw [h.performAll_eq] at hbounded
  generalize hw : ({} : Writer).performAll before = w at *
  have hfails : (w.bound capacity).perform command = _ := perform_of_not_fits hinOrder hfits
  have hsucceeds := perform_of_fits hinOrder hroom
  rw [hfails] at hbounded
  rw [hsucceeds, Writer.after, Sink.write_of_fits hroom] at hfree
  -- the sink takes as much of the command as there is room for
  refine ⟨h, ?_, ?_, ?_, ⟨(w.bound capacity).sink.write (command.encode w.chain), ?_⟩, ?_, ?_⟩
  · rw [hw, hsucceeds]
  · rw [hfree, List.length_append]
    obtain ⟨_, ⟨⟩, hlt⟩ := Sink.exists_capacity_of_not_fits hfits
    exact Nat.sub_lt_iff_lt_add' hlength |>.mp hlt
  · rw [h.performAll_eq, hw, hfails]
  · rw [hbounded, hw]
    rfl
  · rw [hbounded, hfree]
    exact Sink.stored_write_of_bounded (s := (w.bound capacity).sink) rfl hlength _
  · rw [hbounded]
    exact stuck_of_isFull (Sink.isFull_write hfits)

/-- **A run on a bounded sink** goes as on a sink without a bound, up to its end or up to the first
    command for which there is not enough room. -/
theorem agrees_or_cutShort (capacity : Nat) (commands : List WriteCommand) :
    Agrees capacity commands ∨
      ∃ before command after, commands = before ++ command :: after ∧
        CutShort capacity before command := by
  -- by the last command, as it is the first failure that matters
  induction commands using List.reverseRecOn with
  | nil => exact .inl (.nil capacity)
  | append_singleton commands command ih =>
    obtain hagrees | ⟨before, failing, after, rfl, hcut⟩ := ih
    · by_cases hinOrder : command.Continues (({} : Writer).performAll commands).chain
      · cases hfits : ((({} : Writer).performAll commands).bound capacity).sink.fits
            (command.encode (({} : Writer).performAll commands).chain) with
        | true =>
          have hcapacity := capacity_performAll {} commands
          refine .inl (hagrees.concat
            (perform_of_fits hinOrder (Sink.fits_of_unbounded hcapacity)) ?_)
          rw [← after_bound hcapacity hfits]
          exact perform_of_fits hinOrder hfits
        | false => exact .inr ⟨commands, command, [], rfl, hagrees.cutShort hinOrder hfits⟩
      · exact .inl (hagrees.concat (perform_of_not_in_order hinOrder)
          (perform_of_not_in_order hinOrder))
    · -- after the failure there is nothing new
      refine .inr ⟨before, failing, after ++ [command], ?_, hcut⟩
      rw [List.append_assoc, List.cons_append]

/-! ### What is stored -/

theorem performAll_append (w : Writer) (before after : List WriteCommand) :
    w.performAll (before ++ after) = (w.performAll before).performAll after :=
  List.foldl_append

/-- **A bounded sink holds the first bytes** of what a sink without a bound would hold. -/
theorem stored_performAll_bound (capacity : Nat) (commands : List WriteCommand) :
    ((({} : Writer).bound capacity).performAll commands).sink.stored =
      (({} : Writer).performAll commands).sink.stored.take capacity := by
  obtain hagrees | ⟨before, command, after, rfl, hcut⟩ := agrees_or_cutShort capacity commands
  · rw [hagrees.performAll_eq, List.take_of_length_le hagrees.length_le]
    rfl
  · -- what is stored after the failure comes too late for the bounded sink
    obtain ⟨more, hmore⟩ :=
      exists_stored_performAll (({} : Writer).performAll (before ++ [command])) after
    rw [List.append_cons, performAll_append, (hcut.stuck after).1, hcut.stored,
      performAll_append _ (before ++ [command]), hmore,
      List.take_append_of_le_length (Nat.le_of_lt hcut.tooLong)]

end Writer

end BinaryLog
