import BinaryLog.Proofs.Entry.Framing
import BinaryLog.Proofs.Sink
import BinaryLog.Writer

namespace BinaryLog

/-!
# What a writer has written

A sink without a bound holds the encodings of the commands that were not refused, one after the
other.

* `Writer.acknowledged`, the commands that succeed, in order;
* `WriteCommand.layout`, the bytes of commands that continue a chain in turn;
* `Writer.stored_performAll`, the sink holds the layout of what was acknowledged;
* `WriteCommand.merge`, the commands as they can be told apart in the bytes: paddings next to each
  other are one, and nothing is left of flushes and empty paddings.
-/

namespace WriteCommand

/-! ### Encodings -/

/-- The chain after a command, if it succeeds. -/
def chainAfter (chain : Chain) : WriteCommand → Chain
  | .message id timestamp _ => { formatId := id, timestamp }
  | _ => chain

/-- Is it a message? -/
def isMessage : WriteCommand → Bool
  | .message _ _ _ => true
  | _ => false

/-- The pieces in which a command hands its bytes to the sink: the first byte and the two deltas of
    a header come before the payload, and the first byte of a checkpoint before its words. -/
def pieces (chain : Chain) : WriteCommand → List Bytes
  | .message id timestamp payload =>
    Header.pieces (chain.formatId.deltaTo id) (timestamp - chain.timestamp) ++ [payload]
  | .checkpoint c => c.pieces
  | .padding length => [List.replicate length 0]
  | .flush => []

/-- The bytes of a command that succeeds. -/
def encode (chain : Chain) : WriteCommand → Bytes
  | .message id timestamp payload => chain.headerTo { formatId := id, timestamp } ++ payload
  | .checkpoint c => c.encode
  | .padding length => List.replicate length 0
  | .flush => []

/-- The pieces of a command are its bytes. -/
theorem flatten_pieces (chain : Chain) (command : WriteCommand) :
    (command.pieces chain).flatten = command.encode chain := by
  cases command with
  | message id timestamp payload => rw [pieces, List.flatten_append, List.flatten_singleton]; rfl
  | checkpoint c => rfl
  | padding length => exact List.append_nil _
  | flush => rfl

/-- Is the command no message that is older than the one before it? -/
def Continues (chain : Chain) : WriteCommand → Prop
  | .message _ timestamp _ => chain.timestamp ≤ timestamp
  | _ => True

/-- The bytes of commands that succeed one after the other. -/
def layout : Chain → List WriteCommand → Bytes
  | _, [] => []
  | chain, command :: commands => command.encode chain ++ layout (command.chainAfter chain) commands

/-- No message of the commands is older than the one before it. -/
def Ordered : Chain → List WriteCommand → Prop
  | _, [] => True
  | chain, command :: commands =>
    command.Continues chain ∧ Ordered (command.chainAfter chain) commands

end WriteCommand

/-! ### What succeeds -/

namespace Writer

open WriteCommand

/-- The commands that succeed, in order. -/
def acknowledged : Writer → List WriteCommand → List WriteCommand
  | _, [] => []
  | w, command :: commands =>
    let rest := acknowledged (w.perform command).2 commands
    if (w.perform command).1.isOk then command :: rest else rest

/-- A message that reaches back in time changes nothing. -/
theorem perform_of_not_continues {w : Writer} {command : WriteCommand}
    (h : ¬ command.Continues w.chain) :
    (w.perform command).1.isOk = false ∧ (w.perform command).2 = w := by
  cases command with
  | message id timestamp payload =>
    have hlt : timestamp < w.chain.timestamp := UInt64.not_le.mp h
    rw [perform, message, if_pos hlt]
    exact ⟨rfl, rfl⟩
  | checkpoint c => exact absurd trivial h
  | padding length => exact absurd trivial h
  | flush => exact absurd trivial h

/-- **An entry is written as a whole**: its pieces are stored as if they came at once. -/
theorem append_eq (w : Writer) (pieces : List Bytes) :
    w.append pieces =
      let sink := w.sink.write pieces.flatten
      if w.sink.fits pieces.flatten then
        (.ok (), { w with sink, bytes := w.bytes + pieces.flatten.length })
      else (.error .sinkFull, { w with sink }) := by
  rw [append, Sink.writeEach_eq]
  cases w.sink.fits pieces.flatten <;> rfl

/-- Any other command appends its pieces, and goes on with its chain if that succeeds. -/
theorem perform_eq {w : Writer} {command : WriteCommand} (h : command.Continues w.chain) :
    w.perform command =
      match w.append (command.pieces w.chain) with
      | (.ok (), v) =>
        (.ok (), { v with
          chain := command.chainAfter v.chain
          messages := v.messages + command.isMessage.toNat })
      | failed => failed := by
  cases command with
  | message id timestamp payload =>
    -- of all commands only a message looks at the chain before it appends
    have hle : ¬ timestamp < w.chain.timestamp := UInt64.not_lt.mpr h
    rw [perform, message, if_neg hle]
    rfl
  | checkpoint c =>
    show w.append c.pieces = _
    rw [pieces]
    rcases w.append c.pieces with ⟨_ | _, v⟩ <;> rfl
  | padding length =>
    show w.append [List.replicate length 0] = _
    rw [pieces]
    rcases w.append [List.replicate length 0] with ⟨_ | _, v⟩ <;> rfl
  | flush => rfl

/-- On a sink without a bound it succeeds and appends its encoding. -/
theorem perform_of_continues {w : Writer} {command : WriteCommand} (hw : w.sink.capacity = none)
    (h : command.Continues w.chain) :
    (w.perform command).1.isOk = true ∧
      (w.perform command).2.sink.stored = w.sink.stored ++ command.encode w.chain ∧
      (w.perform command).2.sink.capacity = none ∧
      (w.perform command).2.chain = command.chainAfter w.chain := by
  have hfits : w.sink.fits (command.encode w.chain) = true := Sink.fits_of_unbounded hw
  rw [perform_eq h, append_eq, flatten_pieces, if_pos hfits, Sink.write_of_fits hfits]
  exact ⟨rfl, rfl, hw, rfl⟩

theorem performAll_cons (w : Writer) (command : WriteCommand) (commands : List WriteCommand) :
    w.performAll (command :: commands) = (w.perform command).2.performAll commands := rfl

/-- **The sink holds what was acknowledged**, if it is not bounded. -/
theorem stored_performAll {w : Writer} (hw : w.sink.capacity = none)
    (commands : List WriteCommand) :
    (w.performAll commands).sink.stored =
        w.sink.stored ++ layout w.chain (w.acknowledged commands) ∧
      Ordered w.chain (w.acknowledged commands) := by
  induction commands generalizing w with
  | nil => exact ⟨(List.append_nil _).symm, trivial⟩
  | cons command commands ih =>
    rw [performAll_cons, acknowledged]
    by_cases h : command.Continues w.chain
    · -- the others are laid out behind the command, from the chain after it
      obtain ⟨hok, hstored, hcapacity, hchain⟩ := perform_of_continues hw h
      obtain ⟨ihstored, ihordered⟩ := ih hcapacity
      rw [if_pos hok, ihstored, hstored, List.append_assoc, layout]
      rw [hchain] at ihordered ⊢
      exact ⟨rfl, h, ihordered⟩
    · -- nothing is stored and the writer is as before
      obtain ⟨hrefused, hsame⟩ := perform_of_not_continues h
      simp only [hrefused, Bool.false_eq_true, if_false, hsame]
      exact ih hw

/-- Commands in order all succeed on a sink without a bound. -/
theorem acknowledged_of_ordered {w : Writer} (hw : w.sink.capacity = none)
    {commands : List WriteCommand} (h : Ordered w.chain commands) :
    w.acknowledged commands = commands := by
  induction commands generalizing w with
  | nil => rfl
  | cons command commands ih =>
    obtain ⟨hcommand, hcommands⟩ := h
    obtain ⟨hok, _, hcapacity, hchain⟩ := perform_of_continues hw hcommand
    rw [acknowledged, if_pos hok, ih hcapacity (hchain ▸ hcommands)]

end Writer

/-! ### What can be told apart -/

namespace WriteCommand

/-- Zeros in front of commands, joined with a padding that the commands begin with. -/
def pad (length : Nat) : List WriteCommand → List WriteCommand
  | .padding more :: commands => .padding (length + more) :: commands
  | commands => .padding length :: commands

/-- The commands as they can be told apart in the bytes: paddings next to each other are one, and
    nothing is left of flushes and empty paddings. -/
def merge : List WriteCommand → List WriteCommand
  | [] => []
  | .flush :: commands => merge commands
  | .padding length :: commands =>
    if length = 0 then merge commands else pad length (merge commands)
  | command :: commands => command :: merge commands

/-- Every command takes bytes, and no two paddings stand next to each other. -/
def Merged : List WriteCommand → Prop
  | [] => True
  | .flush :: _ => False
  | .padding length :: commands =>
    0 < length ∧ (∀ more rest, commands ≠ .padding more :: rest) ∧ Merged commands
  | _ :: commands => Merged commands

theorem Merged.tail {command : WriteCommand} {commands : List WriteCommand}
    (h : Merged (command :: commands)) : Merged commands := by
  cases command with
  | message id timestamp payload => exact h
  | checkpoint c => exact h
  | padding length => exact h.2.2
  | flush => exact h.elim

theorem layout_pad (chain : Chain) (length : Nat) (commands : List WriteCommand) :
    layout chain (pad length commands) = List.replicate length 0 ++ layout chain commands := by
  cases commands with
  | nil => rfl
  | cons command commands =>
    cases command with
    | padding more =>
      simp only [pad, layout, encode, chainAfter, ← List.append_assoc,
        List.replicate_append_replicate]
    | message id timestamp payload => rfl
    | checkpoint c => rfl
    | flush => rfl

/-- A padding in front of merged commands is merged with a padding there. -/
theorem merged_pad {length : Nat} (hlength : 0 < length) {commands : List WriteCommand}
    (h : Merged commands) : Merged (pad length commands) := by
  cases commands with
  | nil => exact ⟨hlength, by simp, trivial⟩
  | cons command commands =>
    cases command with
    -- two paddings become one, and what follows the second now follows both
    | padding more => exact ⟨Nat.add_pos_left hlength more, h.2⟩
    | message id timestamp payload => exact ⟨hlength, by simp, h⟩
    | checkpoint c => exact ⟨hlength, by simp, h⟩
    | flush => exact h.elim

/-- Merging does not change the bytes. -/
theorem layout_merge (chain : Chain) (commands : List WriteCommand) :
    layout chain (merge commands) = layout chain commands := by
  fun_induction merge commands generalizing chain with
  | case1 => rfl
  | case2 commands ih => rw [ih]; rfl
  | case3 commands ih => rw [ih]; rfl
  | case4 length commands _ ih => rw [layout_pad, ih]; rfl
  | case5 command commands _ _ ih => rw [layout, layout, ih]

/-- Merging leaves no two paddings side by side. -/
theorem merged_merge (commands : List WriteCommand) : Merged (merge commands) := by
  fun_induction merge commands with
  | case1 => trivial
  | case2 commands ih => exact ih
  | case3 commands ih => exact ih
  | case4 length commands hlength ih => exact merged_pad (Nat.pos_of_ne_zero hlength) ih
  | case5 command commands hflush hpadding ih =>
    cases command with
    | message id timestamp payload => exact ih
    | checkpoint c => exact ih
    | padding length => exact absurd rfl (hpadding length)
    | flush => exact absurd rfl hflush

/-- Merging keeps the messages as they are. -/
theorem message_mem_of_mem_merge {id : FormatId} {timestamp : UInt64} {payload : Bytes}
    {commands : List WriteCommand} (h : .message id timestamp payload ∈ merge commands) :
    .message id timestamp payload ∈ commands := by
  have hpad (length : Nat) (commands : List WriteCommand)
      (h : .message id timestamp payload ∈ pad length commands) :
      .message id timestamp payload ∈ commands := by
    rw [pad.eq_def] at h
    split at h <;> simpa using h
  fun_induction merge commands with
  | case1 => exact h
  | case2 commands ih => exact List.mem_cons_of_mem _ (ih h)
  | case3 commands ih => exact List.mem_cons_of_mem _ (ih h)
  | case4 length commands _ ih => exact List.mem_cons_of_mem _ (ih (hpad _ _ h))
  | case5 command commands _ _ ih =>
    rcases List.mem_cons.mp h with rfl | h
    · exact List.mem_cons_self
    · exact List.mem_cons_of_mem _ (ih h)

/-- Paddings do not touch the order of messages. -/
theorem ordered_pad {chain : Chain} {length : Nat} {commands : List WriteCommand} :
    Ordered chain (pad length commands) ↔ Ordered chain commands := by
  cases commands with
  | nil => simp [pad, Ordered, Continues]
  | cons command commands => cases command <;> simp [pad, Ordered, Continues, chainAfter]

/-- Merging does not change the messages' order. -/
theorem ordered_merge {chain : Chain} {commands : List WriteCommand} :
    Ordered chain (merge commands) ↔ Ordered chain commands := by
  fun_induction merge commands generalizing chain with
  | case1 => rfl
  | case2 commands ih => simp [ih, Ordered, Continues, chainAfter]
  | case3 commands ih => simp [ih, Ordered, Continues, chainAfter]
  | case4 length commands _ ih => simp [ordered_pad, ih, Ordered, Continues, chainAfter]
  | case5 command commands _ _ ih => rw [Ordered, Ordered, ih]

end WriteCommand

end BinaryLog
