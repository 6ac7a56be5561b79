import BinaryLog.Builder
import BinaryLog.Proofs.Replay.Running
import BinaryLog.Routine
import Mathlib.Algebra.Ring.Nat

namespace BinaryLog

/-!
# Time that does not fit

Messages that are given by their deltas may add up to more than 64 bits hold. The sums here are
exact, while the chain of a replay wraps around, and the replay ends at the first message whose sum
it cannot hold.

* `RawMessage`, a message by its deltas, and `Builder.rawMessages`, a stream of them;
* `RawMessage.timeSum` and `RawMessage.idSum`, the exact sums of the deltas, and
  `RawMessage.chainAt`, the chain they stand for;
* `Replayer.next_rawMessage` and `Replayer.next_overflow`, the call for one message;
* `Replayer.events_rawMessages`, what is told of a whole stream.
-/

/-! ### Raw messages -/

/-- A message given by its deltas. -/
structure RawMessage where
  idDelta : UInt32
  timeDelta : UInt64
  payload : Bytes
deriving DecidableEq

namespace RawMessage

/-- The header of a message. -/
def header (raw : RawMessage) : Bytes := Header.encode raw.idDelta raw.timeDelta

/-- The bytes of messages. -/
def layout (raws : List RawMessage) : Bytes := raws.flatMap fun raw => raw.header ++ raw.payload

/-- The source of a stream of messages, in front of message `n`. -/
def sourceAt (raws : List RawMessage) (n : Nat) : Source :=
  { ahead := layout (raws.drop n), offset := (layout (raws.take n)).length }

/-- The exact sum of the first `n` timestamp deltas. -/
def timeSum (raws : List RawMessage) (n : Nat) : Nat :=
  ((raws.take n).map (·.timeDelta.toNat)).sum

/-- The exact sum of the first `n` id deltas. -/
def idSum (raws : List RawMessage) (n : Nat) : Nat := ((raws.take n).map (·.idDelta.toNat)).sum

/-- The id and the timestamp after `n` messages: the sums of their deltas, as far as they fit. -/
def chainAt (raws : List RawMessage) (n : Nat) : Chain :=
  { formatId := ⟨UInt32.ofNat (idSum raws n)⟩, timestamp := UInt64.ofNat (timeSum raws n) }

/-- What is told of message `i`, which continues to `chain`. -/
def toMessage (rate : Binary64) (text : Nat → String) (i : Nat) (chain : Chain)
    (raw : RawMessage) : Message :=
  { index := i, formatId := chain.formatId, timestamp := chain.timestamp
    elapsedCycles := raw.timeDelta, elapsedNanos := elapsedNanos raw.timeDelta rate
    text := text i }

/-- What is told of messages whose sums fit, where the text of each is given by its index. -/
def replayed (rate : Binary64) (text : Nat → String) (raws : List RawMessage) : List Message :=
  raws.mapIdx fun i raw => raw.toMessage rate text i (chainAt raws (i + 1))

/-- The format of every message whose sum fits is known, and its routine reads exactly the payload
    where it stands. -/
def ReadBy (registry : Registry) (text : Nat → String) (raws : List RawMessage) : Prop :=
  ∀ i (hi : i < raws.length), timeSum raws (i + 1) < UInt64.size →
    ∃ routine, registry.get? (chainAt raws (i + 1)).formatId = some routine ∧
      (routine (chainAt raws (i + 1)).formatId).run
        ((sourceAt raws i).advance raws[i].header.length) = (.ok (text i), sourceAt raws (i + 1))

variable {raws : List RawMessage} {i : Nat}

theorem timeSum_succ (h : i < raws.length) :
    timeSum raws (i + 1) = timeSum raws i + raws[i].timeDelta.toNat := by
  rw [timeSum, timeSum, List.take_succ_eq_append_getElem h, List.map_append, List.sum_append,
    List.map_singleton, List.sum_singleton]

theorem idSum_succ (h : i < raws.length) :
    idSum raws (i + 1) = idSum raws i + raws[i].idDelta.toNat := by
  rw [idSum, idSum, List.take_succ_eq_append_getElem h, List.map_append, List.sum_append,
    List.map_singleton, List.sum_singleton]

/-- A chain that wraps around keeps up with the exact sums. -/
theorem chainAt_succ (h : i < raws.length) :
    chainAt raws (i + 1) = (chainAt raws i).step raws[i].idDelta raws[i].timeDelta := by
  simp only [chainAt, Chain.step, FormatId.shift, timeSum_succ h, idSum_succ h, UInt64.ofNat_add,
    UInt32.ofNat_add, UInt64.ofNat_toNat, UInt32.ofNat_toNat]

/-- Where no sum so far was too large, the last one is not. -/
theorem timeSum_lt_of_forall (h : ∀ j < i, timeSum raws (j + 1) < UInt64.size) :
    timeSum raws i < UInt64.size := by
  cases i with
  | zero => exact Nat.two_pow_pos 64
  | succ i => exact h i (Nat.lt_succ_self i)

/-- As long as the sum fits in 64 bits, it is the timestamp. -/
theorem toNat_timestamp_chainAt (h : timeSum raws i < UInt64.size) :
    (chainAt raws i).timestamp.toNat = timeSum raws i := by
  rw [chainAt, UInt64.toNat_ofNat', Nat.mod_eq_of_lt h]

theorem length_replayed {rate : Binary64} {text : Nat → String} :
    (replayed rate text raws).length = raws.length :=
  List.length_mapIdx

/-- The bytes from a message on. -/
theorem ahead_sourceAt (h : i < raws.length) :
    (sourceAt raws i).ahead =
      raws[i].header ++ (raws[i].payload ++ layout (raws.drop (i + 1))) := by
  rw [sourceAt, List.drop_eq_getElem_cons h, layout, List.flatMap_cons, List.append_assoc]
  rfl

end RawMessage

/-- Appends messages by their deltas. -/
def Builder.rawMessages (b : Builder) (raws : List RawMessage) : Builder :=
  raws.foldl (fun b raw => b.rawMessage raw.idDelta raw.timeDelta raw.payload) b

/-- Raw messages are appended as they are laid out. -/
theorem Builder.bytes_rawMessages (b : Builder) (raws : List RawMessage) :
    (b.rawMessages raws).bytes = b.bytes ++ RawMessage.layout raws := by
  induction raws generalizing b with
  | nil => exact (List.append_nil _).symm
  | cons raw raws ih =>
    have hfirst : (b.rawMessage raw.idDelta raw.timeDelta raw.payload).bytes =
        b.bytes ++ (raw.header ++ raw.payload) := List.append_assoc ..
    rw [RawMessage.layout, List.flatMap_cons, ← List.append_assoc, ← hfirst]
    exact ih _

/-! ### One message -/

namespace Replayer

open RawMessage

variable {r s : Replayer} {raws : List RawMessage} {i n : Nat} {text : Nat → String}

/-- The replay of raw messages stands in front of message `i`. -/
structure At (raws : List RawMessage) (i : Nat) (r : Replayer) : Prop where
  chain : r.chain = chainAt raws i
  messages : r.messages = i
  source : r.source = sourceAt raws i

/-- **A message whose sum fits** is told. -/
theorem next_rawMessage (h : r.At raws i) (hi : i < raws.length)
    (hphase : r.phase.isTerminal = false) (hfits : timeSum raws (i + 1) < UInt64.size)
    (hreads : ReadBy r.registry text raws) :
    ∃ s, r.next = (.ok (some (.message
        (raws[i].toMessage r.rate text i (chainAt raws (i + 1))))), s) ∧
      s.At raws (i + 1) ∧ s.rate = r.rate := by
  have hsum : r.chain.timestamp.toNat + raws[i].timeDelta.toNat < UInt64.size := by
    rw [timeSum_succ hi] at hfits
    rwa [h.chain, toNat_timestamp_chainAt (Nat.lt_of_le_of_lt (Nat.le_add_right _ _) hfits)]
  -- the header is the one that a writer makes for the step
  have hstep : chainAt raws (i + 1) = r.chain.step raws[i].idDelta raws[i].timeDelta := by
    rw [h.chain, chainAt_succ hi]
  obtain ⟨hle, -, helapsed⟩ := Chain.step?_eq_ok_iff.mp (Chain.step?_of_fits raws[i].idDelta hsum)
  rw [← hstep] at hle helapsed
  have hheader : r.chain.headerTo (chainAt raws (i + 1)) = raws[i].header := by
    rw [hstep, Chain.headerTo_step, header]
  have hahead : r.source.ahead = _ := h.source ▸ ahead_sourceAt hi
  rw [← hheader] at hahead
  have hpayload := Registry.run_decode_eq_ok_iff.mpr (hreads i hi hfits)
  rw [← hheader, ← h.source] at hpayload
  have hread := Entry.Read.message (Metadata.consumes_headerTo hle r.source _ hahead) hpayload
  have hnext := next_of_read hphase hread
  simp only [told, account, h.messages, ← helapsed] at hnext
  refine ⟨_, hnext, ⟨?_, ?_, ?_⟩, ?_⟩
  · rw [chain_after]
    rfl
  · rw [messages_after, h.messages]
  · rw [source_after]
  · rw [rate_after]

/-- **A message whose sum does not fit** ends the replay behind its header, whatever it is. -/
theorem next_overflow (h : r.At raws i) (hi : i < raws.length)
    (hphase : r.phase.isTerminal = false) (hfits : timeSum raws i < UInt64.size)
    (hover : UInt64.size ≤ timeSum raws (i + 1)) :
    r.next = (.error (r.errorAt r.source.offset
        (.timeReversed (chainAt raws i).timestamp raws[i].timeDelta)),
      { r with source := r.source.advance raws[i].header.length, phase := .failed }) := by
  have hstep : r.chain.step? raws[i].idDelta raws[i].timeDelta =
      .error (.timeReversed (chainAt raws i).timestamp raws[i].timeDelta) := by
    rw [h.chain]
    apply Chain.step?_of_overflow
    rwa [toNat_timestamp_chainAt hfits, ← timeSum_succ hi]
  have hahead : r.source.ahead = _ := h.source ▸ ahead_sourceAt hi
  have hheader := Metadata.refuses_encode hstep r.source _ hahead
  -- the first byte has the tag of a message
  have htag := Header.tag_of_ofByte_eq_ok
    (Header.ofByte_toByte_minimal raws[i].idDelta raws[i].timeDelta)
  refine next_of_failure hphase hahead ?_
  rw [EntryKind.ofByte, if_pos htag, Entry.decode_message, Decoder.run_bind_error hheader]
  rfl

/-! ### Whole streams -/

/-- Up to the limit, a replay that has told messages still runs. -/
theorem Tells.running_of_at {told : List Event} (h : Tells r told s) (hr : r.Running)
    (hs : s.At raws i) (hi : i < raws.length)
    (hlimit : ∀ limit, r.config.limit = some limit → raws.length ≤ limit) : s.Running := by
  refine (h.running hr).resolve_right fun hstopped => ?_
  have hreached := hstopped.reached
  unfold limitReached at hreached
  split at hreached
  · rename_i limit hconfig
    have hle := hlimit limit (h.config_eq ▸ hconfig)
    have hmessages := of_decide_eq_true hreached
    rw [hs.messages] at hmessages
    omega
  · cases hreached

/-- **Messages whose sums fit** are told one after the other. -/
theorem exists_tells_rawMessages (hr : r.Running) (hstart : r.At raws 0)
    (hlimit : ∀ limit, r.config.limit = some limit → raws.length ≤ limit)
    (hn : n ≤ raws.length) (hfits : ∀ i < n, timeSum raws (i + 1) < UInt64.size)
    (hreads : ReadBy r.registry text raws) :
    ∃ s, Tells r (((replayed r.rate text raws).take n).map .message) s ∧ s.At raws n ∧
      s.rate = r.rate := by
  induction n with
  | zero => exact ⟨r, .refl r, hstart, rfl⟩
  | succ n ih =>
    -- the last message is told from where the others leave the replay
    obtain ⟨s, htells, hs, hrate⟩ :=
      ih (Nat.le_of_succ_le hn) fun i hi => hfits i (Nat.lt_succ_of_lt hi)
    have hrunning := htells.running_of_at hr hs hn hlimit
    obtain ⟨t, hnext, ht, hrate'⟩ := next_rawMessage hs hn hrunning.isTerminal_eq
      (hfits n (Nat.lt_succ_self n)) (htells.registry_eq ▸ hreads)
    refine ⟨t, ?_, ht, hrate'.trans hrate⟩
    have hlast : (replayed r.rate text raws)[n]? =
        some (raws[n].toMessage s.rate text n (chainAt raws (n + 1))) := by
      rw [replayed, List.getElem?_mapIdx, List.getElem?_eq_getElem hn, hrate]
      rfl
    rw [List.take_add_one, hlast, List.map_append]
    exact htells.trans (.single hnext)

/-- A stream whose sums fit is told to its end. -/
theorem events_of_fits (hr : r.Running) (hstart : r.At raws 0)
    (hlimit : ∀ limit, r.config.limit = some limit → raws.length ≤ limit)
    (hfits : ∀ i < raws.length, timeSum raws (i + 1) < UInt64.size)
    (hreads : ReadBy r.registry text raws) :
    r.events.1 = (replayed r.rate text raws).map (fun m => .ok (.message m)) ∧
      r.events.2.phase = .done := by
  obtain ⟨s, htells, hs, -⟩ :=
    exists_tells_rawMessages hr hstart hlimit (Nat.le_refl _) hfits hreads
  rw [List.take_of_length_le (Nat.le_of_eq length_replayed)] at htells
  -- the last message reaches the limit, or the next call finds the end
  obtain ⟨t, hend, hphase⟩ : ∃ t, s.next = (.ok none, t) ∧ t.phase = .done := by
    obtain hs' | hs' := htells.running hr
    · have hahead : s.source.ahead = [] := by
        rw [hs.source, sourceAt, List.drop_length]
        rfl
      exact ⟨_, next_at_end hs'.isTerminal_eq hahead (by rw [hs.source]; rfl), rfl⟩
    · exact ⟨s, next_of_terminal hs'.isTerminal_eq, hs'.phase⟩
  rw [htells.events_eq, events_of_none hend, List.append_nil, List.map_map]
  exact ⟨rfl, hphase⟩

/-- A stream is told up to the first message whose sum does not fit. -/
theorem events_of_overflow (hr : r.Running) (hstart : r.At raws 0)
    (hlimit : ∀ limit, r.config.limit = some limit → raws.length ≤ limit) (hi : i < raws.length)
    (hfits : ∀ j < i, timeSum raws (j + 1) < UInt64.size)
    (hover : UInt64.size ≤ timeSum raws (i + 1))
    (hreads : ReadBy r.registry text raws) :
    r.events.1 = ((replayed r.rate text raws).take i).map (fun m => .ok (.message m)) ++
        [.error { cause := .timeReversed (UInt64.ofNat (timeSum raws i)) raws[i].timeDelta
                  entryOffset := (layout (raws.take i)).length
                  chain := chainAt raws i, messages := i }] ∧
      r.events.2.phase = .failed ∧
      r.events.2.source.offset = (layout (raws.take i)).length + raws[i].header.length ∧
      r.events.2.source.ahead = raws[i].payload ++ layout (raws.drop (i + 1)) := by
  obtain ⟨s, htells, hs, -⟩ :=
    exists_tells_rawMessages hr hstart hlimit (Nat.le_of_lt hi) hfits hreads
  -- the limit cannot have stopped the replay, as there is one more message
  have hphase := (htells.running_of_at hr hs hi hlimit).isTerminal_eq
  have herror := next_overflow hs hi hphase (timeSum_lt_of_forall hfits) hover
  rw [htells.events_eq, events_of_error herror, List.map_map, errorAt, hs.chain, hs.messages,
    hs.source]
  exact ⟨rfl, rfl, rfl, Source.ahead_advance_of_append (ahead_sourceAt hi)⟩

/-- **Time that goes back** is noticed exactly where the exact sum of the deltas does not fit in 64
    bits any more. All messages before that are told with their sums. The one that does not fit is
    not told and its payload not touched, whether or not its format is known. -/
theorem events_rawMessages (raws : List RawMessage) (registry : Registry) (config : ReplayConfig)
    (text : Nat → String) (hconfig : config.check = .ok ())
    (hlimit : ∀ limit, config.limit = some limit → raws.length ≤ limit)
    (hreads : ReadBy registry text raws) :
    let replay := start (.ofBytes (({} : Builder).rawMessages raws).bytes) registry config
    let messages := replayed config.conversion.initialRate text raws
    ((∀ i < raws.length, timeSum raws (i + 1) < UInt64.size) →
      replay.events.1 = messages.map (fun m => .ok (.message m)) ∧
        replay.events.2.phase = .done) ∧
    ∀ j (hj : j < raws.length), (∀ i < j, timeSum raws (i + 1) < UInt64.size) →
      UInt64.size ≤ timeSum raws (j + 1) →
        replay.events.1 = (messages.take j).map (fun m => .ok (.message m)) ++
          [.error { cause := .timeReversed (UInt64.ofNat (timeSum raws j)) raws[j].timeDelta
                    entryOffset := (layout (raws.take j)).length
                    chain := chainAt raws j, messages := j }] ∧
        replay.events.2.phase = .failed ∧
        replay.events.2.source.offset =
          (layout (raws.take j)).length + raws[j].header.length ∧
        replay.events.2.source.ahead = raws[j].payload ++ layout (raws.drop (j + 1)) := by
  intro replay messages
  have hrunning : replay.Running := running_start hconfig
  have hstart : replay.At raws 0 := by
    refine ⟨rfl, rfl, ?_⟩
    show Source.ofBytes (({} : Builder).rawMessages raws).bytes = _
    rw [Builder.bytes_rawMessages]
    rfl
  exact ⟨fun hfits => events_of_fits hrunning hstart hlimit hfits hreads,
    fun j hj hfits hover => events_of_overflow hrunning hstart hlimit hj hfits hover hreads⟩

/-- Four messages, of which the third is one cycle too late. Its format is not known either. -/
theorem events_rawMessages_one_too_late :
    let registry : Registry := ({} : FormatTable Routine).insert ⟨7⟩ Routine.singleByte
    let config : ReplayConfig := { limit := some 4 }
    let raws : List RawMessage :=
      [⟨7, 0xFFFFFFFFFFFFFFFB, [1]⟩, ⟨0, 4, [2]⟩, ⟨1, 1, [3]⟩, ⟨0, 0, [4]⟩]
    let replay := start (.ofBytes (({} : Builder).rawMessages raws).bytes) registry config
    config.check = .ok () ∧ registry.get? ⟨8⟩ = none ∧
      replay.events.1 =
        [.ok (.message ⟨0, ⟨7⟩, 0xFFFFFFFFFFFFFFFB, 0xFFFFFFFFFFFFFFFB,
            elapsedNanos 0xFFFFFFFFFFFFFFFB defaultRate, "fmt7:1"⟩),
          .ok (.message ⟨1, ⟨7⟩, 0xFFFFFFFFFFFFFFFF, 4, elapsedNanos 4 defaultRate, "fmt7:2"⟩),
          .error ⟨.timeReversed 0xFFFFFFFFFFFFFFFF 1, 14, ⟨⟨7⟩, 0xFFFFFFFFFFFFFFFF⟩, 2⟩] ∧
      replay.events.2.source.ahead = [3, 0x01, 4] := by
  intro registry config raws replay
  let text (i : Nat) : String := if i = 0 then "fmt7:1" else "fmt7:2"
  have hconfig : config.check = .ok () := by decide +kernel
  have hlimit : ∀ limit, config.limit = some limit → raws.length ≤ limit := by
    rintro limit ⟨⟩
    decide
  -- only the two messages whose sums fit have to be readable
  have hid : ∀ i < 2, (chainAt raws (i + 1)).formatId = ⟨7⟩ := by decide +kernel
  have hrun : ∀ i (hi : i < raws.length), i < 2 →
      (Routine.singleByte (chainAt raws (i + 1)).formatId).run
        ((sourceAt raws i).advance raws[i].header.length) =
          (.ok (text i), sourceAt raws (i + 1)) := by
    decide +kernel
  have hlate : ∀ i < raws.length, timeSum raws (i + 1) < UInt64.size → i < 2 := by decide +kernel
  have hreads : ReadBy registry text raws := by
    intro i hi hfits
    refine ⟨Routine.singleByte, ?_, hrun i hi (hlate i hi hfits)⟩
    rw [hid i (hlate i hi hfits)]
    rfl
  obtain ⟨hevents, -, -, hahead⟩ :=
    (events_rawMessages raws registry config text hconfig hlimit hreads).2 2 (by decide)
      (by decide) (by decide)
  refine ⟨hconfig, rfl, hevents.trans ?_, hahead.trans ?_⟩
  · decide +kernel
  · decide +kernel

end Replayer

end BinaryLog
