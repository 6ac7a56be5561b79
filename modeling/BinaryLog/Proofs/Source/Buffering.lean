import BinaryLog.Proofs.Decoder.Consumption
import BinaryLog.Source.Feed

namespace BinaryLog

/-!
# Feeds answer like sources

Whatever pieces a device hands its bytes over in, and however often it is interrupted, the requests
are answered as if all bytes were there at once.

* `Feed.collect_eq`, the loop that collects pieces takes the bytes that were asked for and leaves
  the others;
* `Feed.answer_eq`, one request to a feed is answered as by the source it presents;
* `Source.Serves`, the answers of a source, request by request, and `Source.serves_decoder`, they
  are what the decoders give;
* `Feed.answerAll_eq`, a whole series of requests to a device that may change its pieces on the way.
-/

/-! ### Collecting pieces -/

namespace Feed

/-- Interruptions bring no bytes. -/
theorem flatMap_arrived (deliveries : List Delivery) :
    (arrived deliveries).flatMap Delivery.bytes = deliveries.flatMap Delivery.bytes := by
  fun_induction arrived deliveries with
  | case1 rest ih => rw [ih, List.flatMap_cons, Delivery.bytes, List.nil_append]
  | case2 => rfl

/-- What has arrived is a piece, unless nothing is left. -/
theorem arrived_eq (deliveries : List Delivery) :
    arrived deliveries = [] ∨
      ∃ first more rest, arrived deliveries = .chunk first more :: rest := by
  fun_induction arrived deliveries with
  | case1 rest ih => exact ih
  | case2 deliveries hhead =>
    match deliveries with
    | [] => exact .inl rfl
    | .interrupted :: rest => exact absurd rfl (hhead rest)
    | .chunk first more :: rest => exact .inr ⟨first, more, rest, rfl⟩

/-- **The loop that collects pieces** takes the bytes that were asked for, as far as there are any,
    and leaves the others, also if it ends in the middle of a piece. -/
theorem collect_eq (n : Nat) (deliveries : List Delivery) :
    (collect n deliveries).1 = (deliveries.flatMap Delivery.bytes).take n ∧
      (collect n deliveries).2.flatMap Delivery.bytes =
        (deliveries.flatMap Delivery.bytes).drop n := by
  fun_induction collect n deliveries with
  | case1 => simp
  | case2 => simp
  | case3 n rest ih =>
    rw [List.flatMap_cons, Delivery.bytes, List.nil_append]
    exact ih
  | case4 n first more rest next later hdrop =>
    -- the piece holds more than was asked for
    have hlt : n < more.length := by
      by_contra hle
      rw [List.drop_of_length_le (Nat.not_lt.mp hle)] at hdrop
      cases hdrop
    rw [List.flatMap_cons, List.flatMap_cons, Delivery.bytes, Delivery.bytes, List.cons_append,
      List.take_succ_cons, List.drop_succ_cons, List.take_append_of_le_length (Nat.le_of_lt hlt),
      List.drop_append_of_le_length (Nat.le_of_lt hlt), hdrop]
    exact ⟨rfl, rfl⟩
  | case5 n first more rest hdrop bytes left hcollect ih =>
    -- the piece is used up, and what is missing comes from the pieces behind it
    have hle : more.length ≤ n := List.drop_eq_nil_iff.mp hdrop
    obtain ⟨hbytes, hleft⟩ := ih
    rw [hcollect] at hbytes hleft
    have hall : (Delivery.chunk first more :: rest).flatMap Delivery.bytes =
        first :: (more ++ rest.flatMap Delivery.bytes) := rfl
    rw [hall, List.take_succ_cons, List.drop_succ_cons, List.take_append, List.drop_append,
      List.take_of_length_le hle, List.drop_of_length_le hle, ← hbytes, ← hleft]
    exact ⟨rfl, rfl⟩

/-! ### One request -/

/-- Looking at the next byte of a feed is looking at the next byte of its source. -/
theorem peek_eq (f : Feed) :
    (f.peek.1, f.peek.2.source) = Decoder.peek.run f.source := by
  have hbytes := flatMap_arrived f.deliveries
  unfold peek Decoder.peek source
  obtain harrived | ⟨first, more, rest, harrived⟩ := arrived_eq f.deliveries
  · rw [harrived] at hbytes
    simp only [harrived, ← hbytes, List.flatMap_nil]
    cases f.ending <;> rfl
  · rw [harrived] at hbytes
    simp only [harrived, ← hbytes, List.flatMap_cons, Delivery.bytes, List.cons_append]

/-- What collecting leaves is the source behind the bytes that were collected. -/
theorem source_collect (f : Feed) (n : Nat) :
    ({ f with
        deliveries := (collect n f.deliveries).2
        offset := f.offset + (collect n f.deliveries).1.length } : Feed).source =
      f.source.advance (min n f.source.ahead.length) := by
  obtain ⟨hread, hleft⟩ := collect_eq n f.deliveries
  -- as much is collected as is asked for or left, in whatever pieces it arrives
  have hoffset : (collect n f.deliveries).1.length = min n f.source.ahead.length := by
    rw [hread, List.length_take]
    rfl
  have hahead : f.source.ahead.drop n = f.source.ahead.drop (min n f.source.ahead.length) := by
    obtain hle | hlt := Nat.le_total n f.source.ahead.length
    · rw [Nat.min_eq_left hle]
    · rw [Nat.min_eq_right hlt, List.drop_length, List.drop_of_length_le hlt]
  rw [hoffset]
  exact (Source.mk.injEq ..).mpr ⟨hleft.trans hahead, rfl, rfl⟩

/-- Reading bytes from a feed is reading them from its source, also where too few are left. -/
theorem bytes_eq (f : Feed) (n : Nat) :
    ((f.bytes n).1, (f.bytes n).2.source) = (Decoder.bytes n).run f.source := by
  have hread : (collect n f.deliveries).1 = f.source.ahead.take n := (collect_eq n f.deliveries).1
  have hsource := f.source_collect n
  by_cases henough : n ≤ f.source.ahead.length
  · have hlength : (collect n f.deliveries).1.length = n := by
      rw [hread, List.length_take, Nat.min_eq_left henough]
    rw [Nat.min_eq_left henough] at hsource
    simp only [bytes, Decoder.bytes, hlength, henough, if_true]
    rw [hlength] at hsource
    rw [hsource, hread]
  · have hless := Nat.le_of_not_le henough
    have hlength : (collect n f.deliveries).1.length = f.source.ahead.length := by
      rw [hread, List.length_take, Nat.min_eq_right hless]
    have hne : f.source.ahead.length ≠ n := by omega
    rw [Nat.min_eq_right hless, hlength] at hsource
    simp only [bytes, Decoder.bytes, hlength, henough, hne, if_false]
    -- what the shortage means depends on what follows the last byte
    unfold Source.shortfall
    cases hending : f.ending with
    | endOfStream =>
      simp only [source, hending] at hsource ⊢
      rw [hsource]
      rfl
    | fault cause =>
      simp only [source, hending] at hsource ⊢
      rw [hsource]
      rfl

end Feed

/-! ### Requests to a source -/

namespace Decoder

/-- A single byte is read as bytes are. -/
theorem byte_eq : byte = (fun read => UInt8.ofNat (Word.ofBytes read)) <$> bytes 1 := by
  ext s : 1
  rw [run_map]
  cases hahead : s.ahead with
  | nil => simp [byte, bytes, hahead, Source.exhaust, Source.advance_zero, Except.map]
  | cons b rest => simp [byte, bytes, hahead, Except.map, Word.ofBytes]

end Decoder

namespace Request

/-- The bytes that a request takes where it succeeds. -/
def length : Request → Nat
  | .bytes n => n
  | .byte => 1
  | .word width => width
  | .peek | .atEnd => 0

/-- What is replied with the bytes that a request takes. -/
def reply (read : Bytes) : Request → Reply
  | .byte => .byte (UInt8.ofNat (Word.ofBytes read))
  | .word _ => .word (UInt64.ofNat (Word.ofBytes read))
  | _ => .bytes read

theorem decoder_byte : decoder .byte = (reply · .byte) <$> Decoder.bytes 1 := by
  rw [decoder, Decoder.byte_eq, Functor.map_map]
  rfl

/-- A request for a word is one for as many bytes. -/
theorem decoder_word (width : Nat) :
    decoder (.word width) = (reply · (.word width)) <$> Decoder.bytes width := by
  rw [decoder, Decoder.word, bind_pure_comp, Functor.map_map]
  rfl

/-- Whether the stream ended is told without reading. -/
theorem decoder_atEnd :
    decoder .atEnd = (fun next => .atEnd next.isNone) <$> Decoder.peek := by
  rw [decoder, Decoder.atEnd, Functor.map_map]

end Request

/-- **A request to a feed** is answered as by the source it presents, and leaves it presenting what
    that source is left as. -/
theorem Feed.answer_eq (f : Feed) (request : Request) :
    ((f.answer request).1, (f.answer request).2.source) = request.decoder.run f.source := by
  cases request with
  | peek =>
    rw [Request.decoder, Decoder.run_map, ← f.peek_eq]
    rfl
  | bytes n =>
    rw [Request.decoder, Decoder.run_map, ← f.bytes_eq]
    rfl
  | byte =>
    rw [Request.decoder_byte, Decoder.run_map, ← f.bytes_eq]
    rfl
  | word width =>
    rw [Request.decoder_word, Decoder.run_map, ← f.bytes_eq]
    rfl
  | atEnd =>
    rw [Request.decoder_atEnd, Decoder.run_map, ← f.peek_eq]
    rfl

/-! ### What a source answers -/

/-- The source `s` answers a request and is left as `t`. -/
inductive Source.Serves (s : Source) : Request → Except DecodeError Reply → Source → Prop
  | peek (seen : s.ahead ≠ [] ∨ s.ending = .endOfStream) :
      s.Serves .peek (.ok (.peeked s.ahead.head?)) s
  | atEnd (seen : s.ahead ≠ [] ∨ s.ending = .endOfStream) :
      s.Serves .atEnd (.ok (.atEnd s.ahead.isEmpty)) s
  /-- Looking ahead is how a failure of the device is noticed where no byte is left. -/
  | blind {request : Request} {cause : String} (looks : request = .peek ∨ request = .atEnd)
      (ahead : s.ahead = []) (ending : s.ending = .fault cause) :
      s.Serves request (.error (.device cause)) s
  | bytes {n : Nat} (enough : n ≤ s.ahead.length) :
      s.Serves (.bytes n) (.ok (.bytes (s.ahead.take n))) (s.advance n)
  | byte {b : UInt8} {rest : Bytes} (ahead : s.ahead = b :: rest) :
      s.Serves .byte (.ok (.byte b)) (s.advance 1)
  /-- The number in the bytes, the least significant one first. -/
  | word {width : Nat} {value : UInt64} (enough : width ≤ s.ahead.length)
      (exact : value.toNat = Word.ofBytes (s.ahead.take width)) :
      s.Serves (.word width) (.ok (.word value)) (s.advance width)
  /-- Too few bytes before the end of the stream: all of them are read. -/
  | truncated {request : Request} (short : s.ahead.length < request.length)
      (ending : s.ending = .endOfStream) :
      s.Serves request (.error (.truncated s.offset request.length s.ahead.length)) s.exhaust
  /-- Too few bytes before the device fails: all of them are read. -/
  | fault {request : Request} {cause : String} (short : s.ahead.length < request.length)
      (ending : s.ending = .fault cause) : s.Serves request (.error (.device cause)) s.exhaust

namespace Source

variable {s : Source}

/-- Too few bytes are answered by what follows the last one. -/
theorem serves_shortfall {request : Request} (h : s.ahead.length < request.length) :
    s.Serves request (.error (s.shortfall request.length)) s.exhaust := by
  unfold shortfall
  cases hending : s.ending with
  | endOfStream => exact .truncated h hending
  | fault cause => exact .fault h hending

/-- A request that looks ahead. -/
theorem serves_peek {request : Request} (reply : Option UInt8 → Reply)
    (hlooks : request = .peek ∨ request = .atEnd)
    (hseen : s.ahead ≠ [] ∨ s.ending = .endOfStream →
      s.Serves request (.ok (reply s.ahead.head?)) s) :
    s.Serves request ((reply <$> Decoder.peek).run s).1 ((reply <$> Decoder.peek).run s).2 := by
  rw [Decoder.run_map]
  cases hahead : s.ahead with
  | cons b rest =>
    have hserves := hseen (.inl (by simp [hahead]))
    simp only [Decoder.peek, hahead]
    rwa [hahead] at hserves
  | nil =>
    cases hending : s.ending with
    | endOfStream =>
      have hserves := hseen (.inr hending)
      simp only [Decoder.peek, hahead, hending]
      rwa [hahead] at hserves
    | fault cause =>
      simp only [Decoder.peek, hahead, hending]
      exact .blind hlooks hahead hending

/-- A request for bytes. -/
theorem serves_bytes (request : Request) (reply : Bytes → Reply)
    (henough : request.length ≤ s.ahead.length →
      s.Serves request (.ok (reply (s.ahead.take request.length))) (s.advance request.length)) :
    s.Serves request ((reply <$> Decoder.bytes request.length).run s).1
      ((reply <$> Decoder.bytes request.length).run s).2 := by
  rw [Decoder.run_map, Decoder.bytes]
  by_cases hle : request.length ≤ s.ahead.length
  · simp only [hle, if_true]
    exact henough hle
  · simp only [hle, if_false]
    exact serves_shortfall (Nat.lt_of_not_le hle)

/-- A number of at most eight bytes fits in a word. -/
theorem toNat_ofBytes {bytes : Bytes} (h : bytes.length ≤ 8) :
    (UInt64.ofNat (Word.ofBytes bytes)).toNat = Word.ofBytes bytes := by
  rw [UInt64.toNat_ofNat']
  exact Nat.mod_eq_of_lt (Nat.lt_of_lt_of_le (Word.ofBytes_lt bytes) (Word.capacity_mono h))

/-- **The decoders of a source** give the answers listed. -/
theorem serves_decoder (s : Source) (request : Request)
    (hwidth : ∀ width, request = .word width → width ≤ 8) :
    s.Serves request (request.decoder.run s).1 (request.decoder.run s).2 := by
  cases request with
  | peek => exact serves_peek .peeked (.inl rfl) fun hseen => .peek hseen
  | bytes n => exact serves_bytes (.bytes n) .bytes fun henough => .bytes henough
  | byte =>
    rw [Request.decoder_byte]
    refine serves_bytes .byte (Request.reply · .byte) fun henough => ?_
    obtain ⟨b, rest, hahead⟩ := List.exists_cons_of_length_pos henough
    have hserves := Serves.byte hahead
    simpa [Request.reply, Request.length, hahead, Word.ofBytes] using hserves
  | word width =>
    rw [Request.decoder_word]
    refine serves_bytes (.word width) (Request.reply · (.word width)) fun henough => ?_
    refine .word henough (toNat_ofBytes ?_)
    rw [List.length_take]
    exact Nat.le_trans (Nat.min_le_left _ _) (hwidth width rfl)
  | atEnd =>
    rw [Request.decoder_atEnd]
    refine serves_peek (fun next => .atEnd next.isNone) (.inr rfl) fun hseen => ?_
    have hserves := Serves.atEnd hseen
    -- the end is told by there being no next byte
    rwa [show s.ahead.isEmpty = s.ahead.head?.isNone by cases s.ahead <;> rfl] at hserves

/-! ### Series of requests -/

/-- The answers of a source to requests, each with the offset after it, and the source after the
    last one. -/
def answerAll : Source → List Request → List (Except DecodeError Reply × Nat) × Source
  | s, [] => ([], s)
  | s, request :: requests =>
    let (reply, t) := request.decoder.run s
    let (replies, last) := answerAll t requests
    ((reply, t.offset) :: replies, last)

/-- The source `s` answers requests, each of which leaves it at the offset beside the answer, and is
    left as `t`. -/
inductive ServesAll : Source → List Request → List (Except DecodeError Reply × Nat) → Source → Prop
  | nil (s : Source) : ServesAll s [] [] s
  | cons {s t u : Source} {request : Request} {reply : Except DecodeError Reply}
      {requests : List Request} {replies : List (Except DecodeError Reply × Nat)}
      (first : s.Serves request reply t) (rest : ServesAll t requests replies u) :
      ServesAll s (request :: requests) ((reply, t.offset) :: replies) u

/-- **The flat source serves all requests** as they are documented, which is the yardstick for every
    other source. -/
theorem servesAll_answerAll (s : Source) (requests : List Request)
    (hwidth : ∀ width, .word width ∈ requests → width ≤ 8) :
    s.ServesAll requests (s.answerAll requests).1 (s.answerAll requests).2 := by
  induction requests generalizing s with
  | nil => exact .nil s
  | cons request requests ih =>
    refine .cons (s.serves_decoder request ?_) (ih _ ?_)
    · intro width hrequest
      exact hwidth width (by simp [hrequest])
    · intro width hmem
      exact hwidth width (List.mem_cons_of_mem request hmem)

theorem reaches_answerAll (s : Source) (requests : List Request) :
    s.Reaches (s.answerAll requests).2 := by
  induction requests generalizing s with
  | nil => exact .refl s
  | cons request requests ih => exact (request.decoder.forward s).trans (ih _)

end Source

/-- A way to hand over the bytes that a feed still has to give, in other pieces and with other
    interruptions. -/
structure Repiecing where
  apply : Feed → Feed
  /-- The bytes stay the same. -/
  source_apply (f : Feed) : (apply f).source = f.source

namespace Feed

/-- The answers of a feed to requests, each with the offset after it, and the feed after the last
    one. In front of each request the device may change the pieces that it still has. -/
def answerAll : Feed → List (Repiecing × Request) → List (Except DecodeError Reply × Nat) × Feed
  | f, [] => ([], f)
  | f, (repiecing, request) :: script =>
    let (reply, g) := (repiecing.apply f).answer request
    let (replies, last) := answerAll g script
    ((reply, g.offset) :: replies, last)

/-- A series of requests to a feed is answered as by the source it presents. -/
theorem source_answerAll (f : Feed) (script : List (Repiecing × Request)) :
    f.source.answerAll (script.map Prod.snd) =
      ((f.answerAll script).1, (f.answerAll script).2.source) := by
  induction script generalizing f with
  | nil => rfl
  | cons step script ih =>
    obtain ⟨repiecing, request⟩ := step
    -- cutting what is left into other pieces does not change what it presents
    have hanswer := (repiecing.apply f).answer_eq request
    rw [repiecing.source_apply] at hanswer
    rw [List.map_cons, Source.answerAll, ← hanswer]
    simp only [ih]
    rfl

/-- **Buffering, interruptions and short reads do not show.** A feed answers a series of requests as
    the source that holds all its bytes, which answers them one by one as listed. After each request
    the bytes read so far and those still ahead are the bytes of the source, and the offset is the
    number of the bytes read. -/
theorem answerAll_eq (f : Feed) (script : List (Repiecing × Request))
    (hwidth : ∀ step ∈ script, ∀ width, step.2 = .word width → width ≤ 8) :
    let requests := script.map Prod.snd
    let replies := (f.answerAll script).1
    let last := (f.answerAll script).2
    f.source.answerAll requests = (replies, last.source) ∧
      f.source.ServesAll requests replies last.source ∧
      ∀ n, let g := (f.answerAll (script.take n)).2
        ∃ read, f.source.ahead = read ++ g.source.ahead ∧ g.offset = f.offset + read.length ∧
          g.ending = f.ending := by
  intro requests replies last
  have hsource : f.source.answerAll requests = (replies, last.source) := f.source_answerAll script
  refine ⟨hsource, ?_, ?_⟩
  · have hserves := f.source.servesAll_answerAll requests ?_
    · rwa [hsource] at hserves
    · intro width hmem
      obtain ⟨step, hstep, hrequest⟩ := List.mem_map.mp hmem
      exact hwidth step hstep width hrequest
  · intro n g
    -- after any part of the script the feed presents a later state of the same source
    have hreach : f.source.Reaches g.source := by
      have hreach := f.source.reaches_answerAll ((script.take n).map Prod.snd)
      rwa [f.source_answerAll] at hreach
    refine ⟨_, hreach.ahead_eq, hreach.offset_eq, ?_⟩
    obtain ⟨m, -, hm⟩ := hreach
    exact congrArg Source.ending hm

/-- Pieces of any size present the source that they were cut from. -/
theorem source_ofSource (s : Source) (size : Nat) (interrupted : Bool) :
    (ofSource s size interrupted).source = s := by
  have hpieces (bytes : Bytes) :
      (ofSource.pieces size interrupted bytes).flatMap Delivery.bytes = bytes := by
    fun_induction ofSource.pieces size interrupted bytes with
    | case1 h => simp [Delivery.bytes]
    | case2 h => rfl
    | case3 b bs piece h ih => simp [piece, Delivery.bytes, ih]
    | case4 b bs piece h ih => simp [piece, Delivery.bytes, ih]
  exact (Source.mk.injEq ..).mpr ⟨hpieces s.ahead, rfl, rfl⟩

end Feed

/-- The device hands over pieces of `size` bytes, with an interruption in front of each. -/
def Repiecing.interrupted (size : Nat) : Repiecing where
  apply f := Feed.ofSource f.source size true
  source_apply f := Feed.source_ofSource f.source size true

/-- The device goes on as it began. -/
def Repiecing.same : Repiecing where
  apply f := f
  source_apply _ := rfl

namespace Feed

/-- A word over three pieces, a request for more than is left before the device fails, and a request
    for nothing after it. -/
theorem answerAll_eq_on_failing_device :
    let f : Feed :=
      { deliveries := [.interrupted, .chunk 1 [2, 3], .interrupted, .interrupted, .chunk 4 [],
          .chunk 5 [6, 7]]
        ending := .fault "device gone" }
    let script : List (Repiecing × Request) :=
      [(.same, .peek), (.same, .bytes 2), (.same, .word 3), (.interrupted 1, .atEnd),
        (.same, .bytes 3), (.interrupted 4, .bytes 0), (.same, .peek)]
    let failure : Except DecodeError Reply := .error (.device "device gone")
    let replies : List (Except DecodeError Reply × Nat) :=
      [(.ok (.peeked (some 1)), 0), (.ok (.bytes [1, 2]), 2), (.ok (.word 0x050403), 5),
        (.ok (.atEnd false), 5), (failure, 7), (.ok (.bytes []), 7), (failure, 7)]
    (f.answerAll script).1 = replies ∧
      f.source.ServesAll (script.map Prod.snd) replies (f.answerAll script).2.source := by
  intro f script failure replies
  have hwidth : ∀ step ∈ script, ∀ width, step.2 = .word width → width ≤ 8 := by
    simp [script]
  have hreplies : (f.answerAll script).1 = replies := by decide +kernel
  obtain ⟨-, hserves, -⟩ := f.answerAll_eq script hwidth
  rw [hreplies] at hserves
  exact ⟨hreplies, hserves⟩

end Feed

end BinaryLog
