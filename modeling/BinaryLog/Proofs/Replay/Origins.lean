import BinaryLog.Proofs.Catalog.Loading
import BinaryLog.Proofs.Replay.Accounting

namespace BinaryLog

/-!
# Origins are only shown

Whether the origins of messages are shown makes a difference to their texts and to nothing else: not
to what is read, nor to what is told, nor to where and how a replay ends.

* `Catalog.originOf`, the origin of the messages of a format, and `Catalog.decode_origins`, what the
  routines that show it read;
* `Entry.behindOrigin` and `Event.behindOrigin`, an entry and an event with the origin in front of
  the text;
* `Replayer.next_showingOrigins`, the next call of a replay that shows origins;
* `Replayer.calls_showing_origins`, two replays of a source of which one shows origins.
-/

/-! ### Routines -/

/-- Showing an origin is putting it in front of the text. -/
theorem Template.routine_eq_map (t : Template) (origin : String) (id : FormatId) :
    t.routine origin id = (origin ++ ·) <$> t.routine "" id := by
  rw [routine, routine, map_bind]
  congr 1
  funext args
  cases t.write args with
  | ok text => rw [map_pure, String.empty_append]
  | error error => rfl

/-- The origin of the messages of a format. -/
def Catalog.originOf (catalog : Catalog) (id : FormatId) : String :=
  match catalog.get? id with
  | some (entry, _) => entry.origin
  | none => ""

/-- **What the routines read** that show origins is what the others read, with the origin in front
    of the text. -/
theorem Catalog.decode_origins (catalog : Catalog) (id : FormatId) :
    Registry.decode (catalog.registry true) id =
      (catalog.originOf id ++ ·) <$> Registry.decode (catalog.registry false) id := by
  simp only [Registry.decode, Registry.find, get?_registry, originOf]
  cases catalog.get? id with
  | none => rfl
  | some held => exact held.2.routine_eq_map _ id

variable {catalog : Catalog}

/-! ### Entries -/

/-- The entry with the origin in front of its text, which only a message has. -/
def Entry.behindOrigin (catalog : Catalog) : Entry → Entry
  | .message metadata text => .message metadata (catalog.originOf metadata.formatId ++ text)
  | entry => entry

/-- **One entry** is read alike by both registries, up to the origin in front of the text of a
    message. -/
theorem Entry.decode_origins (catalog : Catalog) (chain : Chain) (kind : EntryKind) :
    decode (catalog.registry true) chain kind =
      behindOrigin catalog <$> decode (catalog.registry false) chain kind := by
  cases kind with
  | message =>
    rw [decode_message, decode_message, map_bind]
    congr 1
    funext metadata
    -- the origin is put in front by the routine, so the header is read as before
    rw [catalog.decode_origins, bind_map_left, map_bind]
    rfl
  | checkpoint =>
    rw [decode, decode, Functor.map_map]
    rfl
  | invalid b =>
    simp only [decode]
    split
    · rw [Functor.map_map]
      rfl
    · rfl

/-- An entry is read as before, with the origin in front of its text. -/
theorem Entry.Read.behindOrigin {chain : Chain} {s t : Source} {entry : Entry}
    (h : Read (catalog.registry false) chain s entry t) :
    Read (catalog.registry true) chain s (entry.behindOrigin catalog) t := by
  obtain ⟨b, bs, hahead, hrun⟩ := h.decode_eq_ok
  refine read_of_decode hahead ?_
  rw [decode_origins]
  exact Decoder.run_map_ok hrun _

/-! ### Events -/

/-- The event with the origin in front of its text, which only a message has. -/
def Event.behindOrigin (catalog : Catalog) : Event → Event
  | .message m => .message { m with text := catalog.originOf m.formatId ++ m.text }
  | event => event

/-- Two events that differ in nothing but an origin, which one of the entries has. -/
inductive Event.Located (entries : List CatalogEntry) : Event → Event → Prop
  | message {m : Message} {entry : CatalogEntry} (listed : entry ∈ entries)
      (own : entry.id = m.formatId) :
      Located entries (.message m) (.message { m with text := entry.origin ++ m.text })
  | checkpoint (c : Checkpoint) : Located entries (.checkpoint c) (.checkpoint c)
  | padding (offset length : Nat) :
      Located entries (.padding offset length) (.padding offset length)

/-- Two answers of the same kind: related events, the same error, or both nothing. -/
inductive Replayer.AnswersAlike (related : Event → Event → Prop) :
    Except ReplayError (Option Event) → Except ReplayError (Option Event) → Prop
  | event {event other : Event} (h : related event other) :
      AnswersAlike related (.ok (some event)) (.ok (some other))
  | nothing : AnswersAlike related (.ok none) (.ok none)
  | error (error : ReplayError) : AnswersAlike related (.error error) (.error error)

namespace Replayer

variable {r s : Replayer}

/-- The replay with the routines that show origins. -/
def showingOrigins (catalog : Catalog) (r : Replayer) : Replayer :=
  { r with registry := catalog.registry true }

/-! ### One call -/

/-- An entry with an origin is told with it. -/
theorem told_behindOrigin (r : Replayer) (entry : Entry) :
    (r.showingOrigins catalog).told (entry.behindOrigin catalog) =
      (r.told entry).behindOrigin catalog := by
  cases entry <;> rfl

/-- Whatever its origin, an entry changes the same. -/
theorem after_behindOrigin (r : Replayer) (entry : Entry) (u : Source) :
    (r.showingOrigins catalog).after (entry.behindOrigin catalog) u =
      (r.after entry u).showingOrigins catalog := by
  -- whether the replay settles as done depends on its messages
  cases entry <;> simp only [after, settle, apply_ite (showingOrigins catalog)] <;> rfl

/-- **A call** of a replay that shows origins answers the same with the origin in front of the text
    of a message, and changes the same. -/
theorem next_showingOrigins (hregistry : r.registry = catalog.registry false) :
    (r.showingOrigins catalog).next =
      (r.next.1.map (Option.map (Event.behindOrigin catalog)),
        r.next.2.showingOrigins catalog) := by
  let other := r.showingOrigins catalog
  show other.next = _
  rcases h : r.next with ⟨answer, s⟩
  -- only the calls that read an entry get to the routines
  cases call_of_next h with
  | finished hphase =>
    rw [next_of_terminal (r := other) hphase]
    rfl
  | ended hphase hahead hending =>
    rw [next_at_end (r := other) hphase hahead hending]
    rfl
  | fault hphase hahead hending =>
    rw [next_at_fault (r := other) hphase hahead hending]
    rfl
  | @failure b bs cause u hphase hahead hrun =>
    rw [hregistry] at hrun
    have hother : (Entry.decode other.registry other.chain (EntryKind.ofByte b)).run
        other.source = (.error cause, u) := by
      show (Entry.decode (catalog.registry true) r.chain _).run r.source = _
      rw [Entry.decode_origins]
      exact Decoder.run_map_error hrun _
    rw [next_of_failure (r := other) hphase hahead hother]
    rfl
  | @told entry u hphase hread =>
    rw [hregistry] at hread
    rw [next_of_read (r := other) hphase hread.behindOrigin]
    show (Except.ok (some (other.told _)), other.after _ u) = _
    rw [told_behindOrigin, after_behindOrigin]
    rfl

/-- A message is told only of a format that the catalog knows. -/
theorem exists_get?_of_next_eq_message {m : Message}
    (hregistry : r.registry = catalog.registry false)
    (h : r.next = (.ok (some (.message m)), s)) :
    ∃ entry template, catalog.get? m.formatId = some (entry, template) := by
  obtain ⟨-, entry, u, hread, htold, -⟩ := next_eq_event_iff.mp h
  cases hread with
  | message header payload =>
    cases htold
    rw [hregistry] at payload
    obtain ⟨routine, hget, -⟩ := Registry.run_decode_eq_ok_iff.mp payload
    rw [Catalog.get?_registry] at hget
    obtain ⟨⟨entry, template⟩, hheld, -⟩ := Option.map_eq_some_iff.mp hget
    exact ⟨entry, template, hheld⟩
  | checkpoint body => cases htold
  | padding => cases htold

/-- The origin that a message is told behind is that of the entry with its format id. -/
theorem answersAlike_next {entries : List CatalogEntry} (hholds : catalog.Holds entries)
    (hregistry : r.registry = catalog.registry false) :
    AnswersAlike (Event.Located entries) r.next.1 (r.showingOrigins catalog).next.1 := by
  rw [next_showingOrigins hregistry]
  rcases h : r.next with ⟨error | _ | event, s⟩
  · exact .error error
  · exact .nothing
  · refine .event ?_
    cases event with
    | message m =>
      obtain ⟨entry, template, hget⟩ := exists_get?_of_next_eq_message hregistry h
      -- a message is told only if its format is known, and the catalog has its entry
      obtain ⟨hlisted, hown, -⟩ := hholds.eq_of_get? hget
      have horigin : catalog.originOf m.formatId = entry.origin := by rw [Catalog.originOf, hget]
      rw [Event.behindOrigin, horigin]
      exact .message hlisted hown
    | checkpoint c => exact .checkpoint c
    | padding offset length => exact .padding offset length

/-! ### Many calls -/

/-- After any number of calls, a replay that shows origins differs in nothing but the routines. -/
theorem calls_showingOrigins (hregistry : r.registry = catalog.registry false) (n : Nat) :
    (r.showingOrigins catalog).calls n = (r.calls n).showingOrigins catalog := by
  induction n with
  | zero => rfl
  | succ n ih =>
    -- the relation holds at the next call too, since no call changes the routines
    have hkept : (r.calls n).registry = catalog.registry false := by rw [registry_calls, hregistry]
    rw [calls_succ, calls_succ, ih, next_showingOrigins hkept]

/-- **Origins are only shown.** Two replays of a source, whatever it holds and however it fails, of
    which one shows the origins of a catalog and the other does not, answer every call alike: with
    the same error, both with nothing, or with the same event, except that a message is told behind
    the origin of the entry that has its format id. Before and after every call they have read as
    far, stand in the same phase, have the same totals, and differ in nothing but the routines. -/
theorem calls_showing_origins {entries : List CatalogEntry} {catalog : Catalog}
    (hcatalog : Catalog.ofEntries entries = .ok catalog) (source : Source) (config : ReplayConfig)
    (n : Nat) :
    let plain := (start source (catalog.registry false) config).calls n
    let shown := (start source (catalog.registry true) config).calls n
    AnswersAlike (Event.Located entries) plain.next.1 shown.next.1 ∧
      shown.source = plain.source ∧ shown.phase = plain.phase ∧ shown.summary = plain.summary ∧
      shown = { plain with registry := catalog.registry true } := by
  intro plain shown
  obtain ⟨-, hholds⟩ := Catalog.loadable_of_ofEntries hcatalog
  have hshown : shown = plain.showingOrigins catalog :=
    calls_showingOrigins (r := start source (catalog.registry false) config) rfl n
  have hregistry : plain.registry = catalog.registry false := registry_calls n _
  rw [hshown]
  exact ⟨answersAlike_next hholds hregistry, rfl, rfl, rfl, rfl⟩

/-- A message is told behind the origin of its own entry, which is not the first of the catalog. -/
theorem calls_showing_origins_of_second_entry :
    let entries : List CatalogEntry :=
      [⟨⟨3⟩, "%d", some "a.c", some 12, none⟩, ⟨⟨9⟩, "on %s", none, none, some "WARN"⟩]
    let source := Source.ofBytes [0x05, 9, 0x78, 0x00, 0x05]
    let plain : Message :=
      { index := 0, formatId := ⟨9⟩, timestamp := 0, elapsedCycles := 0, elapsedNanos := .zero
        text := "on x" }
    ∃ catalog, Catalog.ofEntries entries = .ok catalog ∧
      (start source (catalog.registry false) {}).next.1 = .ok (some (.message plain)) ∧
      (start source (catalog.registry true) {}).next.1 =
        .ok (some (.message { plain with text := "WARN: on x" })) := by
  intro entries source plain
  have hload : (Catalog.ofEntries entries).toOption.map (fun catalog =>
      (start source (catalog.registry false) {}).next.1) = some (.ok (some (.message plain))) := by
    decide +kernel
  cases hcatalog : Catalog.ofEntries entries with
  | error error =>
    rw [hcatalog] at hload
    cases hload
  | ok catalog =>
    rw [hcatalog] at hload
    have hplain : (start source (catalog.registry false) {}).next.1 = .ok (some (.message plain)) :=
      Option.some.inj hload
    refine ⟨catalog, rfl, hplain, ?_⟩
    obtain ⟨halike, -⟩ := calls_showing_origins hcatalog source {} 0
    rw [calls, calls, hplain] at halike
    generalize (start source (catalog.registry true) {}).next.1 = shown at halike ⊢
    cases halike with
    | event hlocated =>
      cases hlocated with
      | message hlisted hown =>
        -- only the second entry has this id
        simp only [entries, List.mem_cons, List.not_mem_nil, or_false] at hlisted
        obtain rfl | rfl := hlisted
        · cases hown
        · rfl

end Replayer

end BinaryLog
