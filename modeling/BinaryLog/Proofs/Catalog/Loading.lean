import BinaryLog.Proofs.Catalog.Reading
import Mathlib.Data.List.Induction

namespace BinaryLog

/-!
# Loading catalogs

A list of entries is loaded as a whole or not at all.

* `CatalogEntry.Loadable`, the lists of entries that can be loaded, and `CatalogEntry.Refused`, why
  an entry cannot be loaded behind others;
* `Catalog.Holds`, what the catalog of a list of entries holds, and `Catalog.Holds.add`, which one
  more entry keeps;
* `Catalog.ofEntries_eq_error_iff`, a list is refused for its first entry that is;
* `Template.run_routine`, what the routine of an entry does;
* `Catalog.ofEntries_all_or_nothing`, which lists are loaded, what is found in their catalogs, and
  why other lists are refused.
-/

namespace CatalogEntry

variable {before entries : List CatalogEntry} {entry : CatalogEntry} {error : CatalogError}

/-- The entries have different ids, and every format has a template. -/
structure Loadable (entries : List CatalogEntry) : Prop where
  distinct : (entries.map CatalogEntry.id).Nodup
  parsed : ∀ entry ∈ entries, ∃ template, Template.parse entry.format = .ok template

/-- Why an entry cannot be loaded behind others: its id is taken, whatever its format, or else its
    format has no template. -/
inductive Refused (before : List CatalogEntry) (entry : CatalogEntry) : CatalogError → Prop
  | taken (taken : entry.id ∈ before.map CatalogEntry.id) :
      Refused before entry (.duplicateId entry.id)
  | unparsed {error : TemplateError} (new : entry.id ∉ before.map CatalogEntry.id)
      (unparsed : Template.parse entry.format = .error error) :
      Refused before entry (.badFormat entry.id error)

theorem loadable_nil : Loadable [] := ⟨List.nodup_nil, by simp⟩

/-- One more entry can be loaded if its id is new and its format is a template. -/
theorem loadable_concat_iff : Loadable (entries ++ [entry]) ↔
    Loadable entries ∧ entry.id ∉ entries.map CatalogEntry.id ∧
      ∃ template, Template.parse entry.format = .ok template := by
  have hdistinct : ((entries ++ [entry]).map CatalogEntry.id).Nodup ↔
      (entries.map CatalogEntry.id).Nodup ∧ entry.id ∉ entries.map CatalogEntry.id := by
    simp [List.nodup_append]
  constructor
  · intro h
    obtain ⟨hbefore, hnew⟩ := hdistinct.mp h.distinct
    exact ⟨⟨hbefore, fun other hmem => h.parsed other (List.mem_append_left _ hmem)⟩, hnew,
      h.parsed entry (by simp)⟩
  · rintro ⟨hbefore, hnew, htemplate⟩
    refine ⟨hdistinct.mpr ⟨hbefore.distinct, hnew⟩, fun other hmem => ?_⟩
    obtain hmem | hmem := List.mem_append.mp hmem
    · exact hbefore.parsed other hmem
    · rwa [List.mem_singleton.mp hmem]

/-- An entry is refused, or its id is new and its format has a template. -/
theorem refused_or_parsed (before : List CatalogEntry) (entry : CatalogEntry) :
    (∃ error, Refused before entry error) ∨
      (entry.id ∉ before.map CatalogEntry.id ∧
        ∃ template, Template.parse entry.format = .ok template) := by
  by_cases htaken : entry.id ∈ before.map CatalogEntry.id
  · exact .inl ⟨_, .taken htaken⟩
  · cases hparse : Template.parse entry.format with
    | error error => exact .inl ⟨_, .unparsed htaken hparse⟩
    | ok template => exact .inr ⟨htaken, template, rfl⟩

/-- A list can be loaded, or it has a first entry that is refused. -/
theorem loadable_or_refused (entries : List CatalogEntry) :
    Loadable entries ∨ ∃ before entry after error, entries = before ++ entry :: after ∧
      Loadable before ∧ Refused before entry error := by
  induction entries using List.reverseRecOn with
  | nil => exact .inl loadable_nil
  | append_singleton entries last ih =>
    obtain hloadable | ⟨before, entry, after, error, rfl, hbefore, hrefused⟩ := ih
    · obtain ⟨error, hrefused⟩ | hparsed := refused_or_parsed entries last
      · exact .inr ⟨entries, last, [], error, rfl, hloadable, hrefused⟩
      · exact .inl (loadable_concat_iff.mpr ⟨hloadable, hparsed⟩)
    · exact .inr ⟨before, entry, after ++ [last], error, by simp, hbefore, hrefused⟩

end CatalogEntry

/-- Only what has an id in the table is found. -/
theorem FormatTable.get?_eq_none {α : Type} {t : FormatTable α} {id : FormatId} (h : id ∉ t.ids) :
    t.get? id = none := by
  rw [get?, List.lookup_eq_none_iff]
  rintro entry hmem
  rw [bne_iff_ne]
  rintro rfl
  exact h (List.mem_map_of_mem hmem)

/-! ### Routines -/

/-- **The routine of an entry** unpacks the arguments of its template, and shows what the template
    prints of them behind the origin. -/
theorem Template.run_routine (t : Template) (origin : String) (id : FormatId) (s : Source) :
    (t.routine origin id).run s = match (t.unpack id).run s with
      | (.error error, u) => (.error error, u)
      | (.ok args, u) =>
        match t.write args with
        | .ok text => (.ok (origin ++ text), u)
        | .error error => (.error (.malformedPayload id (.unprintable error)), u) := by
  rw [routine, Decoder.run_bind]
  rcases (t.unpack id).run s with ⟨error | args, u⟩
  · rfl
  · cases hwrite : t.write args <;> simp [hwrite]

namespace Catalog

open CatalogEntry

variable {catalog : Catalog} {before entries : List CatalogEntry} {entry : CatalogEntry}
  {error : CatalogError}

/-! ### What a catalog holds -/

/-- The catalog holds the entries, in order, each under its id and with the template of its
    format. -/
structure Holds (catalog : Catalog) (entries : List CatalogEntry) : Prop where
  ids_eq : catalog.ids = entries.map CatalogEntry.id
  parsed : ∀ entry ∈ entries, ∃ template, Template.parse entry.format = .ok template ∧
    catalog.get? entry.id = some (entry, template)

theorem holds_empty : Holds {} [] := ⟨rfl, by simp⟩

theorem Holds.contains_iff (h : catalog.Holds before) (id : FormatId) :
    catalog.contains id = true ↔ id ∈ before.map CatalogEntry.id := by
  rw [FormatTable.contains, decide_eq_true_iff, h.ids_eq]

/-- **One more entry** with a new id and a template is held too. -/
theorem Holds.add (h : catalog.Holds before) (hnew : entry.id ∉ before.map CatalogEntry.id)
    {template : Template} (htemplate : Template.parse entry.format = .ok template) :
    ∃ next, catalog.add entry = .ok next ∧ next.Holds (before ++ [entry]) := by
  -- the id is looked at before the format
  have hcontains : catalog.contains entry.id ≠ true := mt (h.contains_iff entry.id).mp hnew
  refine ⟨catalog.insert entry.id (entry, template), ?_, ?_, ?_⟩
  · rw [Catalog.add, if_neg hcontains, htemplate]
  · rw [FormatTable.ids_insert, h.ids_eq, if_neg hnew, List.map_append, List.map_singleton]
  · intro other hmem
    obtain hmem | hmem := List.mem_append.mp hmem
    · -- the entries before keep their templates, as the new id is none of theirs
      obtain ⟨parsed, hparse, hget⟩ := h.parsed other hmem
      refine ⟨parsed, hparse, ?_⟩
      rw [FormatTable.get?_insert, if_neg, hget]
      exact fun heq => hnew (heq ▸ List.mem_map_of_mem hmem)
    · obtain rfl := List.mem_singleton.mp hmem
      exact ⟨template, htemplate, by rw [FormatTable.get?_insert, if_pos rfl]⟩

/-- An entry that is refused is not added. -/
theorem Holds.add_refused (h : catalog.Holds before) (hrefused : Refused before entry error) :
    catalog.add entry = .error error := by
  cases hrefused with
  | taken htaken => rw [Catalog.add, if_pos ((h.contains_iff entry.id).mpr htaken)]
  | unparsed hnew hparse =>
    rw [Catalog.add, if_neg (mt (h.contains_iff entry.id).mp hnew), hparse]

/-! ### Whole lists -/

/-- A catalog can be loaded in parts. -/
theorem ofEntries_append (before after : List CatalogEntry) :
    ofEntries (before ++ after) =
      ofEntries before >>= fun catalog => after.foldlM Catalog.add catalog :=
  List.foldlM_append

/-- **A list that can be loaded** is loaded. -/
theorem exists_holds (h : Loadable entries) :
    ∃ catalog, ofEntries entries = .ok catalog ∧ catalog.Holds entries := by
  induction entries using List.reverseRecOn with
  | nil => exact ⟨{}, rfl, holds_empty⟩
  | append_singleton entries entry ih =>
    obtain ⟨hbefore, hnew, template, htemplate⟩ := loadable_concat_iff.mp h
    obtain ⟨catalog, hload, hholds⟩ := ih hbefore
    obtain ⟨next, hadd, hnext⟩ := hholds.add hnew htemplate
    refine ⟨next, ?_, hnext⟩
    rw [ofEntries_append, hload]
    show ([entry].foldlM Catalog.add catalog) = _
    rw [List.foldlM_cons, hadd]
    rfl

/-- A list with an entry that is refused behind loadable ones is refused for it. -/
theorem ofEntries_of_refused (hbefore : Loadable before) (hrefused : Refused before entry error)
    (after : List CatalogEntry) : ofEntries (before ++ entry :: after) = .error error := by
  obtain ⟨catalog, hload, hholds⟩ := exists_holds hbefore
  rw [ofEntries_append, hload]
  show ((entry :: after).foldlM Catalog.add catalog) = _
  rw [List.foldlM_cons, hholds.add_refused hrefused]
  rfl

/-- **A list is refused** for its first entry that cannot be loaded behind the others. -/
theorem ofEntries_eq_error_iff : ofEntries entries = .error error ↔
    ∃ before entry after, entries = before ++ entry :: after ∧ Loadable before ∧
      Refused before entry error := by
  constructor
  · intro h
    obtain hloadable | ⟨before, entry, after, cause, rfl, hbefore, hrefused⟩ :=
      loadable_or_refused entries
    · obtain ⟨catalog, hload, -⟩ := exists_holds hloadable
      rw [h] at hload
      cases hload
    · rw [ofEntries_of_refused hbefore hrefused after] at h
      cases h
      exact ⟨before, entry, after, rfl, hbefore, hrefused⟩
  · rintro ⟨before, entry, after, rfl, hbefore, hrefused⟩
    exact ofEntries_of_refused hbefore hrefused after

/-- A catalog that was loaded holds the entries of the list, which can be loaded. -/
theorem loadable_of_ofEntries (h : ofEntries entries = .ok catalog) :
    Loadable entries ∧ catalog.Holds entries := by
  obtain hloadable | ⟨before, entry, after, cause, rfl, hbefore, hrefused⟩ :=
    loadable_or_refused entries
  · obtain ⟨loaded, hload, hholds⟩ := exists_holds hloadable
    rw [h] at hload
    cases hload
    exact ⟨hloadable, hholds⟩
  · rw [ofEntries_of_refused hbefore hrefused after] at h
    cases h

/-! ### What is found in a catalog -/

/-- An id that no entry has is not found. -/
theorem Holds.get?_of_not_mem (h : catalog.Holds entries) {id : FormatId}
    (hid : id ∉ entries.map CatalogEntry.id) : catalog.get? id = none :=
  FormatTable.get?_eq_none (h.ids_eq ▸ hid)

/-- What is found under an id is the entry that has it, with the template of its format. -/
theorem Holds.eq_of_get? (h : catalog.Holds entries) {id : FormatId} {template : Template}
    (hget : catalog.get? id = some (entry, template)) :
    entry ∈ entries ∧ entry.id = id ∧ Template.parse entry.format = .ok template := by
  by_cases hid : id ∈ entries.map CatalogEntry.id
  · obtain ⟨other, hmem, rfl⟩ := List.mem_map.mp hid
    obtain ⟨parsed, hparse, hother⟩ := h.parsed other hmem
    rw [hget] at hother
    cases hother
    exact ⟨hmem, rfl, hparse⟩
  · rw [h.get?_of_not_mem hid] at hget
    cases hget

/-- The routine that a catalog registers for an entry is that of its template. -/
theorem Holds.find_registry (h : catalog.Holds entries) (showOrigin : Bool)
    (hmem : entry ∈ entries) : ∃ template, Template.parse entry.format = .ok template ∧
      Registry.find (catalog.registry showOrigin) entry.id =
        .ok (template.routine (shownOrigin showOrigin entry)) := by
  obtain ⟨template, hparse, hget⟩ := h.parsed entry hmem
  refine ⟨template, hparse, ?_⟩
  rw [Registry.find, get?_registry, hget]
  rfl

/-- So the registry reports it as unknown. -/
theorem Holds.find_registry_of_not_mem (h : catalog.Holds entries) (showOrigin : Bool)
    {id : FormatId} (hid : id ∉ entries.map CatalogEntry.id) :
    Registry.find (catalog.registry showOrigin) id = .error (.unknownFormat id) := by
  rw [Registry.find, get?_registry, h.get?_of_not_mem hid]
  rfl

/-- **All or nothing.** Entries make up a catalog exactly if their ids are different and every
    format has a template. Otherwise they are refused for the first entry whose id is taken, or
    whose format has no template, and the id is looked at first. The catalog lists the ids in order
    and has each entry under its id, with the template of its format, and nothing else. So do the
    routines that it registers: each unpacks the arguments of its own entry and prints them as that
    entry says, behind its origin if that is to be shown. -/
theorem ofEntries_all_or_nothing (entries : List CatalogEntry) :
    ((∃ catalog, ofEntries entries = .ok catalog) ↔ Loadable entries) ∧
    (∀ error, ofEntries entries = .error error ↔
      ∃ before entry after, entries = before ++ entry :: after ∧ Loadable before ∧
        Refused before entry error) ∧
    ∀ catalog, ofEntries entries = .ok catalog →
      catalog.ids = entries.map CatalogEntry.id ∧
      (∀ entry ∈ entries, ∃ template, Template.parse entry.format = .ok template ∧
        catalog.get? entry.id = some (entry, template)) ∧
      (∀ id, id ∉ entries.map CatalogEntry.id → catalog.get? id = none) ∧
      ∀ showOrigin, let registry : Registry := catalog.registry showOrigin
        registry.ids = entries.map CatalogEntry.id ∧
        (∀ entry ∈ entries, ∃ template routine, Template.parse entry.format = .ok template ∧
          registry.find entry.id = .ok routine ∧
          ∀ id s, (routine id).run s = match (template.unpack id).run s with
            | (.error error, t) => (.error error, t)
            | (.ok args, t) =>
              match template.write args with
              | .ok text => (.ok ((if showOrigin then entry.origin else "") ++ text), t)
              | .error error => (.error (.malformedPayload id (.unprintable error)), t)) ∧
        ∀ id, id ∉ entries.map CatalogEntry.id →
          registry.find id = .error (.unknownFormat id) := by
  refine ⟨?_, fun error => ofEntries_eq_error_iff, ?_⟩
  · constructor
    · rintro ⟨catalog, hload⟩
      exact (loadable_of_ofEntries hload).1
    · intro hloadable
      obtain ⟨catalog, hload, -⟩ := exists_holds hloadable
      exact ⟨catalog, hload⟩
  · intro catalog hload
    obtain ⟨-, hholds⟩ := loadable_of_ofEntries hload
    refine ⟨hholds.ids_eq, hholds.parsed, fun id => hholds.get?_of_not_mem, fun showOrigin => ?_⟩
    refine ⟨?_, ?_, fun id => hholds.find_registry_of_not_mem showOrigin⟩
    · rw [Catalog.registry, FormatTable.ids_map, hholds.ids_eq]
    · intro entry hmem
      obtain ⟨template, hparse, hfind⟩ := hholds.find_registry showOrigin hmem
      exact ⟨template, _, hparse, hfind, template.run_routine _⟩

/-- An entry with a taken id is refused for that, although its format has no template either. -/
theorem ofEntries_all_or_nothing_of_taken_id :
    let first : CatalogEntry := ⟨⟨1⟩, "%d", none, none, none⟩
    let again : CatalogEntry := ⟨⟨1⟩, "%n", none, none, none⟩
    Loadable [first] ∧ Refused [first] again (.duplicateId ⟨1⟩) ∧
      (∃ catalog, ofEntries [first] = .ok catalog ∧ catalog.ids = [⟨1⟩]) ∧
      ofEntries [first, again] = .error (.duplicateId ⟨1⟩) := by
  intro first again
  have hparse : Template.parse first.format =
      .ok { source := "%d", pieces := [.directive { conversion := .decimal }] } := by
    decide +kernel
  have hloadable : Loadable [first] :=
    ⟨by decide, fun entry hmem => ⟨_, List.mem_singleton.mp hmem ▸ hparse⟩⟩
  have hrefused : Refused [first] again (.duplicateId ⟨1⟩) := .taken (by decide)
  -- the first entry alone is a catalog, so it is the second one that is refused
  obtain ⟨hloads, -, hfound⟩ := ofEntries_all_or_nothing [first]
  obtain ⟨catalog, hcatalog⟩ := hloads.mpr hloadable
  obtain ⟨-, hrefuses, -⟩ := ofEntries_all_or_nothing [first, again]
  exact ⟨hloadable, hrefused, ⟨catalog, hcatalog, (hfound catalog hcatalog).1⟩,
    (hrefuses _).mpr ⟨[first], again, [], rfl, hloadable, hrefused⟩⟩

end Catalog

end BinaryLog
