import BinaryLog.Proofs.Template.Reading
import Mathlib.Data.List.Chain

namespace BinaryLog

/-!
# Templates, read by their grammar

* `readItems_eq_ok_iff` and `readItems_eq_error_iff`, the items of a text are read exactly where it
  is spelled by the grammar, and otherwise the first faulty percent sign is named;
* `Piece.Separated`, pieces whose literals are as long as they can be, and `Piece.ofItems_flatMap`,
  such pieces are made of their own items;
* `Template.parse_by_grammar`, the templates, their pieces and their errors by the grammar.
-/

/-! ### Reading items -/

section Items

variable {start : Nat} {c : Char} {cs rest : List Char} {d : Directive} {items : List Item}
  {error : TemplateError}

/-- Any character but a percent sign is an item of its own. -/
theorem readItems_char (h : c ≠ '%') :
    readItems start (c :: cs) = (readItems (start + c.utf8Size) cs).map (.char c :: ·) :=
  readItems.eq_4 start c cs (by rintro tail rfl; exact absurd rfl h) (by rintro rfl; exact h rfl)

/-- Behind a percent sign that is not escaped a directive is read, and the offset moves past it. -/
theorem readItems_directive (hcs : cs.head? ≠ some '%')
    (h : readDirective start cs = .ok (d, rest)) :
    readItems start ('%' :: cs) =
      (readItems (start + 1 + (cs.length - rest.length)) rest).map (.directive d :: ·) := by
  rw [readItems.eq_3 start cs (by rintro tail rfl; exact hcs rfl)]
  split
  · rename_i herror
    rw [h] at herror
    cases herror
  · rename_i hread
    rw [h] at hread
    cases hread
    rfl

/-- A directive that cannot be read ends the reading with its error. -/
theorem readItems_error (hcs : cs.head? ≠ some '%') (h : readDirective start cs = .error error) :
    readItems start ('%' :: cs) = .error error := by
  rw [readItems.eq_3 start cs (by rintro tail rfl; exact hcs rfl)]
  split
  · rename_i herror
    rw [h] at herror
    cases herror
    rfl
  · rename_i hread
    rw [h] at hread
    cases hread

/-- A directive has as many bytes as characters. -/
theorem byteLength_directive (p : Preamble) (conversion : Conversion) :
    byteLength ('%' :: (p.text ++ [conversion.toChar])) = p.text.length + 2 := by
  have hconversion : conversion.toChar.utf8Size = 1 := by
    rcases conversion with _ | _ | _ | _ | ⟨_ | _⟩ | _ | _ | ⟨_ | _⟩ | ⟨_ | _⟩ | ⟨_ | _⟩ | _ <;> rfl
  rw [byteLength_cons, byteLength_append, p.byteLength_text, byteLength_cons, hconversion,
    show byteLength [] = 0 from rfl, show '%'.utf8Size = 1 from rfl]
  omega

/-- A percent sign that is followed by another does not begin a preamble. -/
theorem head?_text_append (p : Preamble) (h : p.text = [] → rest.head? ≠ some '%') :
    (p.text ++ rest).head? ≠ some '%' := by
  have htext : ∀ c ∈ p.text, c ≠ '%' := p.forall_mem_text (by simp [flagChars])
    (by rintro c hdigit rfl; cases hdigit) (by decide) (by simp [lengthChars])
  cases hp : p.text with
  | nil => exact h hp
  | cons c tail => simpa using htext c (by simp [hp])

/-- A directive is not an escaped percent sign, as none of its characters is one. -/
theorem head?_directive (p : Preamble) (conversion : Conversion) (cs : List Char) :
    (p.text ++ conversion.toChar :: cs).head? ≠ some '%' := by
  refine head?_text_append p fun _ => ?_
  rw [List.head?_cons, ne_eq, Option.some.injEq, ← Conversion.ofChar?_eq_some_iff]
  exact nofun

/-- A faulty percent sign is not an escaped one. -/
theorem Faulty.head?_ne {before : List Char} (h : Faulty before cs error) :
    cs.head? ≠ some '%' := by
  cases h with
  | dynamicWidth p rest _ => exact head?_text_append p fun _ => by simp
  | incomplete p =>
    rw [← List.append_nil p.text]
    exact head?_text_append p fun _ => by simp
  | unsupported p c rest _ _ _ hescape =>
    exact head?_text_append p fun hempty => by simpa using hescape hempty

/-- One item in front of others in front of what is read. -/
theorem map_cons_map_append (item : Item) (items : List Item)
    (result : Except TemplateError (List Item)) :
    (result.map (items ++ ·)).map (item :: ·) = result.map (item :: items ++ ·) := by
  cases result <;> rfl

/-- **Reading along what is spelled** yields its items, and goes on behind it. -/
theorem readItems_append {done : List Char} (h : Spelled done items) (before rest : List Char) :
    readItems (byteLength before) (done ++ rest) =
      (readItems (byteLength (before ++ done)) rest).map (items ++ ·) := by
  -- by the items that are spelled; the text before them grows, and the offset counts its bytes
  induction h generalizing before with
  | nil =>
    rw [List.nil_append, List.append_nil]
    cases readItems (byteLength before) rest <;> rfl
  | @char c cs items hplain _ ih =>
    have hstart : byteLength before + c.utf8Size = byteLength (before ++ [c]) := by
      rw [byteLength_append, byteLength_cons]
      rfl
    rw [List.cons_append, readItems_char hplain, hstart, ih, map_cons_map_append,
      List.append_assoc, List.singleton_append]
  | @percent cs items _ ih =>
    have hstart : byteLength before + 2 = byteLength (before ++ ['%', '%']) := by
      rw [byteLength_append]
      rfl
    rw [List.cons_append, List.cons_append, readItems.eq_2, hstart, ih, map_cons_map_append,
      List.append_assoc]
    rfl
  | @directive p conversion cs items _ ih =>
    have hread : readDirective (byteLength before) (p.text ++ conversion.toChar :: (cs ++ rest)) =
        .ok (p.directive conversion, cs ++ rest) :=
      readDirective_eq_ok_iff.mpr ⟨p, conversion, rfl, rfl⟩
    have hstart : byteLength before + 1
        + ((p.text ++ conversion.toChar :: (cs ++ rest)).length - (cs ++ rest).length) =
        byteLength (before ++ '%' :: (p.text ++ [conversion.toChar])) := by
      rw [byteLength_append, byteLength_directive, List.length_append, List.length_cons]
      omega
    rw [List.cons_append, List.append_assoc, List.cons_append,
      readItems_directive (head?_directive p conversion _) hread, hstart, ih, map_cons_map_append]
    have hbefore : before ++ '%' :: (p.text ++ [conversion.toChar]) ++ cs =
        before ++ '%' :: (p.text ++ conversion.toChar :: cs) := by
      simp only [List.append_assoc, List.cons_append, List.nil_append]
    rw [hbefore]

/-- **What is spelled goes together.** Spelled texts in a row spell their items in a row. -/
theorem Spelled.append {front : List Char} {more : List Item} (h : Spelled front items)
    (h' : Spelled rest more) : Spelled (front ++ rest) (items ++ more) := by
  induction h with
  | nil => exact h'
  | char hplain _ ih => exact .char hplain ih
  | percent _ ih => exact .percent ih
  | directive p conversion _ ih =>
    rw [List.cons_append, List.append_assoc]
    exact .directive p conversion ih

/-- **Every text** is spelled by the grammar, up to a first faulty percent sign if there is one. -/
theorem spelled_or_faulty (before cs : List Char) :
    (∃ items, Spelled cs items) ∨ ∃ done items after error, cs = done ++ '%' :: after ∧
      Spelled done items ∧ Faulty (before ++ done) after error := by
  -- by the length of the text, as a directive is of any length
  induction hn : cs.length using Nat.strong_induction_on generalizing before cs with
  | _ n ih =>
  -- one item in front leaves a shorter text
  have goOn (front rest : List Char) {item : Item} (hfront : Spelled front [item])
      (hcs : cs = front ++ rest) (hlt : rest.length < cs.length) :
      (∃ items, Spelled cs items) ∨ ∃ done items after error, cs = done ++ '%' :: after ∧
        Spelled done items ∧ Faulty (before ++ done) after error := by
    obtain ⟨items, hrest⟩ | ⟨done, items, after, error, rfl, hdone, hfaulty⟩ :=
      ih rest.length (hn ▸ hlt) (before ++ front) rest rfl
    · exact .inl ⟨_, hcs ▸ hfront.append hrest⟩
    · rw [List.append_assoc] at hfaulty
      exact .inr ⟨_, _, after, error, by rw [hcs, List.append_assoc], hfront.append hdone, hfaulty⟩
  cases hcs : cs with
  | nil => exact .inl ⟨[], .nil⟩
  | cons c tail =>
    rw [← hcs]
    by_cases hc : c = '%'
    · subst hc
      by_cases htail : tail.head? = some '%'
      · obtain ⟨rest, rfl⟩ := List.head?_eq_some_iff.mp htail
        refine goOn ['%', '%'] rest (.percent .nil) hcs ?_
        simp only [hcs, List.length_cons]
        omega
      · cases hread : readDirective (byteLength before) tail with
        | error error =>
          refine .inr ⟨[], [], tail, error, hcs, .nil, ?_⟩
          rw [List.append_nil]
          exact (readDirective_eq_error_iff htail).mp hread
        | ok result =>
          obtain ⟨d, rest⟩ := result
          obtain ⟨p, conversion, rfl, -⟩ := readDirective_eq_ok_iff.mp hread
          refine goOn ('%' :: (p.text ++ [conversion.toChar])) rest (.directive p conversion .nil)
            ?_ ?_
          · rw [hcs, List.cons_append, List.append_assoc, List.singleton_append]
          · simp only [hcs, List.length_cons, List.length_append]
            omega
    · exact goOn [c] tail (.char hc .nil) hcs (by simp [hcs])

/-- A spelled text is read as its items. -/
theorem readItems_of_spelled (h : Spelled cs items) : readItems 0 cs = .ok items := by
  have happend := readItems_append h [] []
  rw [List.append_nil, readItems.eq_1] at happend
  exact happend.trans (congrArg Except.ok (List.append_nil items))

/-- Behind what is spelled, the first faulty percent sign is reported. -/
theorem readItems_of_faulty {done after : List Char} (hdone : Spelled done items)
    (hfaulty : Faulty done after error) : readItems 0 (done ++ '%' :: after) = .error error := by
  have happend := readItems_append hdone [] ('%' :: after)
  rw [List.nil_append, readItems_error hfaulty.head?_ne
    ((readDirective_eq_error_iff hfaulty.head?_ne).mpr hfaulty)] at happend
  exact happend

/-- **The items of a text** are read exactly where it is spelled by the grammar. -/
theorem readItems_eq_ok_iff : readItems 0 cs = .ok items ↔ Spelled cs items := by
  refine ⟨fun h => ?_, readItems_of_spelled⟩
  -- every text is either spelled or faulty, and each of them has its own outcome
  obtain ⟨others, hspelled⟩ | ⟨done, others, after, error, rfl, hdone, hfaulty⟩ :=
    spelled_or_faulty [] cs
  · rw [readItems_of_spelled hspelled] at h
    cases h
    exact hspelled
  · rw [readItems_of_faulty hdone hfaulty] at h
    cases h

/-- **An error** names the first percent sign that is faulty. -/
theorem readItems_eq_error_iff : readItems 0 cs = .error error ↔
    ∃ done items after, cs = done ++ '%' :: after ∧ Spelled done items ∧
      Faulty done after error := by
  constructor
  · intro h
    obtain ⟨items, hspelled⟩ | ⟨done, items, after, other, rfl, hdone, hfaulty⟩ :=
      spelled_or_faulty [] cs
    · rw [readItems_of_spelled hspelled] at h
      cases h
    · rw [readItems_of_faulty hdone hfaulty] at h
      cases h
      exact ⟨done, items, after, rfl, hdone, hfaulty⟩
  · rintro ⟨done, items, after, rfl, hdone, hfaulty⟩
    exact readItems_of_faulty hdone hfaulty

end Items

/-! ### Pieces -/

namespace Piece

variable {pieces : List Piece} {c : Char} {d : Directive} {text : String}

/-- The items that a piece joins. -/
def items : Piece → List Item
  | .literal text => text.toList.map .char
  | .directive d => [.directive d]

/-- At most one of two pieces is a literal. -/
def Apart (a b : Piece) : Prop := a.directive? = none → b.directive? ≠ none

/-- No literal is empty, and none stands next to another. -/
structure Separated (pieces : List Piece) : Prop where
  nonempty : ∀ text, .literal text ∈ pieces → text ≠ ""
  apart : pieces.IsChain Apart

theorem separated_nil : Separated [] := ⟨by simp, .nil⟩

theorem Separated.tail {piece : Piece} (h : Separated (piece :: pieces)) : Separated pieces :=
  ⟨fun text htext => h.nonempty text (List.mem_cons_of_mem _ htext), h.apart.tail⟩

/-- A directive may stand in front of any pieces. -/
theorem Separated.directive_cons (h : Separated pieces) (d : Directive) :
    Separated (.directive d :: pieces) :=
  ⟨by simpa using h.nonempty, List.isChain_cons.mpr ⟨fun _ _ => nofun, h.apart⟩⟩

/-- A literal in front of pieces has to hold something, and to meet no other literal. -/
theorem separated_literal_cons : Separated (.literal text :: pieces) ↔
    text ≠ "" ∧ (∀ piece ∈ pieces.head?, piece.directive? ≠ none) ∧ Separated pieces := by
  constructor
  · intro h
    exact ⟨h.nonempty text (by simp),
      fun piece hpiece => (List.isChain_cons.mp h.apart).1 piece hpiece rfl, h.tail⟩
  · rintro ⟨htext, hhead, h⟩
    refine ⟨fun other hother => ?_,
      List.isChain_cons.mpr ⟨fun piece hpiece _ => hhead piece hpiece, h.apart⟩⟩
    obtain heq | hmem := List.mem_cons.mp hother
    · cases heq
      exact htext
    · exact h.nonempty other hmem

/-- A literal that grows at its front is no longer empty. -/
theorem ofList_cons_ne_empty (c : Char) (cs : List Char) : String.ofList (c :: cs) ≠ "" := by
  rw [ne_eq, ← String.toList_inj]
  simp

/-- A character that is joined to the first literal is still an item of its own. -/
theorem flatMap_cons (c : Char) (pieces : List Piece) :
    (cons c pieces).flatMap items = .char c :: pieces.flatMap items := by
  cases pieces with
  | nil => simp [cons, items]
  | cons piece pieces => cases piece <;> simp [cons, items]

/-- Joining a character to the first literal keeps the pieces separated, which is why the literals
    are joined. -/
theorem Separated.cons (h : Separated pieces) (c : Char) : Separated (cons c pieces) := by
  cases pieces with
  | nil => exact separated_literal_cons.mpr ⟨ofList_cons_ne_empty c [], by simp, h⟩
  | cons piece pieces =>
    cases piece with
    | literal text =>
      obtain ⟨-, hhead, hpieces⟩ := separated_literal_cons.mp h
      exact separated_literal_cons.mpr ⟨ofList_cons_ne_empty c _, hhead, hpieces⟩
    | directive d =>
      exact separated_literal_cons.mpr ⟨ofList_cons_ne_empty c [], by simp [directive?], h⟩

/-- **Joining items** loses none of them. -/
theorem flatMap_ofItems (is : List Item) : (ofItems is).flatMap items = is := by
  induction is with
  | nil => rfl
  | cons item is ih =>
    cases item with
    | char c => rw [ofItems, flatMap_cons, ih]
    | directive d => rw [ofItems, List.flatMap_cons, ih]; rfl

/-- **Joined items** make literals that are as long as they can be. -/
theorem separated_ofItems (is : List Item) : Separated (ofItems is) := by
  induction is with
  | nil => exact separated_nil
  | cons item is ih =>
    cases item with
    | char c => exact ih.cons c
    | directive d => exact ih.directive_cons d

/-- Characters in front of pieces that begin with no literal are one literal. -/
theorem ofItems_chars {is : List Item} (h : ∀ piece ∈ (ofItems is).head?, piece.directive? ≠ none)
    (c : Char) (cs : List Char) :
    ofItems ((c :: cs).map .char ++ is) = .literal (String.ofList (c :: cs)) :: ofItems is := by
  -- the literal grows at its front, one character after the other
  induction cs generalizing c with
  | nil =>
    show cons c (ofItems is) = _
    cases hpieces : ofItems is with
    | nil => rfl
    | cons piece pieces =>
      rw [hpieces] at h
      cases piece with
      | literal text => exact absurd rfl (h _ rfl)
      | directive d => rfl
  | cons c' cs ih =>
    show cons c (ofItems ((c' :: cs).map .char ++ is)) = _
    rw [ih, cons, String.toList_ofList]

/-- **Separated pieces** are the pieces that their own items make. -/
theorem ofItems_flatMap (h : Separated pieces) : ofItems (pieces.flatMap items) = pieces := by
  induction pieces with
  | nil => rfl
  | cons piece pieces ih =>
    rw [List.flatMap_cons]
    cases piece with
    | directive d => exact congrArg _ (ih h.tail)
    | literal text =>
      obtain ⟨htext, hhead, hpieces⟩ := separated_literal_cons.mp h
      rw [← ih hpieces] at hhead
      cases hchars : text.toList with
      | nil => exact absurd (String.toList_inj.mp hchars) htext
      | cons c cs =>
        rw [items, hchars, ofItems_chars hhead, ih hpieces, ← hchars, String.ofList_toList]

end Piece

/-! ### Templates -/

/-- The directives of a piece are those among its items. -/
theorem Piece.filterMap_items (piece : Piece) :
    piece.items.filterMap Item.directive? = piece.directive?.toList := by
  cases piece with
  | literal text =>
    rw [items, List.filterMap_map, show Item.directive? ∘ Item.char = fun _ => none from rfl,
      List.filterMap_none]
    rfl
  | directive d => rfl

namespace Template

variable {source : String} {t : Template}

/-- The directives of a template are those among its items. -/
theorem directives_eq (t : Template) :
    t.directives = (t.pieces.flatMap Piece.items).filterMap Item.directive? := by
  rw [directives]
  induction t.pieces with
  | nil => rfl
  | cons piece pieces ih =>
    rw [List.flatMap_cons, List.filterMap_append, Piece.filterMap_items, ← ih, List.filterMap_cons]
    cases piece.directive? <;> rfl

/-- **A template is read** exactly where the items of its pieces are spelled, and its literals are
    as long as they can be. -/
theorem parse_eq_ok_iff : parse source = .ok t ↔ t.source = source ∧
    Spelled source.toList (t.pieces.flatMap Piece.items) ∧ Piece.Separated t.pieces := by
  rw [parse]
  constructor
  · intro h
    cases hitems : readItems 0 source.toList with
    | error error =>
      rw [hitems] at h
      cases h
    | ok items =>
      rw [hitems] at h
      cases h
      refine ⟨rfl, ?_, Piece.separated_ofItems items⟩
      rw [Piece.flatMap_ofItems]
      exact readItems_eq_ok_iff.mp hitems
  · rintro ⟨rfl, hspelled, hseparated⟩
    rw [readItems_of_spelled hspelled, Except.map, Except.ok.injEq, ext_iff]
    exact ⟨rfl, Piece.ofItems_flatMap hseparated⟩

/-- **A template is refused** for the first percent sign that is faulty. -/
theorem parse_eq_error_iff {error : TemplateError} : parse source = .error error ↔
    ∃ before items after, source.toList = before ++ '%' :: after ∧ Spelled before items ∧
      Faulty before after error := by
  rw [← readItems_eq_error_iff, parse]
  cases readItems 0 source.toList <;> simp [Except.map]

/-- **Templates by their grammar.** A text is a template exactly where the grammar spells it. The
    pieces stand for the items that are spelled, in order, with literals that are not empty and not
    next to each other, and the arguments have the kinds of the conversions in order. Any other text
    is refused for the first percent sign that is faulty. -/
theorem parse_by_grammar (source : String) :
    ((∃ t, parse source = .ok t) ↔ ∃ items, Spelled source.toList items) ∧
      (∀ t, parse source = .ok t → t.source = source ∧ Piece.Separated t.pieces ∧
        ∃ items, Spelled source.toList items ∧ t.pieces.flatMap Piece.items = items ∧
          t.argKinds = (items.filterMap Item.directive?).map (·.conversion.argKind)) ∧
      ∀ error, parse source = .error error ↔
        ∃ before items after, source.toList = before ++ '%' :: after ∧ Spelled before items ∧
          Faulty before after error := by
  refine ⟨⟨?_, ?_⟩, fun t ht => ?_, fun error => parse_eq_error_iff⟩
  · rintro ⟨t, ht⟩
    exact ⟨_, (parse_eq_ok_iff.mp ht).2.1⟩
  · rintro ⟨items, hspelled⟩
    refine ⟨{ source, pieces := Piece.ofItems items }, parse_eq_ok_iff.mpr ⟨rfl, ?_, ?_⟩⟩
    · rwa [Piece.flatMap_ofItems]
    · exact Piece.separated_ofItems items
  · obtain ⟨hsource, hspelled, hseparated⟩ := parse_eq_ok_iff.mp ht
    refine ⟨hsource, hseparated, _, hspelled, rfl, ?_⟩
    rw [argKinds_eq_map, directives_eq, List.map_filterMap, List.map_filterMap]
    rfl

/-- A zero is a flag and not the width, the longer of two lengths is taken, and offsets count the
    two bytes of `é`. An asterisk behind a width stands for no number. -/
theorem parse_by_grammar_past_multibyte_characters :
    let d : Directive :=
      { flags := { leftAlign := true, forceSign := true, zeroPad := true }
        width := some 8, precision := some 3, length := .longLong, conversion := .decimal }
    let t : Template :=
      { source := "é%%%-+08.3lld!", pieces := [.literal "é%", .directive d, .literal "!"] }
    (Template.parse "é%%%-+08.3lld!" = .ok t ∧
      (∃ items, Spelled "é%%%-+08.3lld!".toList items) ∧ t.argKinds = [.signed]) ∧
    (Template.parse "é%d%5*d" = .error (.unsupported '*' 4) ∧
      ∃ before items after, "é%d%5*d".toList = before ++ '%' :: after ∧ Spelled before items ∧
        Faulty before after (.unsupported '*' 4)) ∧
    (Template.parse "é%d%-.*d" = .error (.dynamicWidth 7) ∧
      ∃ before items after, "é%d%-.*d".toList = before ++ '%' :: after ∧ Spelled before items ∧
        Faulty before after (.dynamicWidth 7)) := by
  intro d t
  have hok : Template.parse "é%%%-+08.3lld!" = .ok t := by decide +kernel
  have hbehindWidth : Template.parse "é%d%5*d" = .error (.unsupported '*' 4) := by decide +kernel
  have hbehindPoint : Template.parse "é%d%-.*d" = .error (.dynamicWidth 7) := by decide +kernel
  refine ⟨⟨hok, (parse_by_grammar _).1.mp ⟨t, hok⟩, rfl⟩, ⟨hbehindWidth, ?_⟩, hbehindPoint, ?_⟩
  · exact ((parse_by_grammar _).2.2 _).mp hbehindWidth
  · exact ((parse_by_grammar _).2.2 _).mp hbehindPoint

end Template

end BinaryLog
