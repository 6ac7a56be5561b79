import BinaryLog.Argument.Rendering
import Mathlib.Data.List.Forall2

namespace BinaryLog

/-!
# Arguments that print alike

What a directive prints of an integer depends on its bits alone, so an integer of the other sign
with the same bits prints alike.

* `Argument.Alike`, arguments that no directive tells apart;
* `Template.check_eq_ok_iff`, the argument lists that a template takes;
* `Template.write_congr`, alike argument lists have the same text, or the same error.
-/

/-! ### Alike arguments -/

namespace Argument

/-- Is the argument an integer, of either sign? -/
def isInteger : Argument → Bool
  | .int _ | .uint _ => true
  | _ => false

/-- Two arguments that no directive tells apart: they are equal, or integers of the same bits. -/
def Alike (a b : Argument) : Prop :=
  a = b ∨ (a.isInteger = true ∧ b.isInteger = true ∧ a.bits = b.bits)

theorem Alike.refl (a : Argument) : a.Alike a := .inl rfl

/-- Every kind of conversion takes integers of both signs, or of none. -/
theorem fits_of_isInteger {a b : Argument} (ha : a.isInteger = true) (hb : b.isInteger = true)
    (kind : ArgKind) : a.fits kind = b.fits kind := by
  cases a <;> cases ha <;> cases b <;> cases hb <;> cases kind <;> rfl

/-- Alike arguments fit the same conversions. -/
theorem Alike.fits {a b : Argument} (h : a.Alike b) (kind : ArgKind) :
    a.fits kind = b.fits kind := by
  obtain rfl | ⟨ha, hb, -⟩ := h
  · rfl
  · exact fits_of_isInteger ha hb kind

/-- A float conversion takes no integer. -/
theorem not_isInteger_of_fits_float {a : Argument} (h : a.fits .float = true) :
    a.isInteger = false := by
  cases a <;> first | rfl | cases h

end Argument

/-- A directive prints alike arguments that it takes alike. -/
theorem Directive.write_congr {d : Directive} {a b : Argument} (h : a.Alike b)
    (hfits : a.fits d.argKind = true) : d.write a = d.write b := by
  obtain rfl | ⟨ha, hb, hbits⟩ := h
  · rfl
  suffices hfield : d.field a = d.field b by rw [write, write, hfield]
  unfold field
  cases hkind : d.argKind with
  | float =>
    rw [hkind] at hfits
    rw [Argument.not_isInteger_of_fits_float hfits] at ha
    cases ha
  | text =>
    -- a text conversion prints nothing of an integer
    cases a <;> cases ha <;> cases b <;> cases hb <;> rfl
  | signed => dsimp only; rw [hbits]
  | unsigned => dsimp only; rw [hbits]
  | char => dsimp only; rw [hbits]
  | pointer => dsimp only; rw [hbits]

/-! ### Argument lists -/

namespace Template

variable {t : Template} {args others : List Argument}

/-- The first argument that its directive does not take, with its place. -/
def misfit? (directives : List Directive) (args : List Argument) (first : Nat) :
    Option ((Directive × Argument) × Nat) :=
  ((directives.zip args).zipIdx first).find? fun ((d, a), _) => !a.fits d.argKind

/-- A check counts the arguments first, and then looks for the first one that does not fit. -/
theorem check_eq (t : Template) (args : List Argument) :
    t.check args =
      if t.directives.length ≠ args.length then .error (.count t.directives.length args.length)
      else
        match misfit? t.directives args 0 with
        | some ((d, _), index) => .error (.kind index d.conversion.toChar)
        | none => .ok () := by
  rw [check, argKinds_eq_map, List.length_map]
  rfl

/-- The first misfit is the first argument, or is found among the others. -/
theorem misfit?_cons (d : Directive) (directives : List Directive) (a : Argument)
    (args : List Argument) (first : Nat) :
    misfit? (d :: directives) (a :: args) first =
      if a.fits d.argKind then misfit? directives args (first + 1) else some ((d, a), first) := by
  rw [misfit?, List.zip_cons_cons, List.zipIdx_cons, List.find?_cons]
  cases h : a.fits d.argKind <;> simp [h, misfit?]

/-- **What a template takes**: as many arguments as it has directives, each of the kind that its
    directive takes. -/
theorem check_eq_ok_iff :
    t.check args = .ok () ↔
      List.Forall₂ (fun d a => a.fits d.argKind = true) t.directives args := by
  have hmisfit (directives : List Directive) (args : List Argument) (first : Nat)
      (hlength : directives.length = args.length) :
      misfit? directives args first = none ↔
        List.Forall₂ (fun d a => a.fits d.argKind = true) directives args := by
    induction directives generalizing args first with
    | nil =>
      rw [List.length_nil, eq_comm, List.length_eq_zero_iff] at hlength
      rw [hlength]
      exact ⟨fun _ => .nil, fun _ => rfl⟩
    | cons d directives ih =>
      obtain _ | ⟨a, args⟩ := args
      · cases hlength
      · -- where the search starts to count does not matter
        have ih := ih args (first + 1) (Nat.succ.inj hlength)
        rw [misfit?_cons, List.forall₂_cons]
        cases a.fits d.argKind <;> simp [ih]
  rw [check_eq]
  constructor
  · intro h
    split at h
    · cases h
    · rename_i hlength
      refine (hmisfit _ _ 0 (not_not.mp hlength)).mp ?_
      -- a check that succeeds has found no misfit
      cases hcase : misfit? t.directives args 0 with
      | none => rfl
      | some found =>
        rw [hcase] at h
        cases h
  · intro h
    rw [if_neg (not_not.mpr h.length_eq), (hmisfit _ _ 0 h.length_eq).mpr h]

/-- The same by the kinds of arguments that the template keeps. -/
theorem check_eq_ok_iff_fits :
    t.check args = .ok () ↔ List.Forall₂ (fun kind a => a.fits kind = true) t.argKinds args := by
  rw [argKinds_eq_map, List.forall₂_map_left_iff, check_eq_ok_iff]

/-- What is wrong with an argument list is the same for an alike one. -/
theorem check_congr (h : List.Forall₂ Argument.Alike args others) :
    t.check args = t.check others := by
  -- the arguments that do not fit may differ, but not their places and directives
  have hmisfit (directives : List Directive) (first : Nat) :
      (misfit? directives args first).map (fun found => (found.1.1, found.2)) =
        (misfit? directives others first).map fun found => (found.1.1, found.2) := by
    induction h generalizing directives first with
    | nil => rfl
    | cons ha _ ih =>
      cases directives with
      | nil => rfl
      | cons d directives =>
        rw [misfit?_cons, misfit?_cons, ha.fits]
        split
        · exact ih directives (first + 1)
        · rfl
  have hmisfit := hmisfit t.directives 0
  rw [check_eq, check_eq, h.length_eq]
  split
  · rfl
  · generalize misfit? t.directives args 0 = found at hmisfit ⊢
    generalize misfit? t.directives others 0 = other at hmisfit ⊢
    rcases found with _ | ⟨⟨d, a⟩, index⟩ <;> rcases other with _ | ⟨⟨e, b⟩, place⟩ <;>
      cases hmisfit <;> rfl

/-- **Alike arguments** are written as the same text. -/
theorem writeAll_congr {pieces : List Piece} (h : List.Forall₂ Argument.Alike args others)
    (hfits : List.Forall₂ (fun d a => a.fits d.argKind = true)
      (pieces.filterMap Piece.directive?) args) :
    Piece.writeAll pieces args = Piece.writeAll pieces others := by
  induction pieces generalizing args others with
  | nil => cases h <;> rfl
  | cons piece pieces ih =>
    cases piece with
    | literal text =>
      rw [Piece.writeAll, Piece.writeAll, ih h hfits]
    | directive d =>
      cases hfits with
      | cons ha hrest =>
        -- both lists are taken apart together, as each directive takes one argument
        cases h with
        | cons halike h =>
          rw [Piece.writeAll, Piece.writeAll, Directive.write_congr halike ha, ih h hrest]

/-- **Alike arguments print alike**, and are refused alike. -/
theorem write_congr (h : List.Forall₂ Argument.Alike args others) :
    t.write args = t.write others := by
  rw [write, write, check_congr h]
  cases hcheck : t.check others with
  | error error => rfl
  | ok _ =>
    rw [← check_congr h, check_eq_ok_iff] at hcheck
    rw [writeAll_congr h hcheck]

/-- A template prints all arguments that it takes. -/
theorem write_of_check (h : t.check args = .ok ()) :
    t.write args = .ok (Piece.writeAll t.pieces args) := by
  rw [write, h]
  rfl

end Template

end BinaryLog
