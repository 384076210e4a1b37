import BoundSelect.Bindings

/-!
# Fragments

A fragment is a stretch of a statement before anything in it is numbered: pieces of text, and values
at the places where their placeholders will stand. Writing a fragment into bindings appends its
values to them and gives its text, in which every value has become the placeholder of the number it
was bound with.

`write_eq` gives the text and the bindings of a written fragment directly, and `write_append` says
that fragments are written one after the other.
-/

set_option autoImplicit false

namespace BoundSelect

/-- A piece of a fragment. -/
inductive Piece where
  | text (s : String)
  | value (v : Value)

/-- A stretch of a statement with its values in place. -/
abbrev Fragment := List Piece

namespace Fragment

/-- The values of a fragment, in the order of their places. -/
def values (f : Fragment) : List Value :=
  f.filterMap fun
    | .text _ => none
    | .value v => some v

/-- The text of a fragment when `bound` values are bound before it. -/
def spell (placeholder : Nat → String) (bound : Nat) : Fragment → String
  | [] => ""
  | .text s :: f => s ++ spell placeholder bound f
  | .value _ :: f => placeholder (bound + 1) ++ spell placeholder (bound + 1) f

/-- Fragments one after the other with a text between two of them. -/
def join (separator : String) : List Fragment → Fragment
  | [] => []
  | [f] => f
  | f :: fs => f ++ .text separator :: join separator fs

@[simp] theorem values_nil : values [] = [] := rfl

@[simp] theorem values_text (s : String) (f : Fragment) : values (.text s :: f) = values f := rfl

@[simp] theorem values_value (v : Value) (f : Fragment) :
    values (.value v :: f) = v :: values f := rfl

@[simp] theorem values_append (f g : Fragment) : values (f ++ g) = values f ++ values g :=
  List.filterMap_append

/-- The text of the second of two fragments counts on from the values of the first. -/
theorem spell_append (placeholder : Nat → String) (bound : Nat) (f g : Fragment) :
    spell placeholder bound (f ++ g) =
      spell placeholder bound f ++ spell placeholder (bound + (values f).length) g := by
  induction f generalizing bound with
  | nil => simp [spell]
  | cons p f ih =>
    cases p with
    | text s => simp [spell, ih, String.append_assoc]
    | value v => simp [spell, ih, String.append_assoc, Nat.add_assoc, Nat.add_comm 1]

end Fragment

namespace Bindings

/-- Writes a fragment: every value is bound where its placeholder is written. -/
def write (b : Bindings) : Fragment → String × Bindings
  | [] => ("", b)
  | .text s :: f =>
    let (t, b) := b.write f
    (s ++ t, b)
  | .value v :: f =>
    let (token, b) := b.bind v
    let (t, b) := b.write f
    (token ++ t, b)

/-- Writing appends the values of the fragment and numbers its placeholders from there. -/
theorem write_eq (b : Bindings) (f : Fragment) :
    b.write f = (f.spell b.dialect.placeholder b.values.length,
      { b with values := b.values ++ f.values }) := by
  induction f generalizing b with
  | nil => simp [write, Fragment.spell]
  | cons p f ih =>
    cases p with
    | text s => simp [write, Fragment.spell, ih]
    | value v => simp [write, bind, Fragment.spell, ih]

/-- Two fragments are written one after the other. -/
theorem write_append (b : Bindings) (f g : Fragment) :
    b.write (f ++ g) =
      ((b.write f).1 ++ ((b.write f).2.write g).1, ((b.write f).2.write g).2) := by
  simp [write_eq, Fragment.spell_append]

end Bindings

end BoundSelect
