import BoundSelect.Text.Blank

/-!
# Quoted names

A name with dots in it, such as a column of a table of a schema, is quoted part by part. Within a
part the quote character is written twice, so that it cannot end the part, and a part that is only
a star stands for all columns and stays bare.
-/

set_option autoImplicit false

namespace BoundSelect.Text

/-- A text with every quote character in it written twice. -/
def double (quote : Char) : List Char → List Char
  | [] => []
  | c :: cs => if c = quote then quote :: quote :: double quote cs else c :: double quote cs

/-- One part of a name between quote characters; a lone star stays bare. -/
def quotePart (quote : Char) (part : List Char) : List Char :=
  if part = ['*'] then part else quote :: (double quote part ++ [quote])

/-- A name whose parts between the dots are quoted one by one. -/
def quoteName (quote : Char) (name : List Char) : List Char :=
  ['.'].intercalate ((cutAt (· == '.') name).map (quotePart quote))

end BoundSelect.Text
