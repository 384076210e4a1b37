import BoundSelect.Engine
import BoundSelect.Select.Clauses

/-!
# Settings

What statements start from: an engine, whose dialect they are written in, and a limit for those that
set none. Settings are put in JSON as a record of the two.
-/

set_option autoImplicit false

namespace BoundSelect

/-- Defaults for statements. -/
structure Settings where
  engine : Engine := default
  defaultLimit : Option UInt64 := none
  deriving DecidableEq

namespace Settings

/-- All columns and rows of a table, with these defaults. -/
def table (settings : Settings) (name : String) : Select :=
  Select.ofTable settings.engine.dialect name settings.defaultLimit

/-! ## Settings in JSON -/

/-- The fields of settings in JSON. -/
def fields (library : Json.Library) : List (Json.Field library.Form Settings) :=
  [{ name := "dialect"
     form := Engine.form library
     get := Settings.engine
     put := fun settings engine => { settings with engine } },
   { name := "default_limit"
     form := library.optional library.word
     get := Settings.defaultLimit
     put := fun settings defaultLimit => { settings with defaultLimit } }]

/-- How settings are put in JSON: what is left out takes its default. -/
def form (library : Json.Library) : library.Form Settings :=
  library.record {} (fields library)

/-- The text of settings in JSON. -/
def jsonText (library : Json.Library) (s : Settings) : String :=
  library.write (form library) s

/-- The settings that a JSON text gives. -/
def ofJsonText? (library : Json.Library) (text : String) : Option Settings :=
  library.read? (form library) text

end Settings

end BoundSelect
