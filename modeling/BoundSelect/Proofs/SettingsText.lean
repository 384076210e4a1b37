import BoundSelect.Query
import BoundSelect.Settings
import BoundSelect.Proofs.EngineNames

/-!
# Settings as texts

Settings are written as an object with two members. The settings are read back from it, and from any
object that it can be turned into without a change of what it says: with its members in another
order, with further members of other names, with a default left out, or with another name for the
engine, and all of it written with any spaces (`Settings.ofJsonText?_reads_back`). This holds for
every library whose forms stand for what they are made from.

What a field is read as depends only on the members of its name (`Settles`), and every such change
of an object keeps this.
-/

set_option autoImplicit false

namespace BoundSelect.Settings

open Json

/-! ## Objects that say the same -/

/-- The document of a limit. -/
def limitDocument : Option UInt64 → Document
  | none => .null
  | some n => wordDocument n

/-- The members of the object that settings are written as. -/
inductive Printed (s : Settings) : List (String × Document) → Prop where
  | mk {u : List StringUnit} (hu : Says u s.engine.name.toList) :
      Printed s [("dialect", .string u), ("default_limit", limitDocument s.defaultLimit)]

/-- Engines with the further names that they go by. -/
def furtherNames : List (Engine × String) :=
  [(.postgres, "postgresql"), (.postgres, "pg"), (.mysql, "mariadb")]

/-- Objects that the written one can be turned into: by another order of the members, by members of
other names, which may hold anything, by leaving out what has its default, and by another name for
the engine. -/
inductive Variant (s : Settings) : List (String × Document) → Prop where
  | printed {ms : List (String × Document)} (h : Printed s ms) : Variant s ms
  | reordered {ms ns : List (String × Document)} (h : Variant s ms) (hperm : ms.Perm ns) :
      Variant s ns
  | extended {ms : List (String × Document)} (h : Variant s ms) {name : String}
      (hengine : name ≠ "dialect") (hlimit : name ≠ "default_limit") (d : Document) :
      Variant s ((name, d) :: ms)
  | withoutEngine {d : Document} {ms : List (String × Document)}
      (h : Variant s (("dialect", d) :: ms)) (hs : s.engine = .postgres) : Variant s ms
  | withoutLimit {d : Document} {ms : List (String × Document)}
      (h : Variant s (("default_limit", d) :: ms)) (hs : s.defaultLimit = none) : Variant s ms
  | renamed {d : Document} {ms : List (String × Document)} (h : Variant s (("dialect", d) :: ms))
      {name : String} (hname : (s.engine, name) ∈ furtherNames) {u : List StringUnit}
      (hu : Says u name.toList) : Variant s (("dialect", .string u) :: ms)

/-! ## What a field is read as -/

/-- What a field is read as, if its members hold these documents: there may be one at most, and a
default stands for none. -/
def Settles {α : Type} (gives : Document → α → Prop) (dflt a : α) : List Document → Prop
  | [] => dflt = a
  | [d] => (∃ t, d.tokens = [t]) ∧ gives d a
  | _ => False

section Settles

variable {α : Type} {gives : Document → α → Prop} {dflt a : α} {d : Document} {ds : List Document}

theorem Settles.eq_nil (h : Settles gives dflt a (d :: ds)) : ds = [] := by
  cases ds with
  | nil => rfl
  | cons e ds => exact h.elim

/-- At most one member of a name leaves no choice of their order. -/
theorem Settles.perm {es : List Document} (h : Settles gives dflt a ds) (hperm : ds.Perm es) :
    Settles gives dflt a es := by
  cases ds with
  | nil => rwa [hperm.nil_eq] at h
  | cons d ds =>
      cases h.eq_nil
      rwa [← List.singleton_perm.1 hperm]

end Settles

theorem valuesOf_cons_self (name : String) (d : Document) (ms : List (String × Document)) :
    Document.valuesOf name ((name, d) :: ms) = d :: Document.valuesOf name ms := by
  simp [Document.valuesOf]

theorem valuesOf_cons_other {name other : String} (hne : other ≠ name) (d : Document)
    (ms : List (String × Document)) :
    Document.valuesOf name ((other, d) :: ms) = Document.valuesOf name ms := by
  simp [Document.valuesOf, hne]

theorem valuesOf_perm (name : String) {ms ns : List (String × Document)} (h : ms.Perm ns) :
    (Document.valuesOf name ms).Perm (Document.valuesOf name ns) :=
  (h.filter _).map _

section

variable {library : Json.Library}

theorem fills_of_settles {R : Type} {field : Field library.Form R}
    {members : List (String × Document)} {dflt x : field.Value}
    (h : Settles (library.Gives field.form) dflt x (Document.valuesOf field.name members))
    {fields : List (Field library.Form R)} {a b : R} (hdflt : field.put a dflt = a)
    (hrest : library.Fills members fields (field.put a x) b) :
    library.Fills members (field :: fields) a b := by
  match hvalues : Document.valuesOf field.name members with
  | [] =>
      rw [hvalues] at h
      cases h
      rw [hdflt] at hrest
      exact .missing hvalues hrest
  | [d] =>
      rw [hvalues] at h
      obtain ⟨⟨t, ht⟩, hx⟩ := h
      exact .given hvalues ht hx hrest
  | d :: e :: ds =>
      rw [hvalues] at h
      exact h.elim

/-- Members complete the defaults to settings: both fields settle. -/
structure Completes (library : Json.Library) (members : List (String × Document)) (s : Settings) :
    Prop where
  engine : Settles (library.Gives (Engine.form library)) .postgres s.engine
    (Document.valuesOf "dialect" members)
  limit : Settles (library.Gives (library.optional library.word)) none s.defaultLimit
    (Document.valuesOf "default_limit" members)

variable {s : Settings} {members : List (String × Document)}
  {ms : List (List StringUnit × Document)} {d : Document}

theorem completes_cons_engine : Completes library (("dialect", d) :: members) s ↔
    Settles (library.Gives (Engine.form library)) .postgres s.engine
        (d :: Document.valuesOf "dialect" members) ∧
      Settles (library.Gives (library.optional library.word)) none s.defaultLimit
        (Document.valuesOf "default_limit" members) := by
  rw [← valuesOf_cons_self, ← valuesOf_cons_other (by decide : "dialect" ≠ "default_limit") d]
  exact ⟨fun h => ⟨h.engine, h.limit⟩, fun h => ⟨h.1, h.2⟩⟩

theorem completes_cons_limit : Completes library (("default_limit", d) :: members) s ↔
    Settles (library.Gives (Engine.form library)) .postgres s.engine
        (Document.valuesOf "dialect" members) ∧
      Settles (library.Gives (library.optional library.word)) none s.defaultLimit
        (d :: Document.valuesOf "default_limit" members) := by
  rw [← valuesOf_cons_self, ← valuesOf_cons_other (by decide : "default_limit" ≠ "dialect") d]
  exact ⟨fun h => ⟨h.engine, h.limit⟩, fun h => ⟨h.1, h.2⟩⟩

theorem completes_cons_other {name : String} (hengine : name ≠ "dialect")
    (hlimit : name ≠ "default_limit") (h : Completes library members s) :
    Completes library ((name, d) :: members) s := by
  constructor
  · rw [valuesOf_cons_other hengine]
    exact h.engine
  · rw [valuesOf_cons_other hlimit]
    exact h.limit

/-- Members that complete the defaults to settings are read as these settings. -/
theorem Completes.gives (hlibrary : library.Documented) (h : Completes library members s)
    (hnamed : Named ms members) : library.Gives (form library) (.object ms) s := by
  have hfills : library.Fills members (fields library) {} s :=
    fills_of_settles h.engine rfl (fills_of_settles h.limit rfl (.nil s))
  have hnames : ((fields library).map Field.name).Nodup := by
    change ["dialect", "default_limit"].Nodup
    decide
  exact hlibrary.record_gives {} (fields library) s ms members hnames hnamed hfills

/-! ## Variants are read -/

theorem settles_limitDocument (hlibrary : library.Documented) (l : Option UInt64) :
    Settles (library.Gives (library.optional library.word)) none l [limitDocument l] := by
  cases l with
  | none => exact ⟨⟨_, rfl⟩, hlibrary.optional_gives_none _⟩
  | some n =>
      refine ⟨⟨_, rfl⟩, hlibrary.optional_gives_some _ _ _ nofun (hlibrary.word_gives n)⟩

theorem settles_name (hlibrary : library.Documented) {u : List StringUnit} {name : String}
    {e dflt : Engine} (hu : Says u name.toList) (hname : name = e.name ∨ name ∈ e.aliases) :
    Settles (library.Gives (Engine.form library)) dflt e [.string u] := by
  refine ⟨⟨_, rfl⟩, fun text hwrites => ?_⟩
  exact (Engine.ofJsonText?_of_quotes hlibrary ⟨u, hu, hwrites⟩).trans
    (Engine.ofSpelling?_eq_some_iff.2 hname)

theorem mem_aliases_of_furtherNames {e : Engine} {name : String} (h : (e, name) ∈ furtherNames) :
    name ∈ e.aliases := by
  simp only [furtherNames, List.mem_cons, List.not_mem_nil, or_false, Prod.mk.injEq] at h
  rcases h with ⟨rfl, rfl⟩ | ⟨rfl, rfl⟩ | ⟨rfl, rfl⟩ <;> decide

/-- Whatever the written object is turned into, its members complete the defaults to the
settings. -/
theorem Variant.completes (hlibrary : library.Documented) (h : s.Variant members) :
    Completes library members s := by
  induction h with
  | printed h =>
      obtain ⟨hu⟩ := h
      refine completes_cons_engine.2 ⟨settles_name hlibrary hu (.inl rfl), ?_⟩
      exact settles_limitDocument hlibrary s.defaultLimit
  | reordered _ hperm ih =>
      exact ⟨ih.engine.perm (valuesOf_perm _ hperm), ih.limit.perm (valuesOf_perm _ hperm)⟩
  | extended _ hengine hlimit d ih => exact completes_cons_other hengine hlimit ih
  | withoutEngine _ hs ih =>
      obtain ⟨hengine, hlimit⟩ := completes_cons_engine.1 ih
      refine ⟨?_, hlimit⟩
      rw [hengine.eq_nil]
      exact hs.symm
  | withoutLimit _ hs ih =>
      obtain ⟨hengine, hlimit⟩ := completes_cons_limit.1 ih
      refine ⟨hengine, ?_⟩
      rw [hlimit.eq_nil]
      exact hs.symm
  | renamed _ hname hu ih =>
      obtain ⟨hengine, hlimit⟩ := completes_cons_engine.1 ih
      refine completes_cons_engine.2 ⟨?_, hlimit⟩
      rw [hengine.eq_nil]
      exact settles_name hlibrary hu (.inr (mem_aliases_of_furtherNames hname))

/-! ## Settings are written -/

theorem shows_limitDocument (hlibrary : library.Documented) (l : Option UInt64) :
    library.Shows (library.optional library.word) l (limitDocument l) := by
  cases l with
  | none => exact hlibrary.optional_shows_none _
  | some n => exact hlibrary.optional_shows_some _ _ _ (hlibrary.word_shows n)

theorem exists_printed (hlibrary : library.Documented) (s : Settings) :
    ∃ members ms, s.Printed members ∧ Named ms members ∧
      library.Shows (form library) s (.object ms) := by
  have hmem : s.engine ∈ Engine.all := by cases s.engine <;> decide
  obtain ⟨u, hu, hengine⟩ :=
    hlibrary.oneOf_shows Engine.all Engine.jsonName Engine.aliases s.engine hmem
  rw [Engine.jsonName_eq_name] at hu
  have hfields : library.ShowsFields s (fields library)
      [("dialect", .string u), ("default_limit", limitDocument s.defaultLimit)] := by
    refine .cons _ ?_ (.cons _ ?_ .nil)
    · exact hengine
    · exact shows_limitDocument hlibrary s.defaultLimit
  obtain ⟨ms, hnamed, hshows⟩ := hlibrary.record_shows {} (fields library) s _ hfields
  exact ⟨_, ms, .mk hu, hnamed, hshows⟩

/-! ## Texts of settings -/

/-- Settings are read back from the text that they are written as, and from every text that writes a
variant of the written object, with any spaces between its tokens and any escapes in its strings.
Statements that start from what is read are built as those that start from the settings. -/
theorem ofJsonText?_reads_back (hlibrary : library.Documented) (s : Settings) :
    (∃ members ms, s.Printed members ∧ Named ms members ∧
        Writes (Document.object ms).tokens (s.jsonText library).toList) ∧
      ofJsonText? library (s.jsonText library) = some s ∧
      ∀ (members : List (String × Document)) (ms : List (List StringUnit × Document))
        (text : String), s.Variant members → Named ms members →
        Writes (Document.object ms).tokens text.toList →
        ∃ r, ofJsonText? library text = some r ∧ r = s ∧
          ∀ name : String, (r.table name).build = (s.table name).build := by
  have hread : ∀ (members : List (String × Document)) (ms : List (List StringUnit × Document))
      (text : String), s.Variant members → Named ms members →
      Writes (Document.object ms).tokens text.toList → ofJsonText? library text = some s :=
    fun members ms text hvariant hnamed => (hvariant.completes hlibrary).gives hlibrary hnamed text
  obtain ⟨members, ms, hprinted, hnamed, hwrites⟩ := exists_printed hlibrary s
  refine ⟨⟨members, ms, hprinted, hnamed, hwrites⟩, ?_, ?_⟩
  · exact hread members ms _ (.printed hprinted) hnamed hwrites
  · intro members ms text hvariant hnamed hwrites
    exact ⟨s, hread members ms text hvariant hnamed hwrites, rfl, fun _ => rfl⟩

end

/-- The largest limit, in front of a member of another name and of a further name of the engine. -/
theorem ofJsonText?_reads_back_largest :
    plain.Documented ∧ ofJsonText? plain
        "\x7b\"default_limit\":18446744073709551615 ,\"x\":[[]], \"dialect\" :\"mariadb\"\x7d" =
      some ⟨.mysql, some 18446744073709551615⟩ := by
  have hprinted : Printed ⟨.mysql, some 18446744073709551615⟩ _ := .mk (says_pieces "mysql")
  have hrenamed := (Variant.printed hprinted).renamed (by decide) (says_pieces "mariadb")
  have hextended := hrenamed.extended (by decide : "x" ≠ "dialect") (by decide)
    (.array [.array []])
  have hvariant := hextended.reordered (@List.perm_append_comm _ [_, _] [_])
  have hnamed : Named _ _ := .cons (says_pieces "default_limit")
    (limitDocument (some 18446744073709551615)) (.cons (says_pieces "x") (.array [.array []])
      (.cons (says_pieces "dialect") (.string (pieces "mariadb")) .nil))
  -- the text from its end to its start
  have hblank : isSpace ' ' = true := rfl
  have hend : Writes [.closeBrace] ['}'] := Token.Written.writes .closeBrace
  have hengine := (((hend.token (written_stringText "mariadb")).token .colon).space hblank).token
    (written_stringText "dialect")
  have hitems := ((((hengine.space hblank).token .comma).token .closeBracket).token
    .closeBracket).token .openBracket
  have hother := ((hitems.token .openBracket).token .colon).token (written_stringText "x")
  have hlimit := ((hother.token .comma).space hblank).token
    (.numeral (written_toDigits (UInt64.toNat 18446744073709551615)))
  have hwrites := ((hlimit.token .colon).token (written_stringText "default_limit")).token
    .openBrace
  obtain ⟨-, -, hread⟩ :=
    ofJsonText?_reads_back plain_documented ⟨.mysql, some 18446744073709551615⟩
  have hresult := hread _ _
    "\x7b\"default_limit\":18446744073709551615 ,\"x\":[[]], \"dialect\" :\"mariadb\"\x7d"
    hvariant hnamed
  simp only [List.cons_append, List.nil_append, Document.tokens, Document.itemTokens,
    Document.memberTokens, limitDocument, wordDocument] at hresult
  obtain ⟨r, hr, rfl, -⟩ := hresult hwrites
  exact ⟨plain_documented, hr⟩

end BoundSelect.Settings
