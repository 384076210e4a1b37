import BoundSelect.Engine
import BoundSelect.Proofs.JsonLibrary

/-!
# Names of engines

An engine can be named in two ways: in JSON by a string, which has to be one of its names exactly,
and by a text, which may have blanks around it and letters in either case. Each way has its own list
of names. The lists agree, so a text names the engine that JSON names by what is left of the text
without the blanks and in lower case, and a text that leaves no such name is given back in the fault
(`Engine.parse_agrees`).
-/

set_option autoImplicit false

namespace BoundSelect

/-! ## Blanks at the ends -/

namespace Text

/-- A text is another one with blanks around it, and that one has no blanks at its ends. -/
inductive Trims : List Char → List Char → Prop where
  | mk {front core back : List Char} (hfront : ∀ c ∈ front, isBlank c = true)
      (hback : ∀ c ∈ back, isBlank c = true) (hhead : ∀ c ∈ core.head?, isBlank c = false)
      (hlast : ∀ c ∈ core.getLast?, isBlank c = false) : Trims (front ++ (core ++ back)) core

theorem Trims.trim_eq {cs core : List Char} (h : Trims cs core) : trim cs = core := by
  cases h with
  | @mk front core back hfront hback hhead hlast =>
      cases core with
      | nil =>
          have hall : ∀ c ∈ front ++ back, isBlank c = true :=
            List.forall_mem_append.2 ⟨hfront, hback⟩
          rw [List.nil_append, trim, ← List.append_nil (front ++ back),
            dropWhile_append_stop hall (by simp)]
          rfl
      | cons c core =>
          have hback' : ∀ d ∈ back.reverse, isBlank d = true := by simpa using hback
          have hlast' : ∀ d ∈ (c :: core).reverse.head?, isBlank d = false := by
            rwa [List.head?_reverse]
          have hhead' : ∀ d ∈ (c :: core ++ back).head?, isBlank d = false := hhead
          rw [trim, dropWhile_append_stop hfront hhead', List.reverse_append,
            dropWhile_append_stop hback' hlast', List.reverse_reverse]

theorem isBlank_head?_dropWhile (cs : List Char) :
    ∀ c ∈ (cs.dropWhile isBlank).head?, isBlank c = false := by
  intro c hc
  have hstop := List.head?_dropWhile_not isBlank cs
  rw [Option.mem_def.1 hc] at hstop
  exact hstop

theorem trims_trim (cs : List Char) : Trims cs (trim cs) := by
  -- the blanks at the end are the first ones from behind
  have hend : trim cs ++ ((cs.dropWhile isBlank).reverse.takeWhile isBlank).reverse =
      cs.dropWhile isBlank := by
    rw [trim, ← List.reverse_append, List.takeWhile_append_dropWhile, List.reverse_reverse]
  have hfront : ∀ c ∈ cs.takeWhile isBlank, isBlank c = true := fun c hc =>
    List.all_eq_true.1 List.all_takeWhile c hc
  have hback : ∀ c ∈ ((cs.dropWhile isBlank).reverse.takeWhile isBlank).reverse,
      isBlank c = true := fun c hc =>
    List.all_eq_true.1 List.all_takeWhile c (List.mem_reverse.1 hc)
  have hhead : ∀ c ∈ (trim cs).head?, isBlank c = false := by
    intro c hc
    refine isBlank_head?_dropWhile cs c ?_
    rw [← hend]
    exact List.mem_head?_append_of_mem_head? hc
  have hlast : ∀ c ∈ (trim cs).getLast?, isBlank c = false := by
    rw [trim, List.getLast?_reverse]
    exact isBlank_head?_dropWhile _
  have htrims := Trims.mk hfront hback hhead hlast
  rwa [hend, List.takeWhile_append_dropWhile] at htrims

theorem trims_iff {cs core : List Char} : Trims cs core ↔ core = trim cs := by
  constructor
  · intro h
    exact h.trim_eq.symm
  · rintro rfl
    exact trims_trim cs

end Text

namespace Json

/-- A text in JSON. -/
def quoted (s : String) : String :=
  String.ofList (Json.string s).text

theorem quotes_quoted (s : String) : Quotes (quoted s) s := by
  refine ⟨pieces s, says_pieces s, ?_⟩
  rw [quoted, String.toList_ofList]
  exact writes_string s

end Json

namespace Engine

/-! ## The two lists -/

theorem mem_aliases {s : String} {e : Engine} (h : s ∈ e.aliases) :
    e = .postgres ∧ (s = "postgresql" ∨ s = "pg") ∨ e = .mysql ∧ s = "mariadb" := by
  cases e <;> simpa [aliases] using h

/-- The engine that has exactly this name in JSON. -/
def ofSpelling? (s : String) : Option Engine :=
  all.find? fun e => s = e.jsonName ∨ s ∈ e.aliases

theorem jsonName_eq_name (e : Engine) : e.jsonName = e.name := by
  cases e <;> rfl

theorem ofSpelling?_eq_some_iff {s : String} {e : Engine} :
    ofSpelling? s = some e ↔ s = e.name ∨ s ∈ e.aliases := by
  constructor
  · intro h
    simpa [jsonName_eq_name] using List.find?_some h
  · rintro (rfl | h)
    · cases e <;> decide
    · rcases mem_aliases h with ⟨rfl, rfl | rfl⟩ | ⟨rfl, rfl⟩ <;> decide

/-- The names in lower case are those that JSON knows. -/
theorem ofLowerName?_eq_ofSpelling? (s : String) : ofLowerName? s = ofSpelling? s := by
  unfold ofLowerName?
  split
  case h_6 hpostgres hpostgresql hpg hmysql hmariadb =>
    rw [eq_comm, Option.eq_none_iff_forall_ne_some]
    intro e he
    rcases ofSpelling?_eq_some_iff.1 he with rfl | halias
    · cases e with
      | postgres => exact hpostgres rfl
      | mysql => exact hmysql rfl
    · rcases mem_aliases halias with ⟨-, hs⟩ | ⟨-, hs⟩
      · exact hs.elim hpostgresql hpg
      · exact hmariadb hs
  all_goals rfl

/-- The names of engines are in lower case and have no blanks at their ends. -/
theorem lowered_of_ofSpelling? {s : String} {e : Engine} (h : ofSpelling? s = some e) :
    Text.trim s.toList = s.toList ∧ s.toList.map Char.toLower = s.toList := by
  rcases ofSpelling?_eq_some_iff.1 h with rfl | halias
  · cases e <;> decide
  · rcases mem_aliases halias with ⟨-, rfl | rfl⟩ | ⟨-, rfl⟩ <;> decide

section

variable {library : Json.Library}

/-- A string in JSON names the engine that is spelt so. -/
theorem ofJsonText?_of_quotes (hlibrary : library.Documented) {text s : String}
    (h : Json.Quotes text s) : ofJsonText? library text = ofSpelling? s :=
  hlibrary.oneOf_reads all jsonName aliases text s h

theorem ofJsonText?_jsonText (hlibrary : library.Documented) (e : Engine) :
    ofJsonText? library (e.jsonText library) = some e := by
  have hmem : e ∈ all := by cases e <;> decide
  have hquotes := hlibrary.oneOf_shows all jsonName aliases e hmem
  rw [jsonName_eq_name] at hquotes
  exact (ofJsonText?_of_quotes hlibrary hquotes).trans (ofSpelling?_eq_some_iff.2 (.inl rfl))

end

/-! ## Names as texts -/

theorem parse_eq_ok_iff {s : String} {e : Engine} :
    parse s = .ok e ↔
      ofSpelling? (String.ofList ((Text.trim s.toList).map Char.toLower)) = some e := by
  rw [parse, ofLowerName?_eq_ofSpelling?]
  cases ofSpelling? (String.ofList ((Text.trim s.toList).map Char.toLower)) <;> simp

/-- Blanks around a text and the case of its letters make no difference. -/
theorem parse_respelled {s front back : String} {e : Engine}
    (hname : s.toList.map Char.toLower = e.name.toList)
    (hfront : ∀ c ∈ front.toList, Text.isBlank c = true)
    (hback : ∀ c ∈ back.toList, Text.isBlank c = true) : parse (front ++ s ++ back) = .ok e := by
  have hvisible : ∀ c ∈ s.toList, Text.isBlank c = false := by
    intro c hc
    have hall : e.name.toList.all (!Text.isBlank ·) = true := by cases e <;> decide
    have hlower : c.toLower ∈ e.name.toList := hname ▸ List.mem_map_of_mem hc
    simpa [Text.isBlank_toLower] using List.all_eq_true.1 hall _ hlower
  have htrim : Text.trim (front ++ s ++ back).toList = s.toList := by
    rw [String.toList_append, String.toList_append, List.append_assoc]
    refine (Text.Trims.mk hfront hback ?_ ?_).trim_eq
    · exact fun c hc => hvisible c (List.mem_of_mem_head? hc)
    · exact fun c hc => hvisible c (List.mem_of_mem_getLast? hc)
  rw [parse_eq_ok_iff, htrim, hname, String.ofList_toList, ofSpelling?_eq_some_iff]
  exact .inl rfl

/-- A text names an engine exactly if the string of what is left of it without the blanks at its
ends and in lower case names this engine in JSON; any other text is given back in the fault. So what
JSON takes for a name is one as a text too, and the name of an engine leads back to it both in JSON,
as it is written or quoted, and as a text, with blanks around it and in any case. -/
theorem parse_agrees {library : Json.Library} (hlibrary : library.Documented) (s : String) :
    ∃ core : List Char, (∀ cs : List Char, Text.Trims s.toList cs ↔ cs = core) ∧
      (∀ e : Engine, parse s = .ok e ↔
        ofJsonText? library (Json.quoted (String.ofList (core.map Char.toLower))) = some e) ∧
      ((∀ e : Engine,
          ofJsonText? library (Json.quoted (String.ofList (core.map Char.toLower))) ≠ some e) →
        parse s = .error (.unknownDialect s)) ∧
      (∀ e : Engine, ofJsonText? library (Json.quoted s) = some e → parse s = .ok e) ∧
      ∀ e : Engine, ofJsonText? library (e.jsonText library) = some e ∧
        ofJsonText? library (Json.quoted e.name) = some e ∧
        ∀ front name back : String, s = front ++ name ++ back →
          (∀ c ∈ front.toList, Text.isBlank c = true) →
          (∀ c ∈ back.toList, Text.isBlank c = true) →
          name.toList.map Char.toLower = e.name.toList → parse s = .ok e := by
  have hread : ∀ t : String, ofJsonText? library (Json.quoted t) = ofSpelling? t := fun t =>
    ofJsonText?_of_quotes hlibrary (Json.quotes_quoted t)
  simp only [hread]
  refine ⟨Text.trim s.toList, fun cs => Text.trims_iff, fun e => parse_eq_ok_iff, ?_, ?_, ?_⟩
  · intro hnone
    rw [parse, ofLowerName?_eq_ofSpelling?, Option.eq_none_iff_forall_ne_some.2 hnone]
  · intro e he
    obtain ⟨htrim, hlower⟩ := lowered_of_ofSpelling? he
    rw [parse_eq_ok_iff, htrim, hlower, String.ofList_toList, he]
  · intro e
    refine ⟨ofJsonText?_jsonText hlibrary e, ofSpelling?_eq_some_iff.2 (.inl rfl), ?_⟩
    rintro front name back rfl hfront hback hname
    exact parse_respelled hname hfront hback

/-- A name in capitals between blanks, one that JSON takes, and one that neither takes. -/
theorem parse_agrees_in_capitals :
    Json.plain.Documented ∧ parse "\t MySQL\u2003" = .ok .mysql ∧
      ofJsonText? Json.plain (Json.quoted "mysql") = some .mysql ∧
      parse "pg" = .ok .postgres ∧ parse "Oracle " = .error (.unknownDialect "Oracle ") := by
  have hlibrary := Json.plain_documented
  obtain ⟨core, htrims, hnamed, -, -, hshown⟩ := parse_agrees hlibrary "\t MySQL\u2003"
  obtain rfl : "MySQL".toList = core := (htrims _).1 (Text.trims_iff.2 (by decide))
  have hmysql : parse "\t MySQL\u2003" = .ok .mysql :=
    (hshown .mysql).2.2 "\t " "MySQL" "\u2003" rfl
      (List.all_eq_true.1 (by decide : "\t ".toList.all Text.isBlank = true))
      (List.all_eq_true.1 (by decide : "\u2003".toList.all Text.isBlank = true)) (by decide)
  obtain ⟨-, -, -, -, hexact, -⟩ := parse_agrees hlibrary "pg"
  obtain ⟨core, htrims, -, hunknown, -, -⟩ := parse_agrees hlibrary "Oracle "
  obtain rfl : "Oracle".toList = core := (htrims _).1 (Text.trims_iff.2 (by decide))
  have hread : ∀ t : String, ofJsonText? Json.plain (Json.quoted t) = ofSpelling? t := fun t =>
    ofJsonText?_of_quotes hlibrary (Json.quotes_quoted t)
  refine ⟨hlibrary, hmysql, (hnamed .mysql).1 hmysql, hexact .postgres ?_, hunknown fun e => ?_⟩
  · rw [hread]
    decide
  · rw [hread]
    cases e <;> decide

end Engine

end BoundSelect
