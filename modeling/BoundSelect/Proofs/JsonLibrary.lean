import BoundSelect.Json.Plain
import BoundSelect.Proofs.JsonDocuments

/-!
# What a library for JSON is relied on for

A library describes by forms how values are put in JSON. `Library.Documented` says what each kind of
form stands for: which document a value is written as, and which value is read from the texts that
write a document, whatever their spaces and their escapes. Of a record it says that its fields are
found by their names in any order, that a field without a member keeps its default, and that all
other members are passed over. The plain library is one of these (`plain_documented`).
-/

set_option autoImplicit false

namespace BoundSelect.Json

/-! ## Documents as texts -/

/-- A text is a string in JSON. -/
def Quotes (text s : String) : Prop :=
  ∃ us, Says us s.toList ∧ Writes (Document.string us).tokens text.toList

/-- The members of an object have these names. -/
inductive Named : List (List StringUnit × Document) → List (String × Document) → Prop where
  | nil : Named [] []
  | cons {k : List StringUnit} {name : String} (hk : Says k name.toList) (d : Document)
      {ms : List (List StringUnit × Document)} {members : List (String × Document)}
      (h : Named ms members) : Named ((k, d) :: ms) ((name, d) :: members)

/-- The digits of a word. -/
def wordDocument (n : UInt64) : Document :=
  .numeral ⟨false, Nat.toDigits 10 n.toNat, [], none⟩

/-! ## What forms stand for -/

namespace Library

variable (library : Library) {α : Type}

/-- A value is written as a document. -/
def Shows (form : library.Form α) (a : α) (d : Document) : Prop :=
  Writes d.tokens (library.write form a).toList

/-- A value is read from all texts that write a document. -/
def Gives (form : library.Form α) (d : Document) (a : α) : Prop :=
  ∀ text : String, Writes d.tokens text.toList → library.read? form text = some a

/-- The fields of a record are written as these members. -/
inductive ShowsFields (a : α) :
    List (Field library.Form α) → List (String × Document) → Prop where
  | nil : ShowsFields a [] []
  | cons (field : Field library.Form α) {d : Document}
      (hd : library.Shows field.form (field.get a) d) {fields : List (Field library.Form α)}
      {members : List (String × Document)} (h : ShowsFields a fields members) :
      ShowsFields a (field :: fields) ((field.name, d) :: members)

/-- What the members of an object make of a record: each field is that of its one member, if it has
one, and is left as it was otherwise. A member of a field is a single token here. -/
inductive Fills (members : List (String × Document)) :
    List (Field library.Form α) → α → α → Prop where
  | nil (a : α) : Fills members [] a a
  | missing {field : Field library.Form α} (hnone : Document.valuesOf field.name members = [])
      {fields : List (Field library.Form α)} {a b : α} (h : Fills members fields a b) :
      Fills members (field :: fields) a b
  | given {field : Field library.Form α} {d : Document} {t : Token} {x : field.Value}
      (hone : Document.valuesOf field.name members = [d]) (ht : d.tokens = [t])
      (hx : library.Gives field.form d x) {fields : List (Field library.Form α)} {a b : α}
      (h : Fills members fields (field.put a x) b) : Fills members (field :: fields) a b

end Library

/-- The forms of a library stand for what they are made from. -/
structure Library.Documented (library : Library) : Prop where
  word_shows : ∀ n : UInt64, library.Shows library.word n (wordDocument n)
  word_gives : ∀ n : UInt64, library.Gives library.word (wordDocument n) n
  optional_shows_none : ∀ {α : Type} (form : library.Form α),
    library.Shows (library.optional form) none .null
  optional_shows_some : ∀ {α : Type} (form : library.Form α) (a : α) (d : Document),
    library.Shows form a d → library.Shows (library.optional form) (some a) d
  optional_gives_none : ∀ {α : Type} (form : library.Form α),
    library.Gives (library.optional form) .null none
  optional_gives_some : ∀ {α : Type} (form : library.Form α) (a : α) (d : Document),
    d ≠ .null → library.Gives form d a → library.Gives (library.optional form) d (some a)
  oneOf_shows : ∀ {α : Type} (values : List α) (name : α → String) (aliases : α → List String),
    ∀ a ∈ values, Quotes (library.write (library.oneOf values name aliases) a) (name a)
  oneOf_reads : ∀ {α : Type} (values : List α) (name : α → String) (aliases : α → List String)
    (text s : String), Quotes text s → library.read? (library.oneOf values name aliases) text =
      values.find? fun a => s = name a ∨ s ∈ aliases a
  record_shows : ∀ {α : Type} (dflt : α) (fields : List (Field library.Form α)) (a : α)
    (members : List (String × Document)), library.ShowsFields a fields members →
    ∃ ms, Named ms members ∧ library.Shows (library.record dflt fields) a (.object ms)
  record_gives : ∀ {α : Type} (dflt : α) (fields : List (Field library.Form α)) (a : α)
    (ms : List (List StringUnit × Document)) (members : List (String × Document)),
    (fields.map Field.name).Nodup → Named ms members → library.Fills members fields dflt a →
    library.Gives (library.record dflt fields) (.object ms) a

/-! ## Written tokens -/

theorem Writes.spaces {ts : List Token} {cs gap : List Char} (h : Writes ts cs)
    (hgap : ∀ c ∈ gap, isSpace c = true) : Writes ts (gap ++ cs) := by
  induction gap with
  | nil => exact h
  | cons c gap ih =>
      obtain ⟨hc, hgap⟩ := List.forall_mem_cons.1 hgap
      exact (ih hgap).space hc

theorem Writes.append {ts us : List Token} {cs ds : List Char} (hts : Writes ts cs)
    (hus : Writes us ds) : Writes (ts ++ us) (cs ++ ds) := by
  induction hts with
  | nil hgap => exact hus.spaces hgap
  | cons hgap ht _ ih =>
      rw [List.append_assoc, List.append_assoc]
      exact .cons hgap ht ih

theorem Writes.exists_written {ts : List Token} {cs : List Char} {t : Token} (h : Writes ts cs)
    (ht : t ∈ ts) : ∃ ds, t.Written ds := by
  induction h with
  | nil => cases ht
  | cons _ hu _ ih =>
      rcases List.mem_cons.1 ht with rfl | ht
      · exact ⟨_, hu⟩
      · exact ih ht

/-- A token by itself. -/
theorem Token.Written.writes {t : Token} {cs : List Char} (h : t.Written cs) : Writes [t] cs := by
  have hend : Writes [] [] := .nil (by simp)
  have hwrites := hend.token h
  rwa [List.append_nil] at hwrites

theorem Document.tokens_subset_memberTokens {k : List StringUnit} {d : Document}
    {ms : List (List StringUnit × Document)} (h : (k, d) ∈ ms) :
    ∀ t ∈ d.tokens, t ∈ memberTokens ms := by
  induction ms with
  | nil => cases h
  | cons m ms ih =>
      intro t ht
      rw [memberTokens]
      rcases List.mem_cons.1 h with rfl | h
      · simp [ht]
      · simp [ih h t ht]

/-- What the members of an object hold is written where the object is. -/
theorem Document.tokens_subset_tokens {k : List StringUnit} {d : Document}
    {ms : List (List StringUnit × Document)} (h : (k, d) ∈ ms) :
    ∀ t ∈ d.tokens, t ∈ (object ms).tokens := by
  cases ms with
  | nil => cases h
  | cons m ms =>
      intro t ht
      rw [tokens]
      rcases List.mem_cons.1 h with rfl | h
      · simp [ht]
      · simp [tokens_subset_memberTokens h t ht]

/-! ## The plain library -/

section

variable {α : Type} {form : PlainForm α} {a : α} {d : Document}

theorem plain_shows_iff : plain.Shows form a d ↔ Writes d.tokens (form.json a).text := by
  change Writes d.tokens (String.ofList (form.json a).text).toList ↔ _
  rw [String.toList_ofList]

theorem plain_read?_of_writes {text : String} (h : Writes d.tokens text.toList) :
    plain.read? form text = form.ofDocument? d := by
  change (Document.ofText? text.toList).bind form.ofDocument? = form.ofDocument? d
  rw [Document.ofText?_of_writes h]
  rfl

theorem plain_gives (h : form.ofDocument? d = some a) : plain.Gives form d a := fun _ hwrites =>
  (plain_read?_of_writes hwrites).trans h

/-- Reading is about documents that can be written at all. -/
theorem ofDocument?_of_gives {text : String} (h : plain.Gives form d a)
    (hwrites : Writes d.tokens text.toList) : form.ofDocument? d = some a :=
  (plain_read?_of_writes hwrites).symm.trans (h text hwrites)

/-- The digits of a word are read as this word, also those of the largest one. -/
theorem word_ofDocument? (n : UInt64) : PlainForm.word.ofDocument? (wordDocument n) = some n := by
  have hdigits : natOfDigits (Nat.toDigits 10 n.toNat) = n.toNat := Nat.ofDigitChars_ten_toDigits
  have hfits : n.toNat ≤ wordMax := Nat.le_sub_one_of_lt n.toNat_lt_size
  simp only [wordDocument, PlainForm.word]
  rw [hdigits, if_pos hfits, UInt64.ofNat_toNat]

theorem writes_string (s : String) :
    Writes (Document.string (pieces s)).tokens (Json.string s).text :=
  (written_stringText s).writes

/-! ### Records -/

theorem namedMembers?_of_named {ms : List (List StringUnit × Document)}
    {members : List (String × Document)} (h : Named ms members) :
    PlainForm.namedMembers? ms = some members := by
  induction h with
  | nil => rfl
  | cons hk d _ ih =>
      rw [PlainForm.namedMembers?, stringOf?_of_says hk, ih]
      rfl

theorem Named.exists_mem {ms : List (List StringUnit × Document)}
    {members : List (String × Document)} (h : Named ms members) {name : String}
    (hd : (name, d) ∈ members) : ∃ k, (k, d) ∈ ms := by
  induction h with
  | nil => cases hd
  | @cons k _ _ e _ _ _ ih =>
      rcases List.mem_cons.1 hd with heq | hd
      · cases heq
        exact ⟨k, List.mem_cons_self⟩
      · obtain ⟨l, hl⟩ := ih hd
        exact ⟨l, List.mem_cons_of_mem _ hl⟩

theorem Document.mem_of_valuesOf {name : String} {members : List (String × Document)}
    (h : valuesOf name members = [d]) : (name, d) ∈ members := by
  have hd : d ∈ valuesOf name members := h ▸ List.mem_singleton_self d
  obtain ⟨m, hm, rfl⟩ := List.mem_map.1 hd
  obtain ⟨hm, hname⟩ := List.mem_filter.1 hm
  rwa [← of_decide_eq_true hname]

/-- The fields are set as it is said of them, if what their members hold can be written. -/
theorem fill_of_fills {members : List (String × Document)} {fields : List (Field plain.Form α)}
    {b : α} (hwritten : ∀ name d t, (name, d) ∈ members → d.tokens = [t] → ∃ cs, t.Written cs)
    (h : plain.Fills members fields a b) : PlainForm.fill members fields a = some b := by
  induction h with
  | nil a => rfl
  | missing hnone _ ih =>
      rw [PlainForm.fill, hnone]
      exact ih
  | @given field d t x hone ht hx _ _ _ _ ih =>
      obtain ⟨cs, hcs⟩ := hwritten _ d t (Document.mem_of_valuesOf hone) ht
      have hwrites : Writes d.tokens (String.ofList cs).toList := by
        rw [ht, String.toList_ofList]
        exact hcs.writes
      have hread : field.form.ofDocument? d = some x := ofDocument?_of_gives hx hwrites
      rw [PlainForm.fill, hone]
      simp only [hread, Option.bind_some]
      exact ih

/-- The text of the members after the first one, and the end of the object. -/
def laterMembersText (members : List (String × Json)) : List Char :=
  members.flatMap (fun m => ',' :: (stringText m.1 ++ ':' :: m.2.text)) ++ ['}']

theorem membersText_cons (k : String) (x : Json) (members : List (String × Json)) :
    membersText ((k, x) :: members) ++ ['}'] =
      stringText k ++ ':' :: (x.text ++ laterMembersText members) := by
  induction members generalizing k x with
  | nil => simp [membersText, laterMembersText]
  | cons m members ih =>
      obtain ⟨l, y⟩ := m
      have hrest := ih l y
      simp only [membersText, List.append_assoc, List.cons_append] at hrest ⊢
      rw [hrest]
      simp [laterMembersText]

/-- The members of a record in JSON. -/
def jsonMembers (a : α) (fields : List (Field PlainForm α)) : List (String × Json) :=
  fields.map fun field => (field.name, field.form.json (field.get a))

theorem exists_writes_later {fields : List (Field plain.Form α)}
    {members : List (String × Document)} (h : plain.ShowsFields a fields members) :
    ∃ ms, Named ms members ∧
      Writes (Document.memberTokens ms) (laterMembersText (jsonMembers a fields)) := by
  induction h with
  | nil => exact ⟨[], .nil, Token.Written.writes .closeBrace⟩
  | @cons field d hd fields members _ ih =>
      obtain ⟨ms, hnamed, hwrites⟩ := ih
      refine ⟨(pieces field.name, d) :: ms, .cons (says_pieces _) d hnamed, ?_⟩
      have hvalue := (plain_shows_iff.1 hd).append hwrites
      have hmember := ((hvalue.token .colon).token (written_stringText field.name)).token .comma
      simpa [Document.memberTokens, laterMembersText, jsonMembers] using hmember

theorem exists_writes_record {fields : List (Field plain.Form α)}
    {members : List (String × Document)} (h : plain.ShowsFields a fields members) :
    ∃ ms, Named ms members ∧
      Writes (Document.object ms).tokens (Json.object (jsonMembers a fields)).text := by
  cases h with
  | nil =>
      refine ⟨[], .nil, ?_⟩
      exact (Token.Written.writes .closeBrace).token .openBrace
  | @cons field d hd fields members hfields =>
      obtain ⟨ms, hnamed, hwrites⟩ := exists_writes_later hfields
      refine ⟨(pieces field.name, d) :: ms, .cons (says_pieces _) d hnamed, ?_⟩
      have hvalue := (plain_shows_iff.1 hd).append hwrites
      have hname := (hvalue.token .colon).token (written_stringText field.name)
      rw [text, jsonMembers, List.map_cons, membersText_cons]
      simpa [Document.tokens, jsonMembers] using hname.token .openBrace

end

theorem plain_documented : plain.Documented where
  word_shows n := plain_shows_iff.2 (Token.Written.numeral (written_toDigits n.toNat)).writes
  word_gives n := plain_gives (word_ofDocument? n)
  optional_shows_none _ := plain_shows_iff.2 (Token.Written.writes .null)
  optional_shows_some _ _ _ h := h
  optional_gives_none _ := plain_gives rfl
  optional_gives_some := by
    intro α form a d hd h text hwrites
    have hread := ofDocument?_of_gives h hwrites
    refine plain_gives ?_ text hwrites
    change (PlainForm.optional form).ofDocument? d = some (some a)
    cases d with
    | null => exact absurd rfl hd
    | _ => simp only [PlainForm.optional, hread, Option.map_some]
  oneOf_shows values name aliases a _ :=
    ⟨pieces (name a), says_pieces (name a), plain_shows_iff.2 (writes_string (name a))⟩
  oneOf_reads := by
    rintro α values name aliases text s ⟨us, hus, hwrites⟩
    have hs : stringOf? us = some s := stringOf?_of_says hus
    have hread : plain.read? (plain.oneOf values name aliases) text =
        (stringOf? us).bind (PlainForm.find? values name aliases) := plain_read?_of_writes hwrites
    rw [hread, hs]
    rfl
  record_shows _ _ _ _ h := by
    obtain ⟨ms, hnamed, hwrites⟩ := exists_writes_record h
    exact ⟨ms, hnamed, plain_shows_iff.2 hwrites⟩
  record_gives := by
    intro α dflt fields a ms members _ hnamed h text hwrites
    have hwritten : ∀ name d t, (name, d) ∈ members → d.tokens = [t] → ∃ cs, t.Written cs := by
      intro name d t hd ht
      obtain ⟨k, hk⟩ := hnamed.exists_mem hd
      have htoken : t ∈ d.tokens := ht ▸ List.mem_singleton_self t
      exact hwrites.exists_written (Document.tokens_subset_tokens hk t htoken)
    refine plain_gives ?_ text hwrites
    change (PlainForm.namedMembers? ms).bind (fun members => PlainForm.fill members fields dflt) = _
    rw [namedMembers?_of_named hnamed]
    exact fill_of_fills hwritten h

end BoundSelect.Json
