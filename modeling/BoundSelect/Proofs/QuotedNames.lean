import BoundSelect.Engine

/-!
# Quoted names are read back

A database reads a quoted name character by character. A quote character opens a part; inside, a
quote character ends the part unless it is written twice, and then it stands for itself. Parts are
separated by single dots, and a part may be a bare star.

Whatever a name holds, its quoted form is read as its parts between the dots, each of them quoted
but for a lone star, and nothing of what follows is taken for a part of it (`quoteName_reads`). So
no character of a name can end its quotes early, and different names are quoted differently.
-/

set_option autoImplicit false

namespace BoundSelect

/-- The character between two of which an engine puts a name. -/
def Engine.quote : Engine → Char
  | .postgres => '"'
  | .mysql => '\x60'

namespace Text

/-! ## The reader -/

/-- A part of a name, as it is read. -/
inductive NamePart where
  | star
  | quoted (text : List Char)
  deriving DecidableEq

namespace NamePart

/-- What a part says. -/
def text : NamePart → List Char
  | .star => ['*']
  | .quoted text => text

/-- How a part is written. -/
def written (quote : Char) : NamePart → List Char
  | .star => ['*']
  | .quoted text => quote :: (double quote text ++ [quote])

/-- The part that says a text: the bare star for a star, and otherwise a quoted one. -/
def ofText (text : List Char) : NamePart :=
  if text = ['*'] then .star else .quoted text

theorem text_ofText (text : List Char) : (ofText text).text = text := by
  unfold ofText
  split
  · next h => exact h.symm
  · rfl

theorem ofText_eq_star_iff (text : List Char) : ofText text = .star ↔ text = ['*'] := by
  simp [ofText]

theorem written_ofText (quote : Char) (text : List Char) :
    (ofText text).written quote = quotePart quote text := by
  unfold ofText quotePart
  split
  · next h => exact h.symm
  · rfl

end NamePart

/-- How far the reading of a name has come. The parts in `done` are complete. -/
inductive NameReader where
  /-- A part must begin. -/
  | opening (done : List NamePart)
  /-- Inside a quoted part, of which `text` is read. -/
  | inside (done : List NamePart) (text : List Char)
  /-- Behind a quote character inside a part. -/
  | atQuote (done : List NamePart) (text : List Char)
  /-- Behind a bare star. -/
  | atStar (done : List NamePart)

namespace NameReader

/-- Takes one character, if it can be part of the name. -/
def step (quote : Char) : NameReader → Char → Option NameReader
  | .opening done, c =>
    if c = quote then some (.inside done [])
    else if c = '*' then some (.atStar done)
    else none
  | .inside done text, c =>
    if c = quote then some (.atQuote done text) else some (.inside done (text ++ [c]))
  | .atQuote done text, c =>
    -- only now it shows whether the quote character before was the first of two
    if c = quote then some (.inside done (text ++ [quote]))
    else if c = '.' then some (.opening (done ++ [.quoted text]))
    else none
  | .atStar done, c => if c = '.' then some (.opening (done ++ [.star])) else none

/-- The parts of the name, if it may end here. -/
def parts? : NameReader → Option (List NamePart)
  | .atQuote done text => some (done ++ [.quoted text])
  | .atStar done => some (done ++ [.star])
  | .opening _ | .inside .. => none

/-- Reads a name as far as it goes, and gives its parts and the text behind it. -/
def read (quote : Char) : NameReader → List Char → Option (List NamePart × List Char)
  | r, [] => r.parts?.map (·, [])
  | r, c :: cs =>
    match r.step quote c with
    | some r => r.read quote cs
    | none => r.parts?.map (·, c :: cs)

end NameReader

/-- Reads a name from the front of a text, and gives its parts and the text behind it. -/
def readName? (quote : Char) (cs : List Char) : Option (List NamePart × List Char) :=
  (NameReader.opening []).read quote cs

/-- How parts of a name are written one after the other. -/
def writtenName (quote : Char) (parts : List NamePart) : List Char :=
  ['.'].intercalate (parts.map (NamePart.written quote))

/-! ## Written parts are read -/

section

variable {quote : Char}

namespace NameReader

theorem read_cons {r t : NameReader} {c : Char} (h : r.step quote c = some t) (cs : List Char) :
    r.read quote (c :: cs) = t.read quote cs := by
  rw [read, h]

theorem step_inside_quote (done : List NamePart) (text : List Char) :
    (inside done text).step quote quote = some (.atQuote done text) := if_pos rfl

theorem step_inside_of_ne (done : List NamePart) (text : List Char) {c : Char} (hc : c ≠ quote) :
    (inside done text).step quote c = some (.inside done (text ++ [c])) := if_neg hc

theorem step_atQuote_quote (done : List NamePart) (text : List Char) :
    (atQuote done text).step quote quote = some (.inside done (text ++ [quote])) := if_pos rfl

/-- Between its quotes a text is read as it is, with two quote characters for one. -/
theorem read_double (done : List NamePart) (read text rest : List Char) :
    (inside done read).read quote (double quote text ++ rest) =
      (inside done (read ++ text)).read quote rest := by
  induction text generalizing read with
  | nil => rw [List.append_nil]; rfl
  | cons c text ih =>
      rw [double]
      by_cases hc : c = quote
      · subst hc
        rw [if_pos rfl, List.cons_append, read_cons (step_inside_quote ..), List.cons_append,
          read_cons (step_atQuote_quote ..), ih, List.append_assoc, List.singleton_append]
      · rw [if_neg hc, List.cons_append, read_cons (step_inside_of_ne _ _ hc), ih,
          List.append_assoc, List.singleton_append]

/-- The place behind a part. -/
def behind (done : List NamePart) : NamePart → NameReader
  | .star => .atStar done
  | .quoted text => .atQuote done text

theorem parts?_behind (done : List NamePart) (part : NamePart) :
    (behind done part).parts? = some (done ++ [part]) := by
  cases part <;> rfl

theorem read_written (hstar : quote ≠ '*') (done : List NamePart) (part : NamePart)
    (rest : List Char) :
    (opening done).read quote (part.written quote ++ rest) = (behind done part).read quote rest := by
  cases part with
  | star =>
      have hstep : (opening done).step quote '*' = some (.atStar done) := by
        rw [step, if_neg (Ne.symm hstar), if_pos rfl]
      exact read_cons hstep rest
  | quoted text =>
      have hopen : (opening done).step quote quote = some (.inside done []) := if_pos rfl
      rw [NamePart.written, List.cons_append, read_cons hopen, List.append_assoc, read_double,
        List.nil_append, List.singleton_append, read_cons (step_inside_quote ..)]
      rfl

theorem read_dot (hdot : quote ≠ '.') (done : List NamePart) (part : NamePart)
    (rest : List Char) :
    (behind done part).read quote ('.' :: rest) = (opening (done ++ [part])).read quote rest := by
  refine read_cons ?_ rest
  cases part with
  | star => rfl
  | quoted text => rw [behind, step, if_neg (Ne.symm hdot), if_pos rfl]

/-- A name ends before a character that neither doubles the quote nor separates two parts. -/
theorem read_end (done : List NamePart) (part : NamePart) {rest : List Char}
    (hrest : ∀ c ∈ rest.head?, c ≠ quote ∧ c ≠ '.') :
    (behind done part).read quote rest = some (done ++ [part], rest) := by
  cases rest with
  | nil => rw [read, parts?_behind]; rfl
  | cons c rest =>
      obtain ⟨hquote, hdot⟩ := hrest c rfl
      have hstop : (behind done part).step quote c = none := by
        cases part with
        | star => exact if_neg hdot
        | quoted text => rw [behind, step, if_neg hquote, if_neg hdot]
      rw [read, hstop, parts?_behind]
      rfl

/-- Parts are read one after the other. -/
theorem read_writtenName (hstar : quote ≠ '*') (hdot : quote ≠ '.') (done : List NamePart)
    {parts : List NamePart} (hparts : parts ≠ []) {rest : List Char}
    (hrest : ∀ c ∈ rest.head?, c ≠ quote ∧ c ≠ '.') :
    (opening done).read quote (writtenName quote parts ++ rest) = some (done ++ parts, rest) := by
  induction parts generalizing done with
  | nil => exact absurd rfl hparts
  | cons part parts ih =>
      cases parts with
      | nil =>
          rw [writtenName, List.map_singleton, List.intercalate_singleton, read_written hstar,
            read_end done part hrest]
      | cons next parts =>
          -- the dot behind the part leads to the next one
          have hsplit : writtenName quote (part :: next :: parts) =
              part.written quote ++ '.' :: writtenName quote (next :: parts) := by
            simp only [writtenName, List.map_cons, List.intercalate_cons_cons, List.append_assoc,
              List.singleton_append]
          rw [hsplit, List.append_assoc, read_written hstar, List.cons_append, read_dot hdot,
            ih (done ++ [part]) (List.cons_ne_nil _ _), List.append_assoc, List.singleton_append]

/-! ## What is read is written parts -/

/-- The text that has been read. -/
def seen (quote : Char) : NameReader → List Char
  | .opening done => done.flatMap fun part => part.written quote ++ ['.']
  | .inside done text =>
    (done.flatMap fun part => part.written quote ++ ['.']) ++ quote :: double quote text
  | .atQuote done text =>
    (done.flatMap fun part => part.written quote ++ ['.']) ++ (NamePart.quoted text).written quote
  | .atStar done =>
    (done.flatMap fun part => part.written quote ++ ['.']) ++ NamePart.star.written quote

theorem double_concat (text : List Char) (c : Char) :
    double quote (text ++ [c]) = double quote text ++ double quote [c] := by
  induction text with
  | nil => rfl
  | cons d text ih =>
      rw [List.cons_append, double, double, ih]
      split <;> rfl

/-- A character that is taken is seen. -/
theorem seen_step {r t : NameReader} {c : Char} (h : r.step quote c = some t) :
    t.seen quote = r.seen quote ++ [c] := by
  cases r with
  | opening done =>
      rw [step] at h
      split at h
      · next hc => cases h; simp [seen, hc, double]
      · split at h
        · next hc => cases h; simp [seen, hc, NamePart.written]
        · cases h
  | inside done text =>
      rw [step] at h
      split at h
      · next hc => cases h; simp [seen, hc, NamePart.written]
      · next hc => cases h; simp [seen, hc, double_concat, double]
  | atQuote done text =>
      rw [step] at h
      split at h
      · next hc => cases h; simp [seen, hc, NamePart.written, double_concat, double]
      · split at h
        · next hc => cases h; simp [seen, hc, NamePart.written]
        · cases h
  | atStar done =>
      rw [step] at h
      split at h
      · next hc => cases h; simp [seen, hc, NamePart.written]
      · cases h

theorem flatMap_written_append (done : List NamePart) (part : NamePart) :
    (done.flatMap fun part => part.written quote ++ ['.']) ++ part.written quote =
      writtenName quote (done ++ [part]) := by
  induction done with
  | nil => simp [writtenName]
  | cons first done ih =>
      rw [List.flatMap_cons, List.append_assoc, ih]
      cases done <;> simp [writtenName, List.intercalate_cons_cons]

/-- Where a name may end, the parts that it has are written as what has been read. -/
theorem seen_of_parts? {r : NameReader} {parts : List NamePart} (h : r.parts? = some parts) :
    r.seen quote = writtenName quote parts := by
  cases r with
  | opening done => cases h
  | inside done text => cases h
  | atQuote done text => cases h; exact flatMap_written_append ..
  | atStar done => cases h; exact flatMap_written_append ..

/-- The parts that are read are written as the text that is gone. -/
theorem seen_append_of_read {r : NameReader} {cs rest : List Char} {parts : List NamePart}
    (h : r.read quote cs = some (parts, rest)) :
    r.seen quote ++ cs = writtenName quote parts ++ rest := by
  have hend {r : NameReader} {cs : List Char}
      (h : r.parts?.map (·, cs) = some (parts, rest)) :
      r.seen quote ++ cs = writtenName quote parts ++ rest := by
    obtain ⟨found, hfound, heq⟩ := Option.map_eq_some_iff.1 h
    cases heq
    rw [seen_of_parts? hfound]
  induction cs generalizing r with
  | nil => exact hend h
  | cons c cs ih =>
      rw [read] at h
      cases hstep : r.step quote c with
      | none =>
          rw [hstep] at h
          exact hend h
      | some t =>
          rw [hstep] at h
          rw [← ih h, seen_step hstep, List.append_assoc, List.singleton_append]

end NameReader

/-- The texts that are read to their ends are the written ones. -/
theorem readName?_eq_some_iff (hstar : quote ≠ '*') (hdot : quote ≠ '.') {parts : List NamePart}
    (hparts : parts ≠ []) (cs : List Char) :
    readName? quote cs = some (parts, []) ↔ cs = writtenName quote parts := by
  constructor
  · intro h
    simpa [NameReader.seen] using NameReader.seen_append_of_read h
  · rintro rfl
    have hend : ∀ c ∈ ([] : List Char).head?, c ≠ quote ∧ c ≠ '.' := by simp
    have hread := NameReader.read_writtenName hstar hdot [] hparts hend
    rwa [List.append_nil] at hread

theorem writtenName_injective (hstar : quote ≠ '*') (hdot : quote ≠ '.')
    {parts others : List NamePart} (hparts : parts ≠ []) (hothers : others ≠ [])
    (h : writtenName quote others = writtenName quote parts) : others = parts := by
  have hread := (readName?_eq_some_iff hstar hdot hothers _).2 rfl
  rw [(readName?_eq_some_iff hstar hdot hparts _).2 h] at hread
  exact (Prod.mk.inj (Option.some.inj hread)).1.symm

end

/-! ## Quoted names -/

/-- The parts of a name: what stands between its dots. -/
def partsOf (name : List Char) : List NamePart :=
  (name.splitOn '.').map NamePart.ofText

theorem partsOf_ne_nil (name : List Char) : partsOf name ≠ [] := by
  rw [partsOf, Ne, List.map_eq_nil_iff]
  exact List.splitOn_ne_nil _ _

theorem map_text_partsOf (name : List Char) :
    (partsOf name).map NamePart.text = name.splitOn '.' := by
  simp [partsOf, Function.comp_def, NamePart.text_ofText]

/-- A name is its parts with dots between them. -/
theorem partsOf_injective {name other : List Char} (h : partsOf other = partsOf name) :
    other = name := by
  have hsplit : other.splitOn '.' = name.splitOn '.' := by
    rw [← map_text_partsOf, h, map_text_partsOf]
  calc other
      = ['.'].intercalate (other.splitOn '.') := (List.intercalate_splitOn _).symm
    _ = ['.'].intercalate (name.splitOn '.') := by rw [hsplit]
    _ = name := List.intercalate_splitOn _

/-- A name is quoted part by part. -/
theorem quoteName_eq_writtenName (quote : Char) (name : List Char) :
    quoteName quote name = writtenName quote (partsOf name) := by
  unfold quoteName writtenName partsOf
  rw [cutAt_eq_splitOnP, ← List.splitOn_eq_splitOnP, List.map_map]
  congr 1
  exact List.map_congr_left fun text _ => (NamePart.written_ofText quote text).symm

end Text

open Text

theorem Engine.quote_ne (e : Engine) : e.quote ≠ '*' ∧ e.quote ≠ '.' := by
  cases e <;> decide

theorem Engine.toList_quoteName (e : Engine) (name : String) :
    (e.dialect.quoteName name).toList = writtenName e.quote (partsOf name.toList) := by
  cases e <;>
    simp [Engine.dialect, Dialect.postgres, Dialect.mysql, Engine.quote, quoteName_eq_writtenName]

/-- Whatever a name is, the quoted form that an engine gives it is read to its end as a sequence of
parts, and is the only text that is read so. Behind it may stand anything that neither doubles the
last quote character nor goes on with a dot, and none of it is read. The parts say what stands
between the dots of the name, and a part is a bare star exactly if it says a star and nothing else.
No other name has this quoted form. -/
theorem quoteName_reads (e : Engine) (name : String) :
    ∃ parts : List NamePart,
      (∀ cs : List Char,
        readName? e.quote cs = some (parts, []) ↔ cs = (e.dialect.quoteName name).toList) ∧
      (∀ rest : List Char, (∀ c ∈ rest.head?, c ≠ e.quote ∧ c ≠ '.') →
        readName? e.quote ((e.dialect.quoteName name).toList ++ rest) = some (parts, rest)) ∧
      parts.map NamePart.text = name.toList.splitOn '.' ∧
      (∀ part ∈ parts, part = .star ↔ part.text = ['*']) ∧
      ∀ other : String, e.dialect.quoteName other = e.dialect.quoteName name → other = name := by
  obtain ⟨hstar, hdot⟩ := e.quote_ne
  have hne : partsOf name.toList ≠ [] := partsOf_ne_nil _
  refine ⟨partsOf name.toList, ?_, ?_, map_text_partsOf _, ?_, ?_⟩
  · intro cs
    rw [e.toList_quoteName]
    exact readName?_eq_some_iff hstar hdot hne cs
  · intro rest hrest
    rw [e.toList_quoteName]
    exact NameReader.read_writtenName hstar hdot [] hne hrest
  · intro part hpart
    obtain ⟨text, -, rfl⟩ := List.mem_map.1 hpart
    rw [NamePart.text_ofText, NamePart.ofText_eq_star_iff]
  · intro other hother
    have hwritten : writtenName e.quote (partsOf other.toList) =
        writtenName e.quote (partsOf name.toList) := by
      rw [← e.toList_quoteName, hother, e.toList_quoteName]
    have hparts := writtenName_injective hstar hdot hne (partsOf_ne_nil _) hwritten
    exact String.toList_inj.1 (partsOf_injective hparts)

/-- A name of quote characters, stars and dots, in front of a comparison. -/
theorem quoteName_reads_hostile :
    ∃ parts : List NamePart,
      readName? '"' ((Dialect.postgres.quoteName "\"\".*..**\"").toList ++ " = 1".toList) =
        some (parts, " = 1".toList) ∧
      parts.map NamePart.text = [['"', '"'], ['*'], [], ['*', '*', '"']] := by
  obtain ⟨parts, -, hread, htexts, -⟩ := quoteName_reads .postgres "\"\".*..**\""
  have hbehind : ∀ c ∈ " = 1".toList.head?, c ≠ '"' ∧ c ≠ '.' := by
    rintro c ⟨⟩
    decide
  refine ⟨parts, hread _ hbehind, ?_⟩
  rw [htexts]
  rfl

end BoundSelect
