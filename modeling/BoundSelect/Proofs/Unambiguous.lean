import BoundSelect.Proofs.RoundTrip

/-!
# Written statements are unambiguous

Text and parameters together tell which statement was written, up to what is not written of it at
all (`Draft.query_eq_iff`). In particular sort keys, bounds, common tables and unions in the text
belong to the statement they were given to, however statements are nested: the parentheses around
arms, subqueries and groups are enough.
-/

set_option autoImplicit false

namespace BoundSelect

namespace Select

/-- Text and parameters give back the tokens of the statement. -/
theorem tokens_eq_of_query {s s' : Select} {e : Engine} (hdialect : s.dialect = e.dialect)
    (hdialect' : s'.dialect = e.dialect) (hsafe : s.Verbatim Safe) (hsafe' : s'.Verbatim Safe)
    (hsql : s.query.sql = s'.query.sql) (hparams : s.query.params = s'.query.params) :
    s.fragment.tokens = s'.fragment.tokens := by
  -- safe texts hold no sign that opens a placeholder, so every such sign stands for a parameter
  have hdollar : ∀ t : String, Safe t → Free '$' t := fun t ht => ht.free (by decide)
  have hmark : ∀ t : String, Safe t → Free '?' t := fun t ht => ht.free (by decide)
  have hsymbols := symbols_query hdialect (verbatim_mono hdollar s hsafe)
    (verbatim_mono hmark s hsafe)
  have hsymbols' := symbols_query hdialect' (verbatim_mono hdollar s' hsafe')
    (verbatim_mono hmark s' hsafe')
  rw [hsql, hparams, hsymbols'] at hsymbols
  rw [Fragment.tokens, Fragment.tokens, hsymbols]

end Select

namespace Draft

/-- Two statements that drafts make, with safe texts and for one engine, are written alike exactly
when they are the same but for the dialects stored in them, the first connective of each filter, the
columns of empty lists, whether a limit in effect is a default, and which of the common tables made
their clause recursive. -/
theorem query_eq_iff (e : Engine) {d d' : Draft} {s s' : Select} (hmake : d.make = .ok s)
    (hmake' : d'.make = .ok s') (hdialect : s.dialect = e.dialect)
    (hdialect' : s'.dialect = e.dialect) (hsafe : s.Verbatim Safe) (hsafe' : s'.Verbatim Safe) :
    (s.query.sql = s'.query.sql ∧ s.query.params = s'.query.params) ↔
      s.canonical = s'.canonical := by
  constructor
  · rintro ⟨hsql, hparams⟩
    -- equal texts and parameters give equal tokens, and these are read back as one canonical form
    have htokens := Select.tokens_eq_of_query hdialect hdialect' hsafe hsafe' hsql hparams
    have hread := Select.read_tokens (d.make_sound s hmake) hsafe
      (Nat.le_max_left (sizeOf s) (sizeOf s'))
    have hread' := Select.read_tokens (d'.make_sound s' hmake') hsafe'
      (Nat.le_max_right (sizeOf s) (sizeOf s'))
    rw [htokens, hread'] at hread
    exact (Prod.mk.inj (Option.some.inj hread)).1.symm
  · intro hcanonical
    -- a statement is written like its canonical form, whatever dialects are stored in it
    have hfragment : s.fragment = s'.fragment := by
      rw [← Select.fragment_canonical s, hcanonical, Select.fragment_canonical]
    rw [Select.query_eq, Select.query_eq, hdialect, hdialect', ← Select.values_fragment,
      ← Select.values_fragment, hfragment]
    exact ⟨rfl, rfl⟩

/-- A union whose steps bound the whole of it, or its arm. -/
def boundedUnion (onWhole onArm : List Step) : Draft :=
  .table .postgres none "a" (.filter (.equals .or "x" (.int 1)) ::
    .arm true (.table .mysql none "b" (.filter (.inList "y" [] true) :: onArm)) :: onWhole)

/-- The statement of such a union. -/
def boundedUnionSelect (whole arm : Option UInt64) : Select :=
  { Select.ofTable .postgres "a" none with
    filter := ⟨[⟨.or, .compare "x" .equal (.int 1)⟩]⟩
    arms := [⟨true, { Select.ofTable .mysql "b" none with
      filter := ⟨[⟨.and, .inList "y" [] true⟩]⟩
      limit := arm }⟩]
    limit := whole }

theorem query_ne_boundedUnion :
    (boundedUnion [.limit 9] []).make = .ok (boundedUnionSelect (some 9) none) ∧
      (boundedUnion [] [.limit 9]).make = .ok (boundedUnionSelect none (some 9)) ∧
      ¬ ((boundedUnionSelect (some 9) none).query.sql =
          (boundedUnionSelect none (some 9)).query.sql ∧
        (boundedUnionSelect (some 9) none).query.params =
          (boundedUnionSelect none (some 9)).query.params) := by
  have hsafe : ∀ whole arm, (boundedUnionSelect whole arm).Verbatim Safe := by
    have ha : Safe "a" := by decide
    have hb : Safe "b" := by decide
    have hx : Safe "x" := by decide
    intro whole arm
    simp [boundedUnionSelect, Select.ofTable, Filter.empty, Select.Verbatim, Source.Verbatim,
      CommonTable.Verbatim, Arm.Verbatim, Filter.Verbatim, Term.Verbatim, Predicate.Verbatim, ha,
      hb, hx]
  have hwhole : (boundedUnion [.limit 9] []).make = .ok (boundedUnionSelect (some 9) none) := rfl
  have harm : (boundedUnion [] [.limit 9]).make = .ok (boundedUnionSelect none (some 9)) := rfl
  refine ⟨hwhole, harm, fun hsame => ?_⟩
  have hcanonical :=
    (query_eq_iff .postgres hwhole harm rfl rfl (hsafe _ _) (hsafe _ _)).1 hsame
  -- the bounds of the whole are a part of the canonical form
  have hlimit : (some 9 : Option UInt64) = none := congrArg Select.limit hcanonical
  cases hlimit

end Draft

end BoundSelect
