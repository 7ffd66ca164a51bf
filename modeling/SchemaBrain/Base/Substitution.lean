import SchemaBrain.Base.Regex

/-!
# Substitution

`pattern.sub`: the matches of a pattern, leftmost first, are replaced. A replacement between
brackets that no match contains leaves nothing to match.
-/

namespace SchemaBrain.Base

namespace Regex

/-- `pattern.sub`, with the characters of a match that are still to be skipped; for a pattern that
does not match the empty text. -/
def subFrom (pattern : Regex) (replacement : List Char) : Option Char → Nat → List Char → List Char
  | _, _, [] => []
  | _, skip + 1, c :: rest => subFrom pattern replacement (some c) skip rest
  | before, 0, c :: rest =>
    match pattern.ends ⟨before, c :: rest⟩ with
    | [] => c :: subFrom pattern replacement (some c) 0 rest
    | next :: _ =>
      replacement ++ subFrom pattern replacement (some c) (rest.length - next.rest.length) rest

/-- `pattern.sub(replacement, text)`. -/
def sub (pattern : Regex) (replacement text : String) : String :=
  String.ofList (pattern.subFrom replacement.toList none 0 text.toList)

/-- No match starts in a text. -/
def NoMatch (pattern : Regex) (before : Option Char) (text : List Char) : Prop :=
  ∀ done left, text = done ++ left → pattern.ends ⟨done.getLast?.or before, left⟩ = []

variable {pattern : Regex} {replacement : List Char} {before : Option Char} {text : List Char}

theorem noMatch_nil : pattern.NoMatch before [] ↔ pattern.ends ⟨before, []⟩ = [] := by
  constructor
  · exact fun h => h [] [] rfl
  · rintro h done left hsplit
    obtain ⟨rfl, rfl⟩ := List.append_eq_nil_iff.1 hsplit.symm
    exact h

private theorem getLast?_cons_or (c : Char) (text : List Char) (before : Option Char) :
    (c :: text).getLast?.or before = text.getLast?.or (some c) := by
  rw [List.getLast?_cons]
  cases text.getLast? <;> rfl

theorem noMatch_cons {c : Char} : pattern.NoMatch before (c :: text) ↔
    pattern.ends ⟨before, c :: text⟩ = [] ∧ pattern.NoMatch (some c) text := by
  constructor
  · intro h
    refine ⟨h [] _ rfl, fun done left hsplit => ?_⟩
    rw [← getLast?_cons_or c done before]
    exact h (c :: done) left (by rw [hsplit, List.cons_append])
  · rintro ⟨hfirst, hrest⟩ done left hsplit
    cases done with
    | nil =>
      obtain rfl : c :: text = left := hsplit
      exact hfirst
    | cons c' done =>
      obtain ⟨rfl, rfl⟩ := List.cons.inj hsplit
      rw [getLast?_cons_or]
      exact hrest done left rfl

/-- The search finds nothing exactly where no match starts. -/
theorem searchFrom_eq_false :
    pattern.searchFrom before text = false ↔ pattern.NoMatch before text := by
  induction text generalizing before with
  | nil => simp [searchFrom, noMatch_nil]
  | cons c text ih => simp [searchFrom, noMatch_cons, ih]

/-- A character that no match starts with stays. -/
theorem subFrom_cons {c : Char} (h : pattern.ends ⟨before, c :: text⟩ = []) :
    pattern.subFrom replacement before 0 (c :: text) =
      c :: pattern.subFrom replacement (some c) 0 text := by
  rw [subFrom, h]

/-- Without a match nothing is replaced. -/
theorem subFrom_of_noMatch (h : pattern.NoMatch before text) :
    pattern.subFrom replacement before 0 text = text := by
  induction text generalizing before with
  | nil => rfl
  | cons c text ih =>
    obtain ⟨hfirst, hrest⟩ := noMatch_cons.1 h
    rw [subFrom_cons hfirst, ih hrest]

theorem subFrom_skip (skipped rest : List Char) :
    pattern.subFrom replacement before skipped.length (skipped ++ rest) =
      pattern.subFrom replacement (skipped.getLast?.or before) 0 rest := by
  induction skipped generalizing before with
  | nil => rfl
  | cons c skipped ih =>
    rw [List.length_cons, List.cons_append, subFrom, ih, getLast?_cons_or]

/-! ## Guarded patterns -/

/-- A pattern whose matches are the texts of a language that stand between characters that are
not guards. Where there are guards, the texts begin and end with them. -/
structure Guarded (pattern : Regex) (language : List Char → Prop) (guard : Char → Bool) :
    Prop where
  mem_ends : ∀ place next, next ∈ pattern.ends place ↔ ∃ text, language text ∧
    place.Passes text next ∧ (∀ c ∈ place.before, guard c = false) ∧
      ∀ c ∈ next.rest.head?, guard c = false
  ne_nil : ∀ text, language text → text ≠ []
  edges : (∀ c, guard c = false) ∨ ∀ text, language text →
    (∀ c ∈ text.head?, guard c = true) ∧ ∀ c ∈ text.getLast?, guard c = true

/-- A replacement in brackets that are neither guards nor in a text of the language, nor is all of
such a text between them. -/
structure Brackets (opening closing : Char) (inside : List Char) (language : List Char → Prop)
    (guard : Char → Bool) : Prop where
  opening_free : ∀ text, language text → opening ∉ text
  closing_free : ∀ text, language text → closing ∉ text
  inside_free : ∀ text, language text → ∃ c ∈ text, c ∉ inside
  opening_guard : guard opening = false
  closing_guard : guard closing = false

/-- A pattern between lookarounds: no guard stands before it and none behind it. -/
def between (guard : Char → Bool) (core : Regex) : Regex :=
  seq (look fun place => !place.before.any guard)
    (seq core (look fun place => !place.rest.head?.any guard))

theorem guarded_of_solid {class' : Char → Bool} (hsolid : pattern.Solid)
    (hleads : pattern.Leads class') : pattern.Guarded pattern.Accepts fun _ => false where
  mem_ends place next := by simp [mem_ends_iff hsolid]
  ne_nil _ := hleads.ne_nil
  edges := .inl fun _ => rfl

theorem guarded_between {core : Regex} {guard : Char → Bool} (hsolid : core.Solid)
    (hleads : core.Leads guard) (htrails : core.Trails guard) :
    (between guard core).Guarded core.Accepts guard where
  mem_ends place next := by
    have hany : ∀ c : Option Char, (!c.any guard) = true ↔ ∀ c' ∈ c, guard c' = false := by
      intro c
      cases c <;> simp
    rw [between, ends, ends]
    split
    next hbefore =>
      simp only [List.flatMap_singleton, ends, List.mem_flatMap, List.mem_ite_nil_right,
        List.mem_singleton, mem_ends_iff hsolid]
      constructor
      · rintro ⟨_, ⟨text, htext, hpasses⟩, hbehind, rfl⟩
        exact ⟨text, htext, hpasses, (hany _).1 hbefore, (hany _).1 hbehind⟩
      · rintro ⟨text, htext, hpasses, -, hbehind⟩
        exact ⟨next, ⟨text, htext, hpasses⟩, (hany _).2 hbehind, rfl⟩
    next hbefore =>
      rw [hany] at hbefore
      simp only [List.flatMap_nil, List.not_mem_nil, false_iff]
      rintro ⟨text, -, -, hnone, -⟩
      exact hbefore hnone
  ne_nil _ := hleads.ne_nil
  edges := by
    refine .inr fun text htext => ⟨?_, ?_⟩
    · obtain ⟨c, rest, rfl, hc⟩ := hleads text htext
      simpa using hc
    · obtain ⟨c, front, rfl, hc⟩ := htrails text htext
      simpa using hc

/-- Lookarounds see nothing of a text that begins without a guard. -/
theorem isLocal_between {core : Regex} {guard : Char → Bool} (hsolid : core.Solid) {c : Char}
    (hc : guard c = false) (rest : List Char) : (between guard core).Local (c :: rest) := by
  refine ⟨fun place => rfl, hsolid.isLocal _, fun place => ?_⟩
  obtain ⟨before, left⟩ := place
  cases left <;> simp [Place.extend, hc]

section Guarded

variable {language : List Char → Prop} {guard : Char → Bool}
  (hpattern : pattern.Guarded language guard)
include hpattern

/-- A match is replaced, and the rest goes on behind it. -/
theorem Guarded.subFrom_match {c : Char} {rest : List Char} {next : Place} {others : List Place}
    (hends : pattern.ends ⟨before, c :: rest⟩ = next :: others) :
    pattern.subFrom replacement before 0 (c :: rest) =
      replacement ++ pattern.subFrom replacement next.before 0 next.rest := by
  obtain ⟨matched, hmatched, ⟨hsplit, hbefore⟩, -⟩ :=
    (hpattern.mem_ends _ next).1 (hends ▸ List.mem_cons_self)
  cases matched with
  | nil => exact absurd rfl (hpattern.ne_nil _ hmatched)
  | cons c' matched =>
    obtain rfl : c = c' := (List.cons.inj hsplit).1
    have hrest : rest = matched ++ next.rest := (List.cons.inj hsplit).2
    have hskip : rest.length - next.rest.length = matched.length := by
      rw [hrest, List.length_append, Nat.add_sub_cancel]
    rw [subFrom, hends]
    dsimp only
    rw [hskip, hrest, subFrom_skip, hbefore, getLast?_cons_or]

/-- What stands at the front of the result up to a bracket stands at the front of the text; behind
it the text goes on as the result does, or with a match. -/
theorem Guarded.of_subFrom_eq_append {opening : Char} {inside front back : List Char}
    (h : pattern.subFrom (opening :: inside) before 0 text = front ++ back)
    (hfront : opening ∉ front) :
    ∃ left, text = front ++ left ∧ (back.head? = left.head? ∨
      back.head? = some opening ∧ pattern.ends ⟨front.getLast?.or before, left⟩ ≠ []) := by
  induction text generalizing before front with
  | nil =>
    obtain ⟨rfl, rfl⟩ := List.append_eq_nil_iff.1 h.symm
    exact ⟨[], rfl, .inl rfl⟩
  | cons c rest ih =>
    cases hends : pattern.ends ⟨before, c :: rest⟩ with
    | cons next others =>
      rw [hpattern.subFrom_match hends] at h
      cases front with
      | nil =>
        refine ⟨c :: rest, rfl, .inr ⟨?_, by simp [hends]⟩⟩
        rw [List.nil_append] at h
        rw [← h]
        rfl
      | cons c' front =>
        obtain ⟨rfl, -⟩ := List.cons.inj h
        exact absurd List.mem_cons_self hfront
    | nil =>
      rw [subFrom_cons hends] at h
      cases front with
      | nil =>
        refine ⟨c :: rest, rfl, .inl ?_⟩
        rw [List.nil_append] at h
        rw [← h]
        rfl
      | cons c' front =>
        obtain ⟨rfl, hrest⟩ := List.cons.inj h
        obtain ⟨left, hrest, hback⟩ := ih hrest fun hmem => hfront (List.mem_cons_of_mem _ hmem)
        rw [getLast?_cons_or]
        exact ⟨left, by rw [hrest, List.cons_append], hback⟩

/-- A text without some character of each match has no match. -/
theorem Guarded.noMatch (h : ∀ matched, language matched → ∃ c ∈ matched, c ∉ text) :
    pattern.NoMatch before text := by
  intro done left hsplit
  refine List.eq_nil_iff_forall_not_mem.2 fun next hnext => ?_
  obtain ⟨matched, hmatched, ⟨hrest, -⟩, -⟩ := (hpattern.mem_ends _ next).1 hnext
  obtain ⟨c, hc, hfree⟩ := h matched hmatched
  dsimp only at hrest
  exact hfree (by rw [hsplit, hrest]; simp [hc])

/-- What stands first stays first, or a match is replaced there. -/
theorem Guarded.head?_subFrom (before : Option Char) (opening c : Char) (inside rest : List Char) :
    (pattern.subFrom (opening :: inside) before 0 (c :: rest)).head? = some c ∨
      (pattern.subFrom (opening :: inside) before 0 (c :: rest)).head? = some opening := by
  cases hends : pattern.ends ⟨before, c :: rest⟩ with
  | nil =>
    rw [subFrom_cons hends]
    exact .inl rfl
  | cons next others =>
    rw [hpattern.subFrom_match hends]
    exact .inr rfl

/-- A text is replaced apart from the text behind it, if no match goes from the one into the
other. -/
theorem Guarded.subFrom_append {tail : List Char} (hlocal : pattern.Local tail)
    (hcross : ∀ done left, text = done ++ left → left ≠ [] →
      ∀ next ∈ pattern.ends ⟨done.getLast?.or before, left ++ tail⟩,
        tail.length ≤ next.rest.length) :
    pattern.subFrom replacement before 0 (text ++ tail) =
      pattern.subFrom replacement before 0 text ++
        pattern.subFrom replacement (text.getLast?.or before) 0 tail := by
  induction hn : text.length using Nat.strongRecOn generalizing text before with
  | ind n ih =>
    cases text with
    | nil => rfl
    | cons c rest =>
      have hextend : (pattern.ends ⟨before, c :: rest⟩).map (·.extend tail) =
          pattern.ends ⟨before, c :: rest ++ tail⟩ := by
        rw [endsBefore_ends hlocal ⟨before, c :: rest⟩]
        refine List.filter_eq_self.2 fun next hnext => decide_eq_true ?_
        exact hcross [] (c :: rest) rfl (List.cons_ne_nil c rest) next hnext
      cases hends : pattern.ends ⟨before, c :: rest⟩ with
      | nil =>
        rw [hends, List.map_nil, List.cons_append] at hextend
        rw [List.cons_append, subFrom_cons hextend.symm, subFrom_cons hends, getLast?_cons_or,
          List.cons_append]
        refine congrArg (c :: ·) (ih rest.length (by rw [← hn, List.length_cons]; omega)
          (fun done left hsplit hleft => ?_) rfl)
        have h := hcross (c :: done) left (by rw [hsplit, List.cons_append]) hleft
        rwa [getLast?_cons_or] at h
      | cons next others =>
        obtain ⟨matched, hmatched, ⟨hrest, hlast⟩, -⟩ :=
          (hpattern.mem_ends _ next).1 (hends ▸ List.mem_cons_self)
        dsimp only at hrest hlast
        rw [hends, List.map_cons, List.cons_append] at hextend
        rw [List.cons_append, hpattern.subFrom_match hextend.symm, hpattern.subFrom_match hends,
          hrest, getLast?_append_or, ← hlast, List.append_assoc]
        refine congrArg (replacement ++ ·) (ih next.rest.length ?_
          (fun done left hsplit hleft => ?_) rfl)
        · have hpos := List.length_pos_iff.2 (hpattern.ne_nil _ hmatched)
          rw [← hn, hrest, List.length_append]
          omega
        · have h := hcross (matched ++ done) left (by rw [hrest, hsplit, List.append_assoc]) hleft
          rwa [getLast?_append_or, ← hlast] at h

/-- A character that is in no match ends the matches before it. -/
theorem Guarded.subFrom_append_cons {c : Char} {rest : List Char}
    (hlocal : pattern.Local (c :: rest)) (hc : ∀ text, language text → c ∉ text) :
    pattern.subFrom replacement before 0 (text ++ c :: rest) =
      pattern.subFrom replacement before 0 text ++
        pattern.subFrom replacement (text.getLast?.or before) 0 (c :: rest) := by
  refine hpattern.subFrom_append hlocal fun done left _ _ next hnext => ?_
  obtain ⟨matched, hmatched, ⟨hsplit, -⟩, -⟩ := (hpattern.mem_ends _ next).1 hnext
  rcases List.append_eq_append_iff.1 hsplit with ⟨more, rfl, hmore⟩ | ⟨more, -, hmore⟩
  · cases more with
    | nil => exact Nat.le_of_eq (congrArg List.length hmore)
    | cons c' more =>
      obtain ⟨rfl, -⟩ := List.cons.inj hmore
      exact absurd (by simp) (hc _ hmatched)
  · rw [hmore, List.length_append]
    exact Nat.le_add_left _ _

end Guarded

section NoMatch

variable {other : Regex} {languageP languageQ : List Char → Prop} {guardP guardQ : Char → Bool}
  {opening closing : Char} {inside : List Char} {before' : Option Char}

/-- What stands before a character and does not contain it. -/
private theorem subset_of_append_eq {front back done left : List Char} {c : Char}
    (h : done ++ c :: left = front ++ back) (hc : c ∉ front) : front ⊆ done := by
  rcases List.append_eq_append_iff.1 h with ⟨more, rfl, hmore⟩ | ⟨more, rfl, -⟩
  · cases more with
    | nil => simp
    | cons c' more =>
      obtain ⟨rfl, -⟩ := List.cons.inj hmore
      exact absurd (by simp) hc
  · exact List.subset_append_left front more

/-- No match starts in a replacement, if none starts behind it. -/
private theorem noMatch_brackets (hother : other.Guarded languageQ guardQ)
    (hbrackets : Brackets opening closing inside languageQ guardQ)
    (h : other.NoMatch (some closing) text) {done : List Char} (hdone : done ⊆ opening :: inside) :
    other.NoMatch before (done ++ closing :: text) := by
  have hnone : ∀ before, ∀ front : List Char, front ⊆ opening :: inside →
      other.ends ⟨before, front ++ closing :: text⟩ = [] := by
    intro before front hfront
    refine List.eq_nil_iff_forall_not_mem.2 fun next hnext => ?_
    obtain ⟨matched, hmatched, ⟨hsplit, -⟩, -⟩ := (hother.mem_ends _ _).1 hnext
    obtain ⟨c, hc, hinside⟩ := hbrackets.inside_free matched hmatched
    have hmem := hfront (subset_of_append_eq hsplit (hbrackets.closing_free _ hmatched) hc)
    rcases List.mem_cons.1 hmem with rfl | hmem
    · exact hbrackets.opening_free _ hmatched hc
    · exact hinside hmem
  induction done generalizing before with
  | nil => exact noMatch_cons.2 ⟨hnone before [] (by simp), h⟩
  | cons c done ih =>
    obtain ⟨-, hrest⟩ := List.cons_subset.1 hdone
    exact noMatch_cons.2 ⟨hnone before (c :: done) hdone, ih hrest⟩

/-- What a language matches at the front of the result, where the pattern does not match, it also
matches at the front of the text. -/
private theorem Guarded.matched_left (hpattern : pattern.Guarded languageP guardP)
    (hother : other.Guarded languageQ guardQ)
    (hguards : (∀ c, guardQ c = false) ∨ guardP = guardQ)
    (hbrackets : Brackets opening closing inside languageQ guardQ) {c : Char}
    {rest matched back replacement : List Char} (hends : pattern.ends ⟨before, c :: rest⟩ = [])
    (hmatched : languageQ matched)
    (hsplit : c :: pattern.subFrom (opening :: replacement) (some c) 0 rest = matched ++ back)
    (hback : ∀ c ∈ back.head?, guardQ c = false) :
    ∃ left, c :: rest = matched ++ left ∧ ∀ c ∈ left.head?, guardQ c = false := by
  rw [← subFrom_cons hends] at hsplit
  obtain ⟨left, hleft, hhead⟩ :=
    hpattern.of_subFrom_eq_append hsplit (hbrackets.opening_free _ hmatched)
  refine ⟨left, hleft, ?_⟩
  rcases hhead with hhead | ⟨-, hnext⟩
  · rwa [hhead] at hback
  -- The match of the pattern behind it begins behind no guard.
  rcases hguards with hnone | rfl
  · exact fun c _ => hnone c
  rcases hother.edges with hnone | hedges
  · exact fun c _ => hnone c
  obtain ⟨next, hmem⟩ := List.exists_mem_of_ne_nil _ hnext
  obtain ⟨-, -, -, hguardBefore, -⟩ := (hpattern.mem_ends _ _).1 hmem
  obtain ⟨last, hlast⟩ := Option.ne_none_iff_exists'.1
    (mt List.getLast?_eq_none_iff.1 (hother.ne_nil _ hmatched))
  have hguard := hguardBefore last (by rw [hlast]; rfl)
  rw [(hedges _ hmatched).2 last hlast] at hguard
  exact absurd hguard (by simp)

/-- Where no match of a pattern stands between the matches that are replaced, none stands in the
result: neither across a bracket nor next to one. -/
private theorem noMatch_subFrom (hpattern : pattern.Guarded languageP guardP)
    (hother : other.Guarded languageQ guardQ)
    (hguards : (∀ c, guardQ c = false) ∨ guardP = guardQ)
    (hbrackets : Brackets opening closing inside languageQ guardQ)
    (hgap : ∀ done left, text = done ++ left →
      pattern.ends ⟨done.getLast?.or before, left⟩ = [] →
        other.ends ⟨done.getLast?.or before, left⟩ = [])
    (hbefore : ∀ front left, text = front ++ left → languageQ front →
      (∀ c ∈ before', guardQ c = false) → ∀ c ∈ before, guardQ c = false) :
    other.NoMatch before'
      (pattern.subFrom (opening :: inside ++ [closing]) before 0 text) := by
  induction hn : text.length using Nat.strongRecOn generalizing text before before' with
  | ind n ih =>
    cases text with
    | nil =>
      refine noMatch_nil.2 (List.eq_nil_iff_forall_not_mem.2 fun next hnext => ?_)
      obtain ⟨matched, hmatched, ⟨hsplit, -⟩, -⟩ := (hother.mem_ends _ _).1 hnext
      exact hother.ne_nil _ hmatched (List.append_eq_nil_iff.1 hsplit.symm).1
    | cons c rest =>
      cases hends : pattern.ends ⟨before, c :: rest⟩ with
      | nil =>
        rw [subFrom_cons hends]
        refine noMatch_cons.2 ⟨List.eq_nil_iff_forall_not_mem.2 fun next hnext => ?_,
          ih rest.length (by rw [← hn, List.length_cons]; omega) (fun done left hsplit => ?_)
            (fun _ _ _ _ h => h) rfl⟩
        · -- A match in the result would be one in the text, where there is none in a gap.
          obtain ⟨matched, hmatched, ⟨hsplit, -⟩, hguardBefore, hguardAfter⟩ :=
            (hother.mem_ends _ _).1 hnext
          obtain ⟨left, hleft, hguardLeft⟩ := hpattern.matched_left hother hguards hbrackets hends
            hmatched hsplit hguardAfter
          refine List.ne_nil_of_mem ((hother.mem_ends _ ⟨matched.getLast?.or before, left⟩).2
            ⟨matched, hmatched, ⟨hleft, rfl⟩, hbefore _ _ hleft hmatched hguardBefore,
              hguardLeft⟩) (hgap [] _ rfl hends)
        · have h := hgap (c :: done) left (by rw [hsplit, List.cons_append])
          rwa [getLast?_cons_or] at h
      | cons next others =>
        rw [hpattern.subFrom_match hends, List.append_assoc]
        obtain ⟨matched, hmatched, ⟨hrest, hlast⟩, -, hguardNext⟩ :=
          (hpattern.mem_ends _ next).1 (hends ▸ List.mem_cons_self)
        dsimp only at hrest hlast
        have hlength : next.rest.length < n := by
          have hpos := List.length_pos_iff.2 (hpattern.ne_nil _ hmatched)
          rw [← hn, hrest, List.length_append]
          omega
        refine noMatch_brackets hother hbrackets (ih next.rest.length hlength
          (fun done left hsplit => ?_) (fun front left hsplit hfront _ => ?_) rfl)
          (List.Subset.refl _)
        · have h := hgap (matched ++ done) left (by rw [hrest, hsplit, List.append_assoc])
          rwa [getLast?_append_or, ← hlast] at h
        · -- Behind a match stands no guard, and so no text of the language.
          rcases hguards with hnone | rfl
          · exact fun c _ => hnone c
          rcases hother.edges with hnone | hedges
          · exact fun c _ => hnone c
          · cases front with
            | nil => exact absurd rfl (hother.ne_nil _ hfront)
            | cons c' front =>
              have hfirst := (hedges _ hfront).1 c' rfl
              rw [hguardNext c' (by rw [hsplit]; rfl)] at hfirst
              exact absurd hfirst (by simp)

/-- Nothing is left to replace. -/
theorem Guarded.noMatch_subFrom_self (hpattern : pattern.Guarded languageP guardP)
    (hbrackets : Brackets opening closing inside languageP guardP) :
    pattern.NoMatch before (pattern.subFrom (opening :: inside ++ [closing]) before 0 text) :=
  noMatch_subFrom hpattern hpattern (.inr rfl) hbrackets (fun _ _ _ h => h) fun _ _ _ _ h => h

/-- A replacement makes no match of another pattern. -/
theorem NoMatch.subFrom (h : other.NoMatch before text)
    (hpattern : pattern.Guarded languageP guardP) (hother : other.Guarded languageQ guardQ)
    (hguards : (∀ c, guardQ c = false) ∨ guardP = guardQ)
    (hbrackets : Brackets opening closing inside languageQ guardQ) :
    other.NoMatch before (pattern.subFrom (opening :: inside ++ [closing]) before 0 text) :=
  noMatch_subFrom hpattern hother hguards hbrackets (fun done left hsplit _ => h done left hsplit)
    fun _ _ _ _ h => h

end NoMatch

end Regex

end SchemaBrain.Base
