import Mathlib.Data.List.Basic

/-!
# Regular expressions

Patterns as a backtracking engine runs them: at a place of a text, the places where a match can
end, in the order in which they are tried.
-/

namespace SchemaBrain.Base

/-! ## Character classes -/

/-- The zeros of the decimal digits: `\d` matches them and the nine characters after each. -/
def decimalZeros : List Nat :=
  [0x30, 0x660, 0x6f0, 0x7c0, 0x966, 0x9e6, 0xa66, 0xae6, 0xb66, 0xbe6, 0xc66, 0xce6, 0xd66,
    0xde6, 0xe50, 0xed0, 0xf20, 0x1040, 0x1090, 0x17e0, 0x1810, 0x1946, 0x19d0, 0x1a80, 0x1a90,
    0x1b50, 0x1bb0, 0x1c40, 0x1c50, 0xa620, 0xa8d0, 0xa900, 0xa9d0, 0xa9f0, 0xaa50, 0xabf0,
    0xff10, 0x104a0, 0x10d30, 0x11066, 0x110f0, 0x11136, 0x111d0, 0x112f0, 0x11450, 0x114d0,
    0x11650, 0x116c0, 0x11730, 0x118e0, 0x11950, 0x11c50, 0x11d50, 0x11da0, 0x16a60, 0x16ac0,
    0x16b50, 0x1d7ce, 0x1d7d8, 0x1d7e2, 0x1d7ec, 0x1d7f6, 0x1e140, 0x1e2f0, 0x1e950, 0x1fbf0]

/-- The value of a decimal digit. -/
def decimalDigit (c : Char) : Option Nat :=
  (decimalZeros.find? fun first => first ≤ c.toNat ∧ c.toNat < first + 10).map (c.toNat - ·)

/-- `\w`: a letter or digit by `str.isalnum`, or an underscore. -/
structure WordChars where
  isAlnum : Char → Bool
  ascii : ∀ c, c.toNat < 128 → isAlnum c = c.isAlphanum

/-- `\w`. -/
def WordChars.isWord (W : WordChars) (c : Char) : Bool := W.isAlnum c || c = '_'

/-! ## Patterns -/

/-- A place in a text: the character before it and the text after it. -/
structure Place where
  before : Option Char
  rest : List Char
  deriving DecidableEq, Repr

/-- A pattern. A repetition takes its body at least `least` times, and up to `extra` times more. -/
inductive Regex
  | char (accepts : Char → Bool)
  | look (holds : Place → Bool)
  | seq (first second : Regex)
  | many (greedy : Bool) (least : Nat) (extra : Option Nat) (body : Regex)

/-- The ends of up to `extra` rounds. A greedy repetition tries another round before it stops. -/
def optionalEnds (ends : Place → List Place) (greedy : Bool) : Nat → Place → List Place
  | 0, place => [place]
  | extra + 1, place =>
    let more := (ends place).flatMap (optionalEnds ends greedy extra)
    if greedy then more ++ [place] else place :: more

/-- The ends of a repetition. -/
def repeatEnds (ends : Place → List Place) (greedy : Bool) (extra : Nat) :
    Nat → Place → List Place
  | 0, place => optionalEnds ends greedy extra place
  | least + 1, place => (ends place).flatMap (repeatEnds ends greedy extra least)

namespace Regex

/-- Where a match that starts at a place can end. The body of a repetition takes a character or
more, so as many rounds as there are characters left are as good as any number. -/
def ends : Regex → Place → List Place
  | char accepts, ⟨_, c :: rest⟩ => if accepts c then [⟨some c, rest⟩] else []
  | char _, ⟨_, []⟩ => []
  | look holds, place => if holds place then [place] else []
  | seq first second, place => (first.ends place).flatMap second.ends
  | many greedy least extra body, place =>
    repeatEnds body.ends greedy (extra.getD place.rest.length) least place

/-- `pattern.search` from a place on. -/
def searchFrom (pattern : Regex) : Option Char → List Char → Bool
  | before, [] => !(pattern.ends ⟨before, []⟩).isEmpty
  | before, c :: rest => !(pattern.ends ⟨before, c :: rest⟩).isEmpty || pattern.searchFrom c rest

/-- `pattern.search`. -/
def search (pattern : Regex) (text : String) : Bool := pattern.searchFrom none text.toList

/-- The parts of a pattern one after another. -/
def sequence (last : Regex) : List Regex → Regex
  | [] => last
  | part :: parts => seq part (sequence last parts)

/-- `\b`. -/
def wordBoundary (W : WordChars) : Regex :=
  look fun place => place.before.any W.isWord != place.rest.head?.any W.isWord

end Regex

/-! ## Languages -/

/-- The text between two places. -/
def Place.Passes (place : Place) (text : List Char) (next : Place) : Prop :=
  place.rest = text ++ next.rest ∧ next.before = text.getLast?.or place.before

theorem Place.passes_nil {place next : Place} : place.Passes [] next ↔ next = place := by
  obtain ⟨before, rest⟩ := place
  obtain ⟨before', rest'⟩ := next
  simp [Passes, eq_comm, and_comm]

theorem getLast?_append_or (text text' : List Char) (before : Option Char) :
    (text ++ text').getLast?.or before = text'.getLast?.or (text.getLast?.or before) := by
  rw [List.getLast?_append]
  cases text'.getLast? <;> rfl

theorem Place.passes_append {place next : Place} {text text' : List Char} :
    place.Passes (text ++ text') next ↔
      ∃ middle : Place, place.Passes text middle ∧ middle.Passes text' next := by
  constructor
  · rintro ⟨hrest, hbefore⟩
    refine ⟨⟨text.getLast?.or place.before, text' ++ next.rest⟩, ⟨by rw [hrest, List.append_assoc],
      rfl⟩, rfl, ?_⟩
    rw [hbefore, getLast?_append_or]
  · rintro ⟨middle, ⟨hrest, hbefore⟩, hrest', hbefore'⟩
    exact ⟨by rw [hrest, hrest', List.append_assoc],
      by rw [hbefore', hbefore, getLast?_append_or]⟩

namespace Regex

/-- The texts that a pattern without lookarounds matches. -/
def Accepts : Regex → List Char → Prop
  | char accepts, text => ∃ c, accepts c = true ∧ text = [c]
  | look _, _ => False
  | seq first second, text =>
    ∃ text₁ text₂, first.Accepts text₁ ∧ second.Accepts text₂ ∧ text = text₁ ++ text₂
  | many _ least extra body, text =>
    ∃ texts : List (List Char), (∀ text ∈ texts, body.Accepts text) ∧ least ≤ texts.length ∧
      (∀ n, extra = some n → texts.length ≤ least + n) ∧ text = texts.flatten

/-- A pattern without lookarounds whose repetitions take a character or more in each round. -/
def Solid : Regex → Prop
  | char _ => True
  | look _ => False
  | seq first second => first.Solid ∧ second.Solid
  | many _ _ _ body => body.Solid ∧ ∀ text, body.Accepts text → text ≠ []

section Rounds

variable {ends : Place → List Place} {language : List Char → Prop} {greedy : Bool} {extra : Nat}

private theorem mem_optionalEnds
    (hends : ∀ place next, next ∈ ends place ↔ ∃ text, language text ∧ place.Passes text next)
    {place next : Place} :
    next ∈ optionalEnds ends greedy extra place ↔
      ∃ texts : List (List Char), (∀ text ∈ texts, language text) ∧ texts.length ≤ extra ∧
        place.Passes texts.flatten next := by
  induction extra generalizing place with
  | zero =>
    simp only [optionalEnds, List.mem_singleton, Nat.le_zero, List.length_eq_zero_iff]
    constructor
    · rintro rfl
      exact ⟨[], by simp, rfl, Place.passes_nil.2 rfl⟩
    · rintro ⟨_, -, rfl, hpasses⟩
      exact Place.passes_nil.1 hpasses
  | succ extra ih =>
    have hmem : next ∈ optionalEnds ends greedy (extra + 1) place ↔
        next = place ∨ ∃ middle ∈ ends place, next ∈ optionalEnds ends greedy extra middle := by
      rw [optionalEnds]
      split <;> simp [or_comm]
    rw [hmem]
    simp only [ih]
    constructor
    · rintro (rfl | ⟨middle, hmiddle, texts, htexts, hlength, hpasses⟩)
      · exact ⟨[], by simp, Nat.zero_le _, Place.passes_nil.2 rfl⟩
      · obtain ⟨text, htext, hfirst⟩ := (hends _ _).1 hmiddle
        exact ⟨text :: texts, List.forall_mem_cons.2 ⟨htext, htexts⟩, Nat.succ_le_succ hlength,
          Place.passes_append.2 ⟨middle, hfirst, hpasses⟩⟩
    · rintro ⟨texts, htexts, hlength, hpasses⟩
      cases texts with
      | nil => exact .inl (Place.passes_nil.1 hpasses)
      | cons text texts =>
        obtain ⟨htext, htexts⟩ := List.forall_mem_cons.1 htexts
        obtain ⟨middle, hfirst, hrest⟩ := Place.passes_append.1 hpasses
        exact .inr ⟨middle, (hends _ _).2 ⟨text, htext, hfirst⟩, texts, htexts,
          Nat.le_of_succ_le_succ hlength, hrest⟩

private theorem mem_repeatEnds
    (hends : ∀ place next, next ∈ ends place ↔ ∃ text, language text ∧ place.Passes text next)
    {least : Nat} {place next : Place} :
    next ∈ repeatEnds ends greedy extra least place ↔
      ∃ texts : List (List Char), (∀ text ∈ texts, language text) ∧ least ≤ texts.length ∧
        texts.length ≤ least + extra ∧ place.Passes texts.flatten next := by
  induction least generalizing place with
  | zero =>
    rw [repeatEnds, mem_optionalEnds hends]
    simp
  | succ least ih =>
    rw [repeatEnds, List.mem_flatMap]
    simp only [ih]
    constructor
    · rintro ⟨middle, hmiddle, texts, htexts, hleast, hmost, hpasses⟩
      obtain ⟨text, htext, hfirst⟩ := (hends _ _).1 hmiddle
      refine ⟨text :: texts, List.forall_mem_cons.2 ⟨htext, htexts⟩, Nat.succ_le_succ hleast, ?_,
        Place.passes_append.2 ⟨middle, hfirst, hpasses⟩⟩
      rw [List.length_cons]
      omega
    · rintro ⟨texts, htexts, hleast, hmost, hpasses⟩
      cases texts with
      | nil => exact absurd hleast (Nat.not_succ_le_zero least)
      | cons text texts =>
        rw [List.length_cons] at hleast hmost
        obtain ⟨htext, htexts⟩ := List.forall_mem_cons.1 htexts
        obtain ⟨middle, hfirst, hrest⟩ := Place.passes_append.1 hpasses
        exact ⟨middle, (hends _ _).2 ⟨text, htext, hfirst⟩, texts, htexts, by omega, by omega,
          hrest⟩

end Rounds

private theorem length_le_flatten {texts : List (List Char)} (h : ∀ text ∈ texts, text ≠ []) :
    texts.length ≤ texts.flatten.length := by
  induction texts with
  | nil => exact Nat.le_refl 0
  | cons text texts ih =>
    obtain ⟨htext, htexts⟩ := List.forall_mem_cons.1 h
    have hpos := List.length_pos_iff.2 htext
    have hrest := ih htexts
    rw [List.flatten_cons, List.length_append, List.length_cons]
    omega

/-- The engine ends behind the texts that the pattern matches. -/
theorem mem_ends_iff {pattern : Regex} (hsolid : pattern.Solid) {place next : Place} :
    next ∈ pattern.ends place ↔ ∃ text, pattern.Accepts text ∧ place.Passes text next := by
  induction pattern generalizing place next with
  | char accepts =>
    obtain ⟨before, rest⟩ := place
    obtain ⟨before', rest'⟩ := next
    cases rest with
    | nil => simp [ends, Accepts, Place.Passes]
    | cons c rest =>
      by_cases hc : accepts c = true
      · simp only [ends, hc, if_true, List.mem_singleton, Place.mk.injEq, Accepts, Place.Passes]
        constructor
        · rintro ⟨rfl, rfl⟩
          exact ⟨[c], ⟨c, hc, rfl⟩, rfl, rfl⟩
        · rintro ⟨_, ⟨c', -, rfl⟩, hrest, hbefore⟩
          obtain ⟨rfl, rfl⟩ := List.cons.inj hrest
          exact ⟨hbefore, rfl⟩
      · simp only [ends, hc, Bool.false_eq_true, if_false, List.not_mem_nil, false_iff]
        rintro ⟨_, ⟨c', hc', rfl⟩, hrest, -⟩
        obtain ⟨rfl, -⟩ := List.cons.inj hrest
        exact hc hc'
  | look holds => exact hsolid.elim
  | seq first second ihFirst ihSecond =>
    simp only [ends, List.mem_flatMap, ihFirst hsolid.1, ihSecond hsolid.2]
    constructor
    · rintro ⟨middle, ⟨text₁, h₁, hfirst⟩, text₂, h₂, hsecond⟩
      exact ⟨text₁ ++ text₂, ⟨text₁, text₂, h₁, h₂, rfl⟩,
        Place.passes_append.2 ⟨middle, hfirst, hsecond⟩⟩
    · rintro ⟨_, ⟨text₁, text₂, h₁, h₂, rfl⟩, hpasses⟩
      obtain ⟨middle, hfirst, hsecond⟩ := Place.passes_append.1 hpasses
      exact ⟨middle, ⟨text₁, h₁, hfirst⟩, text₂, h₂, hsecond⟩
  | many greedy least extra body ih =>
    rw [ends, mem_repeatEnds fun _ _ => ih hsolid.1]
    constructor
    · rintro ⟨texts, htexts, hleast, hmost, hpasses⟩
      refine ⟨_, ⟨texts, htexts, hleast, fun n hn => ?_, rfl⟩, hpasses⟩
      rwa [hn] at hmost
    · rintro ⟨_, ⟨texts, htexts, hleast, hextra, rfl⟩, hpasses⟩
      refine ⟨texts, htexts, hleast, ?_, hpasses⟩
      cases extra with
      | some n => exact hextra n rfl
      | none =>
        have hrounds := length_le_flatten fun text htext => hsolid.2 text (htexts text htext)
        have hlength := congrArg List.length hpasses.1
        rw [List.length_append] at hlength
        simp only [Option.getD_none]
        omega

/-- The characters that a class of the pattern accepts. -/
def mentions : Regex → Char → Bool
  | char accepts, c => accepts c
  | look _, _ => false
  | seq first second, c => first.mentions c || second.mentions c
  | many _ _ _ body, c => body.mentions c

theorem Accepts.mentions {pattern : Regex} {text : List Char} (h : pattern.Accepts text) {c : Char}
    (hc : c ∈ text) : pattern.mentions c = true := by
  induction pattern generalizing text with
  | char accepts =>
    obtain ⟨c', hc', rfl⟩ := h
    obtain rfl := List.mem_singleton.1 hc
    exact hc'
  | look holds => exact h.elim
  | seq first second ihFirst ihSecond =>
    obtain ⟨text₁, text₂, h₁, h₂, rfl⟩ := h
    rcases List.mem_append.1 hc with hc | hc
    · simp [Regex.mentions, ihFirst h₁ hc]
    · simp [Regex.mentions, ihSecond h₂ hc]
  | many greedy least extra body ih =>
    obtain ⟨texts, htexts, -, -, rfl⟩ := h
    obtain ⟨text, htext, hc⟩ := List.mem_flatten.1 hc
    exact ih (htexts text htext) hc

/-- The texts of a pattern begin with a character of a class. -/
def Leads (class' : Char → Bool) (pattern : Regex) : Prop :=
  ∀ text, pattern.Accepts text → ∃ c rest, text = c :: rest ∧ class' c = true

/-- The texts of a pattern end with a character of a class. -/
def Trails (class' : Char → Bool) (pattern : Regex) : Prop :=
  ∀ text, pattern.Accepts text → ∃ c front, text = front ++ [c] ∧ class' c = true

section Edges

variable {class' accepts : Char → Bool} {first second body : Regex}

theorem Leads.ne_nil (h : first.Leads class') {text : List Char} (htext : first.Accepts text) :
    text ≠ [] := by
  obtain ⟨c, rest, rfl, -⟩ := h text htext
  exact List.cons_ne_nil c rest

theorem leads_char (h : ∀ c, accepts c = true → class' c = true) : (char accepts).Leads class' := by
  rintro _ ⟨c, hc, rfl⟩
  exact ⟨c, [], rfl, h c hc⟩

theorem Leads.seq (h : first.Leads class') : (first.seq second).Leads class' := by
  rintro _ ⟨text₁, text₂, h₁, -, rfl⟩
  obtain ⟨c, rest, rfl, hc⟩ := h text₁ h₁
  exact ⟨c, rest ++ text₂, rfl, hc⟩

theorem Leads.many (h : body.Leads class') (greedy : Bool) (least : Nat) (extra : Option Nat) :
    (many greedy (least + 1) extra body).Leads class' := by
  rintro _ ⟨texts, htexts, hleast, -, rfl⟩
  cases texts with
  | nil => exact absurd hleast (Nat.not_succ_le_zero least)
  | cons text texts =>
    obtain ⟨c, rest, rfl, hc⟩ := h text (htexts text List.mem_cons_self)
    exact ⟨c, rest ++ texts.flatten, rfl, hc⟩

theorem trails_char (h : ∀ c, accepts c = true → class' c = true) :
    (char accepts).Trails class' := by
  rintro _ ⟨c, hc, rfl⟩
  exact ⟨c, [], rfl, h c hc⟩

theorem Trails.seq (h : second.Trails class') : (first.seq second).Trails class' := by
  rintro _ ⟨text₁, text₂, -, h₂, rfl⟩
  obtain ⟨c, front, rfl, hc⟩ := h text₂ h₂
  exact ⟨c, text₁ ++ front, by rw [List.append_assoc], hc⟩

theorem Trails.many (h : body.Trails class') (greedy : Bool) (least : Nat) (extra : Option Nat) :
    (many greedy (least + 1) extra body).Trails class' := by
  rintro _ ⟨texts, htexts, hleast, -, rfl⟩
  obtain rfl | ⟨texts, text, rfl⟩ := List.eq_nil_or_concat texts
  · exact absurd hleast (Nat.not_succ_le_zero least)
  · obtain ⟨c, front, rfl, hc⟩ := h text (htexts text (by simp))
    exact ⟨c, texts.flatten ++ front, by simp, hc⟩

end Edges

end Regex

/-! ### More text behind -/

/-- A place with more text behind the text after it. -/
def Place.extend (tail : List Char) (place : Place) : Place := ⟨place.before, place.rest ++ tail⟩

/-- The engine ends where it ends with more text behind, but not in that text. -/
def EndsBefore (tail : List Char) (ends : Place → List Place) : Prop :=
  ∀ place : Place, (ends place).map (·.extend tail) =
    (ends (place.extend tail)).filter fun next => tail.length ≤ next.rest.length

/-- The engine does not go back. -/
def GoesOn (ends : Place → List Place) : Prop :=
  ∀ place, ∀ next ∈ ends place, next.rest.length ≤ place.rest.length

theorem GoesOn.flatMap {first second : Place → List Place} (hfirst : GoesOn first)
    (hsecond : GoesOn second) : GoesOn fun place => (first place).flatMap second := by
  intro place next hnext
  obtain ⟨middle, hmiddle, hnext⟩ := List.mem_flatMap.1 hnext
  exact Nat.le_trans (hsecond middle next hnext) (hfirst place middle hmiddle)

private theorem flatMap_filter_of_nil {α β : Type} {f : α → List β} {keep : α → Bool} {l : List α}
    (h : ∀ a ∈ l, keep a = false → f a = []) : (l.filter keep).flatMap f = l.flatMap f := by
  induction l with
  | nil => rfl
  | cons a l ih =>
    obtain ⟨hfirst, hrest⟩ := List.forall_mem_cons.1 h
    cases hkeep : keep a with
    | true => rw [List.filter_cons_of_pos hkeep, List.flatMap_cons, List.flatMap_cons, ih hrest]
    | false =>
      rw [List.filter_cons_of_neg (by simp [hkeep]), List.flatMap_cons, hfirst hkeep, ih hrest,
        List.nil_append]

/-- From a place in the text behind there is no way back before it. -/
theorem EndsBefore.flatMap {tail : List Char} {first second : Place → List Place}
    (hfirst : EndsBefore tail first) (hsecond : EndsBefore tail second) (hgoes : GoesOn second) :
    EndsBefore tail fun place => (first place).flatMap second := by
  intro place
  have hbehind : ∀ middle ∈ first (place.extend tail),
      decide (tail.length ≤ middle.rest.length) = false →
        ((second middle).filter fun next => tail.length ≤ next.rest.length) = [] := by
    intro middle _ hmiddle
    refine List.filter_eq_nil_iff.2 fun next hnext => ?_
    have hlength := hgoes middle next hnext
    rw [decide_eq_false_iff_not] at hmiddle
    rw [decide_eq_true_iff]
    omega
  calc ((first place).flatMap second).map (·.extend tail)
    _ = ((first place).map (·.extend tail)).flatMap fun middle =>
          (second middle).filter fun next => tail.length ≤ next.rest.length := by
      rw [List.map_flatMap, List.flatMap_map]
      exact List.flatMap_congr fun middle _ => hsecond middle
    _ = (first (place.extend tail)).flatMap fun middle =>
          (second middle).filter fun next => tail.length ≤ next.rest.length := by
      rw [hfirst place, flatMap_filter_of_nil hbehind]
    _ = ((first (place.extend tail)).flatMap second).filter fun next =>
          tail.length ≤ next.rest.length := by
      rw [List.filter_flatMap]

section Rounds

variable {ends : Place → List Place} {greedy : Bool}

private theorem GoesOn.optionalEnds (hends : GoesOn ends) (extra : Nat) :
    GoesOn (optionalEnds ends greedy extra) := by
  induction extra with
  | zero =>
    intro place next hnext
    obtain rfl := List.mem_singleton.1 hnext
    exact Nat.le_refl _
  | succ extra ih =>
    intro place next hnext
    have hmore := hends.flatMap ih place next
    rw [Base.optionalEnds] at hnext
    split at hnext
    · rcases List.mem_append.1 hnext with hnext | hnext
      · exact hmore hnext
      · obtain rfl := List.mem_singleton.1 hnext
        exact Nat.le_refl _
    · rcases List.mem_cons.1 hnext with rfl | hnext
      · exact Nat.le_refl _
      · exact hmore hnext

private theorem GoesOn.repeatEnds (hends : GoesOn ends) (extra least : Nat) :
    GoesOn (repeatEnds ends greedy extra least) := by
  induction least with
  | zero => exact hends.optionalEnds extra
  | succ least ih => exact hends.flatMap ih

variable {tail : List Char}

private theorem EndsBefore.optionalEnds (hends : EndsBefore tail ends) (hgoes : GoesOn ends)
    (extra : Nat) : EndsBefore tail (optionalEnds ends greedy extra) := by
  induction extra with
  | zero =>
    intro place
    simp [Base.optionalEnds, Place.extend]
  | succ extra ih =>
    intro place
    have hmore := hends.flatMap ih (hgoes.optionalEnds extra) place
    rw [Base.optionalEnds, Base.optionalEnds]
    cases greedy <;> simp_all [Place.extend]

private theorem EndsBefore.repeatEnds (hends : EndsBefore tail ends) (hgoes : GoesOn ends)
    (extra least : Nat) : EndsBefore tail (repeatEnds ends greedy extra least) := by
  induction least with
  | zero => exact hends.optionalEnds hgoes extra
  | succ least ih => exact hends.flatMap ih (hgoes.repeatEnds extra least)

variable (hshrink : ∀ place, ∀ next ∈ ends place, next.rest.length < place.rest.length)
include hshrink

/-- More rounds than characters are no more rounds. -/
private theorem optionalEnds_eq {n n' : Nat} {place : Place} (hn : place.rest.length ≤ n)
    (hn' : place.rest.length ≤ n') :
    optionalEnds ends greedy n place = optionalEnds ends greedy n' place := by
  induction n generalizing n' place with
  | zero =>
    have hnone : ends place = [] := List.eq_nil_iff_forall_not_mem.2 fun next hnext => by
      have := hshrink place next hnext
      omega
    cases n' <;> simp [optionalEnds, hnone]
  | succ n ih =>
    cases n' with
    | zero =>
      have hnone : ends place = [] := List.eq_nil_iff_forall_not_mem.2 fun next hnext => by
        have := hshrink place next hnext
        omega
      simp [optionalEnds, hnone]
    | succ n' =>
      have hmore : (ends place).flatMap (optionalEnds ends greedy n) =
          (ends place).flatMap (optionalEnds ends greedy n') := by
        refine List.flatMap_congr fun next hnext => ?_
        have := hshrink place next hnext
        exact ih (by omega) (by omega)
      rw [optionalEnds, optionalEnds, hmore]

private theorem repeatEnds_eq {n n' least : Nat} {place : Place} (hn : place.rest.length ≤ n)
    (hn' : place.rest.length ≤ n') :
    repeatEnds ends greedy n least place = repeatEnds ends greedy n' least place := by
  induction least generalizing place with
  | zero => exact optionalEnds_eq hshrink hn hn'
  | succ least ih =>
    rw [repeatEnds, repeatEnds]
    refine List.flatMap_congr fun next hnext => ?_
    have := hshrink place next hnext
    exact ih (by omega) (by omega)

end Rounds

namespace Regex

theorem goesOn_ends (pattern : Regex) : GoesOn pattern.ends := by
  induction pattern with
  | char accepts =>
    rintro ⟨before, rest⟩ next hnext
    cases rest with
    | nil => exact absurd hnext List.not_mem_nil
    | cons c rest =>
      simp only [ends, List.mem_ite_nil_right, List.mem_singleton] at hnext
      rw [hnext.2]
      exact Nat.le_succ _
  | look holds =>
    intro place next hnext
    simp only [ends, List.mem_ite_nil_right, List.mem_singleton] at hnext
    exact Nat.le_of_eq (congrArg (fun place => place.rest.length) hnext.2)
  | seq first second ihFirst ihSecond => exact ihFirst.flatMap ihSecond
  | many greedy least extra body ih =>
    exact fun place next hnext => ih.repeatEnds _ least place next hnext

/-- The lookarounds of a pattern see the same with and without the text behind, and each round of
a repetition takes a character or more. -/
def Local (tail : List Char) : Regex → Prop
  | char _ => True
  | look holds => ∀ place : Place, holds (place.extend tail) = holds place
  | seq first second => first.Local tail ∧ second.Local tail
  | many _ _ _ body => body.Solid ∧ (∀ text, body.Accepts text → text ≠ []) ∧ body.Local tail

/-- A pattern without lookarounds looks at nothing. -/
theorem Solid.isLocal {pattern : Regex} (h : pattern.Solid) (tail : List Char) :
    pattern.Local tail := by
  induction pattern with
  | char accepts => trivial
  | look holds => exact h.elim
  | seq first second ihFirst ihSecond => exact ⟨ihFirst h.1, ihSecond h.2⟩
  | many greedy least extra body ih => exact ⟨h.1, h.2, ih h.1⟩

theorem endsBefore_ends {pattern : Regex} {tail : List Char} (h : pattern.Local tail) :
    EndsBefore tail pattern.ends := by
  induction pattern with
  | char accepts =>
    rintro ⟨before, rest⟩
    cases rest with
    | nil =>
      cases tail with
      | nil => rfl
      | cons c tail => by_cases hc : accepts c = true <;> simp [Place.extend, ends, hc]
    | cons c rest => by_cases hc : accepts c = true <;> simp [Place.extend, ends, hc]
  | look holds =>
    intro place
    rw [ends, ends, h place]
    split <;> simp [Place.extend]
  | seq first second ihFirst ihSecond =>
    exact (ihFirst h.1).flatMap (ihSecond h.2) (goesOn_ends second)
  | many greedy least extra body ih =>
    obtain ⟨hsolid, hne, hbody⟩ := h
    have hshrink : ∀ place, ∀ next ∈ body.ends place, next.rest.length < place.rest.length := by
      intro place next hnext
      obtain ⟨text, htext, hrest, -⟩ := (mem_ends_iff hsolid).1 hnext
      have hpos := List.length_pos_iff.2 (hne text htext)
      rw [hrest, List.length_append]
      omega
    have hrounds : ∀ n, EndsBefore tail (repeatEnds body.ends greedy n least) :=
      fun n => (ih hbody).repeatEnds (goesOn_ends body) n least
    intro place
    rw [ends, ends]
    cases extra with
    | some n => exact hrounds n place
    | none =>
      have hmore := @repeatEnds_eq body.ends greedy hshrink place.rest.length
        (place.extend tail).rest.length least place (Nat.le_refl _) (by simp [Place.extend])
      rw [Option.getD_none, Option.getD_none, hmore]
      exact hrounds _ place

end Regex

end SchemaBrain.Base
