import Mathlib.Data.List.Basic
import Mathlib.Data.String.Basic

/-!
# Named placeholders of a text

The names behind the colons of a text, in order. A name ends where its characters do, so
texts are scanned apart at every other character.
-/

namespace SchemaBrain.Base

/-- A character of a placeholder's name. -/
def isNameChar (c : Char) : Bool := c.isAlphanum || c = '_'

/-- The names behind the colons of a text. -/
def placeholders : List Char → List String
  | [] => []
  | c :: rest =>
    if c = ':' then String.ofList (rest.takeWhile isNameChar) :: placeholders rest
    else placeholders rest

/-- A text that does not go on a name. -/
def StopsName (text : List Char) : Prop := text.takeWhile isNameChar = []

theorem stopsName_cons {c : Char} {text : List Char} (h : isNameChar c = false) :
    StopsName (c :: text) := by
  simp [StopsName, h]

theorem placeholders_of_not_mem {text : List Char} (h : ':' ∉ text) : placeholders text = [] := by
  induction text with
  | nil => rfl
  | cons c text ih =>
    rw [List.mem_cons, not_or] at h
    rw [placeholders, if_neg (Ne.symm h.1), ih h.2]

theorem placeholders_append_of_not_mem {text text' : List Char} (h : ':' ∉ text) :
    placeholders (text ++ text') = placeholders text' := by
  induction text with
  | nil => rfl
  | cons c text ih =>
    rw [List.mem_cons, not_or] at h
    rw [List.cons_append, placeholders, if_neg (Ne.symm h.1), ih h.2]

/-- Texts are scanned apart where the second one stops a name. -/
theorem placeholders_append {text text' : List Char} (h : StopsName text') :
    placeholders (text ++ text') = placeholders text ++ placeholders text' := by
  induction text with
  | nil => rfl
  | cons c text ih =>
    have htake : (text ++ text').takeWhile isNameChar = text.takeWhile isNameChar := by
      rw [List.takeWhile_append]
      split
      · next hwhole => rw [show text'.takeWhile isNameChar = [] from h, List.append_nil,
          List.Sublist.eq_of_length (List.takeWhile_sublist _) hwhole]
      · rfl
    rw [List.cons_append, placeholders, placeholders, htake, ih]
    split <;> rfl

/-- A colon and a name. -/
theorem placeholders_colon {name : List Char} (h : name.all isNameChar = true) :
    placeholders (':' :: name) = [String.ofList name] := by
  have hall : ∀ c ∈ name, isNameChar c = true := List.all_eq_true.1 h
  have hcolon : ':' ∉ name := fun hmem => absurd (hall _ hmem) (by decide)
  have htake : name.takeWhile isNameChar = name := by
    have happend : (name ++ []).takeWhile isNameChar = name ++ [].takeWhile isNameChar :=
      List.takeWhile_append_of_pos hall
    simpa using happend
  rw [placeholders, if_pos rfl, placeholders_of_not_mem hcolon, htake]

/-- Joined texts are scanned one by one when the separator stops names and has none. -/
theorem placeholders_intercalate {sep : String} {c : Char} {rest : List Char}
    (hsep : sep.toList = c :: rest) (hstop : isNameChar c = false) (hcolon : ':' ∉ sep.toList)
    (texts : List String) :
    placeholders (sep.intercalate texts).toList = texts.flatMap (placeholders ·.toList) := by
  induction texts with
  | nil => rfl
  | cons text texts ih =>
    cases texts with
    | nil => simp
    | cons next texts =>
      have hnext : StopsName (sep.toList ++ (sep.intercalate (next :: texts)).toList) := by
        rw [hsep]
        exact stopsName_cons hstop
      rw [String.intercalate_cons_cons, String.toList_append, String.toList_append,
        List.append_assoc, placeholders_append hnext, placeholders_append_of_not_mem hcolon, ih,
        List.flatMap_cons (x := text)]

end SchemaBrain.Base
