import Mathlib.Data.List.Forall2
import Mathlib.Data.List.Sort
import Mathlib.Data.String.Basic
import SchemaBrain.Base.Bytes

/-!
# The Python runtime

The built-in exceptions that the modelled functions raise or let through, with the
texts they carry, and the renderings of strings inside those texts.
-/

namespace SchemaBrain.Base

/-- What is asked of the characters of a text is decided along the text, not along all characters
that there are. -/
instance decidableForallMemChar (p : Char → Prop) [DecidablePred p] (text : List Char) :
    Decidable (∀ c ∈ text, p c) := List.decidableBAll p text

theorem toNat_of_isAlphanum {c : Char} (h : c.isAlphanum = true) :
    (65 ≤ c.toNat ∧ c.toNat ≤ 90) ∨ (97 ≤ c.toNat ∧ c.toNat ≤ 122) ∨
      (48 ≤ c.toNat ∧ c.toNat ≤ 57) := by
  change ((decide (c.val ≥ 65 ∧ c.val ≤ 90) || (decide (c.val ≥ 97) && decide (c.val ≤ 122))) ||
    (decide (c.val ≥ 48) && decide (c.val ≤ 57))) = true at h
  simp only [Bool.or_eq_true, Bool.and_eq_true, decide_eq_true_eq, UInt32.le_iff_toNat_le,
    ge_iff_le] at h
  rcases h with (h | h) | h
  · exact .inl h
  · exact .inr (.inl h)
  · exact .inr (.inr h)

/-- The built-in exceptions, each with its message. -/
inductive PyError
  | valueError (message : String)
  | typeError (message : String)
  | keyError (message : String)
  deriving DecidableEq, Repr

/-- One character of `repr(str)` between quotes `q`. Characters beyond ASCII count as
printable. -/
def pyReprChar (q c : Char) : List Char :=
  if c = q ∨ c = '\\' then ['\\', c]
  else if c = '\n' then ['\\', 'n']
  else if c = '\r' then ['\\', 'r']
  else if c = '\t' then ['\\', 't']
  else if c.toNat < 32 ∨ c.toNat = 127 then
    ['\\', 'x', hexDigit (c.toNat / 16), hexDigit (c.toNat % 16)]
  else [c]

/-- `repr(s)` of a string: single quotes unless the text has only single ones inside. -/
def pyRepr (s : String) : String :=
  let q := if '\'' ∈ s.toList ∧ '"' ∉ s.toList then '"' else '\''
  String.ofList (q :: (s.toList.flatMap (pyReprChar q) ++ [q]))

/-- The first character of a `repr`, and what follows it. -/
def readReprChar : List Char → Option (Char × List Char)
  | '\\' :: 'n' :: rest => some ('\n', rest)
  | '\\' :: 'r' :: rest => some ('\r', rest)
  | '\\' :: 't' :: rest => some ('\t', rest)
  | '\\' :: 'x' :: high :: low :: rest =>
    some (Char.ofNat (16 * hexValue high + hexValue low), rest)
  | '\\' :: c :: rest => some (c, rest)
  | c :: rest => some (c, rest)
  | [] => none

theorem readReprChar_append {q : Char} (hq : q = '\'' ∨ q = '"') (c : Char) (rest : List Char) :
    readReprChar (pyReprChar q c ++ rest) = some (c, rest) := by
  unfold pyReprChar
  split
  · next h =>
    rcases h with rfl | rfl
    · rcases hq with rfl | rfl <;> rfl
    · rfl
  · next h =>
    rw [not_or] at h
    split
    · next h => rw [h]; rfl
    · split
      · next h => rw [h]; rfl
      · split
        · next h => rw [h]; rfl
        · split
          · next hcontrol =>
            have hlt : c.toNat < 128 := by omega
            have hhigh := hexValue_hexDigit (n := c.toNat / 16) (by omega)
            have hlow := hexValue_hexDigit (n := c.toNat % 16) (by omega)
            show some (Char.ofNat _, rest) = _
            rw [hhigh, hlow, Nat.div_add_mod, Char.ofNat_toNat]
          · show readReprChar (c :: rest) = _
            unfold readReprChar
            split <;> simp_all

private theorem flatMap_pyReprChar_inj {q : Char} (hq : q = '\'' ∨ q = '"') {l l' : List Char}
    (h : l.flatMap (pyReprChar q) = l'.flatMap (pyReprChar q)) : l = l' := by
  induction l generalizing l' with
  | nil =>
    cases l' with
    | nil => rfl
    | cons c rest =>
      have := readReprChar_append hq c (rest.flatMap (pyReprChar q))
      rw [List.flatMap_cons, List.flatMap_nil] at h
      rw [← h] at this
      simp [readReprChar] at this
  | cons c rest ih =>
    cases l' with
    | nil =>
      have := readReprChar_append hq c (rest.flatMap (pyReprChar q))
      rw [List.flatMap_cons, List.flatMap_nil] at h
      rw [h] at this
      simp [readReprChar] at this
    | cons c' rest' =>
      have hread := readReprChar_append hq c (rest.flatMap (pyReprChar q))
      have hread' := readReprChar_append hq c' (rest'.flatMap (pyReprChar q))
      rw [List.flatMap_cons, List.flatMap_cons] at h
      rw [h, hread', Option.some.injEq, Prod.mk.injEq] at hread
      rw [hread.1, ih hread.2.symm]

/-- A `repr` is of one string only. -/
theorem pyRepr_injective : Function.Injective pyRepr := by
  intro s s' h
  unfold pyRepr at h
  simp only [String.ofList_inj, List.cons.injEq] at h
  obtain ⟨hquote, hchars⟩ := h
  rw [← hquote] at hchars
  refine String.toList_injective (flatMap_pyReprChar_inj ?_ (List.append_cancel_right hchars))
  split <;> simp

/-- `sorted(strings)`: ascending code points. -/
def pySorted (strings : List String) : List String := strings.insertionSort (· ≤ ·)

/-- How far a decimal numeral has been read. -/
inductive NumeralPhase
  | whole
  | point
  | fraction
  | mark
  | sign
  | exponent
  deriving DecidableEq

/-- The phase after one more character, if the numeral goes on with it. -/
def NumeralPhase.step : NumeralPhase → Char → Option NumeralPhase
  | whole, c =>
    if c.isDigit then some whole else if c = '.' then some point
    else if c = 'e' then some mark else none
  | point, c => if c.isDigit then some fraction else none
  | fraction, c => if c.isDigit then some fraction else if c = 'e' then some mark else none
  | mark, c =>
    if c = '+' ∨ c = '-' then some sign else if c.isDigit then some exponent else none
  | sign, c | exponent, c => if c.isDigit then some exponent else none

/-- The phase after a numeral, which starts with a digit. -/
def numeralPhase : List Char → Option NumeralPhase
  | [] => none
  | c :: rest => if c.isDigit then rest.foldlM NumeralPhase.step .whole else none

/-- `repr` of a finite float without a sign: a fraction, an exponent or both. -/
def isFloatText (text : String) : Bool :=
  numeralPhase text.toList ∈ [some .fraction, some .exponent]

/-- `repr` of a list of strings. -/
def pyReprList (strings : List String) : String :=
  "[" ++ ", ".intercalate (strings.map pyRepr) ++ "]"

example : pyReprList (pySorted ["rule_id", "it's"]) = "[\"it's\", 'rule_id']" := by decide

/-- `repr` of a tuple of strings. -/
def pyReprTuple : List String → String
  | [s] => "(" ++ pyRepr s ++ ",)"
  | strings => "(" ++ ", ".intercalate (strings.map pyRepr) ++ ")"

/-- The values that JSON arguments decode to. A float is kept as its `repr`. -/
inductive PyValue
  | none
  | bool (b : Bool)
  | int (i : Int)
  | float (repr : String)
  | str (s : String)
  | list (items : List PyValue)
  | dict (members : List (String × PyValue))
  deriving Repr

namespace PyValue

/-- `type(value).__name__`. -/
def typeName : PyValue → String
  | none => "NoneType"
  | bool _ => "bool"
  | int _ => "int"
  | float _ => "float"
  | str _ => "str"
  | list _ => "list"
  | dict _ => "dict"

mutual

/-- `repr(value)`. -/
def repr : PyValue → String
  | none => "None"
  | bool true => "True"
  | bool false => "False"
  | int i => toString i
  | float r => r
  | str s => pyRepr s
  | list items => "[" ++ ", ".intercalate (reprItems items) ++ "]"
  | dict members => "\x7b" ++ ", ".intercalate (reprMembers members) ++ "\x7d"

/-- The `repr` of each item. -/
def reprItems : List PyValue → List String
  | [] => []
  | item :: rest => item.repr :: reprItems rest

/-- The `key: value` text of each member. -/
def reprMembers : List (String × PyValue) → List String
  | [] => []
  | (key, value) :: rest => (pyRepr key ++ ": " ++ value.repr) :: reprMembers rest

end

end PyValue

/-- A character of joined texts comes from the separator or from one of them. -/
theorem mem_toList_intercalate {c : Char} {sep : String} {texts : List String}
    (h : c ∈ (sep.intercalate texts).toList) :
    c ∈ sep.toList ∨ ∃ text ∈ texts, c ∈ text.toList := by
  induction texts with
  | nil => simp at h
  | cons text texts ih =>
    cases texts with
    | nil => exact .inr ⟨text, List.mem_cons_self, by simpa using h⟩
    | cons next texts =>
      rw [String.intercalate_cons_cons, String.toList_append, String.toList_append,
        List.mem_append, List.mem_append] at h
      rcases h with (htext | hsep) | hrest
      · exact .inr ⟨text, List.mem_cons_self, htext⟩
      · exact .inl hsep
      · refine (ih hrest).imp_right fun ⟨text', hmem, hc⟩ => ?_
        exact ⟨text', List.mem_cons_of_mem _ hmem, hc⟩

/-- Keeping the first of equal elements leaves no two equal. -/
theorem nodup_eraseDups {α : Type} [BEq α] [LawfulBEq α] (xs : List α) : xs.eraseDups.Nodup := by
  match xs with
  | [] => simp
  | x :: xs =>
    rw [List.eraseDups_cons, List.nodup_cons]
    exact ⟨by simp, nodup_eraseDups (xs.filter fun y => !y == x)⟩
termination_by xs.length
decreasing_by exact Nat.lt_succ_of_le (List.length_filter_le _ _)

@[simp] theorem mem_pySorted {strings : List String} {s : String} :
    s ∈ pySorted strings ↔ s ∈ strings :=
  List.mem_insertionSort _

theorem pySorted_perm (strings : List String) : (pySorted strings).Perm strings :=
  List.perm_insertionSort _ strings

/-- Different strings come out in strictly increasing order. -/
theorem pairwise_pySorted {strings : List String} (h : strings.Nodup) :
    (pySorted strings).Pairwise (· < ·) := by
  have hle : (pySorted strings).Pairwise (· ≤ ·) := List.pairwise_insertionSort _ strings
  refine (hle.and ((pySorted_perm strings).nodup_iff.2 h)).imp ?_
  exact fun ⟨hle, hne⟩ => lt_of_le_of_ne hle hne

/-- Sorting forgets the order. -/
theorem pySorted_eq_of_perm {l l' : List String} (h : l.Perm l') : pySorted l = pySorted l' := by
  have hle : ∀ l : List String, (pySorted l).Pairwise (· ≤ ·) := List.pairwise_insertionSort _
  exact ((pySorted_perm l).trans (h.trans (pySorted_perm l').symm)).eq_of_pairwise
    (fun _ _ _ _ => le_antisymm) (hle l) (hle l')

/-- Under different keys, an element is alone with its key. -/
theorem filter_key_eq {α β : Type} [DecidableEq β] {key : α → β} {xs : List α}
    (h : (xs.map key).Nodup) {x : α} (hx : x ∈ xs) : xs.filter (key · = key x) = [x] := by
  induction xs with
  | nil => simp at hx
  | cons y xs ih =>
    rw [List.map_cons, List.nodup_cons] at h
    rcases List.mem_cons.1 hx with rfl | hx
    · rw [List.filter_cons_of_pos (by simp), List.filter_eq_nil_iff.2]
      intro z hz heq
      exact h.1 (List.mem_map.2 ⟨z, hz, of_decide_eq_true heq⟩)
    · have hne : key y ≠ key x := fun heq => h.1 (heq ▸ List.mem_map_of_mem hx)
      rw [List.filter_cons_of_neg (by simpa using hne), ih h.2 hx]

/-! ## Fallible computations -/

/-- A sequence that returned ran both parts. -/
theorem bind_eq_ok {ε α β : Type} {x : Except ε α} {f : α → Except ε β} {b : β}
    (h : (x >>= f) = .ok b) : ∃ a, x = .ok a ∧ f a = .ok b := by
  cases x with
  | error e => exact absurd h (by simp [bind, Except.bind])
  | ok a => exact ⟨a, rfl, h⟩

/-- A mapped result that returned has a source that returned. -/
theorem map_eq_ok {ε α β : Type} {x : Except ε α} {f : α → β} {b : β}
    (h : x.map f = .ok b) : ∃ a, x = .ok a ∧ f a = b := by
  cases x with
  | error e => exact absurd h (by simp [Except.map])
  | ok a => exact ⟨a, rfl, Except.ok.inj h⟩

/-- A mapped result that raised has a source that raised. -/
theorem map_eq_error {ε α β : Type} {x : Except ε α} {f : α → β} {e : ε}
    (h : x.map f = .error e) : x = .error e := by
  cases x with
  | error e' => exact congrArg Except.error (Except.error.inj h)
  | ok a => exact absurd h (by simp [Except.map])

/-- A `mapM` that returned did so on every element. -/
theorem mapM_eq_ok {ε α β : Type} {f : α → Except ε β} {xs : List α} {ys : List β}
    (h : xs.mapM f = .ok ys) : List.Forall₂ (fun x y => f x = .ok y) xs ys := by
  induction xs generalizing ys with
  | nil =>
    rw [List.mapM_nil] at h
    rw [← Except.ok.inj h]
    exact .nil
  | cons x xs ih =>
    rw [List.mapM_cons] at h
    obtain ⟨y, hy, h⟩ := bind_eq_ok h
    obtain ⟨tail, htail, h⟩ := bind_eq_ok h
    rw [← Except.ok.inj h]
    exact .cons hy (ih htail)

/-- A `mapM` of computations that return collects their results. -/
theorem mapM_of_ok {ε α β : Type} {f : α → Except ε β} {g : α → β} {xs : List α}
    (h : ∀ x ∈ xs, f x = .ok (g x)) : xs.mapM f = .ok (xs.map g) := by
  induction xs with
  | nil => rfl
  | cons x xs ih =>
    rw [List.mapM_cons, h x List.mem_cons_self, ih fun y hy => h y (List.mem_cons_of_mem _ hy)]
    rfl

/-- Elements paired by a relation have partners on both sides. -/
theorem forall₂_mem {α β : Type} {R : α → β → Prop} {xs : List α} {ys : List β}
    (h : List.Forall₂ R xs ys) :
    (∀ y ∈ ys, ∃ x ∈ xs, R x y) ∧ ∀ x ∈ xs, ∃ y ∈ ys, R x y := by
  induction h with
  | nil => simp
  | cons hx _ ih =>
    simp only [List.mem_cons, exists_eq_or_imp, forall_eq_or_imp]
    exact ⟨⟨.inl hx, fun y hy => .inr (ih.1 y hy)⟩, .inl hx, fun x hx' => .inr (ih.2 x hx')⟩

/-- Every result of a `mapM` is that of an element, and every element has one. -/
theorem mem_mapM {ε α β : Type} {f : α → Except ε β} {xs : List α} {ys : List β}
    (h : xs.mapM f = .ok ys) :
    (∀ y ∈ ys, ∃ x ∈ xs, f x = .ok y) ∧ ∀ x ∈ xs, ∃ y ∈ ys, f x = .ok y :=
  forall₂_mem (mapM_eq_ok h)

/-- A `forM` that returned did so on every element. -/
theorem forM_eq_ok {ε α : Type} {f : α → Except ε Unit} {xs : List α}
    (h : xs.forM f = .ok ()) : ∀ x ∈ xs, f x = .ok () := by
  induction xs with
  | nil => simp
  | cons x xs ih =>
    rw [List.forM_eq_forM, List.forM_cons] at h
    obtain ⟨⟨⟩, hx, h⟩ := bind_eq_ok h
    exact List.forall_mem_cons.2 ⟨hx, ih h⟩

/-- A `mapM` that raised did so at one of the elements. -/
theorem mapM_eq_error {ε α β : Type} {f : α → Except ε β} {xs : List α} {e : ε}
    (h : xs.mapM f = .error e) : ∃ x ∈ xs, f x = .error e := by
  induction xs with
  | nil => exact absurd h (by simp [pure, Except.pure])
  | cons x xs ih =>
    rw [List.mapM_cons] at h
    cases hx : f x with
    | error e' =>
      rw [hx] at h
      obtain rfl : e' = e := Except.error.inj h
      exact ⟨x, List.mem_cons_self, hx⟩
    | ok y =>
      cases hxs : xs.mapM f with
      | error e' =>
        rw [hx, hxs] at h
        obtain rfl : e' = e := Except.error.inj h
        obtain ⟨x', hmem, hx'⟩ := ih hxs
        exact ⟨x', List.mem_cons_of_mem _ hmem, hx'⟩
      | ok ys => simp [hx, hxs, bind, Except.bind, pure, Except.pure] at h

/-- A `mapM` of calls that all return does return. -/
theorem exists_mapM {ε α β : Type} {f : α → Except ε β} {xs : List α}
    (h : ∀ x ∈ xs, ∃ y, f x = .ok y) : ∃ ys, xs.mapM f = .ok ys := by
  induction xs with
  | nil => exact ⟨[], rfl⟩
  | cons x xs ih =>
    obtain ⟨y, hy⟩ := h x List.mem_cons_self
    obtain ⟨ys, hys⟩ := ih fun x' hx' => h x' (List.mem_cons_of_mem _ hx')
    exact ⟨y :: ys, by rw [List.mapM_cons, hy, hys]; rfl⟩

/-- A `mapM` of calls that return what they should returns all of it. -/
theorem mapM_forall₂ {ε α β : Type} {f : α → Except ε β} {R : α → β → Prop} {xs : List α}
    (h : ∀ x ∈ xs, ∃ y, f x = .ok y ∧ R x y) :
    ∃ ys, xs.mapM f = .ok ys ∧ List.Forall₂ R xs ys := by
  induction xs with
  | nil => exact ⟨[], rfl, .nil⟩
  | cons x xs ih =>
    obtain ⟨y, hy, hR⟩ := h x List.mem_cons_self
    obtain ⟨ys, hys, hall⟩ := ih fun x' hx' => h x' (List.mem_cons_of_mem _ hx')
    exact ⟨y :: ys, by rw [List.mapM_cons, hy, hys]; rfl, .cons hR hall⟩

/-- Under different keys, a lookup finds exactly the members. -/
theorem lookup_eq_some_iff_mem {α : Type} {l : List (String × α)} (h : (l.map (·.1)).Nodup)
    {k : String} {v : α} : l.lookup k = some v ↔ (k, v) ∈ l := by
  induction l with
  | nil => simp
  | cons p l ih =>
    rw [List.map_cons, List.nodup_cons] at h
    rw [List.lookup_cons, List.mem_cons]
    cases hk : k == p.1 with
    | false => simpa [show (k, v) ≠ p by rintro rfl; simp at hk] using ih h.2
    | true =>
      obtain rfl := eq_of_beq hk
      have hnot : (p.1, v) ∉ l := fun hmem => h.1 (List.mem_map_of_mem (f := (·.1)) hmem)
      simp only [Option.some.injEq, hnot, or_false]
      exact ⟨fun hv => hv ▸ rfl, fun hp => (congrArg Prod.snd hp).symm⟩

end SchemaBrain.Base
