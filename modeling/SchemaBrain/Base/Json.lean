import Mathlib.Data.List.Basic
import Mathlib.Data.List.Sort
import Mathlib.Data.String.Basic
import SchemaBrain.Base.Bytes

/-!
# Canonical JSON text

The text of `json.dumps` with `separators=(",", ":")`, over either string escape, and
its injectivity: a text that starts with a dumped value and goes on with a delimiter
determines the value and the rest.
-/

namespace SchemaBrain.Base

/-- JSON values, the members of an object in order. -/
inductive Json
  | null
  | bool (b : Bool)
  | int (i : Int)
  | str (s : String)
  | arr (items : List Json)
  | obj (members : List (String × Json))
  deriving Repr

namespace Json

/-- Four lowercase hex digits. -/
def hex4 (n : Nat) : List Char :=
  [hexDigit (n / 4096 % 16), hexDigit (n / 256 % 16), hexDigit (n / 16 % 16), hexDigit (n % 16)]

/-- The short escapes of `json.encoder.ESCAPE_DCT`. -/
def shortEscape (c : Char) : Option (List Char) :=
  if c = '"' then some ['\\', '"']
  else if c = '\\' then some ['\\', '\\']
  else if c = '\n' then some ['\\', 'n']
  else if c = '\r' then some ['\\', 'r']
  else if c = '\t' then some ['\\', 't']
  else if c.toNat = 12 then some ['\\', 'f']
  else if c.toNat = 8 then some ['\\', 'b']
  else none

/-- One character under `ensure_ascii=False`: only controls, quotes and backslashes change. -/
def escapeUtf8 (c : Char) : List Char :=
  match shortEscape c with
  | some e => e
  | none => if c.toNat < 32 then '\\' :: 'u' :: hex4 c.toNat else [c]

/-- One character under `ensure_ascii=True`: everything outside printable ASCII becomes
`\uXXXX`, in two units beyond the basic plane. -/
def escapeAscii (c : Char) : List Char :=
  match shortEscape c with
  | some e => e
  | none =>
    let n := c.toNat
    if 32 ≤ n ∧ n < 127 then [c]
    else if n < 65536 then '\\' :: 'u' :: hex4 n
    else
      let m := n - 65536
      '\\' :: 'u' :: hex4 (0xd800 + m / 1024) ++ '\\' :: 'u' :: hex4 (0xdc00 + m % 1024)

/-- Decimal digits with a sign. -/
def intChars : Int → List Char
  | .ofNat n => Nat.toDigits 10 n
  | .negSucc n => '-' :: Nat.toDigits 10 (n + 1)

section Dump

variable (esc : Char → List Char)

/-- A quoted string. -/
def dumpStr (s : String) : List Char := '"' :: (s.toList.flatMap esc ++ ['"'])

mutual

/-- The compact text of a value. -/
def dump : Json → List Char
  | .null => ['n', 'u', 'l', 'l']
  | .bool true => ['t', 'r', 'u', 'e']
  | .bool false => ['f', 'a', 'l', 's', 'e']
  | .int i => intChars i
  | .str s => dumpStr esc s
  | .arr [] => ['[', ']']
  | .arr (v :: vs) => '[' :: (dump v ++ dumpItems vs ++ [']'])
  | .obj [] => ['{', '}']
  | .obj ((k, v) :: ms) => '{' :: (dumpStr esc k ++ ':' :: dump v ++ dumpMembers ms ++ ['}'])

/-- The items after the first one. -/
def dumpItems : List Json → List Char
  | [] => []
  | v :: vs => ',' :: dump v ++ dumpItems vs

/-- The members after the first one. -/
def dumpMembers : List (String × Json) → List Char
  | [] => []
  | (k, v) :: ms => ',' :: dumpStr esc k ++ ':' :: dump v ++ dumpMembers ms

end

end Dump

mutual

/-- `sort_keys=True`: the members of every object in ascending key order. -/
def sortKeys : Json → Json
  | .arr items => .arr (sortKeysItems items)
  | .obj members => .obj ((sortKeysMembers members).insertionSort fun a b => a.1 ≤ b.1)
  | v => v

/-- Every item with sorted keys. -/
def sortKeysItems : List Json → List Json
  | [] => []
  | v :: vs => sortKeys v :: sortKeysItems vs

/-- Every member's value with sorted keys. -/
def sortKeysMembers : List (String × Json) → List (String × Json)
  | [] => []
  | (k, v) :: ms => (k, sortKeys v) :: sortKeysMembers ms

end

/-- `json.dumps(v, sort_keys=True, separators=(",", ":")).encode("utf-8")`. -/
def dumpsBytes (esc : Char → List Char) (v : Json) : Bytes :=
  encodeChars (dump esc (sortKeys v))

example : String.ofList (dump escapeUtf8 (sortKeys (.obj [("b", .int (-3)), ("a", .str "x\n")]))) =
    "\x7b\"a\":\"x\\n\",\"b\":-3\x7d" := by decide

/-! ## Numbers -/

/-- What follows a number in a text does not continue its digits. -/
def NoDigitHead (r : List Char) : Prop := r.takeWhile Char.isDigit = []

@[simp] theorem noDigitHead_nil : NoDigitHead [] := rfl

@[simp] theorem noDigitHead_cons (c : Char) (r : List Char) :
    NoDigitHead (c :: r) ↔ c.isDigit = false := by
  unfold NoDigitHead
  rw [List.takeWhile_cons]
  cases c.isDigit <;> simp

private theorem takeWhile_digits (n : Nat) {r : List Char} (hr : NoDigitHead r) :
    (Nat.toDigits 10 n ++ r).takeWhile Char.isDigit = Nat.toDigits 10 n := by
  rw [List.takeWhile_append_of_pos]
  · rw [hr, List.append_nil]
  · intro c hc
    exact Nat.isDigit_of_mem_toDigits (by omega) (by omega) hc

/-- Digits followed by no further digit determine the number and the rest. -/
theorem digits_append_inj {m n : Nat} {r s : List Char} (hr : NoDigitHead r) (hs : NoDigitHead s)
    (h : Nat.toDigits 10 m ++ r = Nat.toDigits 10 n ++ s) : m = n ∧ r = s := by
  have hdigits : Nat.toDigits 10 m = Nat.toDigits 10 n := by
    rw [← takeWhile_digits m hr, h, takeWhile_digits n hs]
  refine ⟨?_, ?_⟩
  · rw [← Nat.ofDigitChars_ten_toDigits (n := m), hdigits, Nat.ofDigitChars_ten_toDigits]
  · rw [hdigits] at h
    exact List.append_cancel_left h

private theorem digits_head (n : Nat) : ∃ c t, Nat.toDigits 10 n = c :: t ∧ c.isDigit = true := by
  cases h : Nat.toDigits 10 n with
  | nil => exact absurd h Nat.toDigits_ne_nil
  | cons c t =>
    refine ⟨c, t, rfl, Nat.isDigit_of_mem_toDigits (b := 10) (n := n) (by omega) (by omega) ?_⟩
    simp [h]

private theorem digits_ne_minus {n : Nat} {r s : List Char} :
    Nat.toDigits 10 n ++ r ≠ '-' :: s := by
  obtain ⟨c, t, hct, hc⟩ := digits_head n
  rw [hct, List.cons_append]
  rintro h
  rw [(List.cons.inj h).1] at hc
  exact absurd hc (by decide)

/-- A number's text and a following delimiter determine the number and the rest. -/
theorem intChars_append_inj {i j : Int} {r s : List Char} (hr : NoDigitHead r)
    (hs : NoDigitHead s) (h : intChars i ++ r = intChars j ++ s) : i = j ∧ r = s := by
  match i, j with
  | .ofNat m, .ofNat n =>
    obtain ⟨rfl, hrest⟩ := digits_append_inj hr hs h
    exact ⟨rfl, hrest⟩
  | .negSucc m, .negSucc n =>
    obtain ⟨hmn, hrest⟩ := digits_append_inj hr hs (List.cons.inj h).2
    exact ⟨by rw [Nat.succ.inj hmn], hrest⟩
  | .ofNat m, .negSucc n => exact absurd h digits_ne_minus
  | .negSucc m, .ofNat n => exact absurd h.symm digits_ne_minus

/-! ## Strings -/

/-- A string escape that can be read back: one character off the front of any text, and never
a closing quote. -/
structure Readable (esc : Char → List Char) : Prop where
  /-- Two escapes at the front of one text are of one character. -/
  inj : ∀ {c d : Char} {r s : List Char}, esc c ++ r = esc d ++ s → c = d
  /-- No escape starts with the quote that ends a string. -/
  not_quote : ∀ (c : Char) (r s : List Char), esc c ++ r ≠ '"' :: s

private theorem escaped_append_inj {esc : Char → List Char} (hesc : Readable esc)
    {a b r s : List Char} (h : a.flatMap esc ++ '"' :: r = b.flatMap esc ++ '"' :: s) :
    a = b ∧ r = s := by
  induction a generalizing b with
  | nil =>
    cases b with
    | nil => exact ⟨rfl, (List.cons.inj h).2⟩
    | cons d b =>
      rw [List.flatMap_nil, List.flatMap_cons, List.append_assoc] at h
      exact absurd h.symm (hesc.not_quote d _ _)
  | cons c a ih =>
    cases b with
    | nil =>
      rw [List.flatMap_nil, List.flatMap_cons, List.append_assoc] at h
      exact absurd h (hesc.not_quote c _ _)
    | cons d b =>
      simp only [List.flatMap_cons, List.append_assoc] at h
      obtain rfl := hesc.inj h
      obtain ⟨rfl, hrest⟩ := ih (List.append_cancel_left h)
      exact ⟨rfl, hrest⟩

/-- A quoted string at the front of a text determines the string and the rest. -/
theorem dumpStr_append_inj {esc : Char → List Char} (hesc : Readable esc) {a b : String}
    {r s : List Char} (h : dumpStr esc a ++ r = dumpStr esc b ++ s) : a = b ∧ r = s := by
  simp only [dumpStr, List.cons_append, List.append_assoc, List.cons.injEq, true_and,
    List.nil_append] at h
  obtain ⟨hlist, hrest⟩ := escaped_append_inj hesc h
  exact ⟨String.toList_inj.mp hlist, hrest⟩

/-- The inverse of `shortEscape` on the letter after the backslash. -/
private def shortMeaning (c : Char) : Option Char :=
  if c = '"' then some '"'
  else if c = '\\' then some '\\'
  else if c = 'n' then some '\n'
  else if c = 'r' then some '\r'
  else if c = 't' then some '\t'
  else if c = 'f' then some (Char.ofNat 12)
  else if c = 'b' then some (Char.ofNat 8)
  else none

/-- The first character of a text escaped by `escapeUtf8`. -/
private def readUtf8 : List Char → Option Char
  | '\\' :: 'u' :: _ :: _ :: h :: l :: _ => some (Char.ofNat (16 * hexValue h + hexValue l))
  | '\\' :: c :: _ => shortMeaning c
  | c :: _ => some c
  | [] => none

private theorem shortEscape_some {c : Char} {e : List Char} (h : shortEscape c = some e) :
    ∃ letter, e = ['\\', letter] ∧ letter ≠ 'u' ∧ shortMeaning letter = some c := by
  unfold shortEscape at h
  split_ifs at h with h1 h2 h3 h4 h5 h6 h7
  · exact ⟨'"', (Option.some.inj h).symm, by decide, by rw [h1]; rfl⟩
  · exact ⟨'\\', (Option.some.inj h).symm, by decide, by rw [h2]; rfl⟩
  · exact ⟨'n', (Option.some.inj h).symm, by decide, by rw [h3]; rfl⟩
  · exact ⟨'r', (Option.some.inj h).symm, by decide, by rw [h4]; rfl⟩
  · exact ⟨'t', (Option.some.inj h).symm, by decide, by rw [h5]; rfl⟩
  · exact ⟨'f', (Option.some.inj h).symm, by decide, by rw [← Char.ofNat_toNat c, h6]; rfl⟩
  · exact ⟨'b', (Option.some.inj h).symm, by decide, by rw [← Char.ofNat_toNat c, h7]; rfl⟩

private theorem shortEscape_none {c : Char} (h : shortEscape c = none) : c ≠ '"' ∧ c ≠ '\\' := by
  constructor
  · rintro rfl
    exact absurd h (by decide)
  · rintro rfl
    exact absurd h (by decide)

private theorem readUtf8_escapeUtf8 (c : Char) (r : List Char) :
    readUtf8 (escapeUtf8 c ++ r) = some c := by
  unfold escapeUtf8
  cases hshort : shortEscape c with
  | some e =>
    obtain ⟨letter, rfl, hu, hmeaning⟩ := shortEscape_some hshort
    simp only [List.cons_append, List.nil_append]
    rw [readUtf8]
    · exact hmeaning
    · rintro _ _ _ _ _ h -
      exact hu h
  | none =>
    dsimp only
    split
    · simp only [hex4, List.cons_append, readUtf8, hexValue_hexDigit (Nat.mod_lt _ (by omega))]
      rw [show 16 * (c.toNat / 16 % 16) + c.toNat % 16 = c.toNat by omega, Char.ofNat_toNat]
    · have hback := (shortEscape_none hshort).2
      rw [List.singleton_append, readUtf8]
      · rintro _ _ _ _ _ rfl
        exact absurd rfl hback
      · rintro _ _ rfl
        exact absurd rfl hback

/-- `ensure_ascii=False` escapes can be read back. -/
theorem readable_escapeUtf8 : Readable escapeUtf8 where
  inj := by
    intro c d r s h
    have hc := readUtf8_escapeUtf8 c r
    rw [h, readUtf8_escapeUtf8] at hc
    exact (Option.some.inj hc).symm
  not_quote := by
    intro c r s h
    have hc : c = '"' := by
      have hread := readUtf8_escapeUtf8 c r
      rw [h] at hread
      exact (Option.some.inj hread).symm
    subst hc
    simp [escapeUtf8, shortEscape] at h

/-! ## Values -/

/-- The constructor of a value, as the first character of its text shows it. -/
inductive Kind
  | null
  | bool
  | int
  | str
  | arr
  | obj
  deriving DecidableEq

/-- The kind of a value. -/
def kind : Json → Kind
  | .null => .null
  | .bool _ => .bool
  | .int _ => .int
  | .str _ => .str
  | .arr _ => .arr
  | .obj _ => .obj

/-- The kind a text starts with. -/
def headKind (c : Char) : Kind :=
  if c = 'n' then .null
  else if c = 't' ∨ c = 'f' then .bool
  else if c = '"' then .str
  else if c = '[' then .arr
  else if c = '{' then .obj
  else .int

private theorem headKind_digit {c : Char} (h : c.isDigit = true) : headKind c = .int := by
  have hne : c ≠ 'n' ∧ c ≠ 't' ∧ c ≠ 'f' ∧ c ≠ '"' ∧ c ≠ '[' ∧ c ≠ '{' := by
    refine ⟨?_, ?_, ?_, ?_, ?_, ?_⟩ <;> (rintro rfl; exact absurd h (by decide))
  simp [headKind, hne]

/-- Every text starts with a character of its kind, which closes or separates nothing. -/
theorem dump_head (esc : Char → List Char) (v : Json) :
    ∃ c t, dump esc v = c :: t ∧ headKind c = v.kind ∧ c ≠ ']' := by
  match v with
  | .null => exact ⟨_, _, by rw [dump], rfl, by decide⟩
  | .bool true => exact ⟨_, _, by rw [dump], rfl, by decide⟩
  | .bool false => exact ⟨_, _, by rw [dump], rfl, by decide⟩
  | .int (.ofNat n) =>
    obtain ⟨c, t, hct, hc⟩ := digits_head n
    refine ⟨c, t, by rw [dump, intChars, hct], headKind_digit hc, ?_⟩
    rintro rfl
    exact absurd hc (by decide)
  | .int (.negSucc n) => exact ⟨_, _, by rw [dump, intChars], rfl, by decide⟩
  | .str s => exact ⟨_, _, by rw [dump, dumpStr], rfl, by decide⟩
  | .arr [] => exact ⟨_, _, by rw [dump], rfl, by decide⟩
  | .arr (v :: vs) => exact ⟨_, _, by rw [dump], rfl, by decide⟩
  | .obj [] => exact ⟨_, _, by rw [dump], rfl, by decide⟩
  | .obj ((k, v) :: ms) => exact ⟨_, _, by rw [dump], rfl, by decide⟩

private theorem kind_eq {esc : Char → List Char} {v w : Json} {r s : List Char}
    (h : dump esc v ++ r = dump esc w ++ s) : v.kind = w.kind := by
  obtain ⟨c, t, hv, hc, -⟩ := dump_head esc v
  obtain ⟨d, u, hw, hd, -⟩ := dump_head esc w
  rw [hv, hw, List.cons_append, List.cons_append] at h
  rw [← hc, ← hd, (List.cons.inj h).1]

private theorem dump_ne_close {esc : Char → List Char} {v : Json} {r s : List Char} :
    dump esc v ++ r ≠ ']' :: s := by
  obtain ⟨c, t, hv, -, hc⟩ := dump_head esc v
  rw [hv, List.cons_append]
  intro h
  exact hc (List.cons.inj h).1

private theorem dumpItems_noDigitHead (esc : Char → List Char) (vs : List Json) (r : List Char) :
    NoDigitHead (dumpItems esc vs ++ ']' :: r) := by
  cases vs <;> simp [dumpItems]

private theorem dumpMembers_noDigitHead (esc : Char → List Char) (ms : List (String × Json))
    (r : List Char) : NoDigitHead (dumpMembers esc ms ++ '}' :: r) := by
  match ms with
  | [] => simp [dumpMembers]
  | (k, v) :: ms => simp [dumpMembers]

mutual

/-- A value's text and a following delimiter determine the value and the rest. -/
theorem dump_append_inj {esc : Char → List Char} (hesc : Readable esc) :
    ∀ (v w : Json) {r s : List Char}, NoDigitHead r → NoDigitHead s →
      dump esc v ++ r = dump esc w ++ s → v = w ∧ r = s
  | .null, w, r, s, _, _, h => by
    have hk := kind_eq h
    cases w with
    | null => exact ⟨rfl, by simpa [dump] using h⟩
    | _ => simp [kind] at hk
  | .bool a, w, r, s, _, _, h => by
    have hk := kind_eq h
    cases w with
    | bool b =>
      cases a <;> cases b
      case false.false => exact ⟨rfl, by simpa [dump] using h⟩
      case true.true => exact ⟨rfl, by simpa [dump] using h⟩
      all_goals simp [dump] at h
    | _ => simp [kind] at hk
  | .int i, w, r, s, hr, hs, h => by
    have hk := kind_eq h
    cases w with
    | int j =>
      simp only [dump] at h
      obtain ⟨rfl, hrest⟩ := intChars_append_inj hr hs h
      exact ⟨rfl, hrest⟩
    | _ => simp [kind] at hk
  | .str a, w, r, s, _, _, h => by
    have hk := kind_eq h
    cases w with
    | str b =>
      simp only [dump] at h
      obtain ⟨rfl, hrest⟩ := dumpStr_append_inj hesc h
      exact ⟨rfl, hrest⟩
    | _ => simp [kind] at hk
  | .arr [], w, r, s, _, _, h => by
    have hk := kind_eq h
    cases w with
    | arr items =>
      cases items with
      | nil => exact ⟨rfl, by simpa [dump] using h⟩
      | cons b bs =>
        simp only [dump, List.cons_append, List.append_assoc, List.cons.injEq, true_and] at h
        exact absurd h.symm dump_ne_close
    | _ => simp [kind] at hk
  | .arr (a :: as), w, r, s, _, _, h => by
    have hk := kind_eq h
    cases w with
    | arr items =>
      cases items with
      | nil =>
        simp only [dump, List.cons_append, List.append_assoc, List.cons.injEq, true_and] at h
        exact absurd h dump_ne_close
      | cons b bs =>
        simp only [dump, List.cons_append, List.append_assoc, List.cons.injEq, true_and,
          List.nil_append] at h
        obtain ⟨rfl, htail⟩ := dump_append_inj hesc a b (dumpItems_noDigitHead esc as r)
          (dumpItems_noDigitHead esc bs s) h
        obtain ⟨rfl, hrest⟩ := dumpItems_append_inj hesc as bs htail
        exact ⟨rfl, hrest⟩
    | _ => simp [kind] at hk
  | .obj [], w, r, s, _, _, h => by
    have hk := kind_eq h
    cases w with
    | obj members =>
      match members with
      | [] => exact ⟨rfl, by simpa [dump] using h⟩
      | (k, b) :: ms => simp [dump, dumpStr] at h
    | _ => simp [kind] at hk
  | .obj ((j, a) :: as), w, r, s, _, _, h => by
    have hk := kind_eq h
    cases w with
    | obj members =>
      match members with
      | [] => simp [dump, dumpStr] at h
      | (k, b) :: bs =>
        simp only [dump, List.cons_append, List.append_assoc, List.cons.injEq, true_and,
          List.nil_append] at h
        obtain ⟨rfl, hvalue⟩ := dumpStr_append_inj hesc h
        obtain ⟨rfl, htail⟩ := dump_append_inj hesc a b (dumpMembers_noDigitHead esc as r)
          (dumpMembers_noDigitHead esc bs s) (List.cons.inj hvalue).2
        obtain ⟨rfl, hrest⟩ := dumpMembers_append_inj hesc as bs htail
        exact ⟨rfl, hrest⟩
    | _ => simp [kind] at hk

/-- The remaining items up to the closing bracket determine them and the rest. -/
theorem dumpItems_append_inj {esc : Char → List Char} (hesc : Readable esc) :
    ∀ (as bs : List Json) {r s : List Char},
      dumpItems esc as ++ ']' :: r = dumpItems esc bs ++ ']' :: s → as = bs ∧ r = s
  | [], [], r, s, h => ⟨rfl, by simpa [dumpItems] using h⟩
  | [], _ :: _, r, s, h => by simp [dumpItems] at h
  | _ :: _, [], r, s, h => by simp [dumpItems] at h
  | a :: as, b :: bs, r, s, h => by
    simp only [dumpItems, List.cons_append, List.append_assoc, List.cons.injEq, true_and] at h
    obtain ⟨rfl, htail⟩ := dump_append_inj hesc a b (dumpItems_noDigitHead esc as r)
      (dumpItems_noDigitHead esc bs s) h
    obtain ⟨rfl, hrest⟩ := dumpItems_append_inj hesc as bs htail
    exact ⟨rfl, hrest⟩

/-- The remaining members up to the closing brace determine them and the rest. -/
theorem dumpMembers_append_inj {esc : Char → List Char} (hesc : Readable esc) :
    ∀ (as bs : List (String × Json)) {r s : List Char},
      dumpMembers esc as ++ '}' :: r = dumpMembers esc bs ++ '}' :: s → as = bs ∧ r = s
  | [], [], r, s, h => ⟨rfl, by simpa [dumpMembers] using h⟩
  | [], (_, _) :: _, r, s, h => by simp [dumpMembers] at h
  | (_, _) :: _, [], r, s, h => by simp [dumpMembers] at h
  | (j, a) :: as, (k, b) :: bs, r, s, h => by
    simp only [dumpMembers, List.cons_append, List.append_assoc, List.cons.injEq, true_and] at h
    obtain ⟨rfl, hvalue⟩ := dumpStr_append_inj hesc h
    obtain ⟨rfl, htail⟩ := dump_append_inj hesc a b (dumpMembers_noDigitHead esc as r)
      (dumpMembers_noDigitHead esc bs s) (List.cons.inj hvalue).2
    obtain ⟨rfl, hrest⟩ := dumpMembers_append_inj hesc as bs htail
    exact ⟨rfl, hrest⟩

end

/-- Equal texts are of equal values. -/
theorem dump_injective {esc : Char → List Char} (hesc : Readable esc) :
    Function.Injective (dump esc) := by
  intro v w h
  refine (dump_append_inj hesc v w (r := []) (s := []) noDigitHead_nil noDigitHead_nil ?_).1
  rw [h]

/-- Sorting by key loses no member. -/
theorem sortedMembers_perm (members : List (String × Json)) :
    ((members.insertionSort fun a b => a.1 ≤ b.1)).Perm members :=
  List.perm_insertionSort _ members

/-- Members in one key order with distinct keys are determined by their set. -/
theorem members_eq_of_perm {as bs : List (String × Json)} (hperm : as.Perm bs)
    (hkeys : as.map Prod.fst = bs.map Prod.fst) (hnodup : (as.map Prod.fst).Nodup) : as = bs := by
  induction as generalizing bs with
  | nil => exact (List.nil_perm.mp hperm).symm
  | cons a as ih =>
    cases bs with
    | nil => simp at hkeys
    | cons b bs =>
      simp only [List.map_cons, List.cons.injEq] at hkeys
      rw [List.map_cons, List.nodup_cons] at hnodup
      have hab : a = b := by
        rcases List.mem_cons.mp (hperm.mem_iff.mp List.mem_cons_self) with hab | hmem
        · exact hab
        · refine absurd ?_ hnodup.1
          rw [hkeys.2]
          exact List.mem_map_of_mem hmem
      subst hab
      rw [ih (List.perm_cons a |>.mp hperm) hkeys.2 hnodup.2]

/-- Equal canonical bytes are of values that agree up to the order of members. -/
theorem dumpsBytes_inj {v w : Json} (h : dumpsBytes escapeUtf8 v = dumpsBytes escapeUtf8 w) :
    v.sortKeys = w.sortKeys :=
  dump_injective readable_escapeUtf8 (encodeChars_injective h)

end Json

end SchemaBrain.Base
