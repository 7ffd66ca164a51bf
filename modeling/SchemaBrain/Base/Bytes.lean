import Mathlib.Data.List.Basic
import Mathlib.Data.Set.Function

/-!
# Byte strings, fixed-width digests and lowercase hex

Byte strings are lists of octets. A digest carries its width in its type, so that
a concatenation that starts or ends with a digest can be taken apart again.
-/

namespace SchemaBrain.Base

/-- Variable-length immutable byte strings. -/
abbrev Bytes := List UInt8

/-- A 32-byte digest: the width is part of the value. -/
abbrev Digest := { b : Bytes // b.length = 32 }

/-- A hash function into 32-byte digests. -/
abbrev HashFn := Bytes → Digest

/-- The bytes of a text in UTF-8. -/
def encodeChars (text : List Char) : Bytes := text.flatMap String.utf8EncodeChar

/-- The bytes of a string in UTF-8. -/
def encodeUtf8 (s : String) : Bytes := encodeChars s.toList

/-- UTF-8 encoding loses nothing. -/
theorem encodeChars_injective : Function.Injective encodeChars := by
  intro a b h
  have hbytes : a.utf8Encode = b.utf8Encode := congrArg List.toByteArray h
  rw [← String.toByteArray_ofList, ← String.toByteArray_ofList] at hbytes
  exact String.ofList_inj.mp (String.toByteArray_inj.mp hbytes)

/-- One lowercase hexadecimal digit. -/
def hexDigit (n : Nat) : Char :=
  if n < 10 then Char.ofNat (48 + n) else Char.ofNat (87 + n)

/-- The value of a lowercase hexadecimal digit. -/
def hexValue (c : Char) : Nat :=
  if c.toNat < 58 then c.toNat - 48 else c.toNat - 87

/-- Reading a digit back gives its value. -/
theorem hexValue_hexDigit {n : Nat} (h : n < 16) : hexValue (hexDigit n) = n := by
  have hall : ∀ m, m < 16 → hexValue (hexDigit m) = m := by decide
  exact hall n h

/-- Lowercase hex of a byte string, two digits a byte. -/
def hexChars : Bytes → List Char
  | [] => []
  | b :: bs => hexDigit (b.toNat / 16) :: hexDigit (b.toNat % 16) :: hexChars bs

/-- Lowercase hex as a string; Python's `bytes.hex`. -/
def hex (b : Bytes) : String := String.ofList (hexChars b)

private theorem hexDigit_inj {m n : Nat} (hm : m < 16) (hn : n < 16)
    (h : hexDigit m = hexDigit n) : m = n := by
  rw [← hexValue_hexDigit hm, ← hexValue_hexDigit hn, h]

/-- The hex rendering determines every byte. -/
theorem hexChars_injective : Function.Injective hexChars := by
  intro a
  induction a with
  | nil =>
    intro b h
    cases b with
    | nil => rfl
    | cons y ys => simp [hexChars] at h
  | cons x xs ih =>
    intro b h
    cases b with
    | nil => simp [hexChars] at h
    | cons y ys =>
      simp only [hexChars, List.cons.injEq] at h
      obtain ⟨hhigh, hlow, htail⟩ := h
      have hx := x.toNat_lt
      have hy := y.toNat_lt
      have hdiv : x.toNat / 16 = y.toNat / 16 := hexDigit_inj (by omega) (by omega) hhigh
      have hmod : x.toNat % 16 = y.toNat % 16 := hexDigit_inj (by omega) (by omega) hlow
      have hxy : x = y := UInt8.toNat_inj.mp (by omega)
      rw [hxy, ih htail]

/-- Hex strings are equal only for equal byte strings. -/
theorem hex_injective : Function.Injective hex := by
  intro a b h
  exact hexChars_injective (String.ofList_inj.mp h)

/-- Two concatenations whose left parts have one width agree part by part. -/
theorem append_inj_of_width_left {a b c d : Bytes} (hw : a.length = c.length)
    (h : a ++ b = c ++ d) : a = c ∧ b = d :=
  List.append_inj h hw

/-- Two concatenations whose right parts have one width agree part by part. -/
theorem append_inj_of_width_right {a b c d : Bytes} (hw : b.length = d.length)
    (h : a ++ b = c ++ d) : a = c ∧ b = d :=
  List.append_inj' h hw

/-- `H` has no collision among the listed preimages. -/
def CollisionFreeOn (H : HashFn) (preimages : List Bytes) : Prop :=
  ∀ x ∈ preimages, ∀ y ∈ preimages, H x = H y → x = y

instance (H : HashFn) (preimages : List Bytes) : Decidable (CollisionFreeOn H preimages) :=
  inferInstanceAs (Decidable (∀ x ∈ preimages, ∀ y ∈ preimages, H x = H y → x = y))

/-- Fewer preimages leave fewer collisions. -/
theorem CollisionFreeOn.mono {H : HashFn} {p q : List Bytes} (h : CollisionFreeOn H q)
    (hsub : p ⊆ q) : CollisionFreeOn H p :=
  fun x hx y hy => h x (hsub hx) y (hsub hy)

end SchemaBrain.Base
