import Mathlib.Data.Nat.Factorization.Basic
import SchemaBrain.Audit.Merkle

/-!
# The browser's inclusion verifier

`web/lib/merkle.ts`. The numbers are integers that a double represents exactly; the bitwise
operators first reduce them to 32 bits. The walk is that of `verify_inclusion` until a
counter does not fit, and it asks every hash for 32 bytes.
-/

namespace SchemaBrain.Web

open Base Audit

/-! ## Bitwise operators -/

/-- `ToInt32`: the low 32 bits, read with a sign. -/
def toInt32 (x : Int) : Int :=
  if x % 2 ^ 32 < 2 ^ 31 then x % 2 ^ 32 else x % 2 ^ 32 - 2 ^ 32

/-- `x & 1`. -/
def and1 (x : Int) : Int := toInt32 x % 2

/-- `x >> 1`. -/
def shr1 (x : Int) : Int := toInt32 x / 2

theorem and1_eq (x : Int) : and1 x = x % 2 := by
  unfold and1 toInt32
  split <;> omega

/-- A number below `2 ^ 31` is halved. -/
theorem shr1_nat {a : Nat} (ha : a < 2 ^ 31) : shr1 a = ((a / 2 : Nat) : Int) := by
  unfold shr1 toInt32
  split <;> omega

theorem shr1_neg {x : Int} (hlow : -2 ^ 31 ≤ x) (hneg : x < 0) :
    -2 ^ 31 ≤ shr1 x ∧ shr1 x < 0 := by
  unfold shr1 toInt32
  split <;> omega

theorem natAbs_shr1_lt {x : Int} (heven : and1 x = 0) (hne : x ≠ 0) :
    (shr1 x).natAbs < x.natAbs := by
  rw [and1_eq] at heven
  unfold shr1 toInt32
  split <;> omega

/-! ## The verifier -/

/-- `DIGEST_BYTES`. -/
def digestBytes : Nat := 32

/-- The inner `while` loop. -/
def collapse (fn sn : Int) : Int × Int :=
  if and1 fn = 0 ∧ fn ≠ 0 then collapse (shr1 fn) (shr1 sn) else (fn, sn)
termination_by fn.natAbs
decreasing_by
  next h => exact natAbs_shr1_lt h.1 h.2

/-- The two counters of the walk and its running hash. -/
structure Walk where
  fn : Int
  sn : Int
  r : Bytes
  deriving DecidableEq, Repr

section Verifier

variable (H : HashFn)

/-- One turn of the loop over the audit path; `none` is `return false`. -/
def walkStep (w : Walk) (sibling : Bytes) : Option Walk :=
  if w.sn = 0 then none
  else if sibling.length ≠ digestBytes then none
  else if and1 w.fn = 1 ∨ w.fn = w.sn then
    let r := nodeHash H sibling w.r
    let (fn, sn) := if and1 w.fn = 0 then collapse w.fn w.sn else (w.fn, w.sn)
    some ⟨shr1 fn, shr1 sn, r⟩
  else
    some ⟨shr1 w.fn, shr1 w.sn, nodeHash H w.r sibling⟩

/-- `verifyInclusion`. -/
def verifyInclusion (leafIndex treeSize : Int) (leafHash : Bytes) (auditPath : List Bytes)
    (root : Bytes) : Bool :=
  if leafIndex < 0 ∨ treeSize ≤ 0 ∨ leafIndex ≥ treeSize then false
  else if leafHash.length ≠ digestBytes ∨ root.length ≠ digestBytes then false
  else
    match auditPath.foldlM (walkStep H) ⟨leafIndex, treeSize - 1, leafHash⟩ with
    | none => false
    | some w => w.sn == 0 && w.r == root

end Verifier

/-! ## The counters -/

/-- The side on which one turn of the walk stands, and the counters after it. -/
def stepCounters (fn sn : Int) : Option (Side × Int × Int) :=
  if sn = 0 then none
  else if fn % 2 = 1 then some (.right, shr1 fn, shr1 sn)
  else if fn = sn then some (.right, shr1 (collapse fn sn).1, shr1 (collapse fn sn).2)
  else some (.left, shr1 fn, shr1 sn)

/-- A turn of the walk over a full sibling is a step of the counters and one absorbed
sibling. -/
theorem walkStep_eq (H : HashFn) (fn sn : Int) (r : Bytes) {sibling : Bytes}
    (hsibling : sibling.length = digestBytes) :
    walkStep H ⟨fn, sn, r⟩ sibling = (stepCounters fn sn).map fun next =>
      ⟨next.2.1, next.2.2, absorb H r sibling next.1⟩ := by
  simp only [walkStep, stepCounters, and1_eq, hsibling]
  by_cases hsn : sn = 0
  · simp [hsn]
  by_cases hodd : fn % 2 = 1
  · simp [hsn, hodd, absorb]
  have heven : fn % 2 = 0 := by omega
  by_cases hborder : fn = sn
  · subst hborder
    simp [hsn, heven, absorb]
  · simp [hsn, heven, hborder, absorb]

/-- The walk from these counters takes exactly these sides before `sn` is zero. -/
inductive Climbs : Int → Int → List Side → Prop
  | done (fn : Int) : Climbs fn 0 []
  | step {fn sn fn' sn' : Int} {side : Side} {rest : List Side}
      (hstep : stepCounters fn sn = some (side, fn', sn')) (hrest : Climbs fn' sn' rest) :
      Climbs fn sn (side :: rest)

/-- A walk that accepts a path takes as many sides as the path is long. -/
theorem walk_accepts_iff (H : HashFn) {fn sn : Int} {r root : Bytes} {path : List Bytes}
    (hpath : ∀ s ∈ path, s.length = digestBytes) :
    (∃ w, path.foldlM (walkStep H) ⟨fn, sn, r⟩ = some w ∧ w.sn = 0 ∧ w.r = root) ↔
      ∃ up, Climbs fn sn up ∧ path.length = up.length ∧
        HashTree.climb (nodeHash H) r (up.zip path).reverse = root := by
  induction path generalizing fn sn r with
  | nil =>
    constructor
    · rintro ⟨w, hw, hsn, hr⟩
      obtain rfl := Option.some.inj hw
      obtain rfl : sn = 0 := hsn
      exact ⟨[], .done fn, rfl, hr⟩
    · rintro ⟨up, hup, hlen, hr⟩
      obtain rfl : up = [] := List.eq_nil_of_length_eq_zero hlen.symm
      cases hup
      exact ⟨_, rfl, rfl, hr⟩
  | cons s path ih =>
    rw [List.forall_mem_cons] at hpath
    rw [List.foldlM_cons, walkStep_eq H fn sn r hpath.1]
    cases hstep : stepCounters fn sn with
    | none =>
      constructor
      · rintro ⟨w, hw, -⟩
        simp at hw
      · rintro ⟨up, hup, hlen, -⟩
        cases hup with
        | done => simp at hlen
        | step hstep' => simp [hstep] at hstep'
    | some next =>
      obtain ⟨side, fn', sn'⟩ := next
      simp only [Option.map_some, Option.bind_eq_bind, Option.bind_some]
      rw [ih hpath.2]
      constructor
      · rintro ⟨up, hup, hlen, hr⟩
        refine ⟨side :: up, .step hstep hup, by simp [hlen], ?_⟩
        rw [List.zip_cons_cons, List.reverse_cons, climb_append]
        exact hr
      · rintro ⟨up, hup, hlen, hr⟩
        cases hup with
        | done => simp at hlen
        | step hstep' hrest =>
          obtain ⟨rfl, rfl, rfl⟩ : side = _ ∧ fn' = _ ∧ sn' = _ := by
            simpa [hstep] using hstep'
          rw [List.zip_cons_cons, List.reverse_cons, climb_append] at hr
          exact ⟨_, hrest, by simpa using hlen, hr⟩

/-! ## Counters that fit -/

theorem collapse_stop {fn sn : Int} (h : fn % 2 = 1 ∨ fn = 0) : collapse fn sn = (fn, sn) := by
  rw [collapse, if_neg]
  rw [and1_eq]
  omega

theorem collapse_next {fn sn : Int} (heven : fn % 2 = 0) (hne : fn ≠ 0) :
    collapse fn sn = collapse (shr1 fn) (shr1 sn) := by
  rw [collapse, if_pos]
  rw [and1_eq]
  exact ⟨heven, hne⟩

/-- The inner loop on numbers below `2 ^ 31` is that of `verify_inclusion`. -/
theorem collapse_nat {a b : Nat} (ha : a < 2 ^ 31) (hb : b < 2 ^ 31) :
    collapse a b = (((Audit.collapse a b).1 : Int), ((Audit.collapse a b).2 : Int)) ∧
      (Audit.collapse a b).1 ≤ a ∧ (Audit.collapse a b).2 ≤ b := by
  induction a using Nat.strong_induction_on generalizing b with
  | _ a ih =>
    by_cases hstop : a % 2 = 1 ∨ a = 0
    · rw [collapse_stop (by omega)]
      rcases hstop with hodd | rfl
      · simp [collapse_odd hodd]
      · rw [Audit.collapse]
        simp
    · rw [collapse_next (by omega) (by omega), collapse_even (by omega) (by omega), shr1_nat ha,
        shr1_nat hb]
      obtain ⟨hhalf, hle, hle'⟩ := ih (a / 2) (by omega) (b := b / 2) (by omega) (by omega)
      exact ⟨hhalf, by omega, by omega⟩

/-- A turn on numbers below `2 ^ 31` is that of `verify_inclusion`. -/
theorem stepCounters_nat {fn sn : Nat} (hfn : fn < 2 ^ 31) (hsn : sn < 2 ^ 31) {side : Side}
    {fn' sn' : Nat} (h : Audit.stepCounters fn sn = some (side, fn', sn')) :
    stepCounters fn sn = some (side, (fn' : Int), (sn' : Int)) ∧ fn' ≤ fn ∧ sn' ≤ sn := by
  unfold Audit.stepCounters at h
  unfold stepCounters
  split at h
  · simp at h
  · next hne =>
    rw [if_neg (by omega)]
    split at h
    · next hodd =>
      obtain ⟨rfl, rfl, rfl⟩ : Side.right = side ∧ fn / 2 = fn' ∧ sn / 2 = sn' := by simpa using h
      rw [if_pos (by omega), shr1_nat hfn, shr1_nat hsn]
      exact ⟨rfl, by omega, by omega⟩
    · next heven =>
      rw [if_neg (by omega)]
      split at h
      · next hborder =>
        subst hborder
        obtain ⟨hcollapse, hle, hle'⟩ := collapse_nat hfn hfn
        obtain ⟨rfl, rfl, rfl⟩ : Side.right = side ∧ (Audit.collapse fn fn).1 / 2 = fn' ∧
            (Audit.collapse fn fn).2 / 2 = sn' := by simpa using h
        rw [if_pos rfl, hcollapse, shr1_nat (by omega), shr1_nat (by omega)]
        exact ⟨rfl, by omega, by omega⟩
      · next hleft =>
        obtain ⟨rfl, rfl, rfl⟩ : Side.left = side ∧ fn / 2 = fn' ∧ sn / 2 = sn' := by
          simpa using h
        rw [if_neg (by omega), shr1_nat hfn, shr1_nat hsn]
        exact ⟨rfl, by omega, by omega⟩

/-- In a tree of at most `2 ^ 31` leaves both walks take the same sides. -/
theorem climbs_nat {fn sn : Nat} {up : List Side} (h : Audit.Climbs fn sn up)
    (hfn : fn < 2 ^ 31) (hsn : sn < 2 ^ 31) : Climbs fn sn up := by
  induction h with
  | done fn => exact .done fn
  | step hstep _ ih =>
    obtain ⟨hstep', hle, hle'⟩ := stepCounters_nat hfn hsn hstep
    exact .step hstep' (ih (by omega) (by omega))

/-! ## Counters that do not fit -/

/-- What the inner loop leaves of a number and of its residue. -/
theorem collapse_residue (h e : Nat) {a : Nat} (hpos : 0 < a) (ha : a < 2 ^ e) :
    ∃ f c, 0 < f ∧ f ≤ e ∧ c < 2 ^ f ∧ Audit.collapse a a = (c, c) ∧
      Audit.collapse (2 ^ e * h + a) (2 ^ e * h + a) = (2 ^ f * h + c, 2 ^ f * h + c) := by
  induction e generalizing a with
  | zero => omega
  | succ e ih =>
    have hpow : 2 ^ (e + 1) * h = 2 * (2 ^ e * h) := by rw [pow_succ', Nat.mul_assoc]
    have hpow' : 2 ^ (e + 1) = 2 * 2 ^ e := pow_succ' 2 e
    by_cases hodd : a % 2 = 1
    · exact ⟨e + 1, a, by omega, le_rfl, ha, collapse_odd hodd, collapse_odd (by omega)⟩
    · obtain ⟨f, c, hf, hle, hc, hlow, hhigh⟩ := ih (a := a / 2) (by omega) (by omega)
      refine ⟨f, c, hf, by omega, hc, ?_, ?_⟩
      · rw [collapse_even (by omega) (by omega), hlow]
      · rw [collapse_even (by omega) (by omega),
          show (2 ^ (e + 1) * h + a) / 2 = 2 ^ e * h + a / 2 by omega, hhigh]

/-- The counters of the browser fall behind: they are residues below a part that they lost,
or `sn` alone is too short for the counters of `verify_inclusion`, which still differ. -/
inductive Behind : Int → Int → Nat → Nat → Prop
  | residue {k h a b : Nat} (hab : a ≤ b) (hb : b < 2 ^ k) (hk : k ≤ 31) (hh : 0 < h) :
    Behind a b (2 ^ k * h + a) (2 ^ k * h + b)
  | short {k b fp sp : Nat} (fj : Int) (hb : b < 2 ^ k) (hk : k ≤ 31)
    (hlt : fp / 2 ^ k < sp / 2 ^ k) : Behind fj b fp sp

theorem Behind.ne_zero {fj sj : Int} {fp sp : Nat} (h : Behind fj sj fp sp) : sp ≠ 0 := by
  cases h with
  | @residue k h a b _ _ _ hh =>
    have := Nat.mul_pos (Nat.two_pow_pos k) hh
    omega
  | short _ _ _ hlt =>
    rintro rfl
    simp at hlt

/-- The inner loop does not raise a counter that fits. -/
theorem collapse_snd_nat (fn : Int) {b : Nat} (hb : b < 2 ^ 31) :
    ∃ b' : Nat, (collapse fn b).2 = b' ∧ b' ≤ b := by
  induction hn : fn.natAbs using Nat.strong_induction_on generalizing fn b with
  | _ n ih =>
    by_cases hstop : fn % 2 = 1 ∨ fn = 0
    · exact ⟨b, by rw [collapse_stop hstop], le_rfl⟩
    · have hlt := natAbs_shr1_lt (x := fn) (by rw [and1_eq]; omega) (by omega)
      obtain ⟨b', hb', hle⟩ := ih _ (hn ▸ hlt) (shr1 fn) (b := b / 2) (by omega) rfl
      exact ⟨b', by rw [collapse_next (by omega) (by omega), shr1_nat hb, hb'], by omega⟩

/-- A turn of the browser keeps it behind a turn of `verify_inclusion`. -/
theorem Behind.step {fj sj fj' sj' : Int} {fp sp : Nat} {side : Side} (h : Behind fj sj fp sp)
    (hstep : stepCounters fj sj = some (side, fj', sj')) :
    ∃ side' fp' sp', Audit.stepCounters fp sp = some (side', fp', sp') ∧
      Behind fj' sj' fp' sp' := by
  have hsp := h.ne_zero
  cases h with
  | @residue k h a b hab hb hk hh =>
    cases k with
    | zero =>
      obtain rfl : b = 0 := by omega
      simp [stepCounters] at hstep
    | succ m =>
      have hpow : 2 ^ (m + 1) * h = 2 * (2 ^ m * h) := by rw [pow_succ', Nat.mul_assoc]
      have hpow' : 2 ^ (m + 1) = 2 * 2 ^ m := pow_succ' 2 m
      have hfit : 2 ^ (m + 1) ≤ 2 ^ 31 := Nat.pow_le_pow_right (by omega) hk
      have hhalf : Behind ((a / 2 : Nat) : Int) ((b / 2 : Nat) : Int)
          ((2 ^ (m + 1) * h + a) / 2) ((2 ^ (m + 1) * h + b) / 2) := by
        have hresidue : Behind ((a / 2 : Nat) : Int) ((b / 2 : Nat) : Int)
            (2 ^ m * h + a / 2) (2 ^ m * h + b / 2) :=
          .residue (by omega) (by omega) (by omega) hh
        rwa [show (2 ^ (m + 1) * h + a) / 2 = 2 ^ m * h + a / 2 by omega,
          show (2 ^ (m + 1) * h + b) / 2 = 2 ^ m * h + b / 2 by omega]
      unfold stepCounters at hstep
      unfold Audit.stepCounters
      rw [if_neg hsp]
      split at hstep
      · simp at hstep
      · next hne =>
        split at hstep
        · next hodd =>
          rw [shr1_nat (by omega), shr1_nat (by omega)] at hstep
          simp only [Option.some.injEq, Prod.mk.injEq] at hstep
          obtain ⟨-, rfl, rfl⟩ := hstep
          rw [if_pos (by omega)]
          exact ⟨_, _, _, rfl, hhalf⟩
        · next heven =>
          rw [if_neg (by omega)]
          split at hstep
          · next hborder =>
            obtain rfl : a = b := by omega
            obtain ⟨f, c, hf, hle, hc, hlow, hhigh⟩ :=
              collapse_residue h (m + 1) (show 0 < a by omega) hb
            obtain ⟨g, rfl⟩ : ∃ g, f = g + 1 := ⟨f - 1, by omega⟩
            have hpowg : 2 ^ (g + 1) * h = 2 * (2 ^ g * h) := by rw [pow_succ', Nat.mul_assoc]
            have hpowg' : 2 ^ (g + 1) = 2 * 2 ^ g := pow_succ' 2 g
            have hfitg : 2 ^ (g + 1) ≤ 2 ^ (m + 1) := Nat.pow_le_pow_right (by omega) hle
            rw [(collapse_nat (show a < 2 ^ 31 by omega) (by omega)).1, hlow] at hstep
            simp only [shr1_nat (show c < 2 ^ 31 by omega)] at hstep
            simp only [Option.some.injEq, Prod.mk.injEq] at hstep
            obtain ⟨-, rfl, rfl⟩ := hstep
            rw [if_pos rfl, hhigh]
            refine ⟨_, _, _, rfl, ?_⟩
            simp only [show (2 ^ (g + 1) * h + c) / 2 = 2 ^ g * h + c / 2 by omega]
            exact .residue le_rfl (by omega) (by omega) hh
          · next hleft =>
            rw [shr1_nat (by omega), shr1_nat (by omega)] at hstep
            simp only [Option.some.injEq, Prod.mk.injEq] at hstep
            obtain ⟨-, rfl, rfl⟩ := hstep
            rw [if_neg (by omega)]
            exact ⟨_, _, _, rfl, hhalf⟩
  | @short k b _ _ _ hb hk hlt =>
    have hfit : 2 ^ k ≤ 2 ^ 31 := Nat.pow_le_pow_right (by omega) hk
    -- whatever the browser does, its `sn` is at most half of what it was
    have hshorter : ∃ b' : Nat, sj' = b' ∧ b' ≤ b / 2 ∧ b ≠ 0 := by
      unfold stepCounters at hstep
      split at hstep
      · simp at hstep
      · next hne =>
        split at hstep
        · simp only [Option.some.injEq, Prod.mk.injEq] at hstep
          obtain ⟨-, -, rfl⟩ := hstep
          exact ⟨b / 2, shr1_nat (by omega), le_rfl, by omega⟩
        · split at hstep
          · simp only [Option.some.injEq, Prod.mk.injEq] at hstep
            obtain ⟨-, -, rfl⟩ := hstep
            obtain ⟨b', hb', hle⟩ := collapse_snd_nat fj (show b < 2 ^ 31 by omega)
            exact ⟨b' / 2, by rw [hb', shr1_nat (by omega)], by omega, by omega⟩
          · simp only [Option.some.injEq, Prod.mk.injEq] at hstep
            obtain ⟨-, -, rfl⟩ := hstep
            exact ⟨b / 2, shr1_nat (by omega), le_rfl, by omega⟩
    obtain ⟨b', rfl, hle, hne⟩ := hshorter
    cases k with
    | zero => omega
    | succ m =>
      have hpow' : 2 ^ (m + 1) = 2 * 2 ^ m := pow_succ' 2 m
      have hbehind : Behind fj' b' (fp / 2) (sp / 2) := by
        refine .short fj' (k := m) (by omega) (by omega) ?_
        rwa [Nat.div_div_eq_div_mul, Nat.div_div_eq_div_mul, ← pow_succ']
      have hdiffer : fp ≠ sp := by
        rintro rfl
        exact absurd hlt (lt_irrefl _)
      unfold Audit.stepCounters
      rw [if_neg hsp, if_neg hdiffer]
      split
      · exact ⟨_, _, _, rfl, hbehind⟩
      · exact ⟨_, _, _, rfl, hbehind⟩

/-- A walk that is behind ends earlier. -/
theorem Behind.outpaced {fj sj : Int} {fp sp : Nat} {up up' : List Side} (h : Behind fj sj fp sp)
    (hj : Climbs fj sj up') (hp : Audit.Climbs fp sp up) : up'.length < up.length := by
  induction hj generalizing fp sp up with
  | done =>
    cases hp with
    | done => exact absurd rfl h.ne_zero
    | step => simp
  | step hstep _ ih =>
    obtain ⟨side, fp', sp', hstep', hbehind⟩ := h.step hstep
    cases hp with
    | done => simp [Audit.stepCounters] at hstep'
    | step hstep'' hrest =>
      obtain ⟨rfl, rfl, rfl⟩ : side = _ ∧ fp' = _ ∧ sp' = _ := by simpa [hstep'] using hstep''
      have := ih hbehind hrest
      simp only [List.length_cons]
      omega

/-- A counter that has become negative stays so. -/
theorem collapse_snd_neg (fn : Int) {sn : Int} (hlow : -2 ^ 31 ≤ sn) (hneg : sn < 0) :
    -2 ^ 31 ≤ (collapse fn sn).2 ∧ (collapse fn sn).2 < 0 := by
  induction hn : fn.natAbs using Nat.strong_induction_on generalizing fn sn with
  | _ n ih =>
    by_cases hstop : fn % 2 = 1 ∨ fn = 0
    · rw [collapse_stop hstop]
      exact ⟨hlow, hneg⟩
    · have hlt := natAbs_shr1_lt (x := fn) (by rw [and1_eq]; omega) (by omega)
      rw [collapse_next (by omega) (by omega)]
      exact ih _ (hn ▸ hlt) (shr1 fn) (shr1_neg hlow hneg).1 (shr1_neg hlow hneg).2 rfl

/-- A walk whose `sn` is negative has no end. -/
theorem not_climbs_of_neg {fn sn : Int} {up : List Side} (h : Climbs fn sn up)
    (hlow : -2 ^ 31 ≤ sn) : 0 ≤ sn := by
  induction h with
  | done => exact le_rfl
  | @step fn sn fn' sn' side rest hstep _ ih =>
    by_contra hneg
    have hnext : -2 ^ 31 ≤ sn' ∧ sn' < 0 := by
      unfold stepCounters at hstep
      rw [if_neg (by omega)] at hstep
      split at hstep
      · simp only [Option.some.injEq, Prod.mk.injEq] at hstep
        obtain ⟨-, -, rfl⟩ := hstep
        exact shr1_neg hlow (by omega)
      · split at hstep
        · simp only [Option.some.injEq, Prod.mk.injEq] at hstep
          obtain ⟨-, -, rfl⟩ := hstep
          obtain ⟨hlow', hneg'⟩ := collapse_snd_neg fn hlow (by omega)
          exact shr1_neg hlow' hneg'
        · simp only [Option.some.injEq, Prod.mk.injEq] at hstep
          obtain ⟨-, -, rfl⟩ := hstep
          exact shr1_neg hlow (by omega)
    exact absurd (ih hnext.1) (by omega)

/-- The low 32 bits, halved. -/
theorem shr1_low {x : Nat} (hlow : x % 2 ^ 32 < 2 ^ 31) :
    shr1 x = ((x % 2 ^ 32 / 2 : Nat) : Int) := by
  unfold shr1 toInt32
  split <;> omega

/-- A number whose bit 31 is set becomes negative. -/
theorem shr1_high {x : Nat} (hhigh : 2 ^ 31 ≤ x % 2 ^ 32) :
    -2 ^ 31 ≤ shr1 x ∧ shr1 x < 0 := by
  unfold shr1 toInt32
  split <;> omega

/-- What the inner loop leaves of a number is its odd part. -/
theorem collapse_odd_part (v : Nat) {o : Nat} (hodd : o % 2 = 1) :
    Audit.collapse (2 ^ v * o) (2 ^ v * o) = (o, o) := by
  induction v with
  | zero => rw [pow_zero, Nat.one_mul, collapse_odd hodd]
  | succ v ih =>
    have hpow : 2 ^ (v + 1) * o = 2 * (2 ^ v * o) := by rw [pow_succ', Nat.mul_assoc]
    have hpos : 0 < 2 ^ v * o := Nat.mul_pos (Nat.two_pow_pos v) (by omega)
    rw [collapse_even (by omega) (by omega), show 2 ^ (v + 1) * o / 2 = 2 ^ v * o by omega, ih]

private theorem behind_of_border {x : Nat} (hlarge : 2 ^ 31 ≤ x) (hlow : x % 2 ^ 32 < 2 ^ 31)
    (heven : x % 2 = 0) (hlast : ¬ ∃ j, 32 ≤ j ∧ x = 2 ^ j ∧ x = 2 ^ j) :
    Behind (shr1 (collapse (shr1 x) (shr1 x)).1) (shr1 (collapse (shr1 x) (shr1 x)).2)
      ((Audit.collapse x x).1 / 2) ((Audit.collapse x x).2 / 2) := by
  rw [shr1_low hlow]
  by_cases hzero : x % 2 ^ 32 = 0
  · obtain ⟨v, o, hodd, hx⟩ := Nat.exists_eq_two_pow_mul_odd (show x ≠ 0 by omega)
    rw [Nat.odd_iff] at hodd
    have hone : o ≠ 1 := by
      rintro rfl
      rw [Nat.mul_one] at hx
      refine hlast ⟨v, ?_, hx, hx⟩
      by_contra hv
      have hfit : 2 ^ v < 2 ^ 32 := Nat.pow_lt_pow_right (by omega) (by omega)
      omega
    have hbehind : Behind ((0 : Nat) : Int) ((0 : Nat) : Int) (2 ^ 0 * (o / 2) + 0)
        (2 ^ 0 * (o / 2) + 0) := .residue le_rfl (by omega) (by omega) (by omega)
    have hlost : collapse ((x % 2 ^ 32 / 2 : Nat) : Int) ((x % 2 ^ 32 / 2 : Nat) : Int) =
        (0, 0) := by
      rw [hzero]
      exact collapse_stop (.inr rfl)
    rw [hlost, hx, collapse_odd_part v hodd]
    simpa [shr1, toInt32] using hbehind
  · obtain ⟨f, c, hf, hle, hc, hcollapse, hcollapse'⟩ :=
      collapse_residue (x / 2 ^ 32) 31 (show 0 < x % 2 ^ 32 / 2 by omega) (by omega)
    obtain ⟨g, rfl⟩ : ∃ g, f = g + 1 := ⟨f - 1, by omega⟩
    have hpow : 2 ^ (g + 1) * (x / 2 ^ 32) = 2 * (2 ^ g * (x / 2 ^ 32)) := by
      rw [pow_succ', Nat.mul_assoc]
    have hpow' : 2 ^ (g + 1) = 2 * 2 ^ g := pow_succ' 2 g
    have hfit : 2 ^ (g + 1) ≤ 2 ^ 31 := Nat.pow_le_pow_right (by omega) hle
    have hhalf : Audit.collapse x x =
        (2 ^ (g + 1) * (x / 2 ^ 32) + c, 2 ^ (g + 1) * (x / 2 ^ 32) + c) := by
      rw [collapse_even heven (by omega), ← hcollapse']
      congr 1 <;> omega
    rw [(collapse_nat (show x % 2 ^ 32 / 2 < 2 ^ 31 by omega) (by omega)).1, hcollapse, hhalf]
    simp only [shr1_nat (show c < 2 ^ 31 by omega),
      show (2 ^ (g + 1) * (x / 2 ^ 32) + c) / 2 = 2 ^ g * (x / 2 ^ 32) + c / 2 by omega]
    exact .residue le_rfl (by omega) (by omega) (by omega)

/-- The first turn over counters that do not fit leaves the browser behind, unless the leaf
is the last one under a root of its own. -/
theorem behind_of_step {fn sn : Nat} (hle : fn ≤ sn) (hlarge : 2 ^ 31 ≤ sn)
    (hlast : ¬ ∃ j, 32 ≤ j ∧ fn = 2 ^ j ∧ sn = 2 ^ j) {side : Side} {fj sj : Int}
    (hstep : stepCounters fn sn = some (side, fj, sj)) :
    (-2 ^ 31 ≤ sj ∧ sj < 0) ∨ ∃ side' fp sp, Audit.stepCounters fn sn = some (side', fp, sp) ∧
      Behind fj sj fp sp := by
  unfold stepCounters at hstep
  unfold Audit.stepCounters
  rw [if_neg (by omega)] at hstep ⊢
  by_cases hhigh : 2 ^ 31 ≤ sn % 2 ^ 32
  · left
    split at hstep
    · simp only [Option.some.injEq, Prod.mk.injEq] at hstep
      obtain ⟨-, -, rfl⟩ := hstep
      exact shr1_high hhigh
    · split at hstep
      · next heven hborder =>
        obtain rfl : fn = sn := by omega
        simp only [Option.some.injEq, Prod.mk.injEq] at hstep
        obtain ⟨-, -, rfl⟩ := hstep
        rw [collapse_next (by omega) (by omega)]
        obtain ⟨hlow, hneg⟩ := collapse_snd_neg (shr1 fn) (shr1_high hhigh).1 (shr1_high hhigh).2
        exact shr1_neg hlow hneg
      · simp only [Option.some.injEq, Prod.mk.injEq] at hstep
        obtain ⟨-, -, rfl⟩ := hstep
        exact shr1_high hhigh
  · right
    have hlow : sn % 2 ^ 32 < 2 ^ 31 := by omega
    have hplain : Behind (shr1 fn) (shr1 sn) (fn / 2) (sn / 2) := by
      rw [shr1_low hlow]
      by_cases htop : fn / 2 ^ 32 = sn / 2 ^ 32
      · rw [shr1_low (by omega)]
        have hresidue : Behind ((fn % 2 ^ 32 / 2 : Nat) : Int) ((sn % 2 ^ 32 / 2 : Nat) : Int)
            (2 ^ 31 * (sn / 2 ^ 32) + fn % 2 ^ 32 / 2) (2 ^ 31 * (sn / 2 ^ 32) + sn % 2 ^ 32 / 2) :=
          .residue (by omega) (by omega) le_rfl (by omega)
        rwa [show 2 ^ 31 * (sn / 2 ^ 32) + fn % 2 ^ 32 / 2 = fn / 2 by omega,
          show 2 ^ 31 * (sn / 2 ^ 32) + sn % 2 ^ 32 / 2 = sn / 2 by omega] at hresidue
      · exact .short _ (k := 31) (by omega) le_rfl (by omega)
    split at hstep
    · simp only [Option.some.injEq, Prod.mk.injEq] at hstep
      obtain ⟨-, rfl, rfl⟩ := hstep
      rw [if_pos (by omega)]
      exact ⟨_, _, _, rfl, hplain⟩
    · next heven =>
      rw [if_neg (by omega)]
      split at hstep
      · next hborder =>
        obtain rfl : fn = sn := by omega
        simp only [Option.some.injEq, Prod.mk.injEq] at hstep
        obtain ⟨-, rfl, rfl⟩ := hstep
        rw [if_pos rfl, collapse_next (by omega) (by omega)]
        exact ⟨_, _, _, rfl, behind_of_border hlarge hlow (by omega) hlast⟩
      · simp only [Option.some.injEq, Prod.mk.injEq] at hstep
        obtain ⟨-, rfl, rfl⟩ := hstep
        rw [if_neg (by omega)]
        exact ⟨_, _, _, rfl, hplain⟩

/-! ## Agreement -/

/-- Both walks take the same sides for every index of a tree of at most `2 ^ 31` leaves, and
for the last leaf of a tree whose last index is a power of two from `2 ^ 32` on. -/
def CountersFit (leafIndex treeSize : Int) : Prop :=
  treeSize ≤ 2 ^ 31 ∨ ∃ j : Nat, 32 ≤ j ∧ leafIndex = 2 ^ j ∧ treeSize = 2 ^ j + 1

/-- The last index of such a tree has one sibling, in both walks. -/
theorem climbs_two_pow {j : Nat} (hj : 32 ≤ j) :
    Climbs ((2 ^ j : Nat) : Int) ((2 ^ j : Nat) : Int) [.right] ∧
      Audit.Climbs (2 ^ j) (2 ^ j) [.right] := by
  obtain ⟨i, rfl⟩ : ∃ i, j = 32 + i := ⟨j - 32, by omega⟩
  have hpow : 2 ^ (32 + i) = 2 ^ 32 * 2 ^ i := pow_add 2 32 i
  have hpos := Nat.two_pow_pos i
  have hshift : shr1 ((2 ^ (32 + i) : Nat) : Int) = ((0 : Nat) : Int) := by
    rw [shr1_low (by omega)]
    congr 1
    omega
  constructor
  · have hdone : Climbs 0 0 [] := .done 0
    refine .step ?_ hdone
    unfold stepCounters
    rw [if_neg (by omega), if_neg (by omega), if_pos rfl, collapse_next (by omega) (by omega),
      hshift, Nat.cast_zero, collapse_stop (.inr rfl)]
    rfl
  · have hdone : Audit.Climbs 0 0 [] := .done 0
    refine .step ?_ hdone
    unfold Audit.stepCounters
    rw [if_neg (by omega), if_neg (by omega), if_pos rfl, collapse_two_pow]
    rfl

/-- The counters decide the sides. -/
theorem Climbs.unique {fn sn : Int} {up up' : List Side} (h : Climbs fn sn up)
    (h' : Climbs fn sn up') : up = up' := by
  induction h generalizing up' with
  | done fn =>
    cases h' with
    | done => rfl
    | step hstep => simp [stepCounters] at hstep
  | step hstep _ ih =>
    cases h' with
    | done => simp [stepCounters] at hstep
    | step hstep' hrest =>
      simp only [hstep, Option.some.injEq, Prod.mk.injEq] at hstep'
      obtain ⟨rfl, rfl, rfl⟩ := hstep'
      rw [ih hrest]

private theorem climbs_unique {fn sn : Nat} {up up' : List Side} (h : Audit.Climbs fn sn up)
    (h' : Audit.Climbs fn sn up') : up = up' := by
  induction h generalizing up' with
  | done fn =>
    cases h' with
    | done => rfl
    | step hstep => simp [Audit.stepCounters] at hstep
  | step hstep _ ih =>
    cases h' with
    | done => simp [Audit.stepCounters] at hstep
    | step hstep' hrest =>
      simp only [hstep, Option.some.injEq, Prod.mk.injEq] at hstep'
      obtain ⟨rfl, rfl, rfl⟩ := hstep'
      rw [ih hrest]

/-- Where the counters fit, the browser climbs by the sides of `verify_inclusion`. -/
theorem climbs_of_fit {m n : Nat} (hm : m < n) (hfit : CountersFit m n) :
    Climbs m ((n - 1 : Nat) : Int) (sides m n).reverse := by
  have hclimbs : Audit.Climbs m (n - 1) (sides m n).reverse := climbs_sides hm
  rcases hfit with hsmall | ⟨j, hj, hindex, hsize⟩
  · exact climbs_nat hclimbs (by omega) (by omega)
  · obtain rfl : m = 2 ^ j := by exact_mod_cast hindex
    obtain rfl : n = 2 ^ j + 1 := by exact_mod_cast hsize
    obtain ⟨hweb, hpython⟩ := climbs_two_pow hj
    rw [Nat.add_sub_cancel] at hclimbs ⊢
    rwa [climbs_unique hclimbs hpython]

/-- Where they do not, it never climbs as far. -/
theorem fit_of_climbs {m n : Nat} (hm : m < n) {up : List Side}
    (h : Climbs m ((n - 1 : Nat) : Int) up) (hlength : up.length = (sides m n).length) :
    CountersFit m n := by
  by_contra hfit
  rw [CountersFit, not_or] at hfit
  obtain ⟨hlarge, hlast⟩ := hfit
  have hclimbs : Audit.Climbs m (n - 1) (sides m n).reverse := climbs_sides hm
  have hlast' : ¬ ∃ j, 32 ≤ j ∧ m = 2 ^ j ∧ n - 1 = 2 ^ j := by
    rintro ⟨j, hj, rfl, hsize⟩
    exact hlast ⟨j, hj, by norm_cast, by
      rw [show n = 2 ^ j + 1 by omega]
      norm_cast⟩
  have hsn : 2 ^ 31 ≤ n - 1 := by omega
  generalize hlast_index : ((n - 1 : Nat) : Int) = sn at h
  cases h with
  | done => omega
  | @step _ _ _ sn' _ rest hstep hrest =>
    subst hlast_index
    cases hclimbs' : (sides m n).reverse with
    | nil =>
      rw [hclimbs'] at hclimbs
      generalize n - 1 = s at hsn hclimbs
      cases hclimbs
      omega
    | cons side ups =>
      have hlen : (sides m n).length = ups.length + 1 := by
        rw [← List.length_reverse, hclimbs', List.length_cons]
      rw [List.length_cons, hlen] at hlength
      rcases behind_of_step (by omega) hsn hlast' hstep with hneg | ⟨side', fp, sp, hp, hbehind⟩
      · exact absurd (not_climbs_of_neg hrest hneg.1) (by omega)
      · rw [hclimbs'] at hclimbs
        generalize n - 1 = s at hclimbs hp
        cases hclimbs with
        | step hp' hrest' =>
          simp only [hp, Option.some.injEq, Prod.mk.injEq] at hp'
          obtain ⟨-, rfl, rfl⟩ := hp'
          have := hbehind.outpaced hrest hrest'
          omega

private theorem length_climb (H : HashFn) {x : Bytes} (hx : x.length = digestBytes)
    (steps : List (Side × Bytes)) : (HashTree.climb (nodeHash H) x steps).length = digestBytes := by
  cases steps with
  | nil => exact hx
  | cons step steps =>
    obtain ⟨side, s⟩ := step
    cases side with
    | left => exact (H _).property
    | right => exact (H _).property

/-- What the browser decides of an index in range. -/
theorem verify_eq_true_iff (H : HashFn) {m n : Nat} (hm : m < n) {leafHash root : Bytes}
    {auditPath : List Bytes} (hpath : ∀ s ∈ auditPath, s.length = digestBytes) :
    verifyInclusion H m n leafHash auditPath root = true ↔
      leafHash.length = digestBytes ∧ root.length = digestBytes ∧
        ∃ up, Climbs m ((n - 1 : Nat) : Int) up ∧ auditPath.length = up.length ∧
          HashTree.climb (nodeHash H) leafHash (up.zip auditPath).reverse = root := by
  have hmatch : ∀ o : Option Walk,
      (match o with | none => false | some w => w.sn == 0 && w.r == root) = true ↔
        ∃ w, o = some w ∧ w.sn = 0 ∧ w.r = root := by
    rintro (_ | w) <;> simp
  have hlast : (n : Int) - 1 = ((n - 1 : Nat) : Int) := by omega
  unfold verifyInclusion
  rw [if_neg (by omega)]
  split
  · next hshort =>
    constructor
    · simp
    · rintro ⟨hleaf, hroot, -⟩
      exact absurd hshort (by simp [hleaf, hroot])
  · next hfull =>
    rw [not_or, not_not, not_not] at hfull
    rw [hmatch, hlast, walk_accepts_iff H hpath]
    simp only [hfull, true_and]

/-- Both verifiers give the same answer, whatever the hash, the path and the root, exactly
for the indices out of range and for full leaf hashes whose counters fit. -/
theorem verifyInclusion_agree_iff (leafIndex treeSize : Int) (leafHash : Bytes) :
    (∀ (H : HashFn) (auditPath : List Bytes) (root : Bytes),
      (∀ s ∈ auditPath, s.length = digestBytes) →
        verifyInclusion H leafIndex treeSize leafHash auditPath root =
          Audit.verifyInclusion H leafIndex treeSize leafHash auditPath root) ↔
      ¬ (0 ≤ leafIndex ∧ leafIndex < treeSize) ∨
        (leafHash.length = digestBytes ∧ CountersFit leafIndex treeSize) := by
  by_cases hrange : 0 ≤ leafIndex ∧ leafIndex < treeSize
  · obtain ⟨m, rfl⟩ := Int.eq_ofNat_of_zero_le hrange.1
    obtain ⟨n, rfl⟩ := Int.eq_ofNat_of_zero_le (show 0 ≤ treeSize by omega)
    have hm : m < n := by omega
    constructor
    · intro hall
      right
      let path := List.replicate (sides m n).length (List.replicate digestBytes (0 : UInt8))
      let root := HashTree.climb (nodeHash Sha256.digest) leafHash
        ((sides m n).zip path.reverse)
      have hpath : ∀ s ∈ path, s.length = digestBytes := by
        intro s hs
        rw [List.eq_of_mem_replicate hs, List.length_replicate]
      have haccepts : Audit.verifyInclusion Sha256.digest m n leafHash path root = true := by
        rw [verifyInclusion_iff]
        exact ⟨hrange.1, hrange.2, by simp [path], rfl⟩
      rw [← hall Sha256.digest path root hpath, verify_eq_true_iff _ hm hpath] at haccepts
      obtain ⟨hleaf, -, up, hup, hlength, -⟩ := haccepts
      exact ⟨hleaf, fit_of_climbs hm hup (by simpa [path] using hlength.symm)⟩
    · rintro (hout | ⟨hleaf, hfit⟩) H auditPath root hpath
      · exact absurd hrange hout
      · have hclimbs := climbs_of_fit hm hfit
        rw [Bool.eq_iff_iff, verify_eq_true_iff H hm hpath, verifyInclusion_iff, Int.toNat_natCast,
          Int.toNat_natCast]
        constructor
        · rintro ⟨-, -, up, hup, hlength, hroot⟩
          obtain rfl := hclimbs.unique hup
          rw [List.length_reverse] at hlength
          rw [zip_fromRoot hlength] at hroot
          exact ⟨hrange.1, hrange.2, hlength, hroot⟩
        · rintro ⟨-, -, hlength, hroot⟩
          refine ⟨hleaf, ?_, _, hclimbs, by rw [hlength, List.length_reverse], ?_⟩
          · rw [← hroot]
            exact length_climb H hleaf _
          · rwa [zip_fromRoot hlength]
  · refine iff_of_true (fun H auditPath root _ => ?_) (.inl hrange)
    rw [verifyInclusion, Audit.verifyInclusion, if_pos (by omega), if_pos (by omega)]

/-- `Number.MAX_SAFE_INTEGER`. -/
def maxSafeInteger : Nat := 2 ^ 53 - 1

/-- The last of `2 ^ 31 + 1` leaves has one sibling. The browser reads its index as a
negative number and refuses. -/
theorem not_verifyInclusion_agree :
    ¬ ∀ (H : HashFn) (leafIndex treeSize : Int) (leafHash : Bytes) (auditPath : List Bytes)
      (root : Bytes), leafIndex.natAbs ≤ maxSafeInteger → treeSize.natAbs ≤ maxSafeInteger →
        (∀ s ∈ auditPath, s.length = digestBytes) →
          verifyInclusion H leafIndex treeSize leafHash auditPath root =
            Audit.verifyInclusion H leafIndex treeSize leafHash auditPath root := by
  intro hall
  let zeros : Bytes := List.replicate digestBytes 0
  let H : HashFn := fun _ => ⟨zeros, by simp [zeros, digestBytes]⟩
  have hpath : ∀ s ∈ [zeros], s.length = digestBytes := by simp [zeros]
  have hcollapse : Audit.collapse 2147483648 2147483648 = (1, 1) := collapse_two_pow 31
  have hpython : Audit.verifyInclusion H (2 ^ 31 : Nat) (2 ^ 31 + 1 : Nat) zeros [zeros] zeros =
      true := by
    simp [Audit.verifyInclusion, Audit.walkStep, hcollapse, H, nodeHash]
  have hsides := ((verifyInclusion_iff ..).mp hpython).2.2.1
  rw [← hall H _ _ zeros [zeros] zeros (by unfold maxSafeInteger; omega)
    (by unfold maxSafeInteger; omega) hpath, verify_eq_true_iff H (by omega) hpath] at hpython
  obtain ⟨-, -, up, hup, hlength, -⟩ := hpython
  rcases fit_of_climbs (by omega) hup (by rw [← hlength]; exact hsides) with h | ⟨j, hj, h, -⟩
  · omega
  · have hindex : 2 ^ 31 = 2 ^ j := by exact_mod_cast h
    have hlt : 2 ^ 31 < 2 ^ j := Nat.pow_lt_pow_right (by omega) (by omega)
    omega

end SchemaBrain.Web
