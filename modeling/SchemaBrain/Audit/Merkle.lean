import Mathlib.Data.Nat.Log
import SchemaBrain.Base.HashTree
import SchemaBrain.Base.Python
import SchemaBrain.Base.Sha256

/-!
# RFC 6962 Merkle tree over the audit log

`audit/merkle.py`. The prover splits the list of leaf hashes at the largest power of
two below its length; the verifier walks from the leaf upwards on the two counters
`fn` and `sn`. The abstract layer is one hash tree with the sequence of sides that
leads to each leaf, and both sides of the code are shown to follow it.
-/

namespace SchemaBrain.Audit

open SchemaBrain.Base

/-- Domain prefix of a leaf hash. -/
def leafPrefix : Bytes := [0x00]

/-- Domain prefix of an internal node hash. -/
def nodePrefix : Bytes := [0x01]

/-- Python's `int.bit_length` on a non-negative integer. -/
def bitLength (n : Nat) : Nat := if n = 0 then 0 else n.log2 + 1

/-- The split point of a tree of `n ≥ 2` leaves, from the highest set bit of `n - 1`. -/
def largestPowerOfTwoBelow (n : Nat) : Nat := 1 <<< (bitLength (n - 1) - 1)

/-- The split point as a power of two. -/
theorem largestPowerOfTwoBelow_eq (n : Nat) : largestPowerOfTwoBelow n = 2 ^ (n - 1).log2 := by
  unfold largestPowerOfTwoBelow bitLength
  split
  · next h => simp [h]
  · simp [Nat.one_shiftLeft]

/-- Both halves of a split are inhabited, and the left one is the larger. -/
theorem largestPowerOfTwoBelow_bounds {n : Nat} (h : 2 ≤ n) :
    0 < largestPowerOfTwoBelow n ∧ largestPowerOfTwoBelow n < n ∧
      n ≤ 2 * largestPowerOfTwoBelow n := by
  rw [largestPowerOfTwoBelow_eq]
  have hlow : 2 ^ (n - 1).log2 ≤ n - 1 := Nat.log2_self_le (by omega)
  have hhigh : n - 1 < 2 ^ ((n - 1).log2 + 1) := Nat.lt_log2_self
  rw [Nat.pow_succ] at hhigh
  exact ⟨Nat.two_pow_pos _, by omega, by omega⟩

/-- A tree of `2 ^ (e + 1)` leaves splits in the middle. -/
theorem largestPowerOfTwoBelow_two_pow (e : Nat) :
    largestPowerOfTwoBelow (2 ^ (e + 1)) = 2 ^ e := by
  rw [largestPowerOfTwoBelow_eq]
  have hpos := Nat.two_pow_pos e
  congr 1
  rw [Nat.log2_eq_iff (by rw [Nat.pow_succ]; omega)]
  rw [Nat.pow_succ]
  omega

section Hashing

variable (H : HashFn)

/-- The root of an empty log. -/
def emptyTreeHash : Bytes := H []

/-- `SHA-256(0x00 || leaf_bytes)`. -/
def leafHash (leafBytes : Bytes) : Bytes := H (leafPrefix ++ leafBytes)

/-- `SHA-256(0x01 || left || right)`. -/
def nodeHash (left right : Bytes) : Bytes := H (nodePrefix ++ left ++ right)

/-- The Merkle tree hash of a list of leaf hashes. -/
def rootFromLeafHashes (hashes : List Bytes) : Bytes :=
  let n := hashes.length
  if n = 0 then emptyTreeHash H
  else if n = 1 then hashes.headD []
  else
    let k := largestPowerOfTwoBelow n
    nodeHash H (rootFromLeafHashes (hashes.take k)) (rootFromLeafHashes (hashes.drop k))
termination_by hashes.length
decreasing_by
  all_goals
    have hk := largestPowerOfTwoBelow_bounds (n := hashes.length) (by omega)
    simp only [List.length_take, List.length_drop]
    omega

/-- The audit path of leaf `m`, sibling hashes in leaf-to-root order. -/
def pathFromLeafHashes (m : Int) (hashes : List Bytes) : Except PyError (List Bytes) :=
  let n := hashes.length
  if 0 ≤ m ∧ m < n then
    if n = 1 then .ok []
    else
      let k := largestPowerOfTwoBelow n
      if m < k then do
        let path ← pathFromLeafHashes m (hashes.take k)
        return path ++ [rootFromLeafHashes H (hashes.drop k)]
      else do
        let path ← pathFromLeafHashes (m - k) (hashes.drop k)
        return path ++ [rootFromLeafHashes H (hashes.take k)]
  else .error (.valueError s!"leaf index {m} out of range for tree size {n}")
termination_by hashes.length
decreasing_by
  all_goals
    have hk := largestPowerOfTwoBelow_bounds (n := hashes.length) (by omega)
    simp only [List.length_take, List.length_drop]
    omega

/-- The Merkle root over leaf preimages in ascending `id` order. -/
def merkleRoot (leaves : List Bytes) : Bytes := rootFromLeafHashes H (leaves.map (leafHash H))

/-- The audit path proving that `leaves[leafIndex]` is in the tree. -/
def inclusionProof (leafIndex : Int) (leaves : List Bytes) : Except PyError (List Bytes) :=
  pathFromLeafHashes H leafIndex (leaves.map (leafHash H))

/-- The inner `while` loop: drop the trailing zero bits of `fn` from both counters. -/
def collapse (fn sn : Nat) : Nat × Nat :=
  if fn &&& 1 = 0 ∧ fn ≠ 0 then collapse (fn >>> 1) (sn >>> 1) else (fn, sn)
termination_by fn
decreasing_by
  rw [Nat.shiftRight_one]
  omega

/-- The two counters of the verification walk and its running hash. -/
structure Walk where
  fn : Nat
  sn : Nat
  r : Bytes
  deriving DecidableEq, Repr

/-- One turn of the loop over the audit path; `none` is `return False`. -/
def walkStep (w : Walk) (sibling : Bytes) : Option Walk :=
  if w.sn = 0 then none
  else if w.fn &&& 1 = 1 ∨ w.fn = w.sn then
    let r := nodeHash H sibling w.r
    -- Only a border node, one that is not itself a right child, runs the inner loop.
    let (fn, sn) := if w.fn &&& 1 = 1 then (w.fn, w.sn) else collapse w.fn w.sn
    some ⟨fn >>> 1, sn >>> 1, r⟩
  else
    some ⟨w.fn >>> 1, w.sn >>> 1, nodeHash H w.r sibling⟩

/-- `verify_inclusion`: fold the leaf hash up through the path and compare with the root. -/
def verifyInclusion (leafIndex treeSize : Int) (leafHashValue : Bytes) (auditPath : List Bytes)
    (root : Bytes) : Bool :=
  if leafIndex < 0 ∨ treeSize ≤ 0 ∨ leafIndex ≥ treeSize then false
  else
    match auditPath.foldlM (walkStep H) ⟨leafIndex.toNat, (treeSize - 1).toNat, leafHashValue⟩ with
    | none => false
    | some w => w.sn == 0 && w.r == root

end Hashing

/-! ## The tree and its sides -/

/-- The sides taken from the root to leaf `m` of a tree with `n` leaves. -/
def sides (m n : Nat) : List Side :=
  if n ≤ 1 then []
  else
    let k := largestPowerOfTwoBelow n
    if m < k then .left :: sides m k else .right :: sides (m - k) (n - k)
termination_by n
decreasing_by
  all_goals
    have hk := largestPowerOfTwoBelow_bounds (n := n) (by omega)
    omega

/-- The tree behind a non-empty list of leaf hashes. -/
def treeOf (hashes : List Bytes) : HashTree Bytes :=
  if hashes.length ≤ 1 then .leaf (hashes.headD [])
  else
    let k := largestPowerOfTwoBelow hashes.length
    .node (treeOf (hashes.take k)) (treeOf (hashes.drop k))
termination_by hashes.length
decreasing_by
  all_goals
    have hk := largestPowerOfTwoBelow_bounds (n := hashes.length) (by omega)
    simp only [List.length_take, List.length_drop]
    omega

private theorem sides_small {m n : Nat} (h : n ≤ 1) : sides m n = [] := by
  unfold sides
  simp [h]

private theorem sides_left {m n : Nat} (h : 2 ≤ n) (hm : m < largestPowerOfTwoBelow n) :
    sides m n = .left :: sides m (largestPowerOfTwoBelow n) := by
  rw [sides]
  simp [show ¬ n ≤ 1 by omega, hm]

private theorem sides_right {m n : Nat} (h : 2 ≤ n) (hm : ¬ m < largestPowerOfTwoBelow n) :
    sides m n =
      .right :: sides (m - largestPowerOfTwoBelow n) (n - largestPowerOfTwoBelow n) := by
  rw [sides]
  simp [show ¬ n ≤ 1 by omega, hm]

private theorem treeOf_node {hashes : List Bytes} (h : 2 ≤ hashes.length) :
    treeOf hashes = .node (treeOf (hashes.take (largestPowerOfTwoBelow hashes.length)))
      (treeOf (hashes.drop (largestPowerOfTwoBelow hashes.length))) := by
  rw [treeOf]
  simp [show ¬ hashes.length ≤ 1 by omega]

private theorem rootFromLeafHashes_node (H : HashFn) {hashes : List Bytes}
    (h : 2 ≤ hashes.length) :
    rootFromLeafHashes H hashes =
      nodeHash H (rootFromLeafHashes H (hashes.take (largestPowerOfTwoBelow hashes.length)))
        (rootFromLeafHashes H (hashes.drop (largestPowerOfTwoBelow hashes.length))) := by
  rw [rootFromLeafHashes]
  simp [show ¬ hashes.length = 1 by omega, show hashes ≠ [] by rintro rfl; simp at h]

private theorem leftHalf_ne_nil {hashes : List Bytes} (h : 2 ≤ hashes.length) :
    hashes.take (largestPowerOfTwoBelow hashes.length) ≠ [] := by
  have hk := largestPowerOfTwoBelow_bounds h
  rw [ne_eq, List.take_eq_nil_iff]
  rintro (hzero | rfl)
  · omega
  · simp at h

private theorem rightHalf_ne_nil {hashes : List Bytes} (h : 2 ≤ hashes.length) :
    hashes.drop (largestPowerOfTwoBelow hashes.length) ≠ [] := by
  have hk := largestPowerOfTwoBelow_bounds h
  rw [ne_eq, List.drop_eq_nil_iff]
  omega

private theorem length_leftHalf {hashes : List Bytes} (h : 2 ≤ hashes.length) :
    (hashes.take (largestPowerOfTwoBelow hashes.length)).length =
      largestPowerOfTwoBelow hashes.length := by
  have hk := largestPowerOfTwoBelow_bounds h
  rw [List.length_take]
  omega

/-- Splitting a list of leaf hashes, as an induction principle. -/
theorem split_induction {P : (hashes : List Bytes) → hashes ≠ [] → Prop}
    (one : ∀ x, P [x] (List.cons_ne_nil x []))
    (node : ∀ (hashes : List Bytes) (hlen : 2 ≤ hashes.length) (hne : hashes ≠ []),
      P (hashes.take (largestPowerOfTwoBelow hashes.length)) (leftHalf_ne_nil hlen) →
      P (hashes.drop (largestPowerOfTwoBelow hashes.length)) (rightHalf_ne_nil hlen) →
      P hashes hne)
    (hashes : List Bytes) (hne : hashes ≠ []) : P hashes hne := by
  induction hn : hashes.length using Nat.strong_induction_on generalizing hashes with
  | _ n ih =>
    subst hn
    by_cases hlen : 2 ≤ hashes.length
    · have hk := largestPowerOfTwoBelow_bounds hlen
      apply node hashes hlen
      · apply ih _ _ _ _ rfl
        rw [length_leftHalf hlen]
        omega
      · apply ih _ _ _ _ rfl
        rw [List.length_drop]
        omega
    · match hashes, hne with
      | [x], _ => exact one x
      | _ :: _ :: _, _ => simp at hlen

/-- The code's root is the tree's root. -/
theorem root_treeOf (H : HashFn) {hashes : List Bytes} (hne : hashes ≠ []) :
    (treeOf hashes).root (nodeHash H) = rootFromLeafHashes H hashes := by
  induction hashes, hne using split_induction with
  | one x =>
    simp [treeOf, HashTree.root, rootFromLeafHashes]
  | node hashes hlen _ ihl ihr =>
    rw [treeOf_node hlen, rootFromLeafHashes_node H hlen, HashTree.root, ihl, ihr]

/-- The sides of leaf `m` lead to the `m`-th leaf hash. -/
theorem get?_treeOf {hashes : List Bytes} (hne : hashes ≠ []) {m : Nat}
    (hm : m < hashes.length) : (treeOf hashes).get? (sides m hashes.length) = hashes[m]? := by
  induction hashes, hne using split_induction generalizing m with
  | one x =>
    have hm0 : m = 0 := by simpa using hm
    simp [hm0, treeOf, sides_small, HashTree.get?]
  | node hashes hlen _ ihl ihr =>
    rw [treeOf_node hlen]
    by_cases hk : m < largestPowerOfTwoBelow hashes.length
    · have hl := ihl (by rw [length_leftHalf hlen]; exact hk)
      rw [length_leftHalf hlen, List.getElem?_take_of_lt hk] at hl
      rw [sides_left hlen hk, HashTree.get?, hl]
    · have hr := ihr (m := m - largestPowerOfTwoBelow hashes.length)
        (by rw [List.length_drop]; omega)
      rw [List.length_drop, List.getElem?_drop] at hr
      rw [sides_right hlen hk, HashTree.get?, hr]
      congr 1
      omega

private theorem pathFromLeafHashes_left (H : HashFn) {hashes : List Bytes} {m : Nat}
    (h : 2 ≤ hashes.length) (hm : m < largestPowerOfTwoBelow hashes.length) :
    pathFromLeafHashes H m hashes = (do
      let path ← pathFromLeafHashes H m (hashes.take (largestPowerOfTwoBelow hashes.length))
      return path ++ [rootFromLeafHashes H
        (hashes.drop (largestPowerOfTwoBelow hashes.length))]) := by
  have hk := largestPowerOfTwoBelow_bounds h
  rw [pathFromLeafHashes]
  simp [show ¬ hashes.length = 1 by omega, show m < hashes.length by omega, hm]

private theorem pathFromLeafHashes_right (H : HashFn) {hashes : List Bytes} {m : Nat}
    (h : 2 ≤ hashes.length) (hk : ¬ m < largestPowerOfTwoBelow hashes.length)
    (hm : m < hashes.length) :
    pathFromLeafHashes H m hashes = (do
      let path ← pathFromLeafHashes H ((m - largestPowerOfTwoBelow hashes.length : Nat) : Int)
        (hashes.drop (largestPowerOfTwoBelow hashes.length))
      return path ++ [rootFromLeafHashes H
        (hashes.take (largestPowerOfTwoBelow hashes.length))]) := by
  rw [pathFromLeafHashes]
  simp only [show ¬ hashes.length = 1 by omega,
    show (0 : Int) ≤ m ∧ (m : Int) < hashes.length by omega, and_self, if_true, if_false,
    show ¬ (m : Int) < largestPowerOfTwoBelow hashes.length by omega,
    Int.ofNat_sub (show largestPowerOfTwoBelow hashes.length ≤ m by omega)]

/-- The audit path is the tree's siblings on the way to the leaf, from the leaf up. -/
theorem pathFromLeafHashes_eq (H : HashFn) {hashes : List Bytes} (hne : hashes ≠ []) {m : Nat}
    (hm : m < hashes.length) :
    ∃ path, pathFromLeafHashes H m hashes = .ok path ∧
      (treeOf hashes).siblings (nodeHash H) (sides m hashes.length) = some path.reverse := by
  induction hashes, hne using split_induction generalizing m with
  | one x =>
    have hm0 : m = 0 := by simpa using hm
    refine ⟨[], ?_, ?_⟩
    · rw [pathFromLeafHashes]
      simp [hm0]
    · simp [sides_small, treeOf, HashTree.siblings]
  | node hashes hlen _ ihl ihr =>
    have hbounds := largestPowerOfTwoBelow_bounds hlen
    rw [treeOf_node hlen]
    by_cases hk : m < largestPowerOfTwoBelow hashes.length
    · obtain ⟨path, hpath, hsib⟩ := ihl (by rw [length_leftHalf hlen]; exact hk)
      rw [length_leftHalf hlen] at hsib
      refine ⟨_, by rw [pathFromLeafHashes_left H hlen hk, hpath]; rfl, ?_⟩
      rw [sides_left hlen hk, HashTree.siblings, hsib, root_treeOf H (rightHalf_ne_nil hlen)]
      simp
    · obtain ⟨path, hpath, hsib⟩ := ihr (m := m - largestPowerOfTwoBelow hashes.length)
        (by rw [List.length_drop]; omega)
      rw [List.length_drop] at hsib
      refine ⟨_, by rw [pathFromLeafHashes_right H hlen hk hm, hpath]; rfl, ?_⟩
      rw [sides_right hlen hk, HashTree.siblings, hsib, root_treeOf H (leftHalf_ne_nil hlen)]
      simp

/-! ## The counters of the verifier -/

/-- The side on which one turn of the walk stands, and the counters after it. -/
def stepCounters (fn sn : Nat) : Option (Side × Nat × Nat) :=
  if sn = 0 then none
  else if fn % 2 = 1 then some (.right, fn / 2, sn / 2)
  else if fn = sn then some (.right, (collapse fn sn).1 / 2, (collapse fn sn).2 / 2)
  else some (.left, fn / 2, sn / 2)

/-- The running hash after a turn on the given side. -/
def absorb (H : HashFn) (r sibling : Bytes) : Side → Bytes
  | .left => nodeHash H r sibling
  | .right => nodeHash H sibling r

/-- A turn of the walk is a step of the counters and one absorbed sibling. -/
theorem walkStep_eq (H : HashFn) (fn sn : Nat) (r sibling : Bytes) :
    walkStep H ⟨fn, sn, r⟩ sibling = (stepCounters fn sn).map fun next =>
      ⟨next.2.1, next.2.2, absorb H r sibling next.1⟩ := by
  simp only [walkStep, stepCounters, Nat.and_one_is_mod, Nat.shiftRight_one]
  by_cases hsn : sn = 0
  · simp [hsn]
  by_cases hodd : fn % 2 = 1
  · simp [hsn, hodd, absorb]
  by_cases hborder : fn = sn
  · subst hborder
    simp [hsn, hodd, absorb]
  · simp [hsn, hodd, hborder, absorb]

/-- The walk from these counters takes exactly these sides before `sn` is zero. -/
inductive Climbs : Nat → Nat → List Side → Prop
  | done (fn : Nat) : Climbs fn 0 []
  | step {fn sn fn' sn' : Nat} {side : Side} {rest : List Side}
      (hstep : stepCounters fn sn = some (side, fn', sn')) (hrest : Climbs fn' sn' rest) :
      Climbs fn sn (side :: rest)

/-- The bits of a leaf index below `2 ^ e`, lowest first, as sides. -/
def lowSides : Nat → Nat → List Side
  | 0, _ => []
  | e + 1, a => (if a % 2 = 1 then .right else .left) :: lowSides e (a / 2)

private theorem lowSides_succ_high (e a : Nat) (ha : a < 2 ^ (e + 1)) :
    lowSides (e + 1) a = lowSides e (a % 2 ^ e) ++ [if a < 2 ^ e then .left else .right] := by
  induction e generalizing a with
  | zero =>
    have hcases : a = 0 ∨ a = 1 := by
      rw [Nat.pow_succ] at ha
      omega
    rcases hcases with rfl | rfl <;> rfl
  | succ e ih =>
    have hpow : 2 ^ (e + 1) = 2 * 2 ^ e := by rw [Nat.pow_succ]; omega
    have hpow' : 2 ^ (e + 1 + 1) = 2 * 2 ^ (e + 1) := by rw [Nat.pow_succ]; omega
    have hhalf := ih (a / 2) (by omega)
    rw [lowSides, hhalf, lowSides]
    have hmod : a % 2 ^ (e + 1) / 2 = a / 2 % 2 ^ e := by
      rw [hpow, Nat.mod_mul_right_div_self]
    have hbit : a % 2 ^ (e + 1) % 2 = a % 2 := by
      rw [hpow]
      exact Nat.mod_mul_right_mod a 2 (2 ^ e)
    have hside : (a / 2 < 2 ^ e) ↔ (a < 2 ^ (e + 1)) := by omega
    simp only [hmod, hbit, hside, List.cons_append]

/-- In a perfect tree the sides from the leaf up are the bits of the index. -/
theorem sides_two_pow (e : Nat) {a : Nat} (ha : a < 2 ^ e) :
    (sides a (2 ^ e)).reverse = lowSides e a := by
  induction e generalizing a with
  | zero => simp [sides_small, lowSides]
  | succ e ih =>
    have hpos := Nat.two_pow_pos e
    have hpow : 2 ^ (e + 1) = 2 * 2 ^ e := by rw [Nat.pow_succ]; omega
    have hsplit := largestPowerOfTwoBelow_two_pow e
    rw [lowSides_succ_high e a ha]
    by_cases hlow : a < 2 ^ e
    · rw [sides_left (by omega) (by omega), hsplit, List.reverse_cons, ih hlow,
        Nat.mod_eq_of_lt hlow, if_pos hlow]
    · have hrest : 2 ^ (e + 1) - 2 ^ e = 2 ^ e := by omega
      have hmod : a % 2 ^ e = a - 2 ^ e := by
        rw [Nat.mod_eq_sub_mod (by omega), Nat.mod_eq_of_lt (by omega)]
      rw [sides_right (by omega) (by omega), hsplit, hrest, List.reverse_cons,
        ih (by omega), hmod, if_neg hlow]

/-- In the left half the walk reads the bits of the index and ends on the left. -/
theorem climbs_left (e : Nat) {a b : Nat} (ha : a < 2 ^ e) (hb : b < 2 ^ e) :
    Climbs a (2 ^ e + b) (lowSides e a ++ [.left]) := by
  induction e generalizing a b with
  | zero =>
    have ha0 : a = 0 := by omega
    have hb0 : b = 0 := by omega
    subst ha0 hb0
    exact .step (by decide) (.done 0)
  | succ e ih =>
    have hpow : 2 ^ (e + 1) = 2 * 2 ^ e := by rw [Nat.pow_succ]; omega
    have hhalf : (2 ^ (e + 1) + b) / 2 = 2 ^ e + b / 2 := by omega
    have hrest : Climbs (a / 2) (2 ^ e + b / 2) (lowSides e (a / 2) ++ [.left]) :=
      ih (by omega) (by omega)
    refine .step ?_ hrest
    -- `fn` stays below `sn`, so no node of the left half is a border node.
    by_cases hodd : a % 2 = 1
    · simp [stepCounters, hodd, hhalf]
    · simp [stepCounters, hodd, hhalf, show a ≠ 2 ^ (e + 1) + b by omega]

theorem collapse_even {a b : Nat} (ha : a % 2 = 0) (hne : a ≠ 0) :
    collapse a b = collapse (a / 2) (b / 2) := by
  rw [collapse]
  simp [ha, hne, Nat.and_one_is_mod, Nat.shiftRight_one]

theorem collapse_odd {a b : Nat} (ha : a % 2 = 1) : collapse a b = (a, b) := by
  rw [collapse]
  simp [ha, Nat.and_one_is_mod]

/-- A leading bit above a border index survives the inner loop. -/
theorem collapse_border (e : Nat) {a : Nat} (hpos : 0 < a) (ha : a < 2 ^ e) :
    ∃ f c, 0 < f ∧ c < 2 ^ f ∧ collapse a a = (c, c) ∧
      collapse (2 ^ e + a) (2 ^ e + a) = (2 ^ f + c, 2 ^ f + c) := by
  induction e generalizing a with
  | zero => omega
  | succ e ih =>
    have hpow : 2 ^ (e + 1) = 2 * 2 ^ e := by rw [Nat.pow_succ]; omega
    by_cases hodd : a % 2 = 1
    · exact ⟨e + 1, a, by omega, ha, collapse_odd hodd, collapse_odd (by omega)⟩
    · obtain ⟨f, c, hf, hc, hlow, hhigh⟩ := ih (a := a / 2) (by omega) (by omega)
      refine ⟨f, c, hf, hc, ?_, ?_⟩
      · rw [collapse_even (by omega) (by omega), hlow]
      · rw [collapse_even (by omega) (by omega),
          show (2 ^ (e + 1) + a) / 2 = 2 ^ e + a / 2 by omega, hhigh]

theorem collapse_two_pow (e : Nat) : collapse (2 ^ e) (2 ^ e) = (1, 1) := by
  induction e with
  | zero => exact collapse_odd rfl
  | succ e ih =>
    have hpow : 2 ^ (e + 1) = 2 * 2 ^ e := by rw [Nat.pow_succ]; omega
    have hpos := Nat.two_pow_pos e
    rw [collapse_even (by omega) (by omega), show 2 ^ (e + 1) / 2 = 2 ^ e by omega, ih]

/-- In the right half the walk is that of the half itself, then one turn on the right. -/
theorem climbs_right {a b : Nat} {up : List Side} (h : Climbs a b up) (hab : a ≤ b) {e : Nat}
    (hb : b < 2 ^ e) : Climbs (2 ^ e + a) (2 ^ e + b) (up ++ [.right]) := by
  induction h generalizing e with
  | done fn =>
    have hfn : fn = 0 := by omega
    subst hfn
    cases e with
    | zero => exact .step (by decide) (.done 0)
    | succ e =>
      have hpow : 2 ^ (e + 1) = 2 * 2 ^ e := by rw [Nat.pow_succ]; omega
      have hpos := Nat.two_pow_pos e
      have hrest : Climbs 0 0 [] := .done 0
      refine .step ?_ hrest
      simp [stepCounters, collapse_two_pow, show 2 ^ (e + 1) % 2 = 0 by omega]
  | step hstep hrest ih =>
    next fn sn fn' sn' side rest =>
    cases e with
    | zero =>
      have hsn : sn = 0 := by omega
      simp [stepCounters, hsn] at hstep
    | succ e =>
      have hpow : 2 ^ (e + 1) = 2 * 2 ^ e := by rw [Nat.pow_succ]; omega
      simp only [stepCounters] at hstep
      split at hstep
      · simp at hstep
      next hsn =>
      split at hstep
      · next hodd =>
        simp only [Option.some.injEq, Prod.mk.injEq] at hstep
        obtain ⟨rfl, rfl, rfl⟩ := hstep
        refine .step ?_ (ih (by omega) (e := e) (by omega))
        simp only [stepCounters, show ¬ 2 ^ (e + 1) + sn = 0 by omega, if_false,
          show (2 ^ (e + 1) + fn) % 2 = 1 by omega, if_true,
          show (2 ^ (e + 1) + fn) / 2 = 2 ^ e + fn / 2 by omega,
          show (2 ^ (e + 1) + sn) / 2 = 2 ^ e + sn / 2 by omega]
      next heven =>
      split at hstep
      · next hborder =>
        subst hborder
        simp only [Option.some.injEq, Prod.mk.injEq] at hstep
        obtain ⟨f, c, hf, hc, hlow, hhigh⟩ := collapse_border (e + 1) (a := fn) (by omega) hb
        rw [hlow] at hstep
        obtain ⟨rfl, rfl, rfl⟩ := hstep
        obtain ⟨f, rfl⟩ : ∃ f', f = f' + 1 := ⟨f - 1, by omega⟩
        have hpowf : 2 ^ (f + 1) = 2 * 2 ^ f := by rw [Nat.pow_succ]; omega
        refine .step ?_ (ih le_rfl (e := f) (by omega))
        simp only [stepCounters, show ¬ 2 ^ (e + 1) + fn = 0 by omega, if_false, hhigh,
          show ¬ (2 ^ (e + 1) + fn) % 2 = 1 by omega, if_true,
          show (2 ^ (f + 1) + c) / 2 = 2 ^ f + c / 2 by omega]
      · next hinner =>
        simp only [Option.some.injEq, Prod.mk.injEq] at hstep
        obtain ⟨rfl, rfl, rfl⟩ := hstep
        refine .step ?_ (ih (by omega) (e := e) (by omega))
        simp only [stepCounters, show ¬ 2 ^ (e + 1) + sn = 0 by omega, if_false,
          show ¬ (2 ^ (e + 1) + fn) % 2 = 1 by omega,
          show ¬ 2 ^ (e + 1) + fn = 2 ^ (e + 1) + sn by omega,
          show (2 ^ (e + 1) + fn) / 2 = 2 ^ e + fn / 2 by omega,
          show (2 ^ (e + 1) + sn) / 2 = 2 ^ e + sn / 2 by omega]

/-- The verifier's counters follow the prover's splits. -/
theorem climbs_sides {m n : Nat} (hm : m < n) : Climbs m (n - 1) (sides m n).reverse := by
  induction n using Nat.strong_induction_on generalizing m with
  | _ n ih =>
    by_cases hn : n ≤ 1
    · have hm0 : m = 0 := by omega
      have hn1 : n = 1 := by omega
      subst hm0 hn1
      rw [sides_small le_rfl]
      exact .done 0
    · obtain ⟨hpos, hlt, hle⟩ := largestPowerOfTwoBelow_bounds (n := n) (by omega)
      by_cases hk : m < largestPowerOfTwoBelow n
      · rw [sides_left (by omega) hk, List.reverse_cons]
        rw [largestPowerOfTwoBelow_eq] at hk hlt hle ⊢
        rw [sides_two_pow _ hk]
        have hleft := climbs_left (n - 1).log2 hk (b := n - 1 - 2 ^ (n - 1).log2) (by omega)
        rwa [show 2 ^ (n - 1).log2 + (n - 1 - 2 ^ (n - 1).log2) = n - 1 by omega] at hleft
      · rw [sides_right (by omega) hk, List.reverse_cons]
        have hrest := ih (n - largestPowerOfTwoBelow n) (by omega)
          (show m - largestPowerOfTwoBelow n < n - largestPowerOfTwoBelow n by omega)
        rw [largestPowerOfTwoBelow_eq] at hk hlt hle hrest ⊢
        have hright := climbs_right hrest (by omega) (e := (n - 1).log2) (by omega)
        rwa [show 2 ^ (n - 1).log2 + (m - 2 ^ (n - 1).log2) = m by omega,
          show 2 ^ (n - 1).log2 + (n - 2 ^ (n - 1).log2 - 1) = n - 1 by omega] at hright

/-! ## Completeness and soundness of inclusion proofs -/

section Verification

variable (H : HashFn)

/-- The hash input of one turn of the walk. -/
def turnPreimage (r sibling : Bytes) : Side → Bytes
  | .left => nodePrefix ++ r ++ sibling
  | .right => nodePrefix ++ sibling ++ r

/-- Everything the verification walk hashes, the leaf hash apart. -/
def walkPreimages (fn sn : Nat) (r : Bytes) : List Bytes → List Bytes
  | [] => []
  | sibling :: rest =>
    match stepCounters fn sn with
    | none => []
    | some (side, fn', sn') =>
      turnPreimage r sibling side :: walkPreimages fn' sn' (absorb H r sibling side) rest

/-- Everything hashed to verify a candidate leaf preimage against a path. -/
def verifyPreimages (leafIndex treeSize : Int) (x : Bytes) (auditPath : List Bytes) : List Bytes :=
  (leafPrefix ++ x) ::
    walkPreimages H leafIndex.toNat (treeSize - 1).toNat (leafHash H x) auditPath

/-- Everything hashed above the leaf hashes to compute their root. -/
def treePreimages (hashes : List Bytes) : List Bytes :=
  ((treeOf hashes).pairs (nodeHash H)).map fun p => nodePrefix ++ p.1 ++ p.2

/-- Everything hashed to compute the root of a non-empty log. -/
def rootPreimages (leaves : List Bytes) : List Bytes :=
  leaves.map (leafPrefix ++ ·) ++ treePreimages H (leaves.map (leafHash H))

theorem climb_append (x s : Bytes) (side : Side) (steps : List (Side × Bytes)) :
    HashTree.climb (nodeHash H) x (steps ++ [(side, s)]) =
      HashTree.climb (nodeHash H) (absorb H x s side) steps := by
  induction steps with
  | nil => cases side <;> rfl
  | cons step steps ih =>
    obtain ⟨d, t⟩ := step
    cases d <;> simp only [List.cons_append, HashTree.climb, ih]

/-- A walk accepts exactly the paths of the right length, and then climbs the tree. -/
theorem walk_iff {fn sn : Nat} {up : List Side} (h : Climbs fn sn up) (r root : Bytes)
    (path : List Bytes) :
    (∃ w, path.foldlM (walkStep H) ⟨fn, sn, r⟩ = some w ∧ w.sn = 0 ∧ w.r = root) ↔
      path.length = up.length ∧
        HashTree.climb (nodeHash H) r (up.zip path).reverse = root := by
  induction h generalizing r path with
  | done fn =>
    cases path with
    | nil => simp [HashTree.climb]
    | cons s path => simp [walkStep_eq, stepCounters]
  | step hstep hrest ih =>
    next fn sn fn' sn' side rest =>
    cases path with
    | nil =>
      have hsn : sn ≠ 0 := by
        rintro rfl
        simp [stepCounters] at hstep
      simp [hsn]
    | cons s path =>
      have hturn : walkStep H ⟨fn, sn, r⟩ s = some ⟨fn', sn', absorb H r s side⟩ := by
        rw [walkStep_eq, hstep]
        rfl
      rw [List.foldlM_cons, hturn]
      simp only [Option.bind_eq_bind, Option.bind_some, List.length_cons,
        Nat.add_right_cancel_iff, List.zip_cons_cons, List.reverse_cons, climb_append]
      exact ih (absorb H r s side) path

private theorem climbPairs_append (x s : Bytes) (side : Side) (steps : List (Side × Bytes)) :
    HashTree.climbPairs (nodeHash H) x (steps ++ [(side, s)]) =
      HashTree.climbPairs (nodeHash H) (absorb H x s side) steps ++
        [match side with | .left => (x, s) | .right => (s, x)] := by
  induction steps with
  | nil => cases side <;> rfl
  | cons step steps ih =>
    obtain ⟨d, t⟩ := step
    cases d <;> simp only [List.cons_append, HashTree.climbPairs, climb_append, ih]

private theorem walk_pairs {fn sn : Nat} {up : List Side} (h : Climbs fn sn up) (r : Bytes)
    (path : List Bytes) {p : Bytes × Bytes}
    (hp : p ∈ HashTree.climbPairs (nodeHash H) r (up.zip path).reverse) :
    nodePrefix ++ p.1 ++ p.2 ∈ walkPreimages H fn sn r path := by
  induction h generalizing r path with
  | done fn => simp [HashTree.climbPairs] at hp
  | step hstep hrest ih =>
    next fn sn fn' sn' side rest =>
    cases path with
    | nil => simp [HashTree.climbPairs] at hp
    | cons s path =>
      rw [List.zip_cons_cons, List.reverse_cons, climbPairs_append] at hp
      simp only [walkPreimages, hstep]
      rcases List.mem_append.mp hp with hp | hp
      · exact List.mem_cons_of_mem _ (ih _ _ hp)
      · rw [List.mem_singleton.mp hp]
        cases side <;> exact List.mem_cons_self

/-- The sides of a climb, read from the root. -/
theorem zip_fromRoot {ds : List Side} {path : List Bytes}
    (hlen : path.length = ds.length) :
    (ds.reverse.zip path).reverse = ds.zip path.reverse := by
  rw [List.zip, List.reverse_zipWith (by simpa using hlen.symm), List.reverse_reverse]

/-- What verification decides, over the tree: the path has the length of the way to the
leaf and climbing with it gives the root. -/
theorem verifyInclusion_iff (leafIndex treeSize : Int) (leafHashValue : Bytes)
    (auditPath : List Bytes) (root : Bytes) :
    verifyInclusion H leafIndex treeSize leafHashValue auditPath root = true ↔
      0 ≤ leafIndex ∧ leafIndex < treeSize ∧
        auditPath.length = (sides leafIndex.toNat treeSize.toNat).length ∧
        HashTree.climb (nodeHash H) leafHashValue
          ((sides leafIndex.toNat treeSize.toNat).zip auditPath.reverse) = root := by
  unfold verifyInclusion
  split
  · next hout =>
    constructor
    · simp
    · rintro ⟨hlow, hhigh, -, -⟩
      omega
  · next hin =>
    obtain ⟨m, rfl⟩ := Int.eq_ofNat_of_zero_le (show 0 ≤ leafIndex by omega)
    obtain ⟨n, rfl⟩ := Int.eq_ofNat_of_zero_le (show 0 ≤ treeSize by omega)
    have hclimbs : Climbs m (n - 1) (sides m n).reverse := climbs_sides (by omega)
    have hcounters : ((n : Int) - 1).toNat = n - 1 := by omega
    have hwalk := walk_iff H hclimbs leafHashValue root auditPath
    rw [List.length_reverse] at hwalk
    simp only [Int.toNat_natCast, hcounters]
    have hmatch : ∀ o : Option Walk,
        (match o with | none => false | some w => w.sn == 0 && w.r == root) = true ↔
          ∃ w, o = some w ∧ w.sn = 0 ∧ w.r = root := by
      rintro (_ | w) <;> simp
    rw [hmatch, hwalk]
    constructor
    · rintro ⟨hlen, hroot⟩
      exact ⟨by omega, by omega, hlen, by rw [← zip_fromRoot hlen]; exact hroot⟩
    · rintro ⟨-, -, hlen, hroot⟩
      exact ⟨hlen, by rw [zip_fromRoot hlen]; exact hroot⟩

/-- Inclusion proofs are complete: the path that the prover builds verifies. -/
theorem verifyInclusion_inclusionProof (leaves : List Bytes) (i : Nat) (hi : i < leaves.length) :
    ∃ path, inclusionProof H i leaves = .ok path ∧
      verifyInclusion H i leaves.length (leafHash H leaves[i]) path (merkleRoot H leaves) =
        true := by
  have hlen : i < (leaves.map (leafHash H)).length := by simpa using hi
  have hne : leaves.map (leafHash H) ≠ [] := List.ne_nil_of_length_pos (by omega)
  obtain ⟨path, hpath, hsib⟩ := pathFromLeafHashes_eq H hne hlen
  refine ⟨path, hpath, ?_⟩
  have hget := get?_treeOf hne hlen
  obtain ⟨ss, hss, hsslen⟩ := HashTree.siblings_of_get? (nodeHash H) (x := leafHash H leaves[i])
    (by rw [hget]; simp [hi])
  rw [hsib, Option.some.injEq] at hss
  rw [List.length_map] at hsib hget hsslen
  rw [verifyInclusion_iff]
  refine ⟨by omega, by omega, ?_, ?_⟩
  · rw [Int.toNat_natCast, Int.toNat_natCast, ← hsslen, ← hss, List.length_reverse]
  · rw [Int.toNat_natCast, Int.toNat_natCast, merkleRoot, ← root_treeOf H hne]
    exact HashTree.climb_siblings (nodeHash H) (by rw [hget]; simp [hi]) hsib

/-- The third leaf of a log of three, whose node skips a level, has a proof that verifies. -/
theorem verifyInclusion_inclusionProof_three :
    ∃ path, inclusionProof Sha256.digest (2 : Nat) [[0x61], [0x62], [0x63]] = .ok path ∧
      verifyInclusion Sha256.digest (2 : Nat) (3 : Nat) (leafHash Sha256.digest [0x63]) path
        (merkleRoot Sha256.digest [[0x61], [0x62], [0x63]]) = true :=
  verifyInclusion_inclusionProof Sha256.digest [[0x61], [0x62], [0x63]] 2 (by decide)

private theorem length_hash (x : Bytes) : (H x : Bytes).length = 32 := (H x).property

private theorem treeOf_pairs_width {hashes : List Bytes} (hne : hashes ≠ [])
    (hw : ∀ h ∈ hashes, h.length = 32) :
    ((treeOf hashes).root (nodeHash H)).length = 32 ∧
      ∀ q ∈ (treeOf hashes).pairs (nodeHash H), q.1.length = 32 ∧ q.2.length = 32 := by
  induction hashes, hne using split_induction with
  | one x => simpa [treeOf, HashTree.root, HashTree.pairs] using hw
  | node hashes hlen _ ihl ihr =>
    obtain ⟨hrootl, hpairsl⟩ := ihl fun h hh => hw h (List.mem_of_mem_take hh)
    obtain ⟨hrootr, hpairsr⟩ := ihr fun h hh => hw h (List.mem_of_mem_drop hh)
    rw [treeOf_node hlen]
    refine ⟨length_hash H _, ?_⟩
    intro q hq
    rcases List.mem_cons.mp hq with rfl | hq
    · exact ⟨hrootl, hrootr⟩
    · rcases List.mem_append.mp hq with hq | hq
      · exact hpairsl q hq
      · exact hpairsr q hq

/-- Two node preimages that are equal have equal halves, when one half of the first and both
halves of the second are digests. -/
theorem nodePreimage_inj {a b c d : Bytes} (hc : c.length = 32) (hd : d.length = 32)
    (hhalf : a.length = 32 ∨ b.length = 32)
    (h : nodePrefix ++ a ++ b = nodePrefix ++ c ++ d) : a = c ∧ b = d := by
  rw [List.append_assoc, List.append_assoc] at h
  have hbody := List.append_cancel_left h
  rcases hhalf with ha | hb
  · exact append_inj_of_width_left (ha.trans hc.symm) hbody
  · exact append_inj_of_width_right (hb.trans hd.symm) hbody

/-- Inclusion proofs are sound: with no collision among what the root and the verification
hash, an accepted path is the prover's own path for that very leaf. -/
theorem verifyInclusion_sound (leaves : List Bytes) (hne : leaves ≠ []) (i : Int) (x : Bytes)
    (auditPath : List Bytes)
    (hH : CollisionFreeOn H
      (verifyPreimages H i leaves.length x auditPath ++ rootPreimages H leaves))
    (hverify : verifyInclusion H i leaves.length (leafHash H x) auditPath (merkleRoot H leaves)
      = true) :
    0 ≤ i ∧ i < leaves.length ∧ leaves[i.toNat]? = some x ∧
      inclusionProof H i leaves = .ok auditPath := by
  obtain ⟨hlow, hhigh, hlen, hroot⟩ := (verifyInclusion_iff H _ _ _ _ _).mp hverify
  obtain ⟨m, rfl⟩ := Int.eq_ofNat_of_zero_le hlow
  have hm : m < leaves.length := by omega
  have hmlen : m < (leaves.map (leafHash H)).length := by simpa using hm
  have hmapne : leaves.map (leafHash H) ≠ [] := by simpa using hne
  simp only [Int.toNat_natCast] at hlen hroot ⊢
  have hget := get?_treeOf hmapne hmlen
  rw [List.length_map, List.getElem?_eq_getElem hmlen, List.getElem_map] at hget
  have hwidth := (treeOf_pairs_width H hmapne fun h hh => by
    obtain ⟨leaf, -, rfl⟩ := List.mem_map.mp hh
    exact length_hash H _).2
  have hclimbs : Climbs m (leaves.length - 1) (sides m leaves.length).reverse := climbs_sides hm
  -- Every node hashed on the walk has the running digest as one half.
  have hinj : ∀ p ∈ HashTree.climbPairs (nodeHash H) (leafHash H x)
      ((sides m leaves.length).zip auditPath.reverse),
      ∀ q ∈ (treeOf (leaves.map (leafHash H))).pairs (nodeHash H),
        nodeHash H p.1 p.2 = nodeHash H q.1 q.2 → p = q := by
    intro p hp q hq heq
    have hhalf := HashTree.climbPairs_half (nodeHash H) (P := fun b => b.length = 32)
      (fun a b => length_hash H _) (length_hash H (leafPrefix ++ x)) hp
    have hpmem := walk_pairs H hclimbs (leafHash H x) auditPath (p := p)
      (by rw [zip_fromRoot hlen]; exact hp)
    have hpre := hH (nodePrefix ++ p.1 ++ p.2)
      (by
        simp only [verifyPreimages, Int.toNat_natCast, List.cons_append, List.mem_cons,
          List.mem_append, show ((leaves.length : Int) - 1).toNat = leaves.length - 1 by omega]
        exact .inr (.inl hpmem))
      (nodePrefix ++ q.1 ++ q.2)
      (by
        simp only [rootPreimages, treePreimages, List.mem_append]
        exact .inr (.inr (List.mem_map_of_mem hq)))
      (Subtype.ext heq)
    obtain ⟨hfst, hsnd⟩ := nodePreimage_inj (hwidth q hq).1 (hwidth q hq).2 hhalf hpre
    exact Prod.ext hfst hsnd
  rw [merkleRoot, ← root_treeOf H hmapne] at hroot
  obtain ⟨hleaf, hsib⟩ := HashTree.climb_sound (nodeHash H) hget (by simpa using hlen) hinj hroot
  have hx : leafPrefix ++ x = leafPrefix ++ leaves[m] :=
    hH _ (by simp [verifyPreimages]) _ (by simp [rootPreimages]) (Subtype.ext hleaf)
  obtain ⟨path, hpath, hpathsib⟩ := pathFromLeafHashes_eq H hmapne hmlen
  rw [List.length_map, hsib, Option.some.injEq, List.reverse_inj] at hpathsib
  refine ⟨hlow, hhigh, ?_, ?_⟩
  · rw [List.getElem?_eq_getElem hm, List.append_cancel_left hx]
  · rw [inclusionProof, hpath, hpathsib]

/-- Of a log of two leaves, only the second leaf verifies at index one with the path of the
first leaf's hash. -/
theorem verifyInclusion_sound_two :
    (0 : Int) ≤ 1 ∧ (1 : Int) < (2 : Nat) ∧
      ([[0x61], [0x62]] : List Bytes)[(1 : Int).toNat]? = some [0x62] ∧
      inclusionProof Sha256.digest 1 [[0x61], [0x62]] =
        .ok [leafHash Sha256.digest [0x61]] :=
  verifyInclusion_sound Sha256.digest [[0x61], [0x62]] (by decide) 1 [0x62]
    [leafHash Sha256.digest [0x61]] (by decide +kernel) (by decide +kernel)

end Verification

end SchemaBrain.Audit
