import Mathlib.Data.Rat.Defs
import SchemaBrain.Core.TagOverrides

/-!
# The confidence band of a tag

`classify_pii_confidence`: a band for the matrix of the dashboard, from the categories of a tag and
from the shapes of the sampled values.
-/

namespace SchemaBrain.Pii

open Core

/-- `PiiConfidenceBand`. -/
inductive PiiConfidenceBand
  | floorLocked
  | high
  | medium
  | low
  deriving DecidableEq, Repr

/-! ## Shapes of values -/

/-- Every character of the shape is one of these. -/
def onlyChars (allowed shape : String) : Bool := shape.toList.all (· ∈ allowed.toList)

/-- `_has_email_shape`: what follows the first `@` has a dot. -/
def hasEmailShape (shape : String) : Bool :=
  ((shape.toList.dropWhile (· ≠ '@')).drop 1).contains '.'

/-- `_has_phone_shape`. -/
def hasPhoneShape (shape : String) : Bool :=
  decide (7 ≤ shape.toList.count '9') && onlyChars "9 +-()." shape

/-- `_has_coordinate_shape`. -/
def hasCoordinateShape (shape : String) : Bool :=
  shape ≠ "" && onlyChars "9.-" shape && shape.toList.count '.' = 1 && shape.toList.contains '9'

/-- `_has_ip_or_uuid_shape`. -/
def hasIpOrUuidShape (shape : String) : Bool :=
  let isIpv4 := onlyChars "9." shape && shape.toList.count '.' = 3 && shape.toList.contains '9'
  let isUuid := shape.length = 36 && shape.toList.count '-' = 4 && onlyChars "9aA-" shape
  isIpv4 || isUuid

/-- `_CATEGORY_SHAPE_FAMILIES`. -/
def categoryShapeFamilies : PiiCategory → List (String → Bool)
  | .contact => [hasEmailShape, hasPhoneShape]
  | .location => [hasCoordinateShape]
  | .onlineIdentifier => [hasIpOrUuidShape]
  | _ => []

/-- `_shapes_corroborate`. -/
def shapesCorroborate (categories : List PiiCategory) (shapePatterns : List String) : Bool :=
  let predicates := categories.flatMap categoryShapeFamilies
  shapePatterns.any fun shape => predicates.any fun pred => pred shape

/-! ## Bands -/

/-- `_NAME_MATCH_BASE`: the double of `0.6`. -/
def nameMatchBase : ℚ := 5404319552844595 / 9007199254740992

/-- `min(1.0, 0.6 + 0.3)` on doubles. -/
def corroboratedScore : ℚ := 8106479329266892 / 9007199254740992

/-- `_HIGH_BAND_THRESHOLD`: the double of `0.8`. -/
def highBandThreshold : ℚ := 3602879701896397 / 4503599627370496

/-- `classify_pii_confidence`: the band and the score. -/
def classifyPiiConfidence (categories : List PiiCategory) (shapePatterns : List String) :
    Option PiiConfidenceBand × Option ℚ :=
  if categories = [] then (none, none)
  else if floorCategories categories ≠ [] then (some .floorLocked, none)
  else
    let score := if shapesCorroborate categories shapePatterns then corroboratedScore
      else nameMatchBase
    (some (if highBandThreshold ≤ score then .high else .medium), some score)

/-- The band and the score agree with the tag: a band only with categories, the locked one just
where they meet the floor, and that one without a score. -/
structure BandAgrees (tag : ColumnPiiTag) (band : Option PiiConfidenceBand) (score : Option ℚ) :
    Prop where
  categories_ne_nil : band ≠ none → tag.categories ≠ []
  locked_iff : band = some .floorLocked ↔ band ≠ none ∧ tag.meetsFloor = true
  locked_score : band = some .floorLocked → score = none

/-- A tag without a band agrees with itself. -/
theorem bandAgrees_none (tag : ColumnPiiTag) (score : Option ℚ) : BandAgrees tag none score :=
  ⟨by simp, by simp, by simp⟩

theorem bandAgrees_classifyPiiConfidence (tag : ColumnPiiTag) (shapePatterns : List String) :
    BandAgrees tag (classifyPiiConfidence tag.categories shapePatterns).1
      (classifyPiiConfidence tag.categories shapePatterns).2 := by
  have hmeets : tag.meetsFloor = true ↔ floorCategories tag.categories ≠ [] := by
    simp [ColumnPiiTag.meetsFloor]
  unfold classifyPiiConfidence
  split
  · exact bandAgrees_none _ _
  · next hne =>
    split
    · next hfloor => exact ⟨fun _ => hne, by simp [hmeets, hfloor], fun _ => rfl⟩
    · next hfloor =>
      have hband : ∀ score : ℚ, (if highBandThreshold ≤ score then PiiConfidenceBand.high
          else .medium) ≠ .floorLocked := by
        intro score
        split <;> simp
      exact ⟨fun _ => hne, by simp [hmeets, hband, not_not.1 hfloor], fun h =>
        absurd (Option.some.inj h) (hband _)⟩

/-- Another tag agrees with a band just where it has categories, and they meet the floor as those
before do. -/
theorem BandAgrees.with_tag_iff {tag tag' : ColumnPiiTag} {band : Option PiiConfidenceBand}
    {score : Option ℚ} (h : BandAgrees tag band score) :
    BandAgrees tag' band score ↔
      (band ≠ none → tag'.categories ≠ [] ∧ tag'.meetsFloor = tag.meetsFloor) := by
  constructor
  · intro h' hband
    refine ⟨h'.categories_ne_nil hband, Bool.eq_iff_iff.2 ?_⟩
    have hlocked := h.locked_iff
    have hlocked' := h'.locked_iff
    simp only [hband, true_and, ne_eq, not_false_eq_true] at hlocked hlocked'
    exact hlocked'.symm.trans hlocked
  · intro hkeeps
    refine ⟨fun hband => (hkeeps hband).1, ?_, h.locked_score⟩
    rw [h.locked_iff]
    exact and_congr_right fun hband => by rw [(hkeeps hband).2]

end SchemaBrain.Pii
