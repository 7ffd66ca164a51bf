import SchemaBrain.Pii.PolicyYaml

/-!
# The checks of policy files

What `parse_policy_yaml` raises, read off the checks that it runs.
-/

namespace SchemaBrain.Pii

open Base Core

section Checks

variable (limit : Nat)

/-- The checks of a list of different strings, after those that were seen. -/
def distinctChecks (seen : List String) : List YamlValue → List Check
  | [] => []
  | .str s :: rest => ⟨s ∉ seen, false⟩ :: distinctChecks (seen ++ [s]) rest
  | value :: _ => [printedCheck limit isStr value]

/-- The checks of a list field. -/
def distinctListChecks : YamlValue → List Check
  | .seq items => distinctChecks limit [] items
  | raw => [printedCheck limit (fun _ => false) raw]

/-- The value is the word of a sensitivity. -/
def isSensitivity : YamlValue → Bool
  | .str s => (sensitivityOfWord s).isSome
  | _ => false

/-- The value is the word of a category. -/
def isCategory : YamlValue → Bool
  | .str s => (categoryOfWord s).isSome
  | _ => false

/-- The value is a list of category words. -/
def isCategoryList : YamlValue → Bool
  | .seq items => items.all isCategory
  | _ => false

/-- The checks of one member of `column_overrides`. -/
def overrideChecks : YamlScalar × YamlValue → List Check
  | (.str qualifiedColumn, .map body) =>
    [keysCheck limit ["sensitivity", "categories"] ["sensitivity"] body,
      printedCheck limit isSensitivity ((yamlField body "sensitivity").getD .null)] ++
      (distinctListChecks limit ((yamlField body "categories").getD (.seq [])) ++
        [⟨(parseColumnPath qualifiedColumn).isSome &&
          isCategoryList ((yamlField body "categories").getD (.seq [])), false⟩])
  | (.str _, body) => [printedCheck limit (fun _ => false) body]
  | (key, _) => [printedCheck limit (fun _ => false) (.scalar key)]

/-- The checks of `column_overrides`. -/
def overridesChecks : YamlValue → List Check
  | .null => []
  | .map members => members.flatMap (overrideChecks limit)
  | raw => [printedCheck limit (fun _ => false) raw]

/-- The checks of `parse_policy_yaml` before it constructs the policy. -/
def policyChecks (data : List (YamlScalar × YamlValue)) : List Check :=
  [keysCheck limit ["version", "description", "block", "column_overrides"] ["version", "block"]
      data,
    printedCheck limit isOne ((yamlField data "version").getD .null),
    printedCheck limit isStr (optionalField data "description")] ++
    (distinctListChecks limit ((yamlField data "block").getD .null) ++
      overridesChecks limit ((yamlField data "column_overrides").getD .null))

variable {limit}

theorem runs_distinctStrings (items duplicate : String) (seen : List String)
    (values : List YamlValue) :
    Runs (distinctStrings limit items duplicate seen values)
      (distinctChecks limit seen values) := by
  fun_induction distinctStrings limit items duplicate seen values with
  | case1 seen => exact .ok seen
  | case2 seen s rest hseen =>
    exact Follows.stop (Runs.own (by simp [hseen]) rfl) (by simp [hseen]) _
  | case3 seen s rest hseen ih => exact ih.cons (by simp [hseen])
  | case4 seen value rest hother =>
    have hchecks :
        distinctChecks limit seen (value :: rest) = [printedCheck limit isStr value] := by
      unfold distinctChecks
      split
      · next heq => simp at heq
      · next s rest' heq => exact absurd (List.cons.inj heq).1 (hother s)
      · next heq => rw [(List.cons.inj heq).1]
    rw [hchecks]
    refine .refuse ?_ (by simp [printedCheck])
    unfold printedCheck isStr
    split
    · next s => exact absurd rfl (hother s)
    · rfl

/-- Strings that were read are the values. -/
theorem distinctStrings_ok {items duplicate : String} {seen words : List String}
    {values : List YamlValue}
    (h : distinctStrings limit items duplicate seen values = .ok words) :
    ∃ rest : List String, words = seen ++ rest ∧ values = rest.map .str := by
  fun_induction distinctStrings limit items duplicate seen values with
  | case1 seen => exact ⟨[], by simp [Except.ok.inj h], rfl⟩
  | case2 seen s rest hseen => simp at h
  | case3 seen s rest hseen ih =>
    obtain ⟨tail, rfl, rfl⟩ := ih h
    exact ⟨s :: tail, by simp, rfl⟩
  | case4 seen value rest hother =>
    unfold refuse at h
    split at h <;> simp at h

/-- The categories of an override are known words exactly when its constructor accepts them. -/
theorem columnOverride_isOk (qualifiedColumn : String) {sensitivity : String}
    (categories : List String) (hsensitivity : (sensitivityOfWord sensitivity).isSome = true) :
    (ColumnOverride.make qualifiedColumn sensitivity categories).isOk =
      ((parseColumnPath qualifiedColumn).isSome &&
        isCategoryList (.seq (categories.map .str))) := by
  obtain ⟨s, hs⟩ := Option.isSome_iff_exists.1 hsensitivity
  have hwords : isCategoryList (.seq (categories.map .str)) =
      decide (unknownCategories categories = []) := by
    simp only [isCategoryList, unknownCategories, List.all_map, List.filter_eq_nil_iff]
    rw [Bool.eq_iff_iff]
    simp [isCategory, Option.isSome_iff_ne_none]
  unfold ColumnOverride.make
  rw [hwords]
  by_cases hpath : (parseColumnPath qualifiedColumn).isSome = true
  · simp only [hpath, hs, dite_true, Bool.true_and]
    split
    · next hknown => simp [hknown, Except.isOk, Except.toBool]
    · next hknown => simp [hknown, Except.isOk, Except.toBool]
  · simp [hpath, Except.isOk, Except.toBool]

theorem runs_parseSensitivity (scope : String) (raw : YamlValue) :
    Runs (parseSensitivity limit scope raw) [printedCheck limit isSensitivity raw] := by
  unfold parseSensitivity
  split
  · next s =>
    split
    · next hknown => exact .of_ok rfl (by simp [printedCheck, isSensitivity, hknown])
    · next hknown =>
      exact .own (by simpa [printedCheck, isSensitivity] using hknown)
        (by simp [printedCheck, YamlValue.prints, YamlScalar.prints])
  · next hother =>
    refine .refuse ?_ (by simp [printedCheck])
    unfold printedCheck isSensitivity
    split
    · next s => exact absurd rfl (hother s)
    · rfl

/-- A sensitivity that was read is known. -/
theorem parseSensitivity_ok {scope s : String} {raw : YamlValue}
    (h : parseSensitivity limit scope raw = .ok s) : (sensitivityOfWord s).isSome = true := by
  unfold parseSensitivity at h
  split at h
  · split at h
    · next hknown => rwa [← Except.ok.inj h]
    · simp at h
  · unfold refuse at h
    split at h <;> simp at h

theorem runs_parseCategories (scope : String) (raw : YamlValue) :
    Runs (parseCategories limit scope raw) (distinctListChecks limit raw) := by
  cases raw with
  | seq items => exact runs_distinctStrings _ _ _ _
  | scalar s => exact .refuse rfl (by simp [printedCheck])
  | map members => exact .refuse rfl (by simp [printedCheck])

/-- Categories that were read are the items of their list. -/
theorem parseCategories_ok {scope : String} {words : List String} {raw : YamlValue}
    (h : parseCategories limit scope raw = .ok words) : raw = .seq (words.map .str) := by
  unfold parseCategories at h
  split at h
  · obtain ⟨rest, rfl, rfl⟩ := distinctStrings_ok h
    rfl
  · unfold refuse at h
    split at h <;> simp at h

theorem runs_parseBlock (raw : YamlValue) :
    Runs (parseBlock limit raw) (distinctListChecks limit raw) := by
  cases raw with
  | seq items => exact runs_distinctStrings _ _ _ _
  | scalar s => exact .refuse rfl (by simp [printedCheck])
  | map members => exact .refuse rfl (by simp [printedCheck])

theorem runs_parseColumnOverride (member : YamlScalar × YamlValue) :
    Runs (parseColumnOverride limit member) (overrideChecks limit member) := by
  obtain ⟨key, body⟩ := member
  cases key with
  | str qualifiedColumn =>
    cases body with
    | map body =>
      refine (runs_checkKeys _ _ _ _ body).bind fun _ _ => ?_
      refine (runs_parseSensitivity _ _).bind fun sensitivity hsensitivity => ?_
      refine (runs_parseCategories _ _).bind fun categories hcategories => ?_
      rw [parseCategories_ok hcategories]
      have hmake := columnOverride_isOk qualifiedColumn categories
        (parseSensitivity_ok hsensitivity)
      split
      · next message hraised =>
        exact Runs.own (by simp [← hmake, hraised, Except.isOk, Except.toBool]) rfl
      · next override hmade =>
        exact .of_ok rfl (by simp [← hmake, hmade, Except.isOk, Except.toBool])
    | scalar s => exact .refuse rfl (by simp [printedCheck])
    | seq items => exact .refuse rfl (by simp [printedCheck])
  | null | bool b | int i | float value text | date ordinal text | datetime aware instant text =>
    exact .refuse rfl (by simp [printedCheck])

theorem runs_parseColumnOverrides (raw : YamlValue) :
    Runs (parseColumnOverrides limit raw) (overridesChecks limit raw) := by
  cases raw with
  | map members => exact .mapM fun member _ => runs_parseColumnOverride member
  | seq items => exact .refuse rfl (by simp [printedCheck])
  | scalar s =>
    cases s with
    | null => exact .ok []
    | bool b | int i | float value text | str s | date ordinal text
    | datetime aware instant text => exact .refuse rfl (by simp [printedCheck])

/-- What `parse_policy_yaml` raises is read off its checks. -/
theorem guards_parsePolicyFields (data : List (YamlScalar × YamlValue)) :
    Guards YamlFailure.Foreign (parsePolicyFields limit data) (policyChecks limit data) := by
  unfold parsePolicyFields policyChecks
  refine (runs_checkKeys _ _ _ _ data).bind_guards fun _ _ => ?_
  refine (runs_checkVersion _ _).bind_guards fun _ _ => ?_
  refine (runs_optionalStr data "description" "").bind_guards fun description _ => ?_
  refine (runs_parseBlock _).bind_guards fun block _ => ?_
  rw [← List.append_nil (overridesChecks _ _)]
  refine (runs_parseColumnOverrides _).bind_guards fun columnOverrides _ => ?_
  split
  · exact .of_own (by simp)
  · exact .of_own (by simp)

end Checks

end SchemaBrain.Pii
