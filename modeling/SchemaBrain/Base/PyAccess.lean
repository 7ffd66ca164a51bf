import SchemaBrain.Base.Python

/-!
# Access to decoded values

What a program may do with a value of unknown type: test it for truth, read a key of it, go
through it, use it as a key. A value that does not allow it raises.
-/

namespace SchemaBrain.Base

/-- What an access raises: a missing attribute, or one of the other built-in exceptions. -/
inductive Raised
  | attributeError (message : String)
  | error (error : PyError)
  deriving DecidableEq, Repr

/-- `dict.get(key)`, where the dictionary may lack the key. -/
def lookupField (fields : List (String × PyValue)) (key : String) : Option PyValue :=
  (fields.find? (·.1 = key)).map (·.2)

/-- `dict.get(key)`. -/
def fieldOf (fields : List (String × PyValue)) (key : String) : PyValue :=
  (lookupField fields key).getD .none

/-- A computation that does not raise. -/
def Returns {ε α : Type} (x : Except ε α) : Prop := ∃ a, x = .ok a

section Returns

variable {ε α β : Type} {x : Except ε α} {f : α → Except ε β}

@[simp] theorem returns_ok (a : α) : Returns (.ok a : Except ε α) := ⟨a, rfl⟩

@[simp] theorem not_returns_error (e : ε) : ¬ Returns (.error e : Except ε α) := by
  rintro ⟨a, ⟨⟩⟩

theorem returns_bind : Returns (x >>= f) ↔ ∃ a, x = .ok a ∧ Returns (f a) := by
  cases x with
  | ok a => simp [bind, Except.bind]
  | error e => simp [bind, Except.bind]

end Returns

namespace PyValue

/-- `bool(value)`. -/
def truthy : PyValue → Bool
  | none => false
  | bool b => b
  | int i => i ≠ 0
  | float r => r ∉ ["0.0", "-0.0"]
  | str s => s ≠ ""
  | list items => !items.isEmpty
  | dict members => !members.isEmpty

/-- `value or default`. -/
def orElse (value default : PyValue) : PyValue := if value.truthy then value else default

/-- The members of a dictionary. -/
def members? : PyValue → Option (List (String × PyValue))
  | dict members => some members
  | _ => Option.none

/-- The text of a string. -/
def text? : PyValue → Option String
  | str s => some s
  | _ => Option.none

/-- `value.get(key)`. -/
def get (value : PyValue) (key : String) : Except Raised (Option PyValue) :=
  match value.members? with
  | some members => .ok (lookupField members key)
  | Option.none => .error (.attributeError
      (pyRepr value.typeName ++ " object has no attribute " ++ pyRepr "get"))

/-- `value.items()`. -/
def items (value : PyValue) : Except Raised (List (String × PyValue)) :=
  match value.members? with
  | some members => .ok members
  | Option.none => .error (.attributeError
      (pyRepr value.typeName ++ " object has no attribute " ++ pyRepr "items"))

/-- What a loop over the value goes through, if it can. -/
def elements? : PyValue → Option (List PyValue)
  | list items => some items
  | str s => some (s.toList.map fun c => str (String.singleton c))
  | dict members => some (members.map fun member => str member.1)
  | none | bool _ | int _ | float _ => Option.none

/-- `iter(value)`. -/
def iter (value : PyValue) : Except Raised (List PyValue) :=
  match value.elements? with
  | some elements => .ok elements
  | Option.none => .error (.error (.typeError
      (pyRepr value.typeName ++ " object is not iterable")))

/-- `hash(value)` returns. -/
def hashable : PyValue → Bool
  | list _ | dict _ => false
  | none | bool _ | int _ | float _ | str _ => true

/-! ## When an access returns -/

/-- `value or []` can be gone through. -/
def iterates (value : PyValue) : Bool := !value.truthy || value.elements?.isSome

/-- What a loop over `value or []` goes through. -/
def listed (value : PyValue) : List PyValue :=
  if value.truthy then value.elements?.getD [] else []

/-- `value or {}` has keys. -/
def isMapping (value : PyValue) : Bool := !value.truthy || value.members?.isSome

/-- The members of `value or {}`. -/
def mapping (value : PyValue) : List (String × PyValue) :=
  if value.truthy then value.members?.getD [] else []

variable {value : PyValue}

theorem iter_orElse : (value.orElse (.list [])).iter =
    if value.iterates then .ok value.listed else value.iter := by
  unfold orElse iterates listed
  by_cases htruthy : value.truthy = true
  · cases helements : value.elements? <;> simp [htruthy, iter, helements]
  · simp [htruthy, iter, elements?]

theorem returns_iter_orElse : Returns (value.orElse (.list [])).iter ↔ value.iterates = true := by
  rw [iter_orElse]
  split
  · next h => simp [h]
  · next h =>
    have helements : value.elements? = Option.none := by
      rw [iterates, Bool.not_eq_true, Bool.or_eq_false_iff] at h
      exact Option.not_isSome_iff_eq_none.1 (by simp [h.2])
    simp [h, iter, helements]

theorem iter_orElse_ok {elements : List PyValue}
    (h : (value.orElse (.list [])).iter = .ok elements) :
    elements = value.listed := by
  have hiterates := returns_iter_orElse.1 ⟨_, h⟩
  rw [iter_orElse, if_pos hiterates] at h
  exact (Except.ok.inj h).symm

theorem get_orElse (key : String) : (value.orElse (.dict [])).get key =
    if value.isMapping then .ok (lookupField value.mapping key) else value.get key := by
  unfold orElse isMapping mapping
  by_cases htruthy : value.truthy = true
  · cases hmembers : value.members? <;> simp [htruthy, get, hmembers]
  · simp [htruthy, get, members?]

theorem returns_get_orElse {key : String} :
    Returns ((value.orElse (.dict [])).get key) ↔ value.isMapping = true := by
  rw [get_orElse]
  split
  · next h => simp [h]
  · next h =>
    have hmembers : value.members? = Option.none := by
      rw [isMapping, Bool.not_eq_true, Bool.or_eq_false_iff] at h
      exact Option.not_isSome_iff_eq_none.1 (by simp [h.2])
    simp [h, get, hmembers]

theorem get_orElse_ok {key : String} {found : Option PyValue}
    (h : (value.orElse (.dict [])).get key = .ok found) :
    found = lookupField value.mapping key := by
  have hmapping := returns_get_orElse.1 ⟨_, h⟩
  rw [get_orElse, if_pos hmapping] at h
  exact (Except.ok.inj h).symm

theorem items_orElse : (value.orElse (.dict [])).items =
    if value.isMapping then .ok value.mapping else value.items := by
  unfold orElse isMapping mapping
  by_cases htruthy : value.truthy = true
  · cases hmembers : value.members? <;> simp [htruthy, items, hmembers]
  · simp [htruthy, items, members?]

theorem items_orElse_eq_ok {found : List (String × PyValue)} :
    (value.orElse (.dict [])).items = .ok found ↔
      value.isMapping = true ∧ found = value.mapping := by
  rw [items_orElse]
  split
  · next h => simp [h, eq_comm]
  · next h =>
    have hmembers : value.members? = Option.none := by
      rw [isMapping, Bool.not_eq_true, Bool.or_eq_false_iff] at h
      exact Option.not_isSome_iff_eq_none.1 (by simp [h.2])
    simp [h, items, hmembers]

@[simp] theorem mapping_dict (members : List (String × PyValue)) :
    (dict members).mapping = members := by
  cases members <;> rfl

@[simp] theorem isMapping_dict (members : List (String × PyValue)) :
    (dict members).isMapping = true := by
  simp [isMapping, members?]

theorem members?_orElse : (value.orElse (.dict [])).members? =
    if value.isMapping then some value.mapping else Option.none := by
  unfold orElse isMapping mapping
  by_cases htruthy : value.truthy = true
  · cases hmembers : value.members? <;> simp [htruthy, hmembers]
  · simp [htruthy, members?]

end PyValue

end SchemaBrain.Base
