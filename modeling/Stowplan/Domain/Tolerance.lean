/-
  File:      Stowplan/Domain/Tolerance.lean
  Subject:   WHICH RAW VALUES THE SNAPSHOT CHECK READS TO ITS END.

  The check coerces the words it looks up with `String(value)`, which throws for an object whose
  own `toString` hides the inherited one, and it looks a patch target up in an object that
  inherits properties. Everything else it reads is tested before it is used.

  * `printable`: the value has a text;
  * `readable`: every value the check coerces has a text, and no patch is aimed at an inherited
    property;
  * `returns_validateSnapshot`, `checks_return_iff`: the check returns exactly on readable values.
-/
import Stowplan.Domain.RecordGraph

namespace Stowplan

open JsValue

/-! ## 1. Results that return -/

/-- The computation returns. -/
def returns {α : Type} : Result α → Bool
  | .ok _ => true
  | .error _ => false

section Returns

variable {α β : Type}

@[simp] theorem returns_ok (a : α) : returns (.ok a) = true := rfl

@[simp] theorem returns_pure (a : α) : returns (pure a : Result α) = true := rfl

@[simp] theorem returns_error (e : Thrown) : returns (.error e : Result α) = false := rfl

/-- A function returns iff it has a result. -/
theorem returns_iff {x : Result α} : returns x = true ↔ ∃ a, x = .ok a := by
  cases x with
  | ok a => simp
  | error e => simp

/-- The rest of a computation that returns, or not, whatever came before. -/
theorem returns_bind {x : Result α} {f : α → Result β} {c : Bool} (h : ∀ a, returns (f a) = c) :
    returns (x >>= f) = (returns x && c) := by
  cases x with
  | ok a => exact (h a).trans (Bool.true_and c).symm
  | error e => rfl

theorem returns_ite {p : Prop} [Decidable p] {x y : Result α} {c : Bool} (hx : returns x = c)
    (hy : returns y = c) : returns (if p then x else y) = c := by
  split
  · exact hx
  · exact hy

/-- The second check runs only where the first holds. -/
theorem returns_andThen {a : Bool} {b : Result Bool} :
    returns (andThen a b) = (!a || returns b) := by
  cases a <;> rfl

end Returns

section Check

variable [Host]

/-! ## 2. Values with a text -/

/-- `String(value)` returns. -/
def printable (value : JsValue) : Bool := (stringOf Host.numberText value).isSome

/-- The text of the value is one of the words. -/
def reads (words : List String) (value : JsValue) : Bool :=
  (stringOf Host.numberText value).any words.contains

/-- The text of a value exists iff the value is printable. -/
@[simp] theorem returns_textOf (value : JsValue) : returns (textOf value) = printable value := by
  unfold textOf printable
  cases stringOf Host.numberText value <;> rfl

@[simp] theorem returns_oneOf (words : List String) (value : JsValue) :
    returns (oneOf words value) = printable value := by
  unfold oneOf textOf printable
  cases stringOf Host.numberText value <;> rfl

/-- What follows a look-up goes on with its answer. -/
theorem returns_oneOf_bind {α : Type} {words : List String} {value : JsValue}
    {f : Bool → Result α} : returns (oneOf words value >>= f) =
      (printable value && returns (f (reads words value))) := by
  unfold oneOf textOf printable reads
  cases stringOf Host.numberText value <;> rfl

theorem returns_textOf_bind {α : Type} {value : JsValue} {f : String → Result α} :
    returns (textOf value >>= f) = (match stringOf Host.numberText value with
      | none => false
      | some word => returns (f word)) := by
  unfold textOf
  cases stringOf Host.numberText value <;> rfl

/-! ## 3. Retained patches -/

/-- Conditions whose check throws nothing. -/
def readableConditions (value : JsValue) : Bool :=
  !(value.isRecord && ["dark", "dry", "foodSafe"].all fun f => (value.get f).isBool) ||
    (printable (value.get "humidity") &&
      (!reads ["dry", "normal", "humid"] (value.get "humidity") ||
        printable (value.get "temperature")))

/-- Each check returns iff what it reads is readable: here the conditions. -/
theorem returns_validConditions (value : JsValue) :
    returns (validConditions value) = readableConditions value := by
  unfold validConditions readableConditions
  rw [returns_andThen, returns_oneOf_bind, returns_andThen, returns_oneOf]

/-- The words of a whole record are reached only past the fields checked before them. -/
def readableRecord (target : PatchTarget) (value : JsValue) (id : String) : Bool :=
  !(value.isRecord && value.get "id" = .str id) ||
    match target with
    | .location =>
      !(isNonblank (value.get "name") && isNonblank (value.get "code") &&
          (value.get "description").isString && (value.get "createdAt").isString &&
          (value.get "updatedAt").isString && (value.get "archivedAt").isNullableString &&
          (value.get "parentId").isNullableString && (value.get "order").isFiniteNum &&
          (value.get "tags").isStringArray) ||
        (printable (value.get "captureStatus") &&
          (!reads captureStatuses (value.get "captureStatus") ||
            (printable (value.get "kind") &&
              (!reads locationKinds (value.get "kind") ||
                (!validDimensions (value.get "dimensions") ||
                  readableConditions (value.get "conditions"))))))
    | .item =>
      !(isNonblank (value.get "name") && isNonblank (value.get "unit") &&
          (value.get "locationId").isString && (value.get "category").isString &&
          (value.get "description").isString && (value.get "createdAt").isString &&
          (value.get "updatedAt").isString && (value.get "archivedAt").isNullableString &&
          (value.get "quantity").isPositiveNum &&
          (value.get "order" = .undefined || (value.get "order").isFiniteNum) &&
          (value.get "version").isSafeIntFrom 1 && (value.get "tags").isStringArray) ||
        printable (value.get "frequency")
    | .plan =>
      !(isNonblank (value.get "name") && (value.get "createdAt").isString) ||
        printable (value.get "status")
    | .workspace => true

/-- A patch of a whole record. -/
theorem returns_validFullPatchRecord (target : PatchTarget) (value : JsValue) (id : String) :
    returns (validFullPatchRecord target value id) = readableRecord target value id := by
  unfold validFullPatchRecord readableRecord
  rw [returns_andThen]
  congr 1
  cases target with
  | location =>
      simp only
      rw [returns_andThen, returns_oneOf_bind, returns_andThen, returns_oneOf_bind,
        returns_andThen, returns_andThen, returns_validConditions]
  | item =>
      simp only
      rw [returns_andThen, returns_oneOf_bind, returns_andThen, returns_ok, Bool.or_true,
        Bool.and_true]
  | plan =>
      simp only
      rw [returns_andThen, returns_oneOf_bind, returns_andThen, returns_ok, Bool.or_true,
        Bool.and_true]
  | workspace => rfl

/-- The paths whose value is looked up among words. -/
def wordPaths : List String := ["captureStatus", "frequency", "kind", "status"]

/-- A value of a patch whose check throws nothing. -/
def readableValue (target : PatchTarget) (path : String) (value : JsValue) (id : String) : Bool :=
  if value = .undefined then true
  else if path = "" then readableRecord target value id
  else if path = "conditions" then readableConditions value
  else !wordPaths.contains path || printable value

/-- The value of a patch. -/
theorem returns_validPatchValue (target : PatchTarget) (path : String) (value : JsValue)
    (id : String) :
    returns (validPatchValue target path value id) = readableValue target path value id := by
  unfold validPatchValue readableValue
  by_cases hvalue : value = .undefined
  · rw [if_pos hvalue, if_pos hvalue]
    rfl
  rw [if_neg hvalue, if_neg hvalue]
  by_cases hempty : path = ""
  · rw [if_pos hempty, if_pos hempty]
    exact returns_validFullPatchRecord target value id
  rw [if_neg hempty, if_neg hempty]
  by_cases hconditions : path = "conditions"
  · subst hconditions
    rw [if_pos rfl]
    exact returns_validConditions value
  rw [if_neg hconditions]
  by_cases hword : path ∈ wordPaths
  · -- the words: each of them is looked up
    have hlooked : (!wordPaths.contains path || printable value) = printable value := by
      rw [List.contains_iff_mem.mpr hword]
      rfl
    rw [hlooked]
    simp only [wordPaths, List.mem_cons, List.not_mem_nil, or_false] at hword
    rcases hword with rfl | rfl | rfl | rfl
    all_goals exact returns_oneOf _ value
  · -- every other field is tested by its type alone
    have hfree : (!wordPaths.contains path || printable value) = true := by
      rw [Bool.eq_false_iff.mpr fun h => hword (List.contains_iff_mem.mp h)]
      rfl
    rw [hfree]
    simp only [wordPaths, List.mem_cons, List.not_mem_nil, or_false, not_or] at hword
    obtain ⟨hcapture, hfrequency, hkind, hstatus⟩ := hword
    rw [if_neg hconditions, if_neg hfrequency, if_neg hkind, if_neg hcapture, if_neg hstatus]
    repeat' first
      | exact returns_ok _
      | refine returns_ite ?_ ?_

/-- The side is there and its value cannot be read. -/
def readableSide (target : PatchTarget) (patch : JsValue) (side : String) : Bool :=
  !patch.hasOwn side || readableValue target (patch.get "path").text (patch.get side)
    (patch.get "id").text

/-- The target has a text, which names no inherited property; and both sides can be read. -/
def readablePatch (patch : JsValue) : Bool :=
  !patch.isRecord ||
    match stringOf Host.numberText (patch.get "target") with
    | none => false
    | some word =>
      match targetOf word with
      | none => !inheritedTargets.contains word
      | some target => readableSide target patch "before" && readableSide target patch "after"

theorem returns_sideIssues (target : PatchTarget) (patch : JsValue) (path side : String) :
    returns (sideIssues target patch path side) = readableSide target patch side := by
  unfold sideIssues readableSide
  cases patch.hasOwn side with
  | false => rfl
  | true =>
      simp only [Bool.not_true, Bool.false_eq_true, if_false, Bool.false_or]
      rw [returns_bind fun _ => returns_pure _, returns_validPatchValue, Bool.and_true]

/-- One patch. -/
theorem returns_patchIssues (value : JsValue) (path : String) (patch : JsValue) :
    returns (patchIssues value path patch) = readablePatch patch := by
  unfold patchIssues readablePatch
  cases patch.isRecord with
  | false => rfl
  | true =>
      simp only [Bool.not_true, Bool.false_eq_true, if_false, Bool.false_or]
      rw [returns_textOf_bind]
      cases stringOf Host.numberText (patch.get "target") with
      | none => rfl
      | some word =>
          simp only
          cases targetOf word with
          | none =>
              simp only
              cases inheritedTargets.contains word <;> rfl
          | some target =>
              simp only
              rw [returns_bind fun _ => returns_bind fun _ => returns_pure _,
                returns_sideIssues, returns_sideIssues, Bool.and_true]

/-- Every element of the history of an activity can be read. -/
def readableActivity (candidate : JsValue) : Bool :=
  !candidate.isRecord || !(candidate.get "patches").isArray ||
    (candidate.get "patches").elems.all readablePatch

theorem returns_patchLoop (value : JsValue) (path : String) (index : Nat) (xs : List JsValue) :
    returns (patchLoop value path index xs) = xs.all readablePatch := by
  induction xs generalizing index with
  | nil => rfl
  | cons x xs ih =>
      unfold patchLoop
      rw [returns_bind fun _ => returns_bind fun _ => returns_pure _, returns_patchIssues, ih,
        Bool.and_true, List.all_cons]

/-- One activity. -/
theorem returns_activityIssues (value : JsValue) (index : Nat) (ids : List String)
    (candidate : JsValue) : returns (activityIssues value index ids candidate) =
      (!(candidate.get "patches").isArray ||
        (candidate.get "patches").elems.all readablePatch) := by
  unfold activityIssues
  simp only
  cases (candidate.get "patches").isArray with
  | false => rfl
  | true =>
      rw [if_neg (by decide), returns_bind fun _ => returns_pure _, returns_patchLoop,
        Bool.and_true]
      rfl

/-! ## 4. Records -/

/-- A location whose check throws nothing. -/
def readableLocation (candidate : JsValue) : Bool :=
  !(candidate.isRecord && isNonblank (candidate.get "id")) ||
    (printable (candidate.get "captureStatus") && printable (candidate.get "kind") &&
      (!(candidate.get "conditions").isRecord ||
        (printable ((candidate.get "conditions").get "humidity") &&
          printable ((candidate.get "conditions").get "temperature"))))

/-- An item whose check throws nothing. -/
def readableItem (candidate : JsValue) : Bool :=
  !(candidate.isRecord && isNonblank (candidate.get "id")) ||
    (printable (candidate.get "locationId") && printable (candidate.get "frequency"))

/-- A plan whose check throws nothing. -/
def readablePlan (candidate : JsValue) : Bool :=
  !(candidate.isRecord && isNonblank (candidate.get "id")) || printable (candidate.get "status")

/-- An event whose check throws nothing. -/
def readableAudit (candidate : JsValue) : Bool :=
  !candidate.isRecord || printable (candidate.get "type")

/-- One location. -/
theorem returns_locationIssues (index : Nat) (ids codes : List String) (candidate : JsValue) :
    returns (locationIssues index ids codes candidate) =
      (printable (candidate.get "captureStatus") && printable (candidate.get "kind") &&
        (!(candidate.get "conditions").isRecord ||
          (printable ((candidate.get "conditions").get "humidity") &&
            printable ((candidate.get "conditions").get "temperature")))) := by
  have hconditions : ∀ (conditions : JsValue) (path : String),
      returns (conditionIssues conditions path) = (!conditions.isRecord ||
        (printable (conditions.get "humidity") && printable (conditions.get "temperature"))) := by
    intro conditions path
    unfold conditionIssues
    cases conditions.isRecord with
    | false => rfl
    | true =>
        simp only [Bool.not_true, Bool.false_eq_true, if_false, Bool.false_or]
        rw [returns_bind fun _ => returns_bind fun _ => returns_pure _, returns_oneOf,
          returns_oneOf, Bool.and_true]
  unfold locationIssues
  simp only
  rw [returns_bind fun _ => returns_bind fun _ => returns_bind fun _ => returns_pure _,
    returns_oneOf, returns_oneOf, hconditions, Bool.and_true, Bool.and_assoc]

omit [Host] in
/-- A loop that reads the elements which meet a condition. -/
theorem returns_skip {α : Type} {skip here : Bool} {x y : Result α} {rest : Bool}
    (hx : returns x = rest) (hy : returns y = (here && rest)) :
    returns (if skip = true then x else y) = ((skip || here) && rest) := by
  cases skip with
  | true => exact hx
  | false => exact hy

/-- All locations. -/
theorem returns_locationLoop (index : Nat) (ids codes : List String) (xs : List JsValue) :
    returns (locationLoop index ids codes xs) = xs.all readableLocation := by
  induction xs generalizing index ids codes with
  | nil => rfl
  | cons x xs ih =>
      unfold locationLoop
      rw [List.all_cons, readableLocation, Bool.not_and]
      refine returns_skip ?_ ?_
      · rw [returns_bind fun _ => returns_pure _, ih, Bool.and_true]
      · rw [returns_bind fun _ => returns_bind fun _ => returns_pure _, returns_locationIssues, ih,
          Bool.and_true]

theorem returns_itemIssues (locations : List JsValue) (index : Nat) (ids : List String)
    (candidate : JsValue) : returns (itemIssues locations index ids candidate) =
      (printable (candidate.get "locationId") && printable (candidate.get "frequency")) := by
  unfold itemIssues
  simp only
  split
  · rename_i hlocated
    rw [Bool.and_eq_true] at hlocated
    -- what is known as a location is a string, which has a text
    have hprintable : printable (candidate.get "locationId") = true := by
      cases h : candidate.get "locationId" with
      | str s => rfl
      | _ =>
          rw [h] at hlocated
          cases hlocated.1
    rw [returns_bind fun _ => returns_bind fun _ => returns_pure _, returns_ok, returns_oneOf,
      hprintable, Bool.and_true]
  · refine (returns_bind (c := printable (candidate.get "frequency")) fun name => ?_).trans ?_
    · rw [returns_bind fun _ => returns_bind fun _ => returns_pure _, returns_ok, returns_oneOf,
        Bool.and_true, Bool.true_and]
    · rw [returns_textOf]

/-- All items. -/
theorem returns_itemLoop (locations : List JsValue) (index : Nat) (ids : List String)
    (xs : List JsValue) : returns (itemLoop locations index ids xs) = xs.all readableItem := by
  induction xs generalizing index ids with
  | nil => rfl
  | cons x xs ih =>
      unfold itemLoop
      rw [List.all_cons, readableItem, Bool.not_and]
      refine returns_skip ?_ ?_
      · rw [returns_bind fun _ => returns_pure _, ih, Bool.and_true]
      · rw [returns_bind fun _ => returns_bind fun _ => returns_pure _, returns_itemIssues, ih,
          Bool.and_true]

/-- All plans. -/
theorem returns_planLoop (locations items : List JsValue) (index : Nat) (ids : List String)
    (xs : List JsValue) : returns (planLoop locations items index ids xs) =
      xs.all readablePlan := by
  have hplan : ∀ (index : Nat) (ids : List String) (candidate : JsValue),
      returns (planIssues locations items index ids candidate) =
        printable (candidate.get "status") := by
    intro index ids candidate
    unfold planIssues
    simp only
    rw [returns_bind fun _ => returns_pure _, returns_oneOf, Bool.and_true]
  induction xs generalizing index ids with
  | nil => rfl
  | cons x xs ih =>
      unfold planLoop
      rw [List.all_cons, readablePlan, Bool.not_and]
      refine returns_skip ?_ ?_
      · rw [returns_bind fun _ => returns_pure _, ih, Bool.and_true]
      · rw [returns_bind fun _ => returns_bind fun _ => returns_pure _, hplan, ih, Bool.and_true]

/-- All activities. -/
theorem returns_activityLoop (value : JsValue) (index : Nat) (ids : List String)
    (xs : List JsValue) : returns (activityLoop value index ids xs) =
      xs.all readableActivity := by
  induction xs generalizing index ids with
  | nil => rfl
  | cons x xs ih =>
      unfold activityLoop
      rw [List.all_cons, readableActivity, Bool.or_assoc]
      refine returns_skip ?_ ?_
      · rw [returns_bind fun _ => returns_pure _, ih, Bool.and_true]
      · rw [returns_bind fun _ => returns_bind fun _ => returns_pure _, returns_activityIssues,
          ih, Bool.and_true]

/-- All events. -/
theorem returns_auditLoop (activityIds : List String) (index : Nat) (ids : List String)
    (xs : List JsValue) : returns (auditLoop activityIds index ids xs) =
      xs.all readableAudit := by
  have haudit : ∀ (index : Nat) (ids : List String) (candidate : JsValue),
      returns (auditIssues activityIds index ids candidate) =
        printable (candidate.get "type") := by
    intro index ids candidate
    unfold auditIssues
    simp only
    rw [returns_bind fun _ => returns_pure _, returns_oneOf, Bool.and_true]
  induction xs generalizing index ids with
  | nil => rfl
  | cons x xs ih =>
      unfold auditLoop
      rw [List.all_cons, readableAudit]
      refine returns_skip ?_ ?_
      · rw [returns_bind fun _ => returns_pure _, ih, Bool.and_true]
      · rw [returns_bind fun _ => returns_bind fun _ => returns_pure _, haudit, ih, Bool.and_true]

/-! ## 5. The checks -/

/-- The value is no snapshot at all, or whatever the check coerces has a text and no patch names
    an inherited property as its target. -/
def readable (value : JsValue) : Bool :=
  !value.isRecord ||
    !(["activities", "audit", "items", "locations", "plans"].all fun key =>
        (value.get key).isArray) ||
      ((value.get "locations").elems.all readableLocation &&
        (value.get "items").elems.all readableItem && (value.get "plans").elems.all readablePlan &&
        (value.get "activities").elems.all readableActivity &&
        (value.get "audit").elems.all readableAudit)

/-- All records. -/
theorem returns_recordIssues (value : JsValue) : returns (recordIssues value) =
    ((value.get "locations").elems.all readableLocation &&
      (value.get "items").elems.all readableItem &&
      (value.get "plans").elems.all readablePlan) := by
  unfold recordIssues
  simp only
  rw [returns_bind fun _ => returns_bind fun _ => returns_bind fun _ => returns_pure _,
    returns_locationLoop, returns_itemLoop, returns_planLoop, Bool.and_true, Bool.and_assoc]

omit [Host] in

/-- No list is missing. -/
theorem arrayIssues_isEmpty (value : JsValue) : (arrayIssues value).isEmpty =
    ["activities", "audit", "items", "locations", "plans"].all fun key =>
      (value.get key).isArray := by
  have hissue : ∀ key, (issueIf (!(value.get key).isArray) "ARRAY_REQUIRED"
      (key ++ " must be an array") ("$." ++ key)).isEmpty = (value.get key).isArray := by
    intro key
    unfold issueIf
    cases (value.get key).isArray <;> rfl
  unfold arrayIssues
  generalize ["activities", "audit", "items", "locations", "plans"] = keys
  induction keys with
  | nil => rfl
  | cons key keys ih =>
      have happend : ∀ a b : List ValidationIssue, (a ++ b).isEmpty = (a.isEmpty && b.isEmpty) :=
        fun a _ => by cases a <;> rfl
      rw [List.flatMap_cons, happend, hissue, ih, List.all_cons]

/-- **The snapshot check returns exactly on readable values.** -/
theorem returns_validateSnapshot (value : JsValue) :
    returns (validateSnapshot value) = readable value := by
  unfold validateSnapshot readable
  cases value.isRecord with
  | false => rfl
  | true =>
      rw [← arrayIssues_isEmpty]
      simp only [Bool.not_true, Bool.false_eq_true, if_false, Bool.false_or]
      cases (arrayIssues value).isEmpty with
      | false => rfl
      | true =>
          simp only [Bool.not_true, Bool.false_eq_true, if_false, Bool.false_or]
          rw [returns_bind fun _ => returns_bind fun _ => returns_bind fun _ => returns_pure _,
            returns_recordIssues, returns_activityLoop, returns_auditLoop, Bool.and_true,
            ← Bool.and_assoc]

/-- The value the import checks: an object in the current field names, anything else as it is. -/
def importValue (value : JsValue) : JsValue :=
  if value.isRecord then normalizeWorkspaceState value else value

/-- The import is checked without a throw iff its value is readable. -/
theorem returns_validateImportSnapshot (value : JsValue) :
    returns (validateImportSnapshot value) = readable (importValue value) := by
  unfold validateImportSnapshot
  rw [returns_bind fun _ => returns_pure _, Bool.and_true]
  exact returns_validateSnapshot _

/-- How many records of each kind. -/
structure RecordCounts where
  items : Nat
  locations : Nat
  plans : Nat
  deriving DecidableEq

/-- `ImportPreview`. -/
structure ImportPreview where
  incoming : RecordCounts
  issues : List ValidationIssue
  replacing : RecordCounts
  valid : Bool

/-- `previewImport(current, input)`. -/
def previewImport (current : WorkspaceState) (input : JsValue) : Result ImportPreview := do
  let issues ← validateImportSnapshot input
  let incoming := if input.isRecord then input else .obj []
  return {
    incoming := {
      items := (incoming.get "items").elems.length
      locations := (incoming.get "locations").elems.length
      plans := (incoming.get "plans").elems.length }
    issues
    replacing := {
      items := current.items.length
      locations := current.locations.length
      plans := current.plans.length }
    valid := !issues.any fun candidate => decide (candidate.severity = .error) }

/-- So is its preview. -/
theorem returns_previewImport (current : WorkspaceState) (input : JsValue) :
    returns (previewImport current input) = readable (importValue input) := by
  unfold previewImport
  simp only
  rw [returns_bind fun _ => returns_pure _, returns_validateImportSnapshot, Bool.and_true]

/-- **The checks return exactly on readable values**, whatever the value is. -/
theorem checks_return_iff (value : JsValue) (current : WorkspaceState) :
    ((∃ issues, validateSnapshot value = .ok issues) ↔ readable value = true) ∧
      ((∃ issues, validateImportSnapshot value = .ok issues) ↔
        readable (importValue value) = true) ∧
      ((∃ preview, previewImport current value = .ok preview) ↔
        readable (importValue value) = true) := by
  refine ⟨?_, ?_, ?_⟩
  · rw [← returns_iff, returns_validateSnapshot]
  · rw [← returns_iff, returns_validateImportSnapshot]
  · rw [← returns_iff, returns_previewImport]

end Check

/-- An empty snapshot but for an activity whose one patch has the target. -/
def patchedSnapshot (target : JsValue) : JsValue :=
  .obj [("activities", .arr [.obj [("patches", .arr [.obj [("target", target)]])]]),
    ("audit", .arr []), ("items", .arr []), ("locations", .arr []), ("plans", .arr [])]

/-- A target that names an inherited property, and one that has no text. -/
theorem checks_throw :
    (∀ target ∈ [JsValue.str "constructor", .str "__proto__", .obj [("toString", .null)]],
      (¬ ∃ issues, @validateSnapshot asciiHost (patchedSnapshot target) = .ok issues) ∧
      (¬ ∃ issues, @validateImportSnapshot asciiHost (patchedSnapshot target) = .ok issues) ∧
      ¬ ∃ preview, @previewImport asciiHost firstState (patchedSnapshot target) = .ok preview) ∧
    ∃ issues, @validateSnapshot asciiHost (patchedSnapshot (.str "shelf")) = .ok issues := by
  refine ⟨fun target htarget => ?_, ?_⟩
  · have hraw : @readable asciiHost (patchedSnapshot target) = false ∧
        @readable asciiHost (importValue (patchedSnapshot target)) = false :=
      (by decide +kernel : ∀ target ∈ [JsValue.str "constructor", .str "__proto__",
        .obj [("toString", .null)]], @readable asciiHost (patchedSnapshot target) = false ∧
          @readable asciiHost (importValue (patchedSnapshot target)) = false) target htarget
    rw [← returns_iff, ← returns_iff, ← returns_iff, @returns_validateSnapshot asciiHost,
      @returns_validateImportSnapshot asciiHost, @returns_previewImport asciiHost, hraw.1, hraw.2]
    decide
  · rw [← returns_iff, @returns_validateSnapshot asciiHost]
    decide +kernel

end Stowplan
