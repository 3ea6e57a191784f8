/-
  File:      Stowplan/Domain/Readings.lean
  Subject:   WHAT THE SNAPSHOT CHECK SAYS OF A TYPED STATE.

  The check works on raw values. On the value of a typed state most of its questions answer
  themselves; what is left are conditions on the records. `Reads r Q` says that the check `r`
  returns and that its issues are all of a kind `P` exactly if `Q P` holds; the lemmas below go
  through the parts of the check one by one.

  * `reads_locationLoop`, `reads_itemLoop`, `reads_planLoop`, …: one for each part;
  * `reads_recordIssues`: the records as a whole.
-/
import Stowplan.Domain.Runs
import Mathlib.Tactic.MkIffOfInductiveProp

namespace Stowplan

open Keyed Forest JsValue

/-! ## 1. Issues of a kind -/

/-- Every issue is an error with a code and message that `P` admits. -/
def Allowed (P : String → String → Prop) (issues : List ValidationIssue) : Prop :=
  ∀ i ∈ issues, i.severity = .error ∧ P i.code i.message

/-- The check returns, and its issues are admitted exactly if the condition holds. -/
def Reads (r : Result (List ValidationIssue)) (Q : (String → String → Prop) → Prop) : Prop :=
  ∃ issues, r = .ok issues ∧ ∀ P, Allowed P issues ↔ Q P

section Kinds

variable {P : String → String → Prop}

@[simp] theorem allowed_nil : Allowed P [] := by simp [Allowed]

@[simp] theorem allowed_append {a b : List ValidationIssue} :
    Allowed P (a ++ b) ↔ Allowed P a ∧ Allowed P b :=
  List.forall_mem_append

/-- A check reports only what is allowed iff its message is, where its condition holds. -/
@[simp] theorem allowed_issueIf {c : Bool} {code message path : String} :
    Allowed P (issueIf c code message path) ↔ (c = true → P code message) := by
  cases c <;> simp [Allowed, issueIf]

/-- A loop over independent elements reports what each of them does. -/
@[simp] theorem allowed_flatMap {α : Type} {l : List α} {f : α → List ValidationIssue} :
    Allowed P (l.flatMap f) ↔ ∀ a ∈ l, Allowed P (f a) := by
  simp only [Allowed, List.mem_flatMap, forall_exists_index, and_imp]
  exact ⟨fun h a ha i hi => h i a ha hi, fun h i a ha hi => h a ha i hi⟩

/-- A check made of each element of a list, where the index only shows in the path. -/
theorem allowed_zipIdx {α β : Type} {l : List α} {e : α → β} {f : β × Nat → List ValidationIssue}
    {Q : α → Prop} (h : ∀ a n, Allowed P (f (e a, n)) ↔ Q a) :
    Allowed P ((l.map e).zipIdx.flatMap f) ↔ ∀ a ∈ l, Q a := by
  rw [allowed_flatMap]
  constructor
  · intro hall a ha
    obtain ⟨n, hn, rfl⟩ := List.getElem_of_mem ha
    refine (h l[n] n).mp (hall _ (List.mem_zipIdx_iff_getElem?.mpr ?_))
    simp [hn]
  · rintro hall ⟨b, n⟩ hb
    have hb := List.mem_zipIdx_iff_getElem?.mp hb
    rw [List.getElem?_map, Option.map_eq_some_iff] at hb
    obtain ⟨a, ha, rfl⟩ := hb
    exact (h a n).mpr (hall a (List.mem_of_getElem? ha))

/-- What is allowed may be widened. -/
theorem Allowed.mono {Q : String → String → Prop} (h : ∀ c m, P c m → Q c m)
    {issues : List ValidationIssue} (ha : Allowed P issues) : Allowed Q issues :=
  fun i hi => ⟨(ha i hi).1, h _ _ (ha i hi).2⟩

/-- Two checks one after another read what both read. -/
theorem Reads.both {a b : Result (List ValidationIssue)}
    {Q R : (String → String → Prop) → Prop} (ha : Reads a Q) (hb : Reads b R) :
    Reads (do
      let here ← a
      let more ← b
      return here ++ more) (fun P => Q P ∧ R P) := by
  obtain ⟨x, rfl, hx⟩ := ha
  obtain ⟨y, rfl, hy⟩ := hb
  exact ⟨x ++ y, rfl, fun P => by rw [allowed_append, hx, hy]⟩

/-- A check whose issue is put before those of the rest. -/
theorem Reads.after {b : Result (List ValidationIssue)} {R : (String → String → Prop) → Prop}
    (hb : Reads b R) (code message path : String) :
    Reads (do
      let more ← b
      return issueIf true code message path ++ more) (fun P => P code message ∧ R P) := by
  obtain ⟨y, rfl, hy⟩ := hb
  exact ⟨_, rfl, fun P => by simp [hy]⟩

end Kinds

/-! ## 2. Values of typed fields -/

section Fields

@[simp] theorem encode_string (s : String) : (encode s : JsValue) = .str s := rfl

@[simp] theorem encode_number (x : JsNumber) : (encode x : JsValue) = .num x := rfl

/-- A text that may be null is truthy iff it is there and not empty. -/
@[simp] theorem truthy_encode (v : Option String) : (encode v).truthy = isSet v := by
  cases v <;> rfl

@[simp] theorem isNullableString_encode (v : Option String) :
    (encode v).isNullableString = true := by
  cases v <;> rfl

@[simp] theorem isStringArray_encode (v : List String) : (encode v).isStringArray = true := by
  show (v.map fun s => JsValue.str s).all isString = true
  simp [isString]

@[simp] theorem elems_encode {α : Type} [Codec α] (l : List α) :
    (encode l).elems = l.map encode := rfl

/-- A safe integer from a bound on. -/
@[simp] theorem isSafeIntFrom_encode (k n : Int) :
    (encode n).isSafeIntFrom k = (JsNumber.safeInt n && decide (k ≤ n)) := by
  show JsValue.isSafeIntFrom k (.num (.ofInt n)) = _
  simp only [JsValue.isSafeIntFrom, JsNumber.toInt?_ofInt]

@[simp] theorem isNonblank_str (s : String) : isNonblank (.str s) = !blank s := rfl

@[simp] theorem textOf_str [Host] (s : String) : textOf (.str s) = .ok s := rfl

/-- A text is among the words iff it is one of them. -/
@[simp] theorem oneOf_str [Host] (words : List String) (s : String) :
    oneOf words (.str s) = .ok (words.contains s) := rfl

/-- The word of each status is accepted; so are those of the other enumerations below. -/
@[simp] theorem captureStatuses_contains (c : CaptureStatus) :
    captureStatuses.contains c.word = true := by
  cases c <;> rfl

@[simp] theorem locationKinds_contains (k : LocationKind) :
    locationKinds.contains k.word = true := by
  cases k <;> rfl

@[simp] theorem frequencies_contains (f : Frequency) : frequencies.contains f.word = true := by
  cases f <;> rfl

@[simp] theorem planStatuses_contains (p : PlanStatus) : planStatuses.contains p.word = true := by
  cases p <;> rfl

end Fields

section Check

variable [Host]

/-! ## 3. Locations -/

/-- The dimensions are positive. -/
def DimensionsRead (P : String → String → Prop) : Option Dimensions → Prop
  | none => True
  | some d =>
    ((d.width.isFinite && d.width.pos) = false →
      P "DIMENSIONS" "width must be greater than zero") ∧
    ((d.height.isFinite && d.height.pos) = false →
      P "DIMENSIONS" "height must be greater than zero") ∧
    ((d.depth.isFinite && d.depth.pos) = false →
      P "DIMENSIONS" "depth must be greater than zero")

omit [Host] in

/-- What the check of dimensions reports of those a record has. -/
theorem allowed_validateDimensions {P : String → String → Prop} (d : Option Dimensions)
    (path : String) : Allowed P (validateDimensions (encode d) path) ↔ DimensionsRead P d := by
  cases d with
  | none => exact ⟨fun _ => trivial, fun _ => allowed_nil⟩
  | some d =>
      have hn : (encode (some d) : JsValue) ≠ .null := fun h => nomatch h
      have hr : (encode (some d)).isRecord = true := rfl
      have hu : (decide ((encode (some d)).get "unit" ≠ .str "cm") &&
          decide ((encode (some d)).get "unit" ≠ .str "in")) = false := by
        show (decide ((.str d.unit.word : JsValue) ≠ .str "cm") &&
          decide ((.str d.unit.word : JsValue) ≠ .str "in")) = false
        cases d.unit <;> decide
      have hw : (encode (some d)).get "width" = .num d.width := rfl
      have hh : (encode (some d)).get "height" = .num d.height := rfl
      have hd : (encode (some d)).get "depth" = .num d.depth := rfl
      unfold validateDimensions
      simp only [if_neg hn, hr, Bool.not_true, Bool.false_eq_true, if_false, allowed_append,
        allowed_flatMap, allowed_issueIf, List.mem_cons, List.not_mem_nil, or_false,
        forall_eq_or_imp, forall_eq, hu, hw, hh, hd, isPositiveNum, Bool.not_eq_true',
        false_implies, and_true, DimensionsRead]
      rfl

omit [Host] in

/-- A location as JSON, field by field. -/
theorem encode_location (l : Location) : (encode l : JsValue) = .obj [
    ("archivedAt", encode l.archivedAt), ("captureStatus", encode l.captureStatus),
    ("code", .str l.code), ("conditions", encode l.conditions),
    ("createdAt", .str l.createdAt), ("description", .str l.description),
    ("dimensions", encode l.dimensions), ("id", .str l.id), ("kind", encode l.kind),
    ("name", .str l.name), ("order", .num l.order), ("parentId", encode l.parentId),
    ("tags", encode l.tags), ("updatedAt", .str l.updatedAt)] := rfl

/-- What the check of one location asks, after the identifiers and codes of those before. -/
@[mk_iff]
structure LocationReads (P : String → String → Prop) (ids codes : List String) (l : Location) :
    Prop where
  fresh : l.id ∈ ids → P "DUPLICATE_ID" "Duplicate location id"
  name : blank l.name = true → P "LOCATION_NAME" "Location needs a name"
  code : blank l.code = true → P "LOCATION_CODE" "Location needs a code"
  order : l.order.isFinite = false → P "LOCATION_ORDER" "Location order must be a number"
  parent : ∀ p, l.parentId = some p → blank p = true →
    P "LOCATION_PARENT" "Parent must be a location id or null"
  dimensions : DimensionsRead P l.dimensions
  unused : l.active = true → codeKey l.code ≠ "" → codeKey l.code ∈ codes →
    P "DUPLICATE_CODE" ("Active code " ++ l.code ++ " is duplicated")

/-- The conditions of a location are always accepted. -/
theorem reads_conditionIssues (c : LocationConditions) (path : String) :
    conditionIssues (encode c) path = .ok [] := by
  have hh : ["dry", "normal", "humid"].contains c.humidity.word = true := by
    cases c.humidity <;> rfl
  have ht : ["cold", "cool", "normal", "warm"].contains c.temperature.word = true := by
    cases c.temperature <;> rfl
  show (do
    let humidity ← oneOf ["dry", "normal", "humid"] (.str c.humidity.word)
    let temperature ← oneOf ["cold", "cool", "normal", "warm"] (.str c.temperature.word)
    return _) = _
  rw [oneOf_str, oneOf_str, hh, ht]
  rfl

/-- Codes are compared without case and blanks. -/
theorem normalizedCode_encode (l : Location) : normalizedCode (encode l) = codeKey l.code := rfl

omit [Host] in
/-- A nullable reference that is there is not blank. -/
theorem nonblank_parent {v : Option String} {X : Prop} :
    (¬ (encode v : JsValue) = .null → isNonblank (encode v) = false → X) ↔
      ∀ p, v = some p → blank p = true → X := by
  cases v with
  | none => simp [encode]
  | some p =>
      have hn : (encode (some p) : JsValue) ≠ .null := fun h => nomatch h
      have hb : isNonblank (encode (some p)) = !blank p := rfl
      simp [hn, hb]

/-- What the check of one location reads of it. -/
theorem reads_locationIssues (index : Nat) (ids codes : List String) (l : Location) :
    Reads (locationIssues index ids codes (encode l)) (LocationReads · ids codes l) := by
  have hcap : oneOf captureStatuses ((encode l).get "captureStatus") = .ok true := by
    show oneOf captureStatuses (.str l.captureStatus.word) = _
    rw [oneOf_str, captureStatuses_contains]
  have hkind : oneOf locationKinds ((encode l).get "kind") = .ok true := by
    show oneOf locationKinds (.str l.kind.word) = _
    rw [oneOf_str, locationKinds_contains]
  have hcond : ∀ path, conditionIssues ((encode l).get "conditions") path = .ok [] :=
    reads_conditionIssues l.conditions
  unfold locationIssues
  simp only [hcap, hkind, hcond]
  refine ⟨_, rfl, fun P => ?_⟩
  simp only [allowed_append, allowed_issueIf, allowed_nil]
  simp only [normalizedCode_encode]
  simp [encode_location, lookup, requireString, allowed_validateDimensions, isString,
    locationReads_iff, and_assoc, nonblank_parent, Location.active, isFiniteNum, text]

/-- What the check of the locations asks, one after another. -/
def LocationsRead (P : String → String → Prop) : List String → List String → List Location → Prop
  | _, _, [] => True
  | ids, codes, l :: rest =>
    if blank l.id = true then
      P "LOCATION_ID" "Location needs an id" ∧ LocationsRead P ids codes rest
    else
      LocationReads P ids codes l ∧ LocationsRead P (l.id :: ids)
        (if l.active = true ∧ codeKey l.code ≠ "" then codeKey l.code :: codes else codes) rest

/-- What the loop reads of all of them. -/
theorem reads_locationLoop (index : Nat) (ids codes : List String) (ls : List Location) :
    Reads (locationLoop index ids codes (ls.map encode)) (LocationsRead · ids codes ls) := by
  induction ls generalizing index ids codes with
  | nil => exact ⟨[], rfl, fun P => by simp [LocationsRead]⟩
  | cons l ls ih =>
      rw [List.map_cons, locationLoop]
      have hr : (encode l).isRecord = true := rfl
      have hid : (encode l).get "id" = .str l.id := rfl
      have harch : (encode l).get "archivedAt" = encode l.archivedAt := rfl
      simp only [hr, hid, harch, isNonblank_str, Bool.not_true, Bool.not_not, Bool.false_or,
        normalizedCode_encode, truthy_encode, text, LocationsRead]
      by_cases hb : blank l.id = true
      · simp only [if_pos hb]
        exact (ih _ _ _).after _ _ _
      · simp only [if_neg hb]
        have hc : ((!isSet l.archivedAt && codeKey l.code != "") = true) =
            (l.active = true ∧ codeKey l.code ≠ "") := by
          simp [Location.active]
        simp only [hc]
        exact (reads_locationIssues index ids codes l).both (ih _ _ _)

/-- The parent of a location, where that is not the empty string. -/
def Location.parentKey (l : Location) : Option String := l.parentId.filter (· ≠ "")

/-- What the check of where a location is asks. -/
@[mk_iff]
structure PlacementReads (P : String → String → Prop) (ls : List Location) (l : Location) :
    Prop where
  parent : ∀ p, l.parentKey = some p → (∀ m ∈ ls, m.id = p → blank p = true) →
    P "DANGLING_PARENT" s!"Parent {p} does not exist"
  archived : l.active = true → ∀ p, l.parentKey = some p →
    ∀ m, mapGet Location.id p ls = some m → m.active = false →
    P "PARENT_ARCHIVED" "An active location cannot be inside an archived parent"
  cycle : loops (fun id => (findKey Location.id id ls).bind Location.parentKey) (ls.length + 1)
    [l.id] l.parentKey = true → P "LOCATION_CYCLE" "Location hierarchy contains a cycle"

omit [Host] in

/-- Every location has an id. -/
theorem withIds_encode (ls : List Location) :
    withIds (ls.map encode) = ls.map encode :=
  List.filter_eq_self.mpr fun v hv => by
    obtain ⟨l, _, rfl⟩ := List.mem_map.mp hv
    rfl

omit [Host] in

/-- A map of raw records finds the record of the id. -/
theorem mapGet_encode {α : Type} [Entity α] (id : String) (as : List α) :
    mapGet valueId id (as.map encode) = (mapGet idOf id as).map encode := by
  unfold mapGet
  rw [← List.map_reverse]
  exact findKey_map (fun a => by rw [valueId, Entity.get_id]; rfl) id as.reverse

omit [Host] in

/-- The parent as the cycle check reads it. -/
theorem parentOf_encode (l : Location) : parentOf (encode l) = l.parentKey := by
  unfold parentOf Location.parentKey
  have hp : (encode l).get "parentId" = encode l.parentId := rfl
  rw [hp]
  cases l.parentId with
  | none => rfl
  | some p => by_cases h : p = "" <;> simp [encode, h, Option.filter]

omit [Host] in

/-- The parent of the location with an id. -/
theorem parentOfId_encode (ls : List Location) (id : String) :
    parentOfId (ls.map encode) id = (findKey Location.id id ls).bind Location.parentKey := by
  unfold parentOfId findKey
  rw [List.find?_map, Option.bind_map]
  have h1 : (fun l => isRecord l && decide (l.get "id" = .str id)) ∘ (encode : Location → JsValue) =
      fun l => decide (l.id = id) := by
    funext l
    show (true && decide ((.str l.id : JsValue) = .str id)) = _
    simp
  have h2 : parentOf ∘ (encode : Location → JsValue) = Location.parentKey :=
    funext parentOf_encode
  rw [h1, h2]

omit [Host] in

/-- The ids a placement may name: those that are not blank. -/
theorem mem_locationIdsOf {ls : List Location} {id : String} :
    id ∈ locationIdsOf (ls.map encode) ↔ ∃ l ∈ ls, l.id = id ∧ blank id = false := by
  have hr : ∀ l : Location, (encode l).isRecord = true := fun _ => rfl
  have hid : ∀ l : Location, (encode l).get "id" = .str l.id := fun _ => rfl
  simp only [locationIdsOf, List.mem_map, List.mem_filter, Bool.and_eq_true]
  constructor
  · rintro ⟨_, ⟨⟨l, hl, rfl⟩, _, hb⟩, rfl⟩
    exact ⟨l, hl, rfl, by simpa [hid, text] using hb⟩
  · rintro ⟨l, hl, rfl, hb⟩
    exact ⟨_, ⟨⟨l, hl, rfl⟩, hr l, by simpa [hid] using hb⟩, rfl⟩

omit [Host] in

/-- What the check of a placement reads of a location. -/
theorem allowed_placementIssues (P : String → String → Prop) (ls : List Location) (index : Nat)
    (l : Location) :
    Allowed P (placementIssues (ls.map encode) index (encode l)) ↔ PlacementReads P ls l := by
  have hr : (encode l).isRecord = true := rfl
  have hid : (encode l).get "id" = .str l.id := rfl
  have harch : (encode l).get "archivedAt" = encode l.archivedAt := rfl
  have hup : parentOfId (ls.map encode) =
      fun id => (findKey Location.id id ls).bind Location.parentKey :=
    funext (parentOfId_encode ls)
  unfold placementIssues
  simp only [hr, hid, harch, isString, Bool.not_true, Bool.or_self, Bool.false_eq_true, if_false,
    parentOf_encode, hup, withIds_encode, valueId, text, List.length_map, allowed_append,
    allowed_issueIf, truthy_encode, placementReads_iff]
  cases hk : l.parentKey with
  | none => simp
  | some p =>
      have hmem : (!(locationIdsOf (ls.map encode)).contains p) = true ↔
          ∀ m ∈ ls, m.id = p → blank p = true := by
        simp [mem_locationIdsOf]
      have hget : mapGet valueId p (ls.map encode) = (mapGet Location.id p ls).map encode :=
        mapGet_encode p ls
      simp only [allowed_issueIf, hmem, Option.bind_some, hget, and_assoc]
      cases hm : mapGet Location.id p ls with
      | none => simp [hm]
      | some m =>
          have harchm : ((encode m).get "archivedAt").truthy = isSet m.archivedAt :=
            truthy_encode m.archivedAt
          simp [hm, harchm, Location.active]

/-! ## 4. Items -/

omit [Host] in

/-- An item as JSON, field by field. -/
theorem encode_item (i : ItemRecord) : (encode i : JsValue) = .obj [
    ("archivedAt", encode i.archivedAt), ("category", .str i.category),
    ("constraints", encode i.constraints), ("createdAt", .str i.createdAt),
    ("description", .str i.description), ("dimensions", encode i.dimensions),
    ("frequency", encode i.frequency), ("id", .str i.id), ("locationId", .str i.locationId),
    ("name", .str i.name), ("order", .num i.order), ("quantity", .num i.quantity),
    ("tags", encode i.tags), ("unit", .str i.unit), ("updatedAt", .str i.updatedAt),
    ("version", encode i.version)] := rfl

omit [Host] in

/-- The constraints of an item are always accepted. -/
theorem constraintIssues_encode (c : ItemConstraints) (path : String) :
    constraintIssues (encode c) path = [] := by
  have hk : ((encode c).get "keepTogether").isNullableString = true :=
    isNullableString_encode c.keepTogether
  have ht : ((encode c).get "requiredTags").isStringArray = true :=
    isStringArray_encode c.requiredTags
  unfold constraintIssues
  rw [hk, ht]
  rfl

/-- The location of the item is there, under an identifier that is not blank. -/
def Stored (ls : List Location) (i : ItemRecord) : Prop :=
  ∃ l ∈ ls, l.id = i.locationId ∧ blank i.locationId = false

/-- What the check of one item asks, after the identifiers of those before. -/
@[mk_iff]
structure ItemReads (P : String → String → Prop) (ls : List Location) (ids : List String)
    (i : ItemRecord) : Prop where
  fresh : i.id ∈ ids → P "DUPLICATE_ID" "Duplicate item id"
  stored : ¬ Stored ls i → P "DANGLING_LOCATION" s!"Location {i.locationId} does not exist"
  archived : Stored ls i → i.active = true →
    ∀ m, mapGet Location.id i.locationId ls = some m → m.active = false →
    P "ARCHIVED_LOCATION" "An active item cannot be stored in an archived location"
  quantity : i.quantity.isFinite = false ∨ i.quantity.pos = false →
    P "ITEM_QUANTITY" "Quantity must be greater than zero"
  order : i.order.isFinite = false → P "ITEM_ORDER" "Item order must be a number"
  version : JsNumber.safeInt i.version = false ∨ i.version < 1 →
    P "ITEM_VERSION" "Item version must be a positive safe integer"
  name : blank i.name = true → P "ITEM_NAME" "Item needs a name"
  unit : blank i.unit = true → P "ITEM_UNIT" "Item unit cannot be blank"
  dimensions : DimensionsRead P i.dimensions

/-- What the check of one item reads of it. -/
theorem reads_itemIssues (ls : List Location) (index : Nat) (ids : List String)
    (i : ItemRecord) :
    Reads (itemIssues (ls.map encode) index ids (encode i)) (ItemReads · ls ids i) := by
  have hloc : (encode i).get "locationId" = .str i.locationId := rfl
  have harch : (encode i).get "archivedAt" = encode i.archivedAt := rfl
  have hcons : ∀ path, constraintIssues ((encode i).get "constraints") path = [] :=
    constraintIssues_encode i.constraints
  have hfreq : oneOf frequencies ((encode i).get "frequency") = .ok true := by
    show oneOf frequencies (.str i.frequency.word) = _
    rw [oneOf_str, frequencies_contains]
  have hget : mapGet valueId i.locationId (ls.map encode) =
      (mapGet Location.id i.locationId ls).map encode := mapGet_encode i.locationId ls
  unfold itemIssues
  simp only [hloc, harch, hcons, hfreq, withIds_encode, text, hget, isString, Bool.true_and]
  by_cases hin : Stored ls i
  · have hin' : (locationIdsOf (ls.map encode)).contains i.locationId = true := by
      simpa [mem_locationIdsOf, Stored] using hin
    simp only [hin', if_true]
    refine ⟨_, rfl, fun P => ?_⟩
    simp only [allowed_append, allowed_issueIf, allowed_nil, allowed_flatMap]
    cases hm : mapGet Location.id i.locationId ls with
    | none =>
        simp [encode_item, lookup, requireString, allowed_validateDimensions, isString,
          itemReads_iff, and_assoc, isFiniteNum, isPositiveNum, valueId, text, hin, hm]
    | some m =>
        have harchm : ((encode m).get "archivedAt").truthy = isSet m.archivedAt :=
          truthy_encode m.archivedAt
        simp [encode_item, lookup, requireString, allowed_validateDimensions, isString,
          itemReads_iff, and_assoc, isFiniteNum, isPositiveNum, valueId, text, hin, hm, harchm,
          Location.active, ItemRecord.active]
  · have hin' : (locationIdsOf (ls.map encode)).contains i.locationId = false := by
      rw [Bool.eq_false_iff]
      simpa [mem_locationIdsOf, Stored] using hin
    simp only [hin', Bool.false_eq_true, if_false, textOf_str]
    refine ⟨_, rfl, fun P => ?_⟩
    simp only [allowed_append, allowed_issueIf, allowed_nil, allowed_flatMap]
    simp [encode_item, lookup, requireString, allowed_validateDimensions, isString,
      itemReads_iff, and_assoc, isFiniteNum, isPositiveNum, valueId, text, hin]

/-- What the check of the items asks, one after another. -/
def ItemsRead (P : String → String → Prop) (ls : List Location) :
    List String → List ItemRecord → Prop
  | _, [] => True
  | ids, i :: rest =>
    if blank i.id = true then P "ITEM_ID" "Item needs an id" ∧ ItemsRead P ls ids rest
    else ItemReads P ls ids i ∧ ItemsRead P ls (i.id :: ids) rest

/-- What the loop reads of all of them. -/
theorem reads_itemLoop (ls : List Location) (index : Nat) (ids : List String)
    (is : List ItemRecord) :
    Reads (itemLoop (ls.map encode) index ids (is.map encode)) (ItemsRead · ls ids is) := by
  induction is generalizing index ids with
  | nil => exact ⟨[], rfl, fun P => by simp [ItemsRead]⟩
  | cons i is ih =>
      rw [List.map_cons, itemLoop]
      have hr : (encode i).isRecord = true := rfl
      have hid : (encode i).get "id" = .str i.id := rfl
      simp only [hr, hid, isNonblank_str, Bool.not_true, Bool.not_not, Bool.false_or, valueId,
        text, ItemsRead]
      by_cases hb : blank i.id = true
      · simp only [if_pos hb]
        exact (ih _ _).after _ _ _
      · simp only [if_neg hb]
        exact (reads_itemIssues ls index ids i).both (ih _ _)

/-- The location is not marked empty with something live in it. -/
def Emptied (items : List ItemRecord) (ls : List Location) (l : Location) : Prop :=
  l.captureStatus = .knownEmpty →
    (∀ i ∈ items, i.locationId = l.id → i.active = false) ∧
      ∀ m ∈ ls, m.parentId = some l.id → m.active = false

omit [Host] in

/-- What is reported of a space that is marked empty. -/
theorem allowed_emptyIssues (P : String → String → Prop) (ls : List Location)
    (is : List ItemRecord) (index : Nat) (l : Location) :
    Allowed P (emptyIssues (ls.map encode) (is.map encode) index (encode l)) ↔
      (¬ Emptied is ls l → P "NOT_EMPTY"
        "A known-empty location cannot contain live records or nested spaces") := by
  have hr : (encode l).isRecord = true := rfl
  have hid : (encode l).get "id" = .str l.id := rfl
  have hcap : (encode l).get "captureStatus" = .str l.captureStatus.word := rfl
  unfold emptyIssues
  rw [hr, hid, hcap]
  have hword : ((.str l.captureStatus.word : JsValue) ≠ .str "known_empty") ↔
      l.captureStatus ≠ .knownEmpty := by
    cases l.captureStatus <;> decide
  by_cases hc : l.captureStatus = .knownEmpty
  · have hitem : ∀ i : ItemRecord, ((encode i).isRecord &&
        !((encode i).get "archivedAt").truthy &&
        strictEqual ((encode i).get "locationId") (.str l.id)) =
        (i.active && decide (i.locationId = l.id)) := by
      intro i
      show (true && !(encode i.archivedAt).truthy &&
        strictEqual (.str i.locationId) (.str l.id)) = _
      rw [truthy_encode]
      simp only [strictEqual, ItemRecord.active, Bool.true_and, Bool.beq_eq_decide_eq]
    have hchild : ∀ m : Location, ((encode m).isRecord &&
        !((encode m).get "archivedAt").truthy &&
        strictEqual ((encode m).get "parentId") (.str l.id)) =
        (m.active && decide (m.parentId = some l.id)) := by
      intro m
      show (true && !(encode m.archivedAt).truthy &&
        strictEqual (encode m.parentId) (.str l.id)) = _
      rw [truthy_encode]
      cases hp : m.parentId with
      | none => simp [strictEqual, encode]
      | some p =>
          have : strictEqual (encode (some p)) (.str l.id) = (p == l.id) := rfl
          simp only [this, Location.active, Bool.true_and, Option.some.injEq]
          rfl
    have hempty : ¬ Emptied is ls l ↔
        ((is.any fun i => i.active && decide (i.locationId = l.id)) ||
        ls.any fun m => m.active && decide (m.parentId = some l.id)) = true := by
      simp only [Emptied, hc, forall_const, not_and_or, not_forall, Bool.or_eq_true,
        List.any_eq_true, Bool.and_eq_true, decide_eq_true_eq, exists_prop, Bool.not_eq_false,
        and_comm]
    rw [hempty, if_neg (by simp [hc, CaptureStatus.word])]
    simp only [List.any_map, Function.comp_def, hitem, hchild, allowed_issueIf]
  · have he : Emptied is ls l := fun h => absurd h hc
    simp [hword, hc, he]

/-! ## 5. Plans -/

/-- No live record is found. -/
def Missing {α : Type} (live : α → Bool) (found : Option α) : Prop :=
  ∀ a, found = some a → live a = false

/-- What the check of a step for an item asks; `e` says whether the step can be carried out. -/
@[mk_iff]
structure ItemStepReads (P : String → String → Prop) (is : List ItemRecord) (e : Bool)
    (step : PlanStep) : Prop where
  subject : (∀ id, step.itemId = some id → blank id = true) →
    P "PLAN_STEP" "Item step subject ID is required"
  live : ∀ id, step.itemId = some id → blank id = false → e = true →
    Missing ItemRecord.active (mapGet ItemRecord.id id is) →
    P "PLAN_ITEM" "Executable item step needs a live item"
  location : step.locationId ≠ none → P "PLAN_STEP" "Item steps cannot name a container subject"
  quantity : (∀ q, step.quantity = some q → q.isFinite = false ∨ q.pos = false) →
    P "PLAN_STEP" "Item move quantity must be greater than zero"
  current : e = true → ∀ id, step.itemId = some id → ∀ i, mapGet ItemRecord.id id is = some i →
    (i.locationId ≠ step.sourceId ∨ sameQuantity step.quantity i.quantity = false) →
    P "PLAN_STEP_STALE" "Executable item step does not match the item's current location and quantity"

omit [Host] in

/-- An item that is missing or archived. -/
theorem unavailable_item {r : Option ItemRecord} :
    unavailable (r.map encode) = true ↔ Missing ItemRecord.active r := by
  cases r with
  | none => simp [unavailable, Missing]
  | some i =>
      have h : ((encode i).get "archivedAt").truthy = isSet i.archivedAt :=
        truthy_encode i.archivedAt
      simp [unavailable, Missing, h, ItemRecord.active]

omit [Host] in

/-- A location that is missing or archived. -/
theorem unavailable_location {r : Option Location} :
    unavailable (r.map encode) = true ↔ Missing Location.active r := by
  cases r with
  | none => simp [unavailable, Missing]
  | some l =>
      have h : ((encode l).get "archivedAt").truthy = isSet l.archivedAt :=
        truthy_encode l.archivedAt
      simp [unavailable, Missing, h, Location.active]

omit [Host] in
theorem withIds_items (is : List ItemRecord) : withIds (is.map encode) = is.map encode :=
  List.filter_eq_self.mpr fun v hv => by
    obtain ⟨l, _, rfl⟩ := List.mem_map.mp hv
    rfl

omit [Host] in

/-- What the check of a step reads of its item. -/
theorem allowed_itemStepIssues (P : String → String → Prop) (is : List ItemRecord) (e : Bool)
    (path : String) (step : PlanStep) :
    Allowed P (itemStepIssues (is.map encode) e path (encode step)) ↔
      ItemStepReads P is e step := by
  have hitem : (encode step).get "itemId" = encode step.itemId := rfl
  have hloc : (encode step).get "locationId" = encode step.locationId := rfl
  have hquant : (encode step).get "quantity" = encode step.quantity := rfl
  have hsrc : (encode step).get "sourceId" = .str step.sourceId := rfl
  have hnoloc : (encode step.locationId ≠ .null) ↔ step.locationId ≠ none := by
    cases step.locationId with
    | none => simp [encode]
    | some _ => exact ⟨fun _ h => (nomatch h), fun _ h => (nomatch h)⟩
  have hpositive : (!(encode step.quantity).isPositiveNum) = true ↔
      ∀ q, step.quantity = some q → q.isFinite = false ∨ q.pos = false := by
    cases step.quantity with
    | none => simp [encode, isPositiveNum]
    | some q =>
        have : (encode (some q)).isPositiveNum = (q.isFinite && q.pos) := rfl
        simp [this]
  have hstale : ∀ i : ItemRecord, (!strictEqual ((encode i).get "locationId") (.str step.sourceId) ||
      !strictEqual ((encode i).get "quantity") (encode step.quantity)) = true ↔
      (i.locationId ≠ step.sourceId ∨ sameQuantity step.quantity i.quantity = false) := by
    intro i
    have h1 : strictEqual ((encode i).get "locationId") (.str step.sourceId) =
      (i.locationId == step.sourceId) := rfl
    have h2 : strictEqual ((encode i).get "quantity") (encode step.quantity) =
        sameQuantity step.quantity i.quantity := by
      cases step.quantity with
      | none => rfl
      | some q =>
          exact JsNumber.strictEq_comm i.quantity q
    rw [h1, h2]
    simp
  unfold itemStepIssues
  rw [hitem, hloc, hquant, hsrc]
  simp only [allowed_append, allowed_issueIf, decide_eq_true_eq, hnoloc, hpositive,
    itemStepReads_iff]
  cases hid : step.itemId with
  | none => simp [encode, isNonblank, recordOf, and_assoc]
  | some id =>
      have hb : isNonblank (encode (some id)) = !blank id := rfl
      have hrec : recordOf (is.map encode) (encode (some id)) =
          (mapGet ItemRecord.id id is).map encode := by
        show mapGet valueId id (withIds (is.map encode)) = _
        rw [withIds_items]
        exact mapGet_encode id is
      have hlive := unavailable_item (r := mapGet ItemRecord.id id is)
      rw [hb, hrec]
      cases hm : mapGet ItemRecord.id id is with
      | none =>
          rw [hm, Option.map_none] at hlive
          cases hbl : blank id <;> simp [hlive, hm, hbl, and_assoc]
      | some i =>
          rw [hm, Option.map_some] at hlive
          have hst := hstale i
          cases hbl : blank id <;>
            simp only [Option.map_some, hst, Bool.and_eq_true, hlive, hm, hbl, allowed_issueIf,
              Option.some.injEq, forall_eq', Bool.not_true, Bool.not_false, if_true,
              Bool.false_eq_true, if_false, and_assoc, and_imp, forall_const, reduceCtorEq,
              false_implies, true_and]

/-- The location a location says it is in. -/
def surrounding (ls : List Location) (l : Location) : Option Location :=
  l.parentId.bind fun p => mapGet Location.id p ls

/-- What the check of a step for a container asks. -/
@[mk_iff]
structure ContainerStepReads (P : String → String → Prop) (ls : List Location) (e : Bool)
    (step : PlanStep) : Prop where
  subject : (∀ id, step.locationId = some id → blank id = true) →
    P "PLAN_STEP" "Container step subject ID is required"
  live : ∀ id, step.locationId = some id → blank id = false → e = true →
    Missing Location.active (mapGet Location.id id ls) →
    P "PLAN_LOCATION" "Executable container step needs a live location"
  extra : step.itemId ≠ none ∨ step.quantity ≠ none →
    P "PLAN_STEP" "Container steps cannot name an item or quantity"
  current : e = true → ∀ id, step.locationId = some id →
    ∀ l, mapGet Location.id id ls = some l → l.parentId ≠ some step.sourceId →
    P "PLAN_STEP_STALE" "Executable container step does not match its current parent"
  cycle : e = true → ∀ id, step.locationId = some id →
    ∀ l, mapGet Location.id id ls = some l →
    ∀ d, mapGet Location.id step.destinationId ls = some d →
    (climb Location.id (surrounding ls) ls.length [] (some d)).any (·.id == l.id) = true →
    P "LOCATION_CYCLE" "Executable container step would create a hierarchy cycle"

omit [Host] in

/-- The record with an id, as a step looks it up. -/
theorem recordOf_encode {α : Type} [Entity α] {as : List α}
    (h : withIds (as.map encode) = as.map encode) (id : String) :
    recordOf (as.map encode) (.str id) = (mapGet idOf id as).map encode := by
  show mapGet valueId id (withIds (as.map encode)) = _
  rw [h]
  exact mapGet_encode id as

omit [Host] in

/-- The ids above a location. -/
theorem valueAbove_encode (ls : List Location) (l : Location) :
    valueAbove (ls.map encode) (encode l) = (surrounding ls l).map encode := by
  have hp : (encode l).get "parentId" = encode l.parentId := rfl
  unfold valueAbove surrounding
  rw [hp]
  cases l.parentId with
  | none => rfl
  | some p =>
      show mapGet valueId p (withIds (ls.map encode)) = _
      rw [withIds_encode]
      exact mapGet_encode p ls

omit [Host] in
/-- The walk up from the destination, on values, is the walk on records. -/
theorem climb_encode (ls : List Location) (d l : Location) :
    ((climb valueId (valueAbove (ls.map encode)) (withIds (ls.map encode)).length []
      (some (encode d))).any fun cursor => valueId cursor == valueId (encode l)) =
    (climb Location.id (surrounding ls) ls.length [] (some d)).any (·.id == l.id) := by
  rw [withIds_encode, List.length_map]
  have h : climb valueId (valueAbove (ls.map encode)) ls.length [] ((some d).map encode) =
      (climb Location.id (surrounding ls) ls.length [] (some d)).map encode :=
    climb_map (fun _ => rfl) (valueAbove_encode ls) ls.length [] (some d)
  rw [Option.map_some] at h
  rw [h, List.any_map]
  rfl

omit [Host] in

/-- What the check of a step reads of its container. -/
theorem allowed_containerStepIssues (P : String → String → Prop) (ls : List Location) (e : Bool)
    (path : String) (step : PlanStep) :
    Allowed P (containerStepIssues (ls.map encode) e path (encode step)) ↔
      ContainerStepReads P ls e step := by
  have hitem : (encode step).get "itemId" = encode step.itemId := rfl
  have hloc : (encode step).get "locationId" = encode step.locationId := rfl
  have hquant : (encode step).get "quantity" = encode step.quantity := rfl
  have hsrc : (encode step).get "sourceId" = .str step.sourceId := rfl
  have hdst : (encode step).get "destinationId" = .str step.destinationId := rfl
  have hextra : (decide (encode step.itemId ≠ .null) || decide (encode step.quantity ≠ .null)) =
      true ↔ step.itemId ≠ none ∨ step.quantity ≠ none := by
    have h1 : encode step.itemId ≠ .null ↔ step.itemId ≠ none := by
      cases step.itemId with
      | none => simp [encode]
      | some _ => exact ⟨fun _ h => (nomatch h), fun _ h => (nomatch h)⟩
    have h2 : encode step.quantity ≠ .null ↔ step.quantity ≠ none := by
      cases step.quantity with
      | none => simp [encode]
      | some _ => exact ⟨fun _ h => (nomatch h), fun _ h => (nomatch h)⟩
    simp [h1, h2]
  have hstale : ∀ l : Location, (!strictEqual ((encode l).get "parentId") (.str step.sourceId)) =
      true ↔ l.parentId ≠ some step.sourceId := by
    intro l
    show (!strictEqual (encode l.parentId) (.str step.sourceId)) = true ↔ _
    cases l.parentId with
    | none => simp [encode, strictEqual]
    | some p =>
        have h : strictEqual (encode (some p)) (.str step.sourceId) = (p == step.sourceId) := rfl
        simp [h]
  have hrecord := recordOf_encode (withIds_encode ls)
  unfold containerStepIssues
  rw [hitem, hloc, hquant, hsrc, hdst]
  simp only [allowed_append, allowed_issueIf, hextra, containerStepReads_iff]
  cases hid : step.locationId with
  | none => simp [encode, isNonblank, recordOf]
  | some id =>
      have hb : isNonblank (encode (some id)) = !blank id := rfl
      have hrec : recordOf (ls.map encode) (encode (some id)) =
          (mapGet Location.id id ls).map encode := hrecord id
      have hdrec : recordOf (ls.map encode) (.str step.destinationId) =
          (mapGet Location.id step.destinationId ls).map encode := hrecord step.destinationId
      have hlive := unavailable_location (r := mapGet Location.id id ls)
      rw [hb, hrec, hdrec]
      cases hm : mapGet Location.id id ls with
      | none =>
          rw [hm, Option.map_none] at hlive
          cases hbl : blank id <;> simp [hlive, hm, hbl]
      | some l =>
          rw [hm, Option.map_some] at hlive
          have hst := hstale l
          cases hd : mapGet Location.id step.destinationId ls with
          | none =>
              cases hbl : blank id <;>
                simp only [Option.map_some, Option.map_none, hst, Bool.and_eq_true, hlive, hm, hbl,
                  allowed_issueIf, Option.some.injEq, forall_eq', Bool.not_true, Bool.not_false,
                  if_true, Bool.false_eq_true, if_false, and_assoc, and_imp, forall_const,
                  reduceCtorEq, false_implies, implies_true, true_and, and_true, and_false]
          | some d =>
              have hc := climb_encode ls d l
              cases hbl : blank id <;>
                simp only [Option.map_some, hst, Bool.and_eq_true, hlive, hm, hbl, hc,
                  allowed_issueIf, Option.some.injEq, forall_eq', Bool.not_true, Bool.not_false,
                  if_true, Bool.false_eq_true, if_false, and_assoc, and_imp, forall_const,
                  reduceCtorEq, false_implies, true_and]

/-- What the check of one step asks, after the identifiers of those before; `active` says
    whether its plan is. -/
@[mk_iff]
structure StepReads (P : String → String → Prop) (ls : List Location) (is : List ItemRecord)
    (active : Bool) (ids : List String) (step : PlanStep) : Prop where
  id : blank step.id = true → P "PLAN_STEP" "Plan step ID cannot be blank"
  fresh : blank step.id = false → step.id ∈ ids → P "DUPLICATE_ID" "Duplicate plan step id"
  sourceId : blank step.sourceId = true → P "PLAN_STEP" "Plan source ID is required"
  source : blank step.sourceId = false → (active && !step.done) = true →
    Missing Location.active (mapGet Location.id step.sourceId ls) →
    P "PLAN_SOURCE" "Plan source is missing or archived"
  destinationId : blank step.destinationId = true → P "PLAN_STEP" "Plan destination ID is required"
  destination : blank step.destinationId = false → (active && !step.done) = true →
    Missing Location.active (mapGet Location.id step.destinationId ls) →
    P "PLAN_DESTINATION" "Plan destination is missing or archived"
  distinct : (active && !step.done) = true → step.sourceId = step.destinationId →
    P "PLAN_DESTINATION" "Plan destination must differ from its source"
  item : step.type = .item → ItemStepReads P is (active && !step.done) step
  container : step.type = .location → ContainerStepReads P ls (active && !step.done) step
  score : step.score.isFinite = false → P "PLAN_STEP" "Score must be numeric"

omit [Host] in
/-- A reference that must be there, and live where the step can be carried out. -/
theorem allowed_reference {P : String → String → Prop} {id : String} {e : Bool}
    {ls : List Location} {c m c' m' path path' : String} :
    Allowed P (if blank id = true then issueIf true c m path else
      issueIf (e && unavailable (recordOf (ls.map encode) (.str id))) c' m' path') ↔
      (blank id = true → P c m) ∧
      (blank id = false → e = true → Missing Location.active (mapGet Location.id id ls) →
        P c' m') := by
  have hrec : recordOf (ls.map encode) (.str id) = (mapGet Location.id id ls).map encode :=
    recordOf_encode (withIds_encode ls) id
  have hlive := unavailable_location (r := mapGet Location.id id ls)
  rw [hrec]
  cases hb : blank id <;> simp [hlive]

omit [Host] in

/-- What the check of a step reads of it. -/
theorem allowed_stepIssues (P : String → String → Prop) (ls : List Location)
    (is : List ItemRecord) (active : Bool) (planIndex stepIndex : Nat) (ids : List String)
    (step : PlanStep) :
    Allowed P (stepIssues (ls.map encode) (is.map encode) active planIndex stepIndex ids
      (encode step)) ↔ StepReads P ls is active ids step := by
  have hid : (encode step).get "id" = .str step.id := rfl
  have hdone : (encode step).get "completedAt" = encode step.completedAt := rfl
  have hsrc : (encode step).get "sourceId" = .str step.sourceId := rfl
  have hdst : (encode step).get "destinationId" = .str step.destinationId := rfl
  have htype : (encode step).get "type" = .str step.type.word := rfl
  have hexp : ((encode step).get "explanation").isStringArray = true :=
    isStringArray_encode step.explanation
  have hscore : (encode step).get "score" = .num step.score := rfl
  have hsame : strictEqual (.str step.sourceId) (.str step.destinationId) =
      (step.sourceId == step.destinationId) := rfl
  unfold stepIssues
  simp only [hid, hdone, hsrc, hdst, htype, hexp, hscore, hsame, truthy_encode,
    isNullableString_encode, allowed_append, allowed_issueIf, allowed_reference, requireString,
    isString, isNonblank_str, isFiniteNum, valueId, text, stepReads_iff, PlanStep.done,
    List.contains_iff_mem, Bool.not_true, Bool.false_eq_true, false_implies, true_and,
    Bool.true_and, Bool.not_not, Bool.and_eq_true, Bool.not_eq_true', and_true, beq_iff_eq,
    and_imp, and_assoc]
  cases htp : step.type <;>
    simp [StepType.word, allowed_itemStepIssues, allowed_containerStepIssues]

/-- What the check of the steps of a plan asks, one after another. -/
def StepsRead (P : String → String → Prop) (ls : List Location) (is : List ItemRecord)
    (active : Bool) : List String → List PlanStep → Prop
  | _, [] => True
  | ids, step :: rest =>
    StepReads P ls is active ids step ∧
      StepsRead P ls is active (if blank step.id = true then ids else step.id :: ids) rest

omit [Host] in

/-- What the loop reads of all steps of a plan. -/
theorem allowed_stepLoop (P : String → String → Prop) (ls : List Location)
    (is : List ItemRecord) (active : Bool) (planIndex stepIndex : Nat) (ids : List String)
    (steps : List PlanStep) :
    Allowed P (stepLoop (ls.map encode) (is.map encode) active planIndex stepIndex ids
      (steps.map encode)) ↔ StepsRead P ls is active ids steps := by
  induction steps generalizing stepIndex ids with
  | nil => simp [stepLoop, StepsRead]
  | cons step steps ih =>
      have hr : (encode step).isRecord = true := rfl
      have hid : (encode step).get "id" = .str step.id := rfl
      rw [List.map_cons, stepLoop]
      simp only [hr, Bool.not_true, Bool.false_eq_true, if_false, allowed_append,
        allowed_stepIssues, ih, hid, isNonblank_str, valueId, text, StepsRead]
      cases blank step.id <;> simp

end Check

end Stowplan
