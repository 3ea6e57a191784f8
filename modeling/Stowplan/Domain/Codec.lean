/-
  File:      Stowplan/Domain/Codec.lean
  Subject:   RECORDS AS JAVASCRIPT VALUES, AND BACK.

  The engine keeps records typed and patches untyped: a patch carries the value of a field. So
  every record type has an `encode` into `JsValue`, keys in the order of types.ts, and a
  `decode` that answers `none` for a value that is no such record. `Codec` carries the round
  trip as a field; `Exact` adds that `equal` on encoded values is equality of records, which is
  what lets a typed model speak about the comparisons the source makes on values.
-/
import Stowplan.Domain.Types
import Stowplan.Domain.Equal

namespace Stowplan

open JsValue

/-- A type whose values are JavaScript values of a certain form. -/
class Codec (α : Type) where
  encode : α → JsValue
  decode : JsValue → Option α
  decode_encode : ∀ a, decode (encode a) = some a

export Codec (encode decode)

attribute [simp] Codec.decode_encode

/-- A codec on whose values `equal` decides equality. -/
class Exact (α : Type) extends Codec α where
  proper_encode : ∀ a : α, proper (encode a) = true
  eq_of_equal : ∀ a b : α, equal (encode a) (encode b) = true → a = b

attribute [simp] Exact.proper_encode

theorem encode_injective {α : Type} [Codec α] {a b : α} (h : encode a = encode b) : a = b := by
  have := congrArg (decode (α := α)) h
  simpa using this

theorem equal_encode {α : Type} [Exact α] (a b : α) :
    equal (encode a) (encode b) = true ↔ a = b := by
  constructor
  · exact Exact.eq_of_equal a b
  · rintro rfl
    exact equal_self _ (Exact.proper_encode a)

/-! ## 1. Primitives -/

instance : Exact String where
  encode s := .str s
  decode | .str s => some s | _ => none
  decode_encode _ := rfl
  proper_encode _ := rfl
  eq_of_equal a b h := by simpa [equal] using h

instance : Exact Bool where
  encode b := .bool b
  decode | .bool b => some b | _ => none
  decode_encode _ := rfl
  proper_encode _ := rfl
  eq_of_equal a b h := by simpa [equal] using h

instance : Exact JsNumber where
  encode x := .num x
  decode | .num x => some x | _ => none
  decode_encode _ := rfl
  proper_encode _ := rfl
  eq_of_equal a b h := by simpa [equal] using h

theorem ofInt_injective {m n : Int} (h : JsNumber.ofInt m = JsNumber.ofInt n) : m = n := by
  have := congrArg JsNumber.toInt? h
  simpa [JsNumber.toInt?_ofInt] using this

instance : Exact Int where
  encode n := .num (.ofInt n)
  decode | .num x => x.toInt? | _ => none
  decode_encode n := JsNumber.toInt?_ofInt n
  proper_encode _ := rfl
  eq_of_equal a b h := ofInt_injective (by simpa [equal] using h)

/-- The elements of an array, decoded one by one. -/
def decodeList {α : Type} [Codec α] : List JsValue → Option (List α)
  | [] => some []
  | v :: vs => match decode v, decodeList vs with
    | some a, some l => some (a :: l)
    | _, _ => none

theorem decodeList_map {α : Type} [Codec α] (l : List α) :
    decodeList (l.map encode) = some l := by
  induction l with
  | nil => rfl
  | cons a l ih => simp [decodeList, ih]

theorem properList_map {α : Type} [Exact α] (l : List α) :
    properList (l.map encode) = true := by
  induction l with
  | nil => rfl
  | cons a l ih => simp [properList, ih]

theorem equalElems_map {α : Type} [Exact α] : ∀ a b : List α,
    equalElems (a.map encode) (b.map encode) = true → a = b
  | [], b, h => by cases b <;> simp_all [equalElems]
  | x :: xs, b, h => by
      cases b with
      | nil => simp [equalElems] at h
      | cons y ys =>
          simp only [List.map_cons, equalElems, Bool.and_eq_true] at h
          rw [Exact.eq_of_equal x y h.1, equalElems_map xs ys h.2]

instance listCodec {α : Type} [Codec α] : Codec (List α) where
  encode l := .arr (l.map encode)
  decode | .arr xs => decodeList xs | _ => none
  decode_encode l := decodeList_map l

instance {α : Type} [Exact α] : Exact (List α) where
  toCodec := listCodec
  proper_encode l := properList_map l
  eq_of_equal a b h := equalElems_map a b (by simpa [encode, equal] using h)

/-- The values of an enumeration are words. -/
@[reducible] def enumCodec {α : Type} [DecidableEq α] (word : α → String) (all : List α)
    (hall : ∀ a, a ∈ all) (hinj : ∀ a b, word a = word b → a = b) : Exact α where
  encode a := .str (word a)
  decode | .str s => all.find? (fun a => word a == s) | _ => none
  decode_encode a := by
    show all.find? (fun b => word b == word a) = some a
    cases h : all.find? (fun b => word b == word a) with
    | none =>
        have := List.find?_eq_none.mp h a (hall a)
        simp at this
    | some b =>
        have hb : word b = word a := by simpa using List.find?_some h
        rw [hinj b a hb]
  proper_encode _ := rfl
  eq_of_equal a b h := hinj a b (by simpa [equal] using h)

/-- `value | null` read back. -/
def decodeNullable {α : Type} (decode : JsValue → Option α) : JsValue → Option (Option α)
  | .null => some none
  | v => (decode v).map some

theorem decodeNullable_of_ne {α : Type} (decode : JsValue → Option α) {v : JsValue}
    (h : v ≠ .null) : decodeNullable decode v = (decode v).map some := by
  cases v <;> first | rfl | exact absurd rfl h

/-- A nullable field. -/
@[reducible] def nullableCodec {α : Type} (c : Exact α) (hnull : ∀ a, c.encode a ≠ .null) :
    Exact (Option α) where
  encode
    | none => .null
    | some a => c.encode a
  decode := decodeNullable c.decode
  decode_encode a := by
    cases a with
    | none => rfl
    | some a =>
        show decodeNullable c.decode (c.encode a) = some (some a)
        rw [decodeNullable_of_ne _ (hnull a), c.decode_encode]
        rfl
  proper_encode a := by
    cases a with
    | none => rfl
    | some a => exact c.proper_encode a
  eq_of_equal a b h := by
    cases a with
    | none =>
        cases b with
        | none => rfl
        | some b =>
            have hb := hnull b
            revert h hb
            show equal .null (c.encode b) = true → _
            cases c.encode b <;> simp [equal]
    | some a =>
        cases b with
        | none =>
            have ha := hnull a
            revert h ha
            show equal (c.encode a) .null = true → _
            cases c.encode a <;> simp [equal]
        | some b => exact congrArg some (c.eq_of_equal a b h)

instance : Exact (Option String) := nullableCodec inferInstance (fun _ h => nomatch h)
instance : Exact (Option JsNumber) := nullableCodec inferInstance (fun _ h => nomatch h)
instance : Exact (Option (List String)) := nullableCodec inferInstance (fun _ h => nomatch h)

/-! ## 2. Enumerations -/

/-- The word of a capture status, as the JSON has it. -/
def CaptureStatus.word : CaptureStatus → String
  | .counted => "counted"
  | .inProgress => "in_progress"
  | .knownEmpty => "known_empty"
  | .uncounted => "uncounted"

/-- The word of a frequency. -/
def Frequency.word : Frequency → String
  | .daily => "daily"
  | .weekly => "weekly"
  | .monthly => "monthly"
  | .rarely => "rarely"

/-- The word of a kind. -/
def LocationKind.word : LocationKind → String
  | .area => "area"
  | .bin => "bin"
  | .box => "box"
  | .cabinet => "cabinet"
  | .container => "container"
  | .drawer => "drawer"
  | .room => "room"
  | .shelf => "shelf"
  | .zone => "zone"

/-- The word of a unit of length. -/
def DimensionUnit.word : DimensionUnit → String
  | .cm => "cm"
  | .inch => "in"

/-- The word of a humidity. -/
def Humidity.word : Humidity → String
  | .dry => "dry"
  | .normal => "normal"
  | .humid => "humid"

/-- The word of a temperature. -/
def Temperature.word : Temperature → String
  | .cold => "cold"
  | .cool => "cool"
  | .normal => "normal"
  | .warm => "warm"

/-- The word of a type of step. -/
def StepType.word : StepType → String
  | .item => "item"
  | .location => "location"

/-- The word of the status of a plan. -/
def PlanStatus.word : PlanStatus → String
  | .active => "active"
  | .completed => "completed"
  | .discarded => "discarded"

/-- The word of a target. -/
def PatchTarget.word : PatchTarget → String
  | .item => "item"
  | .location => "location"
  | .plan => "plan"
  | .workspace => "workspace"

/-- The word of the status of an activity. -/
def ActivityStatus.word : ActivityStatus → String
  | .applied => "applied"
  | .undone => "undone"

/-- The word of a type of event. -/
def AuditType.word : AuditType → String
  | .batchRedo => "batch_redo"
  | .batchUndo => "batch_undo"
  | .reapply => "reapply"
  | .undo => "undo"

instance : Exact CaptureStatus :=
  enumCodec CaptureStatus.word [.counted, .inProgress, .knownEmpty, .uncounted]
    (by intro a; cases a <;> decide) (by intro a b; cases a <;> cases b <;> decide)

instance : Exact Frequency :=
  enumCodec Frequency.word [.daily, .weekly, .monthly, .rarely]
    (by intro a; cases a <;> decide) (by intro a b; cases a <;> cases b <;> decide)

instance : Exact LocationKind :=
  enumCodec LocationKind.word
    [.area, .bin, .box, .cabinet, .container, .drawer, .room, .shelf, .zone]
    (by intro a; cases a <;> decide) (by intro a b; cases a <;> cases b <;> decide)

instance : Exact DimensionUnit :=
  enumCodec DimensionUnit.word [.cm, .inch]
    (by intro a; cases a <;> decide) (by intro a b; cases a <;> cases b <;> decide)

instance : Exact Humidity :=
  enumCodec Humidity.word [.dry, .normal, .humid]
    (by intro a; cases a <;> decide) (by intro a b; cases a <;> cases b <;> decide)

instance : Exact Temperature :=
  enumCodec Temperature.word [.cold, .cool, .normal, .warm]
    (by intro a; cases a <;> decide) (by intro a b; cases a <;> cases b <;> decide)

instance : Exact StepType :=
  enumCodec StepType.word [.item, .location]
    (by intro a; cases a <;> decide) (by intro a b; cases a <;> cases b <;> decide)

instance : Exact PlanStatus :=
  enumCodec PlanStatus.word [.active, .completed, .discarded]
    (by intro a; cases a <;> decide) (by intro a b; cases a <;> cases b <;> decide)

instance : Exact PatchTarget :=
  enumCodec PatchTarget.word [.item, .location, .plan, .workspace]
    (by intro a; cases a <;> decide) (by intro a b; cases a <;> cases b <;> decide)

instance : Exact ActivityStatus :=
  enumCodec ActivityStatus.word [.applied, .undone]
    (by intro a; cases a <;> decide) (by intro a b; cases a <;> cases b <;> decide)

instance : Exact AuditType :=
  enumCodec AuditType.word [.batchRedo, .batchUndo, .reapply, .undo]
    (by intro a; cases a <;> decide) (by intro a b; cases a <;> cases b <;> decide)

/-! ## 3. Records -/

/-- The field `key` of an object, decoded. -/
def field {α : Type} [Codec α] (v : JsValue) (key : String) : Option α := decode (v.get key)

/-- A field that may be missing. -/
def optionalField {α : Type} [Codec α] (v : JsValue) (key : String) : Option (Option α) :=
  match v.get key with
  | .undefined => some none
  | w => (decode w).map some

theorem optionalField_some {α : Type} [Codec α] {v : JsValue} {key : String} {a : α}
    (hne : encode a ≠ .undefined) (h : v.get key = encode a) :
    optionalField v key = some (some a) := by
  unfold optionalField
  rw [h]
  have hd := Codec.decode_encode a
  revert hne hd
  cases encode a <;> simp

instance : Exact Dimensions where
  encode d := .obj [
    ("depth", encode d.depth), ("height", encode d.height), ("unit", encode d.unit),
    ("width", encode d.width)]
  decode v := do
    return {
      depth := ← field v "depth", height := ← field v "height", unit := ← field v "unit",
      width := ← field v "width" }
  decode_encode d := by simp [field, lookup]
  proper_encode d := by simp [proper, properFields]
  eq_of_equal a b h := by
    have h := forall₂_of_equal (by simp) (by rfl) h
    simp only [List.forall₂_cons, equal_encode] at h
    cases a; cases b; simp_all

instance : Exact (Option Dimensions) := nullableCodec inferInstance (fun _ h => nomatch h)

instance : Exact LocationConditions where
  encode c := .obj [
    ("dark", encode c.dark), ("dry", encode c.dry), ("foodSafe", encode c.foodSafe),
    ("humidity", encode c.humidity), ("temperature", encode c.temperature)]
  decode v := do
    return {
      dark := ← field v "dark", dry := ← field v "dry", foodSafe := ← field v "foodSafe",
      humidity := ← field v "humidity", temperature := ← field v "temperature" }
  decode_encode c := by simp [field, lookup]
  proper_encode c := by simp [proper, properFields]
  eq_of_equal a b h := by
    have h := forall₂_of_equal (by simp) (by rfl) h
    simp only [List.forall₂_cons, equal_encode] at h
    cases a; cases b; simp_all

instance : Exact ItemConstraints where
  encode c := .obj [
    ("avoidHumidity", encode c.avoidHumidity), ("avoidWarmth", encode c.avoidWarmth),
    ("foodOnly", encode c.foodOnly), ("keepTogether", encode c.keepTogether),
    ("requiredTags", encode c.requiredTags)]
  decode v := do
    return {
      avoidHumidity := ← field v "avoidHumidity", avoidWarmth := ← field v "avoidWarmth",
      foodOnly := ← field v "foodOnly", keepTogether := ← field v "keepTogether",
      requiredTags := ← field v "requiredTags" }
  decode_encode c := by simp [field, lookup]
  proper_encode c := by simp [proper, properFields]
  eq_of_equal a b h := by
    have h := forall₂_of_equal (by simp) (by rfl) h
    simp only [List.forall₂_cons, equal_encode] at h
    cases a; cases b; simp_all

instance : Exact Workspace where
  encode w := .obj [
    ("createdAt", encode w.createdAt), ("id", encode w.id), ("name", encode w.name),
    ("revision", encode w.revision), ("updatedAt", encode w.updatedAt)]
  decode v := do
    return {
      createdAt := ← field v "createdAt", id := ← field v "id", name := ← field v "name",
      revision := ← field v "revision", updatedAt := ← field v "updatedAt" }
  decode_encode w := by simp [field, lookup]
  proper_encode w := by simp [proper, properFields]
  eq_of_equal a b h := by
    have h := forall₂_of_equal (by simp) (by rfl) h
    simp only [List.forall₂_cons, equal_encode] at h
    cases a; cases b; simp_all

instance : Exact Location where
  encode l := .obj [
    ("archivedAt", encode l.archivedAt), ("captureStatus", encode l.captureStatus),
    ("code", encode l.code), ("conditions", encode l.conditions),
    ("createdAt", encode l.createdAt), ("description", encode l.description),
    ("dimensions", encode l.dimensions), ("id", encode l.id), ("kind", encode l.kind),
    ("name", encode l.name), ("order", encode l.order), ("parentId", encode l.parentId),
    ("tags", encode l.tags), ("updatedAt", encode l.updatedAt)]
  decode v := do
    return {
      archivedAt := ← field v "archivedAt", captureStatus := ← field v "captureStatus",
      code := ← field v "code", conditions := ← field v "conditions",
      createdAt := ← field v "createdAt", description := ← field v "description",
      dimensions := ← field v "dimensions", id := ← field v "id", kind := ← field v "kind",
      name := ← field v "name", order := ← field v "order", parentId := ← field v "parentId",
      tags := ← field v "tags", updatedAt := ← field v "updatedAt" }
  decode_encode l := by simp [field, lookup]
  proper_encode l := by simp [proper, properFields]
  eq_of_equal a b h := by
    have h := forall₂_of_equal (by simp) (by rfl) h
    simp only [List.forall₂_cons, equal_encode] at h
    cases a; cases b; simp_all

instance : Exact ItemRecord where
  encode i := .obj [
    ("archivedAt", encode i.archivedAt), ("category", encode i.category),
    ("constraints", encode i.constraints), ("createdAt", encode i.createdAt),
    ("description", encode i.description), ("dimensions", encode i.dimensions),
    ("frequency", encode i.frequency), ("id", encode i.id),
    ("locationId", encode i.locationId), ("name", encode i.name), ("order", encode i.order),
    ("quantity", encode i.quantity), ("tags", encode i.tags), ("unit", encode i.unit),
    ("updatedAt", encode i.updatedAt), ("version", encode i.version)]
  decode v := do
    return {
      archivedAt := ← field v "archivedAt", category := ← field v "category",
      constraints := ← field v "constraints", createdAt := ← field v "createdAt",
      description := ← field v "description", dimensions := ← field v "dimensions",
      frequency := ← field v "frequency", id := ← field v "id",
      locationId := ← field v "locationId", name := ← field v "name",
      order := ← field v "order", quantity := ← field v "quantity", tags := ← field v "tags",
      unit := ← field v "unit", updatedAt := ← field v "updatedAt",
      version := ← field v "version" }
  decode_encode i := by simp [field, lookup]
  proper_encode i := by simp [proper, properFields]
  eq_of_equal a b h := by
    have h := forall₂_of_equal (by simp) (by rfl) h
    simp only [List.forall₂_cons, equal_encode] at h
    cases a; cases b; simp_all

instance : Exact PlanWeights where
  encode w := .obj [
    ("accessibility", encode w.accessibility), ("capacity", encode w.capacity),
    ("grouping", encode w.grouping), ("moveCost", encode w.moveCost),
    ("suitability", encode w.suitability)]
  decode v := do
    return {
      accessibility := ← field v "accessibility", capacity := ← field v "capacity",
      grouping := ← field v "grouping", moveCost := ← field v "moveCost",
      suitability := ← field v "suitability" }
  decode_encode w := by simp [field, lookup]
  proper_encode w := by simp [proper, properFields]
  eq_of_equal a b h := by
    have h := forall₂_of_equal (by simp) (by rfl) h
    simp only [List.forall₂_cons, equal_encode] at h
    cases a; cases b; simp_all

instance : Exact PlanStep where
  encode p := .obj [
    ("completedAt", encode p.completedAt), ("destinationId", encode p.destinationId),
    ("explanation", encode p.explanation), ("id", encode p.id), ("itemId", encode p.itemId),
    ("locationId", encode p.locationId), ("quantity", encode p.quantity),
    ("score", encode p.score), ("sourceId", encode p.sourceId), ("type", encode p.type)]
  decode v := do
    return {
      completedAt := ← field v "completedAt", destinationId := ← field v "destinationId",
      explanation := ← field v "explanation", id := ← field v "id",
      itemId := ← field v "itemId", locationId := ← field v "locationId",
      quantity := ← field v "quantity", score := ← field v "score",
      sourceId := ← field v "sourceId", type := ← field v "type" }
  decode_encode p := by simp [field, lookup]
  proper_encode p := by simp [proper, properFields]
  eq_of_equal a b h := by
    have h := forall₂_of_equal (by simp) (by rfl) h
    simp only [List.forall₂_cons, equal_encode] at h
    cases a; cases b; simp_all

instance : Exact PlanSelection where
  encode p := .obj [
    ("locationIds", encode p.locationIds), ("pinnedItemIds", encode p.pinnedItemIds),
    ("pinnedLocationIds", encode p.pinnedLocationIds)]
  decode v := do
    return {
      locationIds := ← field v "locationIds", pinnedItemIds := ← field v "pinnedItemIds",
      pinnedLocationIds := ← field v "pinnedLocationIds" }
  decode_encode p := by simp [field, lookup]
  proper_encode p := by simp [proper, properFields]
  eq_of_equal a b h := by
    have h := forall₂_of_equal (by simp) (by rfl) h
    simp only [List.forall₂_cons, equal_encode] at h
    cases a; cases b; simp_all

/-- The entry of an optional field: none where the field is missing. -/
def optionalEntry {α : Type} [Codec α] (key : String) : Option α → List (String × JsValue)
  | none => []
  | some a => [(key, encode a)]

instance : Exact MovePlan where
  encode p := .obj (
    [("createdAt", encode p.createdAt), ("id", encode p.id), ("name", encode p.name)] ++
    optionalEntry "selection" p.selection ++
    [("status", encode p.status), ("steps", encode p.steps), ("weights", encode p.weights)])
  decode v := do
    return {
      createdAt := ← field v "createdAt", id := ← field v "id", name := ← field v "name",
      selection := ← optionalField v "selection", status := ← field v "status",
      steps := ← field v "steps", weights := ← field v "weights" }
  decode_encode p := by
    obtain ⟨_, _, _, sel, _, _, _⟩ := p
    cases sel with
    | none => simp [field, lookup, optionalEntry, optionalField]
    | some sel =>
        have h : ∀ v : JsValue, v.get "selection" = encode sel →
            optionalField v "selection" = some (some sel) :=
          fun v => optionalField_some (fun e => nomatch e)
        simp [field, lookup, optionalEntry, h]
  proper_encode p := by
    obtain ⟨_, _, _, sel, _, _, _⟩ := p
    cases sel <;> simp [proper, properFields, optionalEntry]
  eq_of_equal a b h := by
    obtain ⟨_, _, _, sel, _, _, _⟩ := a
    obtain ⟨_, _, _, sel', _, _, _⟩ := b
    cases sel with
    | none =>
        cases sel' with
        | none =>
            have h := forall₂_of_equal (by simp [optionalEntry]) (by rfl) h
            simp only [optionalEntry, List.nil_append, List.cons_append, List.forall₂_cons,
              equal_encode] at h
            simp_all
        | some sel' =>
            have := (keys_perm_of_equal h).length_eq
            simp [optionalEntry] at this
    | some sel =>
        cases sel' with
        | none =>
            have := (keys_perm_of_equal h).length_eq
            simp [optionalEntry] at this
        | some sel' =>
            have h := forall₂_of_equal (by simp [optionalEntry]) (by rfl) h
            simp only [optionalEntry, List.nil_append, List.cons_append, List.forall₂_cons,
              equal_encode] at h
            simp_all

instance : Codec FieldPatch where
  encode p := .obj [
    ("after", p.after), ("before", p.before), ("id", encode p.id), ("path", encode p.path),
    ("target", encode p.target)]
  decode v := do
    return {
      after := v.get "after", before := v.get "before", id := ← field v "id",
      path := ← field v "path", target := ← field v "target" }
  decode_encode p := by simp [field, lookup]

instance : Codec ActivityRecord where
  encode a := .obj [
    ("actorId", encode a.actorId), ("commandId", encode a.commandId), ("id", encode a.id),
    ("label", encode a.label), ("patches", encode a.patches), ("status", encode a.status),
    ("subjectIds", encode a.subjectIds), ("timestamp", encode a.timestamp),
    ("undoneAt", encode a.undoneAt)]
  decode v := do
    return {
      actorId := ← field v "actorId", commandId := ← field v "commandId", id := ← field v "id",
      label := ← field v "label", patches := ← field v "patches", status := ← field v "status",
      subjectIds := ← field v "subjectIds", timestamp := ← field v "timestamp",
      undoneAt := ← field v "undoneAt" }
  decode_encode a := by simp [field, lookup]

instance : Codec AuditEvent where
  encode a := .obj [
    ("actorId", encode a.actorId), ("id", encode a.id), ("label", encode a.label),
    ("targetActivityIds", encode a.targetActivityIds), ("timestamp", encode a.timestamp),
    ("type", encode a.type)]
  decode v := do
    return {
      actorId := ← field v "actorId", id := ← field v "id", label := ← field v "label",
      targetActivityIds := ← field v "targetActivityIds", timestamp := ← field v "timestamp",
      type := ← field v "type" }
  decode_encode a := by simp [field, lookup]

instance : Codec WorkspaceState where
  encode s := .obj [
    ("activities", encode s.activities), ("audit", encode s.audit),
    ("commandReceipts", encode s.commandReceipts), ("items", encode s.items),
    ("locations", encode s.locations), ("plans", encode s.plans),
    ("schemaVersion", encode schemaVersion), ("workspace", encode s.workspace)]
  decode v := do
    return {
      activities := ← field v "activities", audit := ← field v "audit",
      commandReceipts := ← field v "commandReceipts", items := ← field v "items",
      locations := ← field v "locations", plans := ← field v "plans",
      workspace := ← field v "workspace" }
  decode_encode s := by simp [field, lookup]

/-- A record that patches can name: it has an identifier, which its value shows under `id`. -/
class Entity (α : Type) extends Exact α where
  idOf : α → String
  get_id : ∀ a : α, (Codec.encode a).get "id" = .str (idOf a)

export Entity (idOf)

instance : Entity ItemRecord where
  idOf := ItemRecord.id
  get_id _ := rfl

instance : Entity Location where
  idOf := Location.id
  get_id _ := rfl

instance : Entity MovePlan where
  idOf := MovePlan.id
  get_id _ := rfl

instance : Entity Workspace where
  idOf := Workspace.id
  get_id _ := rfl

@[simp] theorem idOf_item (i : ItemRecord) : idOf i = i.id := rfl
@[simp] theorem idOf_location (l : Location) : idOf l = l.id := rfl
@[simp] theorem idOf_plan (p : MovePlan) : idOf p = p.id := rfl
@[simp] theorem idOf_workspace (w : Workspace) : idOf w = w.id := rfl

end Stowplan
