/-
  File:      Stowplan/Domain/Entries.lean
  Subject:   TYPED FIELDS under the paths of patches.

  An entry is a field of a record with a value. `FieldEntry` says what the dotted path of the
  entry does on the encoded record: reading it gives the encoded field, writing it gives the
  encoded record with the field set. With it, patches are reasoned about as typed updates.
-/
import Stowplan.Domain.Patches

namespace Stowplan

open JsValue Keyed

/-- The typed fields `ε` of the records `α`, and what their paths do. -/
class FieldEntry (ε : Type) (α : outParam Type) [Entity α] where
  key : ε → String
  value : ε → JsValue
  /-- the same field with the value it has in the record -/
  here : ε → α → ε
  put : ε → α → α
  key_ne_empty : ∀ e, key e ≠ ""
  read : ∀ e a, readPath (encode a) (key e) = .ok (value (here e a))
  write : ∀ e a, writePath (encode a) (key e) (value e) = .ok (encode (put e a))
  key_here : ∀ e a, key (here e a) = key e
  put_here : ∀ e a, put (here e a) (put e a) = a
  here_put : ∀ e a, here e (put e a) = e
  put_self : ∀ e a, put (here e a) a = a
  idOf_put : ∀ e a, idOf (put e a) = idOf a
  proper_value : ∀ e, proper (value e) = true
  value_ne_undefined : ∀ e, value e ≠ .undefined
  eq_of_equal : ∀ e a, equal (value (here e a)) (value e) = true → here e a = e

attribute [simp] FieldEntry.key_here FieldEntry.here_put FieldEntry.idOf_put FieldEntry.put_here
  FieldEntry.put_self

section Folds

variable {ε α : Type} [Entity α] [FieldEntry ε α]

/-- Several fields set one after another. -/
def putAll (es : List ε) (a : α) : α := es.foldl (fun a e => FieldEntry.put e a) a

/-- No entry's field is set by another entry. -/
def Apart (es : List ε) : Prop :=
  es.Pairwise fun e e' => ∀ a : α, FieldEntry.here e' (FieldEntry.put e a) = FieldEntry.here e' a

/-- Setting fields keeps the identifier. -/
theorem idOf_putAll (es : List ε) (a : α) : idOf (putAll es a) = idOf a := by
  induction es generalizing a with
  | nil => rfl
  | cons e es ih =>
      show idOf (putAll es (FieldEntry.put e a)) = _
      rw [ih, FieldEntry.idOf_put]

/-- What every entry leaves alone stays as it is. -/
theorem putAll_keeps {β : Type} {f : α → β} {es : List ε}
    (h : ∀ e ∈ es, ∀ a, f (FieldEntry.put e a) = f a) (a : α) : f (putAll es a) = f a := by
  induction es generalizing a with
  | nil => rfl
  | cons e es ih =>
      show f (putAll es (FieldEntry.put e a)) = _
      rw [ih fun e' he' => h e' (List.mem_cons_of_mem _ he'), h e List.mem_cons_self]

/-- Leaving out entries that say what is there changes nothing. -/
theorem putAll_filter {p : ε → Bool} {es : List ε} (hp : Apart es) {a b : α}
    (hab : ∀ e ∈ es, FieldEntry.here e b = FieldEntry.here e a)
    (h : ∀ e ∈ es, p e = false → FieldEntry.here e a = e) :
    putAll (es.filter p) b = putAll es b := by
  induction es generalizing b with
  | nil => rfl
  | cons e es ih =>
      unfold Apart at hp
      rw [List.pairwise_cons] at hp
      have hrest : putAll (es.filter p) (FieldEntry.put e b) = putAll es (FieldEntry.put e b) := by
        refine ih hp.2 (fun e' he' => ?_) fun e' he' => h e' (List.mem_cons_of_mem _ he')
        rw [hp.1 e' he']
        exact hab e' (List.mem_cons_of_mem _ he')
      cases hpe : p e with
      | true =>
          rw [List.filter_cons_of_pos (by simpa using hpe)]
          exact hrest
      | false =>
          rw [List.filter_cons_of_neg (by simp [hpe])]
          have hb : FieldEntry.put e b = b := by
            have := FieldEntry.put_self e b
            rwa [hab e List.mem_cons_self, h e List.mem_cons_self hpe] at this
          rw [hb] at hrest
          show _ = putAll es (FieldEntry.put e b)
          rw [hb, hrest]

end Folds

/-! ## 1. Values and updates -/

/-- The value an entry gives its field. -/
def LocationEntry.value : LocationEntry → JsValue
  | .archivedAt v => encode v
  | .captureStatus v => encode v
  | .code v => encode v
  | .conditions v => encode v
  | .description v => encode v
  | .dimensions v => encode v
  | .kind v => encode v
  | .name v => encode v
  | .order v => encode v
  | .parentId v => encode v
  | .tags v => encode v
  | .updatedAt v => encode v

/-- The entry of the same field, with the value a location has there. -/
def LocationEntry.here : LocationEntry → Location → LocationEntry
  | .archivedAt _, l => .archivedAt l.archivedAt
  | .captureStatus _, l => .captureStatus l.captureStatus
  | .code _, l => .code l.code
  | .conditions _, l => .conditions l.conditions
  | .description _, l => .description l.description
  | .dimensions _, l => .dimensions l.dimensions
  | .kind _, l => .kind l.kind
  | .name _, l => .name l.name
  | .order _, l => .order l.order
  | .parentId _, l => .parentId l.parentId
  | .tags _, l => .tags l.tags
  | .updatedAt _, l => .updatedAt l.updatedAt

/-- A location with the field of an entry set. -/
def LocationEntry.put : LocationEntry → Location → Location
  | .archivedAt v, l => { l with archivedAt := v }
  | .captureStatus v, l => { l with captureStatus := v }
  | .code v, l => { l with code := v }
  | .conditions v, l => { l with conditions := v }
  | .description v, l => { l with description := v }
  | .dimensions v, l => { l with dimensions := v }
  | .kind v, l => { l with kind := v }
  | .name v, l => { l with name := v }
  | .order v, l => { l with order := v }
  | .parentId v, l => { l with parentId := v }
  | .tags v, l => { l with tags := v }
  | .updatedAt v, l => { l with updatedAt := v }

/-- The value an entry gives its constraint. -/
def ConstraintEntry.value : ConstraintEntry → JsValue
  | .avoidHumidity v => encode v
  | .avoidWarmth v => encode v
  | .foodOnly v => encode v
  | .keepTogether v => encode v
  | .requiredTags v => encode v

/-- The entry of the same constraint, with the value it has. -/
def ConstraintEntry.here : ConstraintEntry → ItemConstraints → ConstraintEntry
  | .avoidHumidity _, c => .avoidHumidity c.avoidHumidity
  | .avoidWarmth _, c => .avoidWarmth c.avoidWarmth
  | .foodOnly _, c => .foodOnly c.foodOnly
  | .keepTogether _, c => .keepTogether c.keepTogether
  | .requiredTags _, c => .requiredTags c.requiredTags

/-- Constraints with that of an entry set. -/
def ConstraintEntry.put : ConstraintEntry → ItemConstraints → ItemConstraints
  | .avoidHumidity v, c => { c with avoidHumidity := v }
  | .avoidWarmth v, c => { c with avoidWarmth := v }
  | .foodOnly v, c => { c with foodOnly := v }
  | .keepTogether v, c => { c with keepTogether := v }
  | .requiredTags v, c => { c with requiredTags := v }

/-- The value an entry gives its field. -/
def ItemEntry.value : ItemEntry → JsValue
  | .archivedAt v => encode v
  | .category v => encode v
  | .constraints v => encode v
  | .constraint e => e.value
  | .description v => encode v
  | .dimensions v => encode v
  | .frequency v => encode v
  | .locationId v => encode v
  | .name v => encode v
  | .order v => encode v
  | .quantity v => encode v
  | .tags v => encode v
  | .unit v => encode v
  | .updatedAt v => encode v
  | .version v => encode v

/-- The entry of the same field, with the value an item has there. -/
def ItemEntry.here : ItemEntry → ItemRecord → ItemEntry
  | .archivedAt _, i => .archivedAt i.archivedAt
  | .category _, i => .category i.category
  | .constraints _, i => .constraints i.constraints
  | .constraint e, i => .constraint (e.here i.constraints)
  | .description _, i => .description i.description
  | .dimensions _, i => .dimensions i.dimensions
  | .frequency _, i => .frequency i.frequency
  | .locationId _, i => .locationId i.locationId
  | .name _, i => .name i.name
  | .order _, i => .order i.order
  | .quantity _, i => .quantity i.quantity
  | .tags _, i => .tags i.tags
  | .unit _, i => .unit i.unit
  | .updatedAt _, i => .updatedAt i.updatedAt
  | .version _, i => .version i.version

/-- An item with the field of an entry set. -/
def ItemEntry.put : ItemEntry → ItemRecord → ItemRecord
  | .archivedAt v, i => { i with archivedAt := v }
  | .category v, i => { i with category := v }
  | .constraints v, i => { i with constraints := v }
  | .constraint e, i => { i with constraints := e.put i.constraints }
  | .description v, i => { i with description := v }
  | .dimensions v, i => { i with dimensions := v }
  | .frequency v, i => { i with frequency := v }
  | .locationId v, i => { i with locationId := v }
  | .name v, i => { i with name := v }
  | .order v, i => { i with order := v }
  | .quantity v, i => { i with quantity := v }
  | .tags v, i => { i with tags := v }
  | .unit v, i => { i with unit := v }
  | .updatedAt v, i => { i with updatedAt := v }
  | .version v, i => { i with version := v }

/-- The fields of a plan that commands change. -/
inductive PlanEntry where
  | status (v : PlanStatus)
  | steps (v : List PlanStep)
  deriving DecidableEq

/-- The fields of a plan that a patch may change. -/
def PlanEntry.key : PlanEntry → String
  | .status _ => "status"
  | .steps _ => "steps"

/-- The value an entry gives its field. -/
def PlanEntry.value : PlanEntry → JsValue
  | .status v => encode v
  | .steps v => encode v

/-- The entry of the same field, with the value a plan has there. -/
def PlanEntry.here : PlanEntry → MovePlan → PlanEntry
  | .status _, p => .status p.status
  | .steps _, p => .steps p.steps

/-- A plan with the field of an entry set. -/
def PlanEntry.put : PlanEntry → MovePlan → MovePlan
  | .status v, p => { p with status := v }
  | .steps v, p => { p with steps := v }

/-! ## 2. Their paths -/

/-- A path that is one safe key. -/
def plainKey (k : String) : Bool := safePath k && (splitPath k == [k])

/-- A plain key is a path of one key. -/
theorem pathKeys_of_plain {k : String} (h : plainKey k = true) : pathKeys k = .ok [k] := by
  unfold plainKey at h
  rw [Bool.and_eq_true, beq_iff_eq] at h
  unfold pathKeys
  rw [if_pos h.1, h.2]

theorem plainKey_ne {k : String} (h : plainKey k = true) : k ≠ "" := by
  rintro rfl
  revert h
  decide +kernel

theorem plain_location (e : LocationEntry) : plainKey e.key = true := by
  cases e <;> simp only [LocationEntry.key] <;> decide +kernel

theorem plain_plan (e : PlanEntry) : plainKey e.key = true := by
  cases e <;> simp only [PlanEntry.key] <;> decide +kernel

/-- The keys of an item's path: one, or two inside the constraints. -/
def ItemEntry.keys : ItemEntry → List String
  | .constraint e => ["constraints", e.key]
  | e => [e.key]

theorem safe_item (e : ItemEntry) : safePath e.key = true ∧ splitPath e.key = e.keys := by
  cases e with
  | constraint e =>
      cases e <;> simp only [ItemEntry.key, ItemEntry.keys, ConstraintEntry.key] <;>
        decide +kernel
  | _ =>
      simp only [ItemEntry.key, ItemEntry.keys]
      decide +kernel

/-- The path of an entry of an item leads to its keys. -/
theorem pathKeys_item (e : ItemEntry) : pathKeys e.key = .ok e.keys := by
  unfold pathKeys
  rw [if_pos (safe_item e).1, (safe_item e).2]

theorem itemKey_ne (e : ItemEntry) : e.key ≠ "" := by
  intro h
  have := (safe_item e).1
  rw [h] at this
  revert this
  decide +kernel

/-- Reading a path reads its keys. -/
theorem readPath_of_keys {v w : JsValue} {path : String} {ks : List String} (hne : path ≠ "")
    (hk : pathKeys path = .ok ks) (hr : readKeys v ks = .ok w) : readPath v path = .ok w := by
  unfold readPath
  rw [if_neg hne, hk]
  exact hr

/-- Writing a path writes its keys. -/
theorem writePath_of_keys {v x w : JsValue} {path : String} {ks : List String}
    (hk : pathKeys path = .ok ks) (hw : writeKeys v ks x = some w) :
    writePath v path x = .ok w := by
  simp only [writePath, hk, hw, bind, Except.bind]

/-- Reading one own key of an object. -/
theorem readKeys_own {fs : List (String × JsValue)} {k : String} (h : k ∈ fs.map (·.1)) :
    readKeys (.obj fs) [k] = .ok (lookup k fs) := by
  have hown : (JsValue.obj fs).hasOwn k = true := by simpa [hasOwn, JsValue.keys] using h
  have hin : inherits (.obj fs) k = false := by simp [inherits, hown]
  simp [readKeys, isObjectLike, hin, ownValue]

/-- Writing one key of an object. -/
theorem writeKeys_one {fs : List (String × JsValue)} {k : String} {v : JsValue}
    (hv : v ≠ .undefined) : writeKeys (.obj fs) [k] v = some (.obj (setEntry k v fs)) := by
  simp [writeKeys, writeKey, hv, setKey]

/-! ## 3. The entries of each kind of record -/

/-- No field is set to undefined. -/
theorem LocationEntry.value_ne (e : LocationEntry) : e.value ≠ .undefined := by
  cases e with
  | archivedAt v => cases v <;> exact fun h => nomatch h
  | dimensions v => cases v <;> exact fun h => nomatch h
  | parentId v => cases v <;> exact fun h => nomatch h
  | _ => exact fun h => nomatch h

theorem ConstraintEntry.value_ne (e : ConstraintEntry) : e.value ≠ .undefined := by
  cases e with
  | keepTogether v => cases v <;> exact fun h => nomatch h
  | _ => exact fun h => nomatch h

theorem ItemEntry.value_ne (e : ItemEntry) : e.value ≠ .undefined := by
  cases e with
  | archivedAt v => cases v <;> exact fun h => nomatch h
  | dimensions v => cases v <;> exact fun h => nomatch h
  | constraint e => exact e.value_ne
  | _ => exact fun h => nomatch h

instance : FieldEntry LocationEntry Location where
  key := LocationEntry.key
  value := LocationEntry.value
  here := LocationEntry.here
  put := LocationEntry.put
  key_ne_empty e := plainKey_ne (plain_location e)
  read e l := by
    refine readPath_of_keys (plainKey_ne (plain_location e))
      (pathKeys_of_plain (plain_location e)) ?_
    cases e <;> exact readKeys_own (by simp [LocationEntry.key])
  write e l := by
    refine writePath_of_keys (pathKeys_of_plain (plain_location e)) ?_
    cases e <;> exact writeKeys_one (LocationEntry.value_ne _)
  key_here e l := by cases e <;> rfl
  put_here e l := by cases e <;> rfl
  here_put e l := by cases e <;> rfl
  put_self e l := by cases e <;> rfl
  idOf_put e l := by cases e <;> rfl
  proper_value e := by cases e <;> exact Exact.proper_encode _
  value_ne_undefined := LocationEntry.value_ne
  eq_of_equal e l h := by cases e <;> exact congrArg _ (Exact.eq_of_equal _ _ h)

theorem ConstraintEntry.eq_of_equal {e : ConstraintEntry} {c : ItemConstraints}
    (h : equal (e.here c).value e.value = true) : e.here c = e := by
  cases e <;> exact congrArg _ (Exact.eq_of_equal _ _ h)

instance : FieldEntry ItemEntry ItemRecord where
  key := ItemEntry.key
  value := ItemEntry.value
  here := ItemEntry.here
  put := ItemEntry.put
  key_ne_empty := itemKey_ne
  read e i := by
    refine readPath_of_keys (itemKey_ne e) (pathKeys_item e) ?_
    cases e with
    | constraint e => cases e <;> rfl
    | _ => exact readKeys_own (by simp [ItemEntry.key])
  write e i := by
    refine writePath_of_keys (pathKeys_item e) ?_
    cases e with
    | constraint e =>
        have h := e.value_ne
        cases e <;> simp only [ItemEntry.keys, ItemEntry.value, writeKeys, writeKey,
          ConstraintEntry.key, if_neg h] <;> rfl
    | _ => exact writeKeys_one (ItemEntry.value_ne _)
  key_here e i := by
    cases e with
    | constraint e => cases e <;> rfl
    | _ => rfl
  put_here e i := by
    cases e with
    | constraint e => cases e <;> rfl
    | _ => rfl
  here_put e i := by
    cases e with
    | constraint e => cases e <;> rfl
    | _ => rfl
  put_self e i := by
    cases e with
    | constraint e => cases e <;> rfl
    | _ => rfl
  idOf_put e i := by cases e <;> rfl
  proper_value e := by
    cases e with
    | constraint e => cases e <;> exact Exact.proper_encode _
    | _ => exact Exact.proper_encode _
  value_ne_undefined := ItemEntry.value_ne
  eq_of_equal e i h := by
    cases e with
    | constraint e => exact congrArg _ (ConstraintEntry.eq_of_equal h)
    | _ => exact congrArg _ (Exact.eq_of_equal _ _ h)

instance : FieldEntry PlanEntry MovePlan where
  key := PlanEntry.key
  value := PlanEntry.value
  here := PlanEntry.here
  put := PlanEntry.put
  key_ne_empty e := plainKey_ne (plain_plan e)
  read e p := by
    refine readPath_of_keys (plainKey_ne (plain_plan e)) (pathKeys_of_plain (plain_plan e)) ?_
    obtain ⟨_, _, _, sel, _, _, _⟩ := p
    cases e <;> cases sel <;> exact readKeys_own (by simp [PlanEntry.key, optionalEntry])
  write e p := by
    refine writePath_of_keys (pathKeys_of_plain (plain_plan e)) ?_
    obtain ⟨_, _, _, sel, _, _, _⟩ := p
    cases e <;> cases sel <;> exact writeKeys_one (fun h => nomatch h)
  key_here e p := by cases e <;> rfl
  put_here e p := by cases e <;> rfl
  here_put e p := by cases e <;> rfl
  put_self e p := by cases e <;> rfl
  idOf_put e p := by cases e <;> rfl
  proper_value e := by cases e <;> exact Exact.proper_encode _
  value_ne_undefined e := by cases e <;> exact fun h => nomatch h
  eq_of_equal e p h := by cases e <;> exact congrArg _ (Exact.eq_of_equal _ _ h)

/-- Entries of a location under different keys set different fields. -/
theorem LocationEntry.here_put_ne {e e' : LocationEntry} (h : e.key ≠ e'.key) (l : Location) :
    e'.here (e.put l) = e'.here l := by
  cases e <;> cases e' <;> first | rfl | exact absurd rfl h

/-- Entries with different keys do not touch each other. -/
theorem apart_location {es : List LocationEntry} (h : (es.map LocationEntry.key).Nodup) :
    Apart es :=
  (List.pairwise_map.mp h).imp fun hne l => LocationEntry.here_put_ne hne l

/-- Setting one constraint leaves the others. -/
theorem ConstraintEntry.here_put_ne {e e' : ConstraintEntry} (h : e.key ≠ e'.key)
    (c : ItemConstraints) : e'.here (e.put c) = e'.here c := by
  cases e <;> cases e' <;> first | rfl | exact absurd rfl h

/-- The constraints as a whole, or one of them. -/
def ItemEntry.constrains : ItemEntry → Bool
  | .constraints _ | .constraint _ => true
  | _ => false

/-- Entries of an item set different fields when they are not both about constraints. -/
theorem ItemEntry.here_put_ne {e e' : ItemEntry} (h : e.key ≠ e'.key)
    (hc : e.constrains = false ∨ e'.constrains = false) (i : ItemRecord) :
    e'.here (e.put i) = e'.here i := by
  cases e <;> cases e' <;> first | rfl | exact absurd rfl h | simp [ItemEntry.constrains] at hc

/-- Single constraints under different keys set different fields. -/
theorem ItemEntry.here_put_constraint {e e' : ConstraintEntry} (h : e.key ≠ e'.key)
    (i : ItemRecord) : (ItemEntry.constraint e').here ((ItemEntry.constraint e).put i) =
      (ItemEntry.constraint e').here i :=
  congrArg ItemEntry.constraint (ConstraintEntry.here_put_ne h i.constraints)

/-- The workspace has one field that commands change. -/
theorem read_workspace_name (w : Workspace) :
    readPath (encode w) "name" = .ok (encode w.name) :=
  readPath_of_keys (by decide) (pathKeys_of_plain (by decide +kernel))
    (readKeys_own (by simp))

/-- The name of the workspace is written at its path. -/
theorem write_workspace_name (w : Workspace) (name : String) :
    writePath (encode w) "name" (encode name) = .ok (encode { w with name }) :=
  writePath_of_keys (pathKeys_of_plain (by decide +kernel)) (writeKeys_one fun h => nomatch h)

end Stowplan
