/-
  File:      Stowplan/Domain/Patches.lean
  Subject:   FIELD PATCHES (commands.ts, activity.ts): reading and writing a path of a record,
  applying a patch to a workspace.

  A patch names a record and a dotted path and carries the value before and after. The source
  reads and writes paths on any object; here the record is encoded, read or written as a value,
  and decoded again. A value that decodes to no record is an error of the model: the patches the
  engine makes are of typed fields, so it never arises from them.

  * `pathKeys`, `readPath`, `writePath`, `readPatchValue`, `applyFieldPatch`, `applyPatches`;
  * `isActivityBookkeepingPatch`, `meaningfulActivityPatches`.
-/
import Stowplan.Domain.Codec
import Stowplan.Lib.Keyed

namespace Stowplan

open JsValue Keyed

/-! ## 1. Paths -/

/-- `unsafePathKeys`. -/
def unsafePathKeys : List String := ["__proto__", "constructor", "prototype"]

/-- What `pathKeys` asks of a path. -/
def safePath (path : String) : Bool :=
  path != "" && (splitPath path).all fun key => key != "" && !unsafePathKeys.contains key

/-- `pathKeys(path)`. -/
def pathKeys (path : String) : Result (List String) :=
  if safePath path then .ok (splitPath path)
  else .error (.domain "INVALID_PATCH" "A field patch contains an unsafe path")

/-- The functions every object inherits. -/
def objectMethods : List String :=
  ["__defineGetter__", "__defineSetter__", "__lookupGetter__", "__lookupSetter__",
    "hasOwnProperty", "isPrototypeOf", "propertyIsEnumerable", "toLocaleString", "toString",
    "valueOf"]

/-- The functions every array inherits. -/
def arrayMethods : List String :=
  ["at", "concat", "copyWithin", "entries", "every", "fill", "filter", "find", "findIndex",
    "findLast", "findLastIndex", "flat", "flatMap", "forEach", "includes", "indexOf", "join",
    "keys", "lastIndexOf", "map", "pop", "push", "reduce", "reduceRight", "reverse", "shift",
    "slice", "some", "sort", "splice", "toReversed", "toSorted", "toSpliced", "unshift",
    "values", "with"]

/-- `Boolean(value) && typeof value === "object"`. -/
def isObjectLike : JsValue → Bool
  | .obj _ | .arr _ => true
  | _ => false

/-- `value[key]` where it is data: an own property, an element or the length of an array. -/
def ownValue (v : JsValue) (key : String) : JsValue :=
  match v with
  | .arr xs => if key = "length" then .num (.ofInt xs.length) else lookup key (ownEntries v)
  | _ => v.get key

/-- `value[key]` is a function the value inherits. -/
def inherits (v : JsValue) (key : String) : Bool :=
  match v with
  | .obj _ => !v.hasOwn key && objectMethods.contains key
  | .arr _ => objectMethods.contains key || arrayMethods.contains key
  | _ => false

/-- The reduction of `readPath`, and the clone of what it ends on: a function has no clone. -/
def readKeys : JsValue → List String → Result JsValue
  | v, [] => .ok v
  | v, key :: rest =>
    if !isObjectLike v then .ok .undefined
    else if inherits v key then
      if rest.isEmpty then .error (.crash "DataCloneError") else .ok .undefined
    else readKeys (ownValue v key) rest

/-- `readPath(entity, path)`. -/
def readPath (entity : JsValue) (path : String) : Result JsValue :=
  if path = "" then .ok entity else pathKeys path >>= readKeys entity

/-- Assigning to, or deleting, one key. An array has its elements assigned; any other key of an
    array has no value in the model. -/
def writeKey (v : JsValue) (key : String) (value : JsValue) : Option JsValue :=
  match v with
  | .obj _ => some (if value = .undefined then v.delKey key else v.setKey key value)
  | .arr xs => match (ownEntries v).findIdx? (fun p => p.1 = key) with
    | some i => some (.arr (xs.set i value))
    | none => none
  | _ => none

/-- The walk of `writePath`: a key on the way that holds no object gets an empty one. -/
def writeKeys : JsValue → List String → JsValue → Option JsValue
  | _, [], _ => none
  | v, key :: rest, value =>
    match rest with
    | [] => writeKey v key value
    | _ :: _ =>
      let next := ownValue v key
      match writeKeys (if isObjectLike next then next else .obj []) rest value with
      | some w => writeKey v key w
      | none => none

/-- `writePath(entity, path, value)`. -/
def writePath (entity : JsValue) (path : String) (value : JsValue) : Result JsValue := do
  let keys ← pathKeys path
  match writeKeys entity keys value with
  | some v => .ok v
  | none => .error (.crash "unrepresentable value")

/-! ## 2. Patches -/

/-- `entityFor(state, target, id)` as a value. -/
def entityFor (state : WorkspaceState) (target : PatchTarget) (id : String) : JsValue :=
  match target with
  | .workspace => if state.workspace.id = id then encode state.workspace else .undefined
  | .item => ((findKey idOf id state.items).map encode).getD .undefined
  | .location => ((findKey idOf id state.locations).map encode).getD .undefined
  | .plan => ((findKey idOf id state.plans).map encode).getD .undefined

/-- `readPatchValue(state, target, id, path)`. -/
def readPatchValue (state : WorkspaceState) (target : PatchTarget) (id path : String) :
    Result JsValue :=
  readPath (entityFor state target id) path

/-- A value the engine stores as a record. -/
def decodeRecord (α : Type) [Codec α] (v : JsValue) : Result α :=
  match decode v with
  | some a => .ok a
  | none => .error (.crash "unrepresentable record")

/-- `PATCH_TARGET_MISSING`. -/
def targetMissing (patch : FieldPatch) : Thrown :=
  .domain "PATCH_TARGET_MISSING"
    s!"Cannot change {patch.target.word} {patch.id}; it no longer exists"

/-- `applyFieldPatch` on the collection the patch is about. -/
def patchCollection {α : Type} [Entity α] (records : List α) (patch : FieldPatch) :
    Result (List α) :=
  if patch.path = "" then
    if patch.after = .undefined then .ok (dropFirst idOf patch.id records)
    else do
      let next ← decodeRecord α patch.after
      if (findKey idOf patch.id records).isSome then .ok (setFirst idOf patch.id next records)
      else .ok (records ++ [next])
  else
    match findKey idOf patch.id records with
    | none => .error (targetMissing patch)
    | some entity => do
      let written ← writePath (encode entity) patch.path patch.after
      let next ← decodeRecord α written
      .ok (setFirst idOf patch.id next records)

/-- `applyFieldPatch` on the workspace record. -/
def patchWorkspace (workspace : Workspace) (patch : FieldPatch) : Result Workspace :=
  if patch.path = "" then
    if patch.after = .undefined then
      .error (.domain "INVALID_PATCH" "The workspace cannot be removed")
    else decodeRecord Workspace patch.after
  else if workspace.id = patch.id then
    writePath (encode workspace) patch.path patch.after >>= decodeRecord Workspace
  else .error (targetMissing patch)

/-- `applyFieldPatch(state, patch)`. -/
def applyFieldPatch (state : WorkspaceState) (patch : FieldPatch) : Result WorkspaceState :=
  match patch.target with
  | .workspace => do return { state with workspace := ← patchWorkspace state.workspace patch }
  | .item => do return { state with items := ← patchCollection state.items patch }
  | .location => do return { state with locations := ← patchCollection state.locations patch }
  | .plan => do return { state with plans := ← patchCollection state.plans patch }

/-- The patches one after another. -/
def applyPatches (state : WorkspaceState) : List FieldPatch → Result WorkspaceState
  | [] => .ok state
  | patch :: patches => applyFieldPatch state patch >>= (applyPatches · patches)

/-- `patch(target, id, path, before, after)`. -/
def patch (target : PatchTarget) (id path : String) (before after : JsValue) : FieldPatch :=
  { after, before, id, path, target }

/-! ## 3. Bookkeeping -/

/-- `ITEM_BOOKKEEPING_PATHS`. -/
def itemBookkeepingPaths : List String := ["updatedAt", "version"]

/-- `LOCATION_BOOKKEEPING_PATHS`. -/
def locationBookkeepingPaths : List String := ["updatedAt"]

/-- `isActivityBookkeepingPatch(patch)`. -/
def isActivityBookkeepingPatch (patch : FieldPatch) : Bool :=
  if patch.path = "" then false
  else match patch.target with
    | .item => itemBookkeepingPaths.contains patch.path
    | .location => locationBookkeepingPaths.contains patch.path
    | _ => false

/-- `meaningfulActivityPatches(patches)`. -/
def meaningfulActivityPatches (patches : List FieldPatch) : List FieldPatch :=
  patches.filter fun p => !isActivityBookkeepingPatch p

end Stowplan
