/-
  File:      Stowplan/Domain/PlanSelection.lean
  Subject:   AREAS AND PINS OF A PLAN (plan-selection.ts).

  A plan may be kept to some areas and keep some records where they are. Both the engine, on
  records, and the import check, on raw values, ask these functions; so they are stated over
  what they read: a `Place` for a location, a `Thing` for an item.

  * `validPlanSelection`, `planSelectionIssue`, `resolvePlanSelection`, `planSelectionStepIssue`.
-/
import Stowplan.Domain.Types
import Stowplan.Lib.Forest

namespace Stowplan

open Keyed Forest

/-- What the selection reads of a location. -/
structure Place where
  id : String
  parentId : Option String
  active : Bool
  deriving DecidableEq

/-- What the selection reads of an item. -/
structure Thing where
  id : String
  locationId : String
  active : Bool
  deriving DecidableEq

/-- What the selection reads of a location. -/
def Location.place (l : Location) : Place := { id := l.id, parentId := l.parentId, active := l.active }

/-- What the selection reads of an item. -/
def ItemRecord.thing (i : ItemRecord) : Thing :=
  { id := i.id, locationId := i.locationId, active := i.active }

/-- A household as the selection sees it. -/
structure Household where
  places : List Place
  things : List Thing
  deriving DecidableEq

/-- What the selection reads of a workspace. -/
def WorkspaceState.household (state : WorkspaceState) : Household :=
  { places := state.locations.map Location.place, things := state.items.map ItemRecord.thing }

/-- `new Map(records.map((record) => [record.id, record])).get(id)`: the last record with the
    key. -/
def mapGet {α : Type} (key : α → String) (id : String) (records : List α) : Option α :=
  findKey key id records.reverse

/-- The list has no repetitions and no blank entry. -/
def idList (ids : List String) : Bool := ids.all (fun id => !blank id) && decide ids.Nodup

/-- `validPlanSelection(value)`. -/
def validPlanSelection : Option PlanSelection → Bool
  | none => true
  | some selection =>
    (match selection.locationIds with
      | none => true
      | some ids => idList ids) &&
    idList selection.pinnedItemIds && idList selection.pinnedLocationIds

/-- `planSelectionIssue(state, selection)`: the first message that applies. -/
def planSelectionIssue (state : Household) (selection : Option PlanSelection) : Option String :=
  if !validPlanSelection selection then some "Plan areas and pins are malformed"
  else match selection with
    | none => none
    | some selection =>
      let locations := (state.places.filter (·.active)).map (·.id)
      let items := (state.things.filter (·.active)).map (·.id)
      if (selection.locationIds.getD [] ++ selection.pinnedLocationIds).any
          (fun id => !locations.contains id) then
        some "A selected or pinned space is unavailable. Review areas and pins"
      else if selection.pinnedItemIds.any (fun id => !items.contains id) then
        some "A pinned item is unavailable. Review pins"
      else none

/-- `current.parentId ? byId.get(current.parentId) : undefined`. -/
def placeAbove (places : List Place) (place : Place) : Option Place :=
  match place.parentId with
  | none => none
  | some p => if p = "" then none else mapGet Place.id p places

/-- `ancestry(id)`: the active locations from one up to its root. -/
def ancestry (places : List Place) (id : String) : List String :=
  (climb Place.id (placeAbove places) (places.map (·.id)).length [] (mapGet Place.id id places)).map
    (·.id)

/-- What a selection comes down to. -/
structure Resolved where
  fixedLocationIds : List String
  locationIds : List String
  pinnedItemIds : List String
  pinnedLocationIds : List String

/-- `canMoveItem(id, locationId)`. -/
def Resolved.canMoveItem (r : Resolved) (id locationId : String) : Bool :=
  r.locationIds.contains locationId && !r.pinnedItemIds.contains id

/-- `canMoveLocation(id, parentId)`. -/
def Resolved.canMoveLocation (r : Resolved) (id parentId : String) : Bool :=
  parentId != "" && r.locationIds.contains id && r.locationIds.contains parentId &&
    !r.fixedLocationIds.contains id

/-- `canReceive(id)`. -/
def Resolved.canReceive (r : Resolved) (id : String) : Bool :=
  r.locationIds.contains id && !r.pinnedLocationIds.contains id

/-- `emptyPlanSelection()`. -/
def emptyPlanSelection : PlanSelection :=
  { locationIds := none, pinnedItemIds := [], pinnedLocationIds := [] }

/-- `resolvePlanSelection(state, selection)`. -/
def resolvePlanSelection (state : Household) (selection : Option PlanSelection) : Resolved :=
  let options := selection.getD emptyPlanSelection
  let locations := state.places.filter (·.active)
  let path := ancestry locations
  let roots := options.locationIds.getD []
  let pinnedRoots := options.pinnedLocationIds
  let locationIds := (locations.filter fun l =>
    options.locationIds.isNone || (path l.id).any (roots.contains ·)).map (·.id)
  let pinnedLocationIds :=
    (locations.filter fun l => (path l.id).any (pinnedRoots.contains ·)).map (·.id)
  let pinnedItemIds := options.pinnedItemIds ++
    (state.things.filter fun i => pinnedLocationIds.contains i.locationId).map (·.id)
  let fixedLocationIds := pinnedLocationIds ++
    ((state.things.filter fun i => i.active && pinnedItemIds.contains i.id).flatMap fun i =>
      path i.locationId) ++
    pinnedRoots.flatMap path ++
    roots.flatMap fun root =>
      if ((path root).drop 1).any (roots.contains ·) then [] else path root
  { fixedLocationIds, locationIds, pinnedItemIds, pinnedLocationIds }

/-- `planSelectionStepIssue(state, selection, step)`. -/
def planSelectionStepIssue (state : Household) (selection : Option PlanSelection)
    (step : PlanStep) : Option String :=
  match selection with
  | none => none
  | some _ =>
    let resolved := resolvePlanSelection state selection
    if !resolved.locationIds.contains step.sourceId ||
        !resolved.locationIds.contains step.destinationId then
      some "A planned move crosses the selected area boundary"
    else if !resolved.canReceive step.destinationId then
      some "A planned move would change a pinned space"
    else if step.type = .item && isSet step.itemId &&
        !resolved.canMoveItem (step.itemId.getD "") step.sourceId then
      some "A planned move would change a pinned item placement"
    else if step.type = .location && isSet step.locationId &&
        !resolved.canMoveLocation (step.locationId.getD "") step.sourceId then
      some "A planned move would carry a pinned placement or move a selected area root"
    else none

end Stowplan
