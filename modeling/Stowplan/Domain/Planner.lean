/-
  File:      Stowplan/Domain/Planner.lean
  Subject:   THE PLANNER (planner.ts): scoring places, moving filled containers, moving items.

  A plan is made on a copy of the workspace. First the movable containers are tried, the fullest
  first, each as one move with everything in it; then the items that no container move covers are
  tried, pass after pass, until a pass plans nothing. Every planned move is made on the copy.

  The arithmetic of doubles is a parameter: scores and volumes are added, multiplied and rounded
  by whatever `PlannerRuntime` says, so that nothing proved of the planner rests on exact sums.
  Comparisons are those of numbers.

  * `scoreCandidate`: the score of a place for an item, or why it cannot be used;
  * `containerStep`, `planContainers`: moves of filled containers;
  * `bestDestination`, `planItem`, `planPasses`: moves of items;
  * `generatePlan`: the plan.
-/
import Stowplan.Domain.Commands.Normal

namespace Stowplan

open Keyed Forest

/-! ## 1. Numbers -/

/-- What the planner takes from the language: the double that a literal denotes, the arithmetic
    of doubles with its rounding, and `toLowerCase`. -/
class PlannerRuntime where
  number : ℚ → JsNumber
  add : JsNumber → JsNumber → JsNumber
  sub : JsNumber → JsNumber → JsNumber
  mul : JsNumber → JsNumber → JsNumber
  div : JsNumber → JsNumber → JsNumber
  pow : JsNumber → JsNumber → JsNumber
  round : JsNumber → JsNumber
  toLowerCase : String → String

/-- `a <= b`. -/
def JsNumber.le (a b : JsNumber) : Bool := JsNumber.lt a b || JsNumber.strictEq a b

/-- `Math.min(a, b)`. -/
def JsNumber.min (a b : JsNumber) : JsNumber :=
  if a = .nan ∨ b = .nan then .nan else if JsNumber.lt b a then b else a

/-- `DEFAULT_PLAN_WEIGHTS`. -/
def defaultPlanWeights : PlanWeights where
  accessibility := 4
  capacity := 3
  grouping := 4
  moveCost := 2
  suitability := 5

/-- `frequencyValue`. -/
def Frequency.value : Frequency → Nat
  | .daily => 4
  | .monthly => 2
  | .rarely => 1
  | .weekly => 3

/-- `DEFAULT_ITEM_CATEGORY`. -/
def defaultItemCategory : String := "Uncategorized"

/-! ## 2. The hierarchy -/

/-- The loop of `locationDepth`: it ends at a root, or with 100 at a location seen before. -/
def depthFrom (state : WorkspaceState) : Nat → List String → Nat → Option Location → Nat
  | 0, _, depth, _ => depth
  | _ + 1, _, depth, none => depth
  | fuel + 1, seen, depth, some current =>
    if !isSet current.parentId then depth
    else if current.id ∈ seen then 100
    else depthFrom state fuel (current.id :: seen) (depth + 1) (locationAbove state current)

/-- `locationDepth(state, locationId)`. -/
def locationDepth (state : WorkspaceState) (locationId : String) : Nat :=
  depthFrom state (state.locations.length + 1) [] 0 (findLocation state locationId)

/-- The location and those around it, the nearest first. -/
def ancestors (state : WorkspaceState) (locationId : String) : List String :=
  (climb Location.id (locationAbove state) (state.locations.map Location.id).length []
    (findLocation state locationId)).map (·.id)

/-- `moveDistance(state, sourceId, destinationId)`: the way up to the first common space and down
    again. -/
def moveDistance (state : WorkspaceState) (sourceId destinationId : String) : Nat :=
  let source := ancestors state sourceId
  let destination := ancestors state destinationId
  match source.find? (destination.contains ·) with
  | some common =>
    if common = "" then source.length + destination.length
    else source.idxOf common + destination.idxOf common
  | none => source.length + destination.length

/-- The identifiers of the locations inside another: the search is that of the engine. -/
def descendants (state : WorkspaceState) (locationId : String) : List String :=
  (descendantsOf state locationId).map (·.id)

/-- The active items in a location or inside it. -/
def containedItems (state : WorkspaceState) (locationId : String) : List ItemRecord :=
  state.items.filter fun item =>
    item.active && (locationId :: descendants state locationId).contains item.locationId

/-- `isStorageLocation(location)`. -/
def isStorageLocation (location : Location) : Bool :=
  location.active &&
    (location.captureStatus = .counted || location.captureStatus = .knownEmpty) &&
    location.kind ≠ .area && location.kind ≠ .room

/-- `isMovableContainer(location)`. -/
def isMovableContainer (location : Location) : Bool :=
  location.kind = .bin || location.kind = .box || location.kind = .container

/-! ## 3. Scores -/

section Scores

variable [PlannerRuntime]

open PlannerRuntime

/-- `value?.trim().toLowerCase()`, where something is left. -/
def normalizedGroupingValue (value : Option String) : Option String :=
  match value with
  | none => none
  | some text =>
    let normalized := toLowerCase (trim text)
    if normalized = "" then none else some normalized

/-- `explicitCategory(item)`. -/
def explicitCategory (item : ItemRecord) : Option String :=
  let category := normalizedGroupingValue (some item.category)
  if category = some (toLowerCase defaultItemCategory) then none else category

/-- `recordsAreRelated(item, candidate)`. -/
def recordsAreRelated (item candidate : ItemRecord) : Bool :=
  let category := explicitCategory item
  let keepTogether := normalizedGroupingValue item.constraints.keepTogether
  (category.isSome && decide (explicitCategory candidate = category)) ||
    (keepTogether.isSome &&
      decide (normalizedGroupingValue candidate.constraints.keepTogether = keepTogether))

/-- `Number.isFinite(result) ? result : null`. -/
def finiteOrNull (result : JsNumber) : Option JsNumber :=
  if result.isFinite then some result else none

/-- `volume(dimensions)`. -/
def volume (dimensions : Option Dimensions) : Option JsNumber :=
  match dimensions with
  | none => none
  | some d =>
    let centimetersPerUnit := if d.unit = .inch then number (254 / 100) else 1
    finiteOrNull (mul (mul (mul d.depth d.height) d.width) (pow centimetersPerUnit 3))

/-- `itemVolume(item)`. -/
def itemVolume (item : ItemRecord) : Option JsNumber :=
  match volume item.dimensions with
  | none => none
  | some perUnit => finiteOrNull (mul perUnit item.quantity)

/-- `volumes.reduce((total, candidate) => total + (candidate ?? 0), 0)`. -/
def totalVolume (volumes : List (Option JsNumber)) : JsNumber :=
  volumes.foldl (fun total candidate => add total (candidate.getD 0)) 0

/-- `usedVolume(state, locationId)`: nothing where an item has no known size. -/
def usedVolume (state : WorkspaceState) (locationId : String) : Option JsNumber :=
  let volumes := (containedItems state locationId).map itemVolume
  if volumes.any (·.isNone) then none else finiteOrNull (totalVolume volumes)

/-- `hardFailure(item, location)`: why an item may not be there at all. -/
def hardFailure (item : ItemRecord) (location : Location) : Option String :=
  if item.constraints.avoidWarmth && location.conditions.temperature = .warm then
    some "too warm"
  else if item.constraints.avoidHumidity && location.conditions.humidity = .humid then
    some "too humid"
  else if item.constraints.foodOnly && !location.conditions.foodSafe then
    some "not marked food-safe"
  else match item.constraints.requiredTags.find? fun tag => !location.tags.contains tag with
    -- `if (missingTag)`: a missing tag without a name is not reported
    | some missingTag => if missingTag = "" then none else some s!"missing required {missingTag} tag"
    | none => none

/-- `CandidateScore`. -/
structure CandidateScore where
  hardFailure : Option String
  reasons : List String
  score : JsNumber

/-- The score of a place that is refused. -/
def CandidateScore.rejected (failure : String) : CandidateScore where
  hardFailure := some failure
  reasons := [s!"Rejected: {failure}"]
  score := .negInf

/-- A score on the way, with the reasons for it. -/
structure Tally where
  score : JsNumber
  reasons : List String

/-- `score += amount` with its reason, under a condition. -/
def Tally.bonus (tally : Tally) (condition : Bool) (amount : JsNumber) (reason : String) : Tally :=
  if condition then ⟨add tally.score amount, tally.reasons ++ [reason]⟩ else tally

/-- A reason alone, under a condition. -/
def Tally.note (tally : Tally) (condition : Bool) (reason : String) : Tally :=
  if condition then { tally with reasons := tally.reasons ++ [reason] } else tally

/-- The related records that are there already. -/
def nearbyPeers (state : WorkspaceState) (item : ItemRecord) (location : Location) : Nat :=
  (state.items.filter fun candidate =>
    candidate.id ≠ item.id && candidate.active && candidate.locationId = location.id &&
      recordsAreRelated item candidate).length

/-- What is there before the capacity is looked at. -/
def suitabilityTally (state : WorkspaceState) (item : ItemRecord) (location : Location)
    (weights : PlanWeights) : Tally :=
  let tally : Tally := ⟨mul weights.suitability 2, []⟩
  let tally := tally.bonus (item.constraints.foodOnly && location.conditions.foodSafe)
    (mul weights.suitability 2) "food-safe area"
  let tally := tally.bonus
    (item.constraints.avoidWarmth && location.conditions.temperature ≠ .warm)
    weights.suitability "avoids warm storage"
  let tally := tally.bonus
    (item.constraints.avoidHumidity && location.conditions.humidity ≠ .humid)
    weights.suitability "avoids humidity"
  let peers := nearbyPeers state item location
  let ending := plural peers
  let tally := tally.bonus (peers ≠ 0) (mul (.ofInt (Nat.min peers 4)) weights.grouping)
    s!"groups with {peers} related record{ending}"
  let depth := locationDepth state location.id
  let accessScore := (5 - depth) * item.frequency.value
  let tally : Tally := { tally with
    score := add tally.score
      (mul (mul (.ofInt accessScore) weights.accessibility) (number (1 / 4))) }
  let frequency := item.frequency.word
  tally.note (item.frequency = .daily || item.frequency = .weekly)
    s!"{frequency} access at depth {depth}"

/-- The tally with what the capacity adds; nothing where a measured capacity is too small. -/
def capacityTally (state : WorkspaceState) (item : ItemRecord) (location : Location)
    (weights : PlanWeights) (tally : Tally) : Option Tally :=
  match volume location.dimensions with
  | none => some (tally.note true "capacity is unmeasured")
  | some capacity =>
    match itemVolume item, usedVolume state location.id with
    | some candidateVolume, some occupiedVolume =>
      let alreadyCounted :=
        if (ancestors state item.locationId).contains location.id then candidateVolume else 0
      let remaining := sub (add (sub capacity occupiedVolume) alreadyCounted) candidateVolume
      if remaining.lt 0 then none
      else some (tally.bonus true
        (mul weights.capacity (JsNumber.min 3 (add 1 (div remaining (JsNumber.max capacity 1)))))
        "fits measured capacity")
    | _, _ =>
      some (tally.note true "capacity cannot be verified because some item sizes are unmeasured")

/-- The tally with what the way there costs. -/
def distanceTally (state : WorkspaceState) (item : ItemRecord) (location : Location)
    (weights : PlanWeights) (tally : Tally) : Tally :=
  let distance := moveDistance state item.locationId location.id
  let tally : Tally := { tally with
    score := sub tally.score (mul (.ofInt distance) weights.moveCost) }
  let tally := tally.note (decide (distance ≤ 2)) "short physical move"
  if location.id = item.locationId then
    { tally with score := add tally.score (mul weights.moveCost 3) }
  else tally

/-- `scoreCandidate(state, item, location, weights)`. -/
def scoreCandidate (state : WorkspaceState) (item : ItemRecord) (location : Location)
    (weights : PlanWeights) : CandidateScore :=
  match hardFailure item location with
  | some failure => .rejected failure
  | none =>
    match capacityTally state item location weights
        (suitabilityTally state item location weights) with
    | none => .rejected "not enough measured capacity"
    | some tally =>
      let tally := distanceTally state item location weights tally
      if tally.score.isFinite then
        { hardFailure := none, reasons := tally.reasons, score := tally.score }
      else .rejected "numeric capacity or priority overflow"

/-- `values.reduce((sum, value) => sum + value, 0) / values.length`. -/
def average (values : List JsNumber) : JsNumber :=
  div (values.foldl add 0) (.ofInt values.length)

/-! ## 4. Moves of containers -/

/-- The best destination of a container so far. -/
structure ContainerMove where
  destination : Location
  reasons : List String
  score : JsNumber

/-- Whether a container's items fit: `none` where they do not, else whether that is uncertain. -/
def containerFits (state : WorkspaceState) (items : List ItemRecord) (destination : Location) :
    Option Bool :=
  match volume destination.dimensions with
  | none => some false
  | some capacity =>
    let inside := destination.id :: descendants state destination.id
    let incomingVolumes :=
      (items.filter fun item => !inside.contains item.locationId).map itemVolume
    match usedVolume state destination.id with
    | none => some true
    | some occupied =>
      if incomingVolumes.any (·.isNone) then some true
      else if capacity.lt (add occupied (totalVolume incomingVolumes)) then none
      else some false

/-- What a step says where the capacity is not known. -/
def unmeasuredReason : String :=
  "capacity cannot be verified because some item sizes are unmeasured"

/-- The move of a container to one destination, if nothing in it is worse off there. -/
def containerCandidate (state : WorkspaceState) (container : Location) (items : List ItemRecord)
    (weights : PlanWeights) (destination : Location) : Option ContainerMove :=
  let currentScores := items.map fun item => (scoreCandidate state item container weights).score
  let currentAverage := average currentScores
  if (container.id :: descendants state container.id).contains destination.id ||
      some destination.id = container.parentId then none
  else
    match containerFits state items destination with
    | none => none
    | some capacityIsUncertain =>
      let scores := items.map fun item => scoreCandidate state item destination weights
      if scores.any (·.hardFailure.isSome) then none
      else if (scores.zip currentScores).any (fun (candidate, current) =>
          candidate.score.lt current) then none
      else
        let mean := average (scores.map (·.score))
        if !mean.isFinite || mean.le currentAverage then none
        else
          let savedMoves := mul (mul (.ofInt (items.length - 1 : Nat)) weights.moveCost) 2
          let combined := add mean savedMoves
          if !combined.isFinite then none
          else
            let reasons := uniq (scores.flatMap (·.reasons))
            some {
              destination
              reasons := s!"moves {items.length} item records as one physical container" ::
                ((if capacityIsUncertain then [unmeasuredReason] else []) ++
                  (reasons.filter fun reason =>
                    !capacityIsUncertain || reason ≠ unmeasuredReason).take 2)
              score := combined }

/-- The loop over the destinations: the first of the best ones. -/
def bestContainerMove (state : WorkspaceState) (container : Location) (items : List ItemRecord)
    (weights : PlanWeights) : Option ContainerMove → List Location → Option ContainerMove
  | best, [] => best
  | best, destination :: rest =>
    match containerCandidate state container items weights destination, best with
    | none, best => bestContainerMove state container items weights best rest
    | some move, none => bestContainerMove state container items weights (some move) rest
    | some move, some best =>
      bestContainerMove state container items weights
        (some (if best.score.lt move.score then move else best)) rest

/-- The number a plan shows for a score. -/
def shownScore (score : JsNumber) : JsNumber := div (round (mul score 10)) 10

/-- A container move, and the items that it covers. -/
structure ContainerSuggestion where
  covered : List String
  step : PlanStep

/-- The best move of a container, over all its candidates. -/
def containerStep (state : WorkspaceState) (container : Location) (candidates : List Location)
    (weights : PlanWeights) (stepId : String) : Option ContainerSuggestion :=
  if !isSet container.parentId then none
  else
    let items := containedItems state container.id
    if items.length < 2 then none
    else
      match bestContainerMove state container items weights none candidates with
      | none => none
      | some best =>
        let currentAverage :=
          average (items.map fun item => (scoreCandidate state item container weights).score)
        if best.score.le (add currentAverage (mul weights.moveCost 2)) then none
        else some {
          covered := items.map (·.id)
          step := {
            completedAt := none
            destinationId := best.destination.id
            explanation := best.reasons
            id := stepId
            itemId := none
            locationId := some container.id
            quantity := none
            score := shownScore best.score
            sourceId := container.parentId.getD ""
            type := .location } }

/-! ## 5. The plan -/

/-- The copy of the workspace and what is planned so far; `drawn` counts the identifiers. -/
structure Planning where
  projected : WorkspaceState
  steps : List PlanStep
  coveredItems : List String
  plannedItems : List String
  plannedInPass : Bool
  drawn : Nat

/-- What `generatePlan` has at hand throughout: the weights, the selection and `uuidV4()`. -/
structure PlanContext where
  weights : PlanWeights
  selection : Resolved
  uuid : Nat → String

/-- `newId("step")`. -/
def PlanContext.stepId (c : PlanContext) (n : Nat) : String := "step_" ++ c.uuid n

variable (c : PlanContext)

/-- A container that the selection lets move, with its place in the list of locations. -/
def PlanContext.eligible (location : Location) : Bool :=
  isMovableContainer location &&
    c.selection.canMoveLocation location.id (location.parentId.getD "") &&
    location.captureStatus = .counted && isSet location.parentId && location.active

/-- The containers to try, the fullest first. -/
def PlanContext.containers (projected : WorkspaceState) : List (Location × Nat) :=
  (projected.locations.zipIdx.filter fun (location, _) => c.eligible location).mergeSort
    fun (left, _) (right, _) =>
      (containedItems projected right.id).length ≤ (containedItems projected left.id).length

/-- `container.parentId = destinationId`, of the container at a place in the list. -/
def moveContainer (projected : WorkspaceState) (index : Nat) (destinationId : String) :
    WorkspaceState :=
  { projected with
    locations := projected.locations.modify index fun l =>
      { l with parentId := some destinationId } }

/-- The locations that the selection lets receive. -/
def PlanContext.receivers (projected : WorkspaceState) : List Location :=
  projected.locations.filter fun location =>
    isStorageLocation location && c.selection.canReceive location.id

/-- One container is tried. -/
def planContainer (p : Planning) (container : Location) (index : Nat) : Planning :=
  match containerStep p.projected container (c.receivers p.projected) c.weights
      (c.stepId p.drawn) with
  | none => p
  | some suggestion =>
    if suggestion.covered.any (p.coveredItems.contains ·) then { p with drawn := p.drawn + 1 }
    else { p with
      projected := moveContainer p.projected index suggestion.step.destinationId
      steps := p.steps ++ [suggestion.step]
      coveredItems := p.coveredItems ++ suggestion.covered
      drawn := p.drawn + 1 }

/-- The containers one after another, each over the projection of those before. -/
def planContainers (p : Planning) (containers : List (Location × Nat)) : Planning :=
  containers.foldl (fun p (container, index) => planContainer c p container index) p

/-- The places an item may go to, the best first. -/
def ranked (projected : WorkspaceState) (item : ItemRecord) : List (Location × CandidateScore) :=
  ((((c.receivers projected).filter fun location => location.id ≠ item.locationId).map
    fun location => (location, scoreCandidate projected item location c.weights)).filter
      fun candidate => candidate.2.hardFailure.isNone).mergeSort
        fun left right => right.2.score.le left.2.score

/-- The best of them, where it is worth the move. -/
def bestDestination (projected : WorkspaceState) (item : ItemRecord) :
    Option (Location × CandidateScore) :=
  match findLocation projected item.locationId with
  | none => none
  | some currentLocation =>
    let current := scoreCandidate projected item currentLocation c.weights
    match (ranked c projected item).head? with
    | none => none
    | some best =>
      if best.2.score.le (add current.score c.weights.moveCost) then none else some best

/-- The step that moves an item. -/
def itemStep (item : ItemRecord) (best : Location × CandidateScore) (id : String) : PlanStep where
  completedAt := none
  destinationId := best.1.id
  explanation := best.2.reasons
  id := id
  itemId := some item.id
  locationId := none
  quantity := some item.quantity
  score := shownScore best.2.score
  sourceId := item.locationId
  type := .item

/-- `item.locationId = destinationId`, of the item at a place in the list. -/
def moveItem (projected : WorkspaceState) (index : Nat) (destinationId : String) :
    WorkspaceState :=
  { projected with
    items := projected.items.modify index fun i => { i with locationId := destinationId } }

/-- The item may be planned. -/
def PlanContext.plannable (p : Planning) (item : ItemRecord) : Bool :=
  item.active && c.selection.canMoveItem item.id item.locationId &&
    !p.coveredItems.contains item.id && !p.plannedItems.contains item.id

/-- One item is tried. -/
def planItem (p : Planning) (index : Nat) : Planning :=
  match p.projected.items[index]? with
  | none => p
  | some item =>
    if !c.plannable p item then p
    else
      match bestDestination c p.projected item with
      | none => p
      | some best => { p with
          projected := moveItem p.projected index best.1.id
          steps := p.steps ++ [itemStep item best (c.stepId p.drawn)]
          plannedItems := p.plannedItems ++ [item.id]
          plannedInPass := true
          drawn := p.drawn + 1 }

/-- One pass over the items. -/
def planPass (p : Planning) : Planning :=
  (List.range p.projected.items.length).foldl (planItem c) { p with plannedInPass := false }

/-- Passes, until one plans nothing. -/
def planPasses : Nat → Planning → Planning
  | 0, p => p
  | fuel + 1, p =>
    let next := planPass c p
    if next.plannedInPass then planPasses fuel next else next

/-- Nothing is planned yet. -/
def startPlanning (state : WorkspaceState) : Planning where
  projected := state
  steps := []
  coveredItems := []
  plannedItems := []
  plannedInPass := true
  drawn := 0

/-- All moves. A pass plans an item that no pass planned before, so that one more pass than there
    are items is enough. -/
def planMoves (state : WorkspaceState) : Planning :=
  planPasses c (state.items.length + 1) (planContainers c (startPlanning state) (c.containers state))

/-- The options of `generatePlan`. -/
structure PlanOptions where
  name : Option String
  weights : Option PlanWeights
  selection : Option PlanSelection

/-- The options with their defaults, resolved for a state. -/
def PlanOptions.context (options : PlanOptions) (state : WorkspaceState) (uuid : Nat → String) :
    PlanContext where
  weights := options.weights.getD defaultPlanWeights
  selection := resolvePlanSelection state.household options.selection
  uuid := uuid

/-- `options.name?.trim() || …`. -/
def planName (name : Option String) (dateText : String) : String :=
  let given := trim (name.getD "")
  if given = "" then "Organization plan · " ++ dateText else given

/-- The plan; `uuid` are the results of `uuidV4()` in their order, `timestamp` is `nowIso()` and
    `dateText` its date in the words of the locale. -/
def generatePlan (state : WorkspaceState) (options : PlanOptions) (uuid : Nat → String)
    (timestamp dateText : String) : Result MovePlan :=
  match planSelectionIssue state.household options.selection with
  | some selectionIssue => .error (.domain "INVALID_PLAN_SELECTION" selectionIssue)
  | none =>
    let context := options.context state uuid
    let moves := planMoves context state
    .ok {
      createdAt := timestamp
      id := "plan_" ++ uuid moves.drawn
      name := planName options.name dateText
      selection := options.selection
      status := .active
      steps := moves.steps
      weights := context.weights }

end Scores

end Stowplan
