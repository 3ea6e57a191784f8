/-
  File:      Stowplan/Domain/RecordGraph.lean
  Subject:   THE RECORD GRAPH OVER ALL RUNS: every accepted command keeps it well formed.

  A command that changes records has an effect, and every effect keeps the graph; a history
  command is accepted only when the snapshot check finds nothing wrong with the graph.

  * `applyCommand_cases`: an accepted command made an effect, or a replay that the check passed;
  * `applyCommand_wellFormed`: the invariant, step by step and over every run.
-/
import Stowplan.Domain.Verdict
import Stowplan.Lib.Outcome

namespace Stowplan

open Keyed Forest Relation

section Engine

variable [Host]

/-! ## 1. One command -/

/-- Only the records matter to the graph. -/
theorem WellFormed.of_recorded {s t : WorkspaceState} (hw : WellFormed s) (h : Recorded s t) :
    WellFormed t := by
  refine hw.of_plans h.items h.locations ?_
  rw [h.plans]
  exact hw.unique.plans

/-- An accepted command carries its effect out. -/
theorem applyNormalCommand_ok {s : WorkspaceState} {env : CommandEnvelope} {r : CommandResult}
    (hw : WellFormed s) (h : applyNormalCommand s env = .ok r) :
    ∃ change t, normalPatches s env = .ok change ∧ Describes s change.patches t ∧
      Effect s env.timestamp t ∧ r.state = { t with
        activities := t.activities ++ [activityOf env change]
        workspace := { t.workspace with
          revision := t.workspace.revision + 1
          updatedAt := env.timestamp } } := by
  simp only [applyNormalCommand, result_bind_ok, result_pure_ok] at h
  obtain ⟨change, hchange, t, ht, rfl⟩ := h
  obtain ⟨u, hyields, heffect⟩ := normal_effect hw.unique.records hchange
  have hu := hyields.described hw.tidy
  obtain rfl : u = t := Except.ok.inj ((applyPatches_of_describes hw.unique hu).symm.trans ht)
  exact ⟨change, u, hchange, hu, heffect, rfl⟩

/-- An accepted command on a well-formed state made an effect or a replay. -/
theorem applyCommand_cases {s : WorkspaceState} {env : CommandEnvelope} {r : CommandResult}
    (hw : WellFormed s) (h : applyCommand s env = .ok r) :
    (∃ t, Effect s env.timestamp t ∧ Recorded t r.state) ∨
      ∃ w direction activities, Replayed s w (normalizeCommandEnvelope env) direction activities ∧
        Recorded w r.state := by
  obtain ⟨-, ⟨-, h⟩ | ⟨-, type, activities, -, hmem, h⟩⟩ := applyCommand_ok h
  · obtain ⟨change, t, -, -, heffect, he⟩ := applyNormalCommand_ok hw h
    refine .inl ⟨t, heffect, ?_⟩
    rw [he]
    exact ⟨rfl, rfl, rfl⟩
  · obtain ⟨w, hw, hr⟩ := applyHistoryAction_ok h hmem
    exact .inr ⟨w, _, activities, hw, hr⟩

/-- A new workspace is well formed. -/
theorem wellFormed_empty (uuid name timestamp : String) :
    WellFormed (createEmptyState uuid name timestamp) := by
  have hn : ∀ {α : Type} {a : α} {X : Prop}, a ∈ ([] : List α) → X :=
    fun h => absurd h List.not_mem_nil
  refine ⟨⟨List.nodup_nil, List.nodup_nil, List.nodup_nil⟩, fun _ h => hn h, ?_, fun _ h => hn h,
    fun _ h => hn h, fun _ h => hn h, fun _ h => hn h⟩
  intro a h
  obtain ⟨l, hl, _⟩ := exists_of_below h
  exact hn hl

/-- One accepted command keeps the graph. -/
theorem step_wellFormed {s t : WorkspaceState} {env : CommandEnvelope} (hw : WellFormed s)
    (h : engine.step s env t) : WellFormed t := by
  obtain ⟨r, hr, rfl⟩ := h
  rcases applyCommand_cases hw hr with ⟨u, heffect, hrec⟩ | ⟨u, _, _, hreplay, hrec⟩
  · exact (effect_wellFormed hw heffect).of_recorded hrec
  · exact hreplay.wellFormed.of_recorded hrec

/-- So is every workspace that commands lead to. -/
theorem reachable_wellFormed {s : WorkspaceState} (h : engine.Reachable s) : WellFormed s :=
  h.invariant (fun s => by rintro ⟨uuid, name, timestamp, rfl⟩; exact wellFormed_empty _ _ _)
    fun _ _ _ => step_wellFormed

/-! ## 2. Every run -/

/-- **The record graph.** Every command the engine accepts on a well-formed workspace leaves it
    well formed; so every workspace reached from an empty one is. -/
theorem applyCommand_wellFormed :
    (∀ (s : WorkspaceState) (env : CommandEnvelope) (r : CommandResult), WellFormed s →
      applyCommand s env = .ok r → WellFormed r.state) ∧
    ∀ s, engine.Reachable s → WellFormed s :=
  ⟨fun _ _ r hw h => step_wellFormed hw ⟨r, h, rfl⟩, fun _ => reachable_wellFormed⟩

end Engine

/-! ## 3. A first command -/

/-- An empty workspace. -/
def firstState : WorkspaceState := createEmptyState "1" "Home" "2024-01-01T00:00:00.000Z"

/-- A command to that workspace. -/
def firstEnvelope (id : String) (command : Command) : CommandEnvelope where
  actorId := "user"
  baseRevision := 0
  command := command
  deviceId := "phone"
  id := id
  expectations := []
  timestamp := "2024-01-02T00:00:00.000Z"
  workspaceId := "ws_1"

/-! ## 4. Two boxes -/

/-- A location with no features. -/
def plainLocation (id name code : String) (parentId : Option String) : Location where
  archivedAt := none
  captureStatus := .uncounted
  code := code
  conditions := {
    dark := false
    dry := true
    foodSafe := true
    humidity := .normal
    temperature := .normal }
  createdAt := "2024-01-01T00:00:00.000Z"
  description := ""
  dimensions := none
  id := id
  kind := .box
  name := name
  order := 0
  parentId := parentId
  tags := []
  updatedAt := "2024-01-01T00:00:00.000Z"

/-- An item with no features. -/
def plainItem (id name locationId : String) : ItemRecord where
  archivedAt := none
  category := ""
  constraints := {
    avoidHumidity := false
    avoidWarmth := false
    foodOnly := false
    keepTogether := none
    requiredTags := [] }
  createdAt := "2024-01-01T00:00:00.000Z"
  description := ""
  dimensions := none
  frequency := .monthly
  id := id
  locationId := locationId
  name := name
  order := 0
  quantity := 1
  tags := []
  unit := "piece"
  updatedAt := "2024-01-01T00:00:00.000Z"
  version := 1

/-- Three lamps in the left box, and one like them in the right. -/
def boxesState : WorkspaceState := { firstState with
  locations := [plainLocation "A" "Left box" "L1" none, plainLocation "B" "Right box" "R1" none]
  items := [{ plainItem "i1" "Lamp" "A" with quantity := 3 }, plainItem "i2" "Lamp" "B"] }

theorem boxesState_wellFormed : @WellFormed asciiHost boxesState := by
  let : Host := asciiHost
  refine ⟨⟨by decide +kernel, by decide +kernel, List.nodup_nil⟩, ?_, ?_, ?_, ?_, ?_, ?_⟩
  · intro l hl p hp
    rcases List.mem_pair.mp hl with rfl | rfl <;> cases hp
  · intro a ha
    obtain ⟨_, ⟨l, hl, -, hp⟩, -⟩ := TransGen.head'_iff.mp ha
    rcases List.mem_pair.mp hl with rfl | rfl <;> cases hp
  · intro i hi
    rcases List.mem_pair.mp hi with rfl | rfl
    · exact ⟨_, List.mem_cons_self, rfl⟩
    · exact ⟨_, List.mem_cons_of_mem _ List.mem_cons_self, rfl⟩
  · intro l hl m hm _ _ hcode
    have hne : codeKey "L1" ≠ codeKey "R1" := by decide +kernel
    rcases List.mem_pair.mp hl with rfl | rfl <;> rcases List.mem_pair.mp hm with rfl | rfl
    · rfl
    · exact absurd hcode hne
    · exact absurd hcode.symm hne
    · rfl
  · intro i hi
    rcases List.mem_pair.mp hi with rfl | rfl <;> decide +kernel
  · intro i hi
    rcases List.mem_pair.mp hi with rfl | rfl <;> decide +kernel

/-- Two of the three lamps go to the right box, where there is one like them. -/
def moveLamps : CommandEnvelope := firstEnvelope "c1" (.itemMove "B" "i1" 2 false)

/-- The move is taken back. -/
def undoLamps : CommandEnvelope := firstEnvelope "c3" (.historyUndo "activity_c1")

theorem lamps_moved_back :
    (@applyCommand asciiHost boxesState moveLamps >>= fun r =>
      @applyCommand asciiHost r.state undoLamps).isOk = true := by
  decide +kernel

/-- Two of three lamps join the one in the right box, and the move is undone. -/
theorem applyCommand_wellFormed_lamps : ∃ r q : CommandResult,
    @applyCommand asciiHost boxesState moveLamps = .ok r ∧
    @applyCommand asciiHost r.state undoLamps = .ok q ∧
    @WellFormed asciiHost r.state ∧ @WellFormed asciiHost q.state := by
  let : Host := asciiHost
  obtain ⟨q, hq⟩ := exists_of_isOk lamps_moved_back
  simp only [result_bind_ok] at hq
  obtain ⟨r, hr, hq⟩ := hq
  have hmoved := applyCommand_wellFormed.1 boxesState moveLamps r boxesState_wellFormed hr
  exact ⟨r, q, hr, hq, hmoved, applyCommand_wellFormed.1 r.state undoLamps q hmoved hq⟩

end Stowplan
