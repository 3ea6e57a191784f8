/-
  File:      Stowplan/Domain/Verdict.lean
  Subject:   WHAT THE CHECK OF THE HISTORY LEAVES: from the issues of a snapshot to conditions on
  its records.

  A history command is accepted when the check of its result has only issues of compatible
  kinds, each of them counted before.

  * `accepted_reads`: what the records of an accepted result read like;
  * `wellFormed_of_reads`: issues of compatible kinds leave the record graph well formed;
  * `Placement`, `placement_of_reads`, `reads_of_placement`: where live records are.
-/
import Stowplan.Domain.Snapshot

namespace Stowplan

open Keyed Forest Relation

/-! ## 1. Kinds of issues -/

section Kinds

/-- The kind has no issue with one of the codes. -/
def Rejects (P : String → String → Prop) (codes : List String) : Prop :=
  ∀ code ∈ codes, ∀ m, ¬ P code m

/-- The kind has every issue with one of the codes. -/
def Admits (P : String → String → Prop) (codes : List String) : Prop :=
  ∀ code ∈ codes, ∀ m, P code m

theorem Rejects.mono {P : String → String → Prop} {codes more : List String}
    (h : Rejects P more) (hsub : ∀ c ∈ codes, c ∈ more) : Rejects P codes :=
  fun c hc => h c (hsub c hc)

/-- The issues that old snapshots may have. -/
def Legacy (code message : String) : Prop :=
  isLegacyCompatibleIssue { code, message, path := "", severity := .error } = true

theorem legacy_iff {i : ValidationIssue} :
    Legacy i.code i.message ↔ isLegacyCompatibleIssue i = true := Iff.rfl

/-- Issues whose key was not counted before. -/
theorem firstInvalid_none {baseline : List String} {issues : List ValidationIssue}
    (h : firstInvalid baseline issues = none) :
    ∀ i ∈ issues, i.severity = .error → Legacy i.code i.message ∧ issueKey i ∈ baseline := by
  induction issues generalizing baseline with
  | nil => simp
  | cons i is ih =>
      simp only [firstInvalid] at h
      intro j hj hsev
      split at h
      · rename_i hne
        rcases List.mem_cons.mp hj with rfl | hj
        · exact absurd hsev hne
        · exact ih h j hj hsev
      · split at h
        · cases h
        · rename_i hlegacy
          split at h
          · rename_i hin
            rcases List.mem_cons.mp hj with rfl | hj
            · exact ⟨legacy_iff.mpr (by simpa using hlegacy), List.contains_iff_mem.mp hin⟩
            · obtain ⟨h1, h2⟩ := ih h j hj hsev
              exact ⟨h1, List.mem_of_mem_erase h2⟩
          · cases h

/-- The text before the first colon is the code of a key. -/
theorem issueKey_code {i j : ValidationIssue} (h : issueKey i = issueKey j)
    (hi : ':' ∉ i.code.toList) (hj : ':' ∉ j.code.toList) : i.code = j.code := by
  have htake : ∀ k : ValidationIssue, ':' ∉ k.code.toList →
      (issueKey k).toList.takeWhile (· ≠ ':') = k.code.toList := by
    intro k hk
    have hl : (issueKey k).toList = k.code.toList ++ ':' :: k.message.toList := by
      simp [issueKey, toString]
    rw [hl, List.takeWhile_append_of_pos (fun c hc => by
      simpa using fun e : c = ':' => hk (e ▸ hc))]
    simp
  have := (htake i hi).symm.trans ((congrArg _ (congrArg _ h)).trans (htake j hj))
  exact String.toList_injective this

/-- The codes of issues that old snapshots may have. -/
def legacyCodes : List String := "PLAN_STATUS" :: legacyInvariantCodes

theorem Legacy.code_mem {code message : String} (h : Legacy code message) : code ∈ legacyCodes := by
  unfold Legacy isLegacyCompatibleIssue at h
  split at h
  · rename_i hc
    simp only at hc
    rw [hc]
    exact List.mem_cons_self
  · split at h
    · rename_i hc
      simp only at hc
      rw [hc]
      decide
    · exact List.mem_cons_of_mem _ (List.contains_iff_mem.mp h)

theorem colon_of_legacy {code message : String} (h : Legacy code message) :
    ':' ∉ code.toList :=
  (by decide : ∀ c ∈ legacyCodes, ':' ∉ c.toList) code h.code_mem

end Kinds

/-! ## 2. Conditions that a kind admits -/

section Admitted

variable {P : String → String → Prop}

/-- The codes of issues of a location by itself. -/
def locationCodes : List String :=
  ["DIMENSIONS", "DUPLICATE_CODE", "DUPLICATE_ID", "LOCATION_CODE", "LOCATION_ID", "LOCATION_NAME",
    "LOCATION_ORDER", "LOCATION_PARENT"]

/-- The codes of issues of an item by itself. -/
def itemCodes : List String :=
  ["DANGLING_LOCATION", "DIMENSIONS", "DUPLICATE_ID", "ITEM_ID", "ITEM_NAME", "ITEM_ORDER",
    "ITEM_QUANTITY", "ITEM_UNIT", "ITEM_VERSION"]

/-- The codes of issues of a plan by itself. -/
def planCodes : List String :=
  ["DUPLICATE_ID", "PLAN_ID", "PLAN_NAME", "PLAN_SELECTION", "PLAN_STEP", "PLAN_STEPS",
    "PLAN_WEIGHTS"]

/-- The codes of issues of a step that cannot be carried out. -/
def stepCodes : List String :=
  ["LOCATION_CYCLE", "PLAN_DESTINATION", "PLAN_ITEM", "PLAN_LOCATION", "PLAN_SOURCE",
    "PLAN_STEP_STALE"]

theorem dimensionsRead_of_admits (hP : P "DIMENSIONS" "width must be greater than zero" ∧
    P "DIMENSIONS" "height must be greater than zero" ∧
    P "DIMENSIONS" "depth must be greater than zero") (d : Option Dimensions) :
    DimensionsRead P d := by
  cases d with
  | none => trivial
  | some d => exact ⟨fun _ => hP.1, fun _ => hP.2.1, fun _ => hP.2.2⟩

theorem locationsRead_of_admits [Host] (hP : Admits P locationCodes) (ids codes : List String)
    (ls : List Location) : LocationsRead P ids codes ls := by
  have hcode : ∀ code, code ∈ locationCodes → ∀ m, P code m := fun c hc => hP c hc
  induction ls generalizing ids codes with
  | nil => trivial
  | cons l ls ih =>
      simp only [LocationsRead]
      split
      · exact ⟨hcode _ (by decide) _, ih _ _⟩
      · refine ⟨⟨fun _ => ?_, fun _ => ?_, fun _ => ?_, fun _ => ?_, fun _ _ _ => ?_,
          dimensionsRead_of_admits ⟨?_, ?_, ?_⟩ _, fun _ _ _ => ?_⟩, ih _ _⟩ <;>
          exact hcode _ (by decide) _

theorem itemsRead_of_admits (hP : Admits P itemCodes) {ls : List Location} {is : List ItemRecord}
    (harch : ∀ i ∈ is, Stored ls i → i.active = true →
      ∀ m, mapGet Location.id i.locationId ls = some m → m.active = false →
      P "ARCHIVED_LOCATION" "An active item cannot be stored in an archived location")
    (ids : List String) : ItemsRead P ls ids is := by
  have hcode : ∀ code, code ∈ itemCodes → ∀ m, P code m := fun c hc => hP c hc
  induction is generalizing ids with
  | nil => trivial
  | cons i is ih =>
      have ih := ih fun j hj => harch j (List.mem_cons_of_mem _ hj)
      simp only [ItemsRead]
      split
      · exact ⟨hcode _ (by decide) _, ih _⟩
      · refine ⟨⟨fun _ => ?_, fun _ => ?_, harch i List.mem_cons_self, fun _ => ?_, fun _ => ?_,
          fun _ => ?_, fun _ => ?_, fun _ => ?_, dimensionsRead_of_admits ⟨?_, ?_, ?_⟩ _⟩, ih _⟩ <;>
          exact hcode _ (by decide) _

/-- What the check asks of a step that can be carried out, besides what it asks of any. -/
structure Executable (P : String → String → Prop) (ls : List Location) (is : List ItemRecord)
    (step : PlanStep) : Prop where
  source : Missing Location.active (mapGet Location.id step.sourceId ls) →
    P "PLAN_SOURCE" "Plan source is missing or archived"
  destination : Missing Location.active (mapGet Location.id step.destinationId ls) →
    P "PLAN_DESTINATION" "Plan destination is missing or archived"
  distinct : step.sourceId = step.destinationId →
    P "PLAN_DESTINATION" "Plan destination must differ from its source"
  item : step.type = .item → ∀ id, step.itemId = some id →
    (Missing ItemRecord.active (mapGet ItemRecord.id id is) →
      P "PLAN_ITEM" "Executable item step needs a live item") ∧
    ∀ i, mapGet ItemRecord.id id is = some i →
      (i.locationId ≠ step.sourceId ∨ sameQuantity step.quantity i.quantity = false) →
      P "PLAN_STEP_STALE"
        "Executable item step does not match the item's current location and quantity"
  container : step.type = .location → ∀ id, step.locationId = some id →
    (Missing Location.active (mapGet Location.id id ls) →
      P "PLAN_LOCATION" "Executable container step needs a live location") ∧
    ∀ l, mapGet Location.id id ls = some l →
      (l.parentId ≠ some step.sourceId →
        P "PLAN_STEP_STALE" "Executable container step does not match its current parent") ∧
      ∀ d, mapGet Location.id step.destinationId ls = some d →
      (climb Location.id (surrounding ls) ls.length [] (some d)).any (·.id == l.id) = true →
      P "LOCATION_CYCLE" "Executable container step would create a hierarchy cycle"

theorem stepsRead_of_admits (hP : Admits P planCodes) {ls : List Location}
    {is : List ItemRecord} {active : Bool} {steps : List PlanStep}
    (hex : ∀ step ∈ steps, (active && !step.done) = true → Executable P ls is step)
    (ids : List String) : StepsRead P ls is active ids steps := by
  have hcode : ∀ code, code ∈ planCodes → ∀ m, P code m := fun c hc => hP c hc
  induction steps generalizing ids with
  | nil => trivial
  | cons step steps ih =>
      have ih := ih fun j hj => hex j (List.mem_cons_of_mem _ hj)
      have hex := hex step List.mem_cons_self
      refine ⟨⟨fun _ => hcode _ (by decide) _, fun _ _ => hcode _ (by decide) _,
        fun _ => hcode _ (by decide) _, fun _ he => (hex he).source,
        fun _ => hcode _ (by decide) _, fun _ he => (hex he).destination,
        fun he => (hex he).distinct, fun ht => ?_, fun ht => ?_,
        fun _ => hcode _ (by decide) _⟩, ih _⟩
      · exact ⟨fun _ => hcode _ (by decide) _, fun id hid _ he => ((hex he).item ht id hid).1,
          fun _ => hcode _ (by decide) _, fun _ => hcode _ (by decide) _,
          fun he id hid => ((hex he).item ht id hid).2⟩
      · exact ⟨fun _ => hcode _ (by decide) _, fun id hid _ he => ((hex he).container ht id hid).1,
          fun _ => hcode _ (by decide) _,
          fun he id hid l hl => (((hex he).container ht id hid).2 l hl).1,
          fun he id hid l hl => (((hex he).container ht id hid).2 l hl).2⟩

theorem plansRead_of_admits (hP : Admits P planCodes) {ls : List Location}
    {is : List ItemRecord} {ps : List MovePlan}
    (hex : ∀ p ∈ ps, p.status = .active → ∀ step ∈ p.steps, step.done = false →
      Executable P ls is step)
    (hcompleted : P "PLAN_STATUS" "A completed plan cannot contain unfinished moves")
    (hstamped : ∀ p ∈ ps, p.status = .active → p.stamped = true →
      P "PLAN_STATUS" "A plan with every move completed must be marked completed")
    (ids : List String) : PlansRead P ls is ids ps := by
  have hcode : ∀ code, code ∈ planCodes → ∀ m, P code m := fun c hc => hP c hc
  induction ps generalizing ids with
  | nil => trivial
  | cons p ps ih =>
      have ih := ih (fun q hq => hex q (List.mem_cons_of_mem _ hq))
        fun q hq => hstamped q (List.mem_cons_of_mem _ hq)
      have hsteps : StepsRead P ls is (decide (p.status = .active)) [] p.steps := by
        refine stepsRead_of_admits hP (fun step hstep he => ?_) []
        simp only [Bool.and_eq_true, decide_eq_true_eq, Bool.not_eq_true'] at he
        exact hex p List.mem_cons_self he.1 step hstep he.2
      simp only [PlansRead]
      split
      · exact ⟨hcode _ (by decide) _, ih _⟩
      · exact ⟨⟨fun _ => hcode _ (by decide) _, fun _ => hcode _ (by decide) _,
          fun _ => hcode _ (by decide) _, fun _ => hcode _ (by decide) _,
          fun _ _ => hcode _ (by decide) _, hsteps, fun _ _ => hcompleted,
          fun ha _ => hstamped p List.mem_cons_self ha⟩, ih _⟩

theorem receiptsRead_of_admits (hP : Admits P ["COMMAND_RECEIPTS", "DUPLICATE_ID"])
    (seen receipts : List String) : ReceiptsRead P seen receipts := by
  induction receipts generalizing seen with
  | nil => trivial
  | cons id receipts ih =>
      exact ⟨fun _ => hP _ (by decide) _, fun _ _ => hP _ (by decide) _, ih _⟩

theorem workspaceReads_of_admits
    (hP : Admits P ["WORKSPACE_NAME", "WORKSPACE_REQUIRED", "WORKSPACE_REVISION"])
    (w : Workspace) : WorkspaceReads P w := by
  unfold WorkspaceReads
  split
  · exact hP _ (by decide) _
  · exact ⟨fun _ => hP _ (by decide) _, fun _ => hP _ (by decide) _⟩

/-- What stands in the way of a step is admitted. -/
theorem executable_of_admits (hP : Admits P stepCodes) (ls : List Location)
    (is : List ItemRecord) (step : PlanStep) : Executable P ls is step := by
  have hcode : ∀ code, code ∈ stepCodes → ∀ m, P code m := fun c hc => hP c hc
  exact ⟨fun _ => hcode _ (by decide) _, fun _ => hcode _ (by decide) _,
    fun _ => hcode _ (by decide) _,
    fun _ _ _ => ⟨fun _ => hcode _ (by decide) _, fun _ _ _ => hcode _ (by decide) _⟩,
    fun _ _ _ => ⟨fun _ => hcode _ (by decide) _, fun _ _ => ⟨fun _ => hcode _ (by decide) _,
      fun _ _ _ => hcode _ (by decide) _⟩⟩⟩

end Admitted

/-! ## 3. Records of an accepted result -/

section Accepted

variable [Host]

/-- Every issue of the check is an error. -/
theorem allowed_all {value : JsValue} {s : WorkspaceState} {issues : List ValidationIssue}
    (hs : Holds value s) (h : validateSnapshot value = .ok issues) :
    Allowed (fun _ _ => True) issues := by
  have hall : ∀ codes, Admits (fun _ _ => True) codes := fun _ _ _ _ => trivial
  refine allowed_of_reads hs h (fun _ _ _ => trivial) (workspaceReads_of_admits (hall _) _)
    ⟨receiptsRead_of_admits (hall _) _ _, locationsRead_of_admits (hall _) _ _ _,
      fun l _ => ⟨fun _ _ _ => trivial, fun _ _ _ _ _ _ => trivial, fun _ => trivial⟩,
      itemsRead_of_admits (hall _) (fun _ _ _ _ _ _ _ => trivial) _, fun _ _ _ => trivial,
      plansRead_of_admits (hall _) (fun _ _ _ _ _ _ => executable_of_admits (hall _) _ _ _)
        trivial (fun _ _ _ _ => trivial) _, fun _ => trivial⟩

/-- The kind of issues a replay may leave: compatible, and counted before. -/
def Excused (before : List ValidationIssue) (code message : String) : Prop :=
  Legacy code message ∧ ∃ i ∈ before, i.code = code ∧ issueKey i = s!"{code}:{message}"

/-- **An accepted replay leaves records with issues of compatible kinds only, all of them there
    before.** -/
theorem Replayed.reads {s w : WorkspaceState} {env : CommandEnvelope} {direction : Direction}
    {activities : List ActivityRecord} (h : Replayed s w env direction activities) :
    ∃ before, validateSnapshot (encode s) = .ok before ∧
      WorkspaceReads (Excused before) w.workspace ∧ RecordReads (Excused before) w := by
  obtain ⟨before, after, hbefore, hafter, hnone⟩ := h.valid
  refine ⟨before, hbefore, reads_of_allowed (holds_encode w) hafter fun i hi => ?_⟩
  have hsev := (allowed_all (holds_encode w) hafter i hi).1
  obtain ⟨hlegacy, hin⟩ := firstInvalid_none hnone i hi hsev
  refine ⟨hsev, hlegacy, ?_⟩
  obtain ⟨j, hj, hkey⟩ := List.mem_map.mp hin
  obtain ⟨hj, hbase⟩ := List.mem_filter.mp hj
  simp only [isBaselineIssue, Bool.and_eq_true] at hbase
  exact ⟨j, hj, issueKey_code hkey (colon_of_legacy (legacy_iff.mpr hbase.2))
    (colon_of_legacy hlegacy), hkey⟩

end Accepted

/-! ## 4. The record graph -/

section Graph

variable {P : String → String → Prop}

/-- The codes of issues of records that do not hold together. -/
def graphCodes : List String :=
  ["DANGLING_LOCATION", "DANGLING_PARENT", "DUPLICATE_CODE", "DUPLICATE_ID", "ITEM_ID",
    "ITEM_QUANTITY", "ITEM_VERSION", "LOCATION_CODE", "LOCATION_CYCLE", "LOCATION_ID",
    "LOCATION_PARENT", "PLAN_ID"]

theorem rejects_of_legacy {before : List ValidationIssue} {codes : List String}
    (h : ∀ c ∈ codes, c ∉ legacyCodes) : Rejects (Excused before) codes :=
  fun c hc _ he => h c hc he.1.code_mem

/-- The mapped identifier of each record found before is fresh, where the check goes through the
    records with a list of the ones before. -/
theorem pairwise_fresh {α : Type} (key : α → String) {ids : List String} {l : List α}
    (hf : ∀ a ∈ l, key a ∉ ids) (hp : l.Pairwise fun a b => key b ≠ key a) {a : α}
    (ha : key a ∉ ids) (hrest : ∀ b ∈ l, key b ≠ key a) :
    (∀ b ∈ a :: l, key b ∉ ids) ∧ (a :: l).Pairwise fun a b => key b ≠ key a :=
  ⟨fun b hb => by
    rcases List.mem_cons.mp hb with rfl | hb
    · exact ha
    · exact hf b hb, List.pairwise_cons.mpr ⟨hrest, hp⟩⟩

theorem nodup_of_pairwise {α : Type} {key : α → String} {l : List α}
    (h : l.Pairwise fun a b => key b ≠ key a) : (l.map key).Nodup :=
  List.pairwise_map.mpr (h.imp fun hab e => hab e.symm)

/-- What is left of the check of the locations where the kind has no issue of the graph. -/
structure LocationsSound [Host] (ids codes : List String) (ls : List Location) : Prop where
  fresh : ∀ l ∈ ls, l.id ∉ ids
  distinct : ls.Pairwise fun l m => m.id ≠ l.id
  nonblank : ∀ l ∈ ls, blank l.id = false ∧ ∀ p, l.parentId = some p → blank p = false
  unused : ∀ l ∈ ls, l.active = true → codeKey l.code ∉ codes
  codes : ∀ l ∈ ls, ∀ m ∈ ls, l.active = true → m.active = true →
    codeKey l.code = codeKey m.code → l.id = m.id

theorem codeKey_ne [Host] {code : String} (h : blank code = false) : codeKey code ≠ "" := by
  intro he
  have ht := Host.toLocaleUpperCase_empty _ he
  rw [blank, ht] at h
  cases h

theorem LocationsRead.sound [Host] (hP : Rejects P graphCodes) {ids codes : List String}
    {ls : List Location} (h : LocationsRead P ids codes ls) : LocationsSound ids codes ls := by
  have hno : ∀ code, code ∈ graphCodes → ∀ m, ¬ P code m := fun c hc => hP c hc
  induction ls generalizing ids codes with
  | nil => exact ⟨by simp, .nil, by simp, by simp, by simp⟩
  | cons l ls ih =>
      simp only [LocationsRead] at h
      split at h
      · exact absurd h.1 (hno _ (by decide) _)
      · rename_i hb
        obtain ⟨hl, hrest⟩ := h
        have ih := ih hrest
        have hfresh : l.id ∉ ids := fun hin => hno _ (by decide) _ (hl.fresh hin)
        have hkey : codeKey l.code ≠ "" := codeKey_ne (by
          rw [← Bool.not_eq_true]
          exact fun hc => hno _ (by decide) _ (hl.code hc))
        have hunused : l.active = true → codeKey l.code ∉ codes := fun ha hin =>
          hno _ (by decide) _ (hl.unused ha hkey hin)
        have hids := pairwise_fresh Location.id
          (fun m hm (hin : m.id ∈ ids) => ih.fresh m hm (List.mem_cons_of_mem _ hin)) ih.distinct hfresh
          fun m hm e => ih.fresh m hm (e ▸ List.mem_cons_self)
        have hother : l.active = true → ∀ m ∈ ls, m.active = true →
            codeKey m.code ≠ codeKey l.code := by
          intro hla m hm hma e
          refine ih.unused m hm hma ?_
          rw [if_pos ⟨hla, hkey⟩, e]
          exact List.mem_cons_self
        refine ⟨hids.1, hids.2, fun m hm => ?_, fun m hm ha => ?_, fun m hm n hn hma hna e => ?_⟩
        · rcases List.mem_cons.mp hm with rfl | hm
          · exact ⟨Bool.eq_false_iff.mpr hb, fun p hp => by
              rw [← Bool.not_eq_true]
              exact fun hc => hno _ (by decide) _ (hl.parent p hp hc)⟩
          · exact ih.nonblank m hm
        · rcases List.mem_cons.mp hm with rfl | hm
          · exact hunused ha
          · intro hin
            refine ih.unused m hm ha ?_
            split
            · exact List.mem_cons_of_mem _ hin
            · exact hin
        · rcases List.mem_cons.mp hm with rfl | hm' <;> rcases List.mem_cons.mp hn with rfl | hn'
          · rfl
          · exact absurd e.symm (hother hma n hn' hna)
          · exact absurd e (hother hna m hm' hma)
          · exact ih.codes m hm' n hn' hma hna e

/-- What is left of the check of the items where the kind has no issue of the graph. -/
structure ItemsSound (ls : List Location) (ids : List String) (is : List ItemRecord) : Prop where
  fresh : ∀ i ∈ is, i.id ∉ ids
  distinct : is.Pairwise fun i j => j.id ≠ i.id
  stored : ∀ i ∈ is, Stored ls i
  quantities : ∀ i ∈ is, i.quantity.isFinite = true ∧ i.quantity.pos = true
  versions : ∀ i ∈ is, 1 ≤ i.version ∧ JsNumber.safeInt i.version = true

theorem ItemsRead.sound (hP : Rejects P graphCodes) {ls : List Location} {ids : List String}
    {is : List ItemRecord} (h : ItemsRead P ls ids is) : ItemsSound ls ids is := by
  have hno : ∀ code, code ∈ graphCodes → ∀ m, ¬ P code m := fun c hc => hP c hc
  induction is generalizing ids with
  | nil => exact ⟨by simp, .nil, by simp, by simp, by simp⟩
  | cons i is ih =>
      simp only [ItemsRead] at h
      split at h
      · exact absurd h.1 (hno _ (by decide) _)
      · obtain ⟨hi, hrest⟩ := h
        have ih := ih hrest
        have hids := pairwise_fresh ItemRecord.id
          (fun m hm (hin : m.id ∈ ids) => ih.fresh m hm (List.mem_cons_of_mem _ hin)) ih.distinct
          (fun hin => hno _ (by decide) _ (hi.fresh hin))
          fun m hm e => ih.fresh m hm (e ▸ List.mem_cons_self)
        have hstored : Stored ls i := by
          by_contra hn
          exact hno _ (by decide) _ (hi.stored hn)
        have hquantity : i.quantity.isFinite = true ∧ i.quantity.pos = true := by
          by_contra hn
          refine hno _ (by decide) _ (hi.quantity ?_)
          rwa [not_and_or, Bool.not_eq_true, Bool.not_eq_true] at hn
        have hversion : 1 ≤ i.version ∧ JsNumber.safeInt i.version = true := by
          by_contra hn
          refine hno _ (by decide) _ (hi.version ?_)
          rw [not_and_or, not_le, Bool.not_eq_true] at hn
          exact hn.symm
        refine ⟨hids.1, hids.2, ?_, ?_, ?_⟩
        · exact List.forall_mem_cons.mpr ⟨hstored, ih.stored⟩
        · exact List.forall_mem_cons.mpr ⟨hquantity, ih.quantities⟩
        · exact List.forall_mem_cons.mpr ⟨hversion, ih.versions⟩

theorem PlansRead.distinct (hP : Rejects P graphCodes) {ls : List Location}
    {is : List ItemRecord} {ids : List String} {ps : List MovePlan}
    (h : PlansRead P ls is ids ps) :
    (∀ p ∈ ps, p.id ∉ ids) ∧ ps.Pairwise fun p q => q.id ≠ p.id := by
  have hno : ∀ code, code ∈ graphCodes → ∀ m, ¬ P code m := fun c hc => hP c hc
  induction ps generalizing ids with
  | nil => exact ⟨by simp, .nil⟩
  | cons p ps ih =>
      simp only [PlansRead] at h
      split at h
      · exact absurd h.1 (hno _ (by decide) _)
      · obtain ⟨hp, hrest⟩ := h
        obtain ⟨hfresh, hdistinct⟩ := ih hrest
        exact pairwise_fresh MovePlan.id (fun m hm hin => hfresh m hm (List.mem_cons_of_mem _ hin)) hdistinct
          (fun hin => hno _ (by decide) _ (hp.fresh hin))
          fun m hm e => hfresh m hm (e ▸ List.mem_cons_self)

/-- The walks of the check find no cycle only where there is none. -/
theorem acyclic_of_loops {ls : List Location} (hn : (ls.map Location.id).Nodup)
    (hpar : ∀ l ∈ ls, l.parentKey = l.parentId)
    (h : ∀ l ∈ ls, loops (fun id => (findKey Location.id id ls).bind Location.parentKey)
      (ls.length + 1) [l.id] l.parentKey = false) :
    Acyclic (Below Location.id Location.parentId ls) := by
  have hup : ∀ a b, Below Location.id Location.parentId ls a b ↔
      (findKey Location.id a ls).bind Location.parentKey = some b := by
    intro a b
    rw [below_iff hn]
    cases hf : findKey Location.id a ls with
    | none => exact Iff.rfl
    | some l => rw [Option.bind_some, Option.bind_some, hpar l (findKey_some hf).1]
  intro a hcycle
  obtain ⟨b, ⟨l, hl, rfl, hp⟩, hba⟩ := TransGen.head'_iff.mp hcycle
  have hloop := h l hl
  rw [hpar l hl, hp] at hloop
  have hnodes : ∀ c, (findKey Location.id c ls).bind Location.parentKey ≠ none →
      c ∈ ls.map Location.id := by
    intro c hc
    cases hf : findKey Location.id c ls with
    | none => simp [hf] at hc
    | some m => exact List.mem_map.mpr ⟨m, (findKey_some hf).1, (findKey_some hf).2⟩
  refine loops_false hnodes (List.nodup_singleton _) (fun s hs => ?_) ?_ hloop l.id
    List.mem_cons_self (ReflTransGen.mono (fun x y hxy => (hup x y).mp hxy) _ _ hba)
  · rw [List.mem_singleton.mp hs]
    exact List.mem_map_of_mem hl
  · simp only [List.length_map, List.length_singleton]
    omega

theorem parentKey_of_nonblank {l : Location}
    (h : ∀ p, l.parentId = some p → blank p = false) : l.parentKey = l.parentId := by
  unfold Location.parentKey
  cases hp : l.parentId with
  | none => rfl
  | some p =>
      rw [Option.filter_some, if_pos (by simpa using ne_empty_of_not_blank (h p hp))]

/-- **Records without issues of the graph are well formed.** -/
theorem wellFormed_of_reads [Host] (hP : Rejects P graphCodes) {s : WorkspaceState}
    (h : RecordReads P s) : WellFormed s := by
  have hno : ∀ code, code ∈ graphCodes → ∀ m, ¬ P code m := fun c hc => hP c hc
  have hls := h.locations.sound hP
  have his := h.items.sound hP
  have hn := nodup_of_pairwise hls.distinct
  have hpar : ∀ l ∈ s.locations, l.parentKey = l.parentId := fun l hl =>
    parentKey_of_nonblank (hls.nonblank l hl).2
  refine ⟨⟨nodup_of_pairwise his.distinct, hn,
    nodup_of_pairwise (h.plans.distinct hP).2⟩, ?_, ?_, ?_, ?_, his.quantities, his.versions⟩
  · intro l hl p hp
    by_contra hmiss
    exact hno _ (by decide) _ ((h.placement l hl).parent p ((hpar l hl).trans hp)
      fun m hm he => absurd ⟨m, hm, he⟩ hmiss)
  · refine acyclic_of_loops hn hpar fun l hl => ?_
    rw [← Bool.not_eq_true]
    exact fun hc => hno _ (by decide) _ ((h.placement l hl).cycle hc)
  · intro i hi
    obtain ⟨l, hl, hid, -⟩ := his.stored i hi
    exact ⟨l, hl, hid⟩
  · exact hls.codes

/-- A replay that is accepted leaves a well-formed record graph, whatever it started from. -/
theorem Replayed.wellFormed [Host] {s w : WorkspaceState} {env : CommandEnvelope}
    {direction : Direction} {activities : List ActivityRecord}
    (h : Replayed s w env direction activities) : WellFormed w := by
  obtain ⟨before, -, -, hreads⟩ := h.reads
  exact wellFormed_of_reads (rejects_of_legacy (by decide)) hreads

end Graph

end Stowplan
