/-
  File:      Stowplan/Domain/Placement.lean
  Subject:   WHERE LIVE RECORDS ARE: never inside an archived location, never inside one that is
  marked empty.

  An active record needs the location it is in to be live: there, active, and not marked empty.
  `Sheltered` says so of every active record; where identifiers of items and locations differ and
  their references resolve, it is the placement condition. Each effect is an update after which
  the locations that were live for someone are live still, followed by setting in progress the
  empty locations that were entered.

  * `Placement.sheltered`, `Sheltered.placement`: the condition by locations, and by records;
  * `effect_sheltered`: every effect keeps it;
  * `Replayed.placement`: so does every accepted replay;
  * `applyCommand_placement`: the invariant, step by step and over every run.
-/
import Stowplan.Domain.RecordGraph

namespace Stowplan

open Keyed Forest Relation

/-- No active record is inside an archived location or one that is marked empty. -/
structure Placement (s : WorkspaceState) : Prop where
  /-- no active location has an archived parent -/
  parents : ∀ l ∈ s.locations, l.active = true → ∀ p, l.parentId = some p →
    ∀ m ∈ s.locations, m.id = p → m.active = true
  /-- no active item is in an archived location -/
  items : ∀ i ∈ s.items, i.active = true → ∀ l ∈ s.locations, l.id = i.locationId →
    l.active = true
  /-- no location marked empty has an active item or an active child -/
  emptied : ∀ l ∈ s.locations, Emptied s.items s.locations l

/-! ## 1. Live locations -/

/-- There is an active location with the identifier that is not marked empty. -/
def Live (s : WorkspaceState) (id : String) : Prop :=
  ∃ l, findLocation s id = some l ∧ l.active = true ∧ l.captureStatus ≠ .knownEmpty

/-- Every active record is inside a location with the property. -/
structure Contained (s : WorkspaceState) (L : String → Prop) : Prop where
  items : ∀ i ∈ s.items, i.active = true → L i.locationId
  locations : ∀ l ∈ s.locations, l.active = true → ∀ p, l.parentId = some p → L p

/-- Every active record is inside a live location. -/
def Sheltered (s : WorkspaceState) : Prop := Contained s (Live s)

/-- What is contained in some places is contained in more. -/
theorem Contained.mono {s : WorkspaceState} {L M : String → Prop} (h : Contained s L)
    (hLM : ∀ c, L c → M c) : Contained s M :=
  ⟨fun i hi ha => hLM _ (h.items i hi ha), fun l hl ha p hp => hLM _ (h.locations l hl ha p hp)⟩

/-- Only the records matter. -/
theorem Contained.of_records {s t : WorkspaceState} {L : String → Prop} (h : Contained s L)
    (hitems : t.items = s.items) (hlocs : t.locations = s.locations) : Contained t L := by
  refine ⟨?_, ?_⟩
  · rw [hitems]
    exact h.items
  · rw [hlocs]
    exact h.locations

theorem Live.of_locations {s t : WorkspaceState} {c : String} (h : Live s c)
    (hlocs : t.locations = s.locations) : Live t c := by
  obtain ⟨l, hl, hrest⟩ := h
  refine ⟨l, ?_, hrest⟩
  unfold findLocation
  rw [hlocs]
  exact hl

theorem Sheltered.of_records {s t : WorkspaceState} (h : Sheltered s)
    (hitems : t.items = s.items) (hlocs : t.locations = s.locations) : Sheltered t :=
  (Contained.of_records h hitems hlocs).mono fun _ hc => hc.of_locations hlocs

section Placed

variable {s : WorkspaceState}

/-- **The placement condition, said of the records**, where every reference resolves. -/
theorem Placement.sheltered (hanch : Anchored s) (h : Placement s) : Sheltered s := by
  have hlive : ∀ l ∈ s.locations, l.active = true → (∀ (_ : Emptied s.items s.locations l),
      l.captureStatus ≠ .knownEmpty) → Live s l.id := fun l hl ha hne =>
    ⟨l, hanch.records.findLocation hl, ha, hne (h.emptied l hl)⟩
  refine ⟨fun i hi ha => ?_, fun l hl ha p hp => ?_⟩
  · obtain ⟨l, hl, hid⟩ := hanch.stored i hi
    rw [← hid]
    refine hlive l hl (h.items i hi ha l hl hid) fun he hc => ?_
    rw [(he hc).1 i hi hid.symm] at ha
    cases ha
  · obtain ⟨m, hm, rfl⟩ := hanch.parents l hl p hp
    refine hlive m hm (h.parents l hl ha _ hp m hm rfl) fun he hc => ?_
    rw [(he hc).2 l hl hp] at ha
    cases ha

/-- Records inside live locations are in their place, where no two records share an identifier. -/
theorem Sheltered.placement (hr : UniqueRecords s) (h : Sheltered s) : Placement s := by
  have hfind : ∀ l ∈ s.locations, Live s l.id →
      l.active = true ∧ l.captureStatus ≠ .knownEmpty := by
    rintro l hl ⟨m, hm, hrest⟩
    rw [hr.findLocation hl] at hm
    cases hm
    exact hrest
  refine ⟨fun l hl ha p hp m hm he => ?_, fun i hi ha l hl he => ?_, fun l hl hc => ⟨?_, ?_⟩⟩
  · exact (hfind m hm (he ▸ h.locations l hl ha p hp)).1
  · exact (hfind l hl (he ▸ h.items i hi ha)).1
  · intro i hi hid
    rw [← Bool.not_eq_true]
    exact fun ha => (hfind l hl (hid ▸ h.items i hi ha)).2 hc
  · intro m hm hp
    rw [← Bool.not_eq_true]
    exact fun ha => (hfind l hl (h.locations m hm ha _ hp)).2 hc

end Placed

/-! ## 2. Entering locations -/

/-- Active locations stay, active and with the same capture status. -/
def Keeps (s t : WorkspaceState) : Prop :=
  ∀ c m, findLocation s c = some m → m.active = true →
    ∃ m', findLocation t c = some m' ∧ m'.active = true ∧ m'.captureStatus = m.captureStatus

theorem Keeps.of_locations {s t : WorkspaceState} (h : t.locations = s.locations) :
    Keeps s t := by
  intro c m hm ha
  refine ⟨m, ?_, ha, rfl⟩
  unfold findLocation
  rw [h]
  exact hm

theorem Keeps.addLocation (s : WorkspaceState) (l : Location) : Keeps s (s.addLocation l) := by
  intro c m hm ha
  refine ⟨m, ?_, ha, rfl⟩
  show findKey _ _ (s.locations ++ [l]) = _
  rw [findKey_append]
  exact Option.or_eq_some_iff.mpr (.inl hm)

theorem Keeps.putLocation {s : WorkspaceState} {l k : Location}
    (hl : findLocation s l.id = some l) (hid : k.id = l.id)
    (hact : l.active = true → k.active = true) (hcap : k.captureStatus = l.captureStatus) :
    Keeps s (s.putLocation k) := by
  intro c m hm ha
  show ∃ m', findKey _ c (replaceKey _ k s.locations) = some m' ∧ _
  rw [findKey_replaceKey]
  by_cases hc : c = k.id
  · subst hc
    rw [hid, hl] at hm
    cases hm
    rw [if_pos rfl, hid]
    show ∃ m', (findLocation s l.id).map _ = some m' ∧ _
    rw [hl]
    exact ⟨k, rfl, hact ha, hcap⟩
  · rw [if_neg hc]
    exact ⟨m, hm, ha, rfl⟩

/-- An active place stays active where the locations are kept. -/
theorem Live.keep {s t : WorkspaceState} (hk : Keeps s t) {c : String} (h : Live s c) :
    Live t c := by
  obtain ⟨l, hl, ha, hc⟩ := h
  obtain ⟨m, hm, hma, hmc⟩ := hk c l hl ha
  exact ⟨m, hm, hma, hmc ▸ hc⟩

theorem findLocation_setProgress (s : WorkspaceState) (ids : List String) (timestamp c : String) :
    findLocation (s.setProgress ids timestamp) c =
      (findLocation s c).map fun l => if l.id ∈ ids then l.begin timestamp else l := by
  show findKey _ _ (mapKeys _ _ _ _) = _
  rw [findKey_mapKeys (f := Location.begin timestamp) (fun _ => rfl)]
  show _ = (findKey Location.id c s.locations).map _
  cases h : findKey Location.id c s.locations with
  | none => split <;> rfl
  | some l =>
      rw [← (findKey_some h).2]
      split <;> simp_all

theorem Live.setProgress {s : WorkspaceState} {c : String} (h : Live s c) (ids : List String)
    (timestamp : String) : Live (s.setProgress ids timestamp) c := by
  obtain ⟨l, hl, ha, hc⟩ := h
  rw [Live, findLocation_setProgress, hl]
  refine ⟨_, rfl, ?_⟩
  dsimp only
  split
  · exact ⟨ha, fun e => nomatch e⟩
  · exact ⟨ha, hc⟩

/-- A location that was entered is live once those set in progress are. -/
theorem Entered.live {s t : WorkspaceState} (hk : Keeps s t) {ids : List String} {c : String}
    (h : Entered s ids c) (timestamp : String) : Live (t.setProgress ids timestamp) c := by
  obtain ⟨l, hl, ha, hin⟩ := h
  obtain ⟨m, hm, hma, hmc⟩ := hk c l hl ha
  rw [Live, findLocation_setProgress, hm]
  refine ⟨_, rfl, ?_⟩
  dsimp only
  split
  · exact ⟨hma, fun e => nomatch e⟩
  · rename_i hout
    refine ⟨hma, fun hc => hout ?_⟩
    rw [(findLocation_mem hm).2, ← (findLocation_mem hl).2]
    exact hin (hmc ▸ hc)

theorem Contained.setProgress {s : WorkspaceState} {L : String → Prop} (h : Contained s L)
    (ids : List String) (timestamp : String) : Contained (s.setProgress ids timestamp) L := by
  refine ⟨h.items, fun l hl ha p hp => ?_⟩
  obtain ⟨m, hm, rfl⟩ := mem_mapKeys.mp hl
  by_cases hin : m.id ∈ ids
  · rw [if_pos hin] at ha hp
    exact h.locations m hm ha p hp
  · rw [if_neg hin] at ha hp
    exact h.locations m hm ha p hp

/-- **The step**: active records in live locations and in ones that are entered. -/
theorem Sheltered.enter {s t : WorkspaceState} {ids : List String} (hk : Keeps s t)
    (h : Contained t fun c => Live s c ∨ Entered s ids c) (timestamp : String) :
    Sheltered (t.setProgress ids timestamp) :=
  (h.setProgress ids timestamp).mono fun _ hc => hc.elim
    (fun hc => (hc.keep hk).setProgress ids timestamp) fun hc => hc.live hk timestamp

/-- The same, where plans are discarded too. -/
theorem Sheltered.enter_discard {s t : WorkspaceState} {ids : List String} (hk : Keeps s t)
    (h : Contained t fun c => Live s c ∨ Entered s ids c) (plans : List String)
    (timestamp : String) : Sheltered ((t.discardPlans plans).setProgress ids timestamp) := by
  have hk' : Keeps s (t.discardPlans plans) := hk
  exact Sheltered.enter hk' (h.of_records rfl rfl) timestamp

/-! ## 3. The effects -/

section Effects

variable {s t : WorkspaceState}

/-- A location replaced by one whose parent is among the places. -/
theorem Contained.putLocation {L : String → Prop} (h : Contained s L) {k : Location}
    (hp : k.active = true → ∀ p, k.parentId = some p → L p) :
    Contained (s.putLocation k) L := by
  refine ⟨h.items, fun m hm ha p hmp => ?_⟩
  rcases mem_replaceKey.mp hm with ⟨hm, -⟩ | ⟨rfl, -⟩
  · exact h.locations m hm ha p hmp
  · exact hp ha p hmp

theorem Contained.addLocation {L : String → Prop} (h : Contained s L) {l : Location}
    (hp : ∀ p, l.parentId = some p → L p) : Contained (s.addLocation l) L := by
  refine ⟨h.items, fun m hm ha p hmp => ?_⟩
  rcases List.mem_append.mp hm with hm | hm
  · exact h.locations m hm ha p hmp
  · rw [List.mem_singleton.mp hm] at hmp
    exact hp p hmp

/-- New items at such places. -/
theorem Contained.addItems {L : String → Prop} (h : Contained s L) {is : List ItemRecord}
    (hi : ∀ i ∈ is, L i.locationId) : Contained (s.addItems is) L :=
  ⟨fun i hi' ha => (List.mem_append.mp hi').elim (h.items i · ha) (hi i), h.locations⟩

/-- An item replaced by one at such a place. -/
theorem Contained.putItem {L : String → Prop} (h : Contained s L) {i : ItemRecord}
    (hi : i.active = true → L i.locationId) : Contained (s.putItem i) L := by
  refine ⟨fun j hj ha => ?_, h.locations⟩
  rcases mem_replaceKey.mp hj with ⟨hj, -⟩ | ⟨rfl, -⟩
  · exact h.items j hj ha
  · exact hi ha

theorem Contained.putItems {L : String → Prop} (h : Contained s L) {is : List ItemRecord}
    (hi : ∀ i ∈ is, i.active = true → L i.locationId) : Contained (s.putItems is) L := by
  induction is generalizing s with
  | nil => exact h
  | cons i is ih =>
      exact ih (h.putItem (hi i List.mem_cons_self)) fun j hj => hi j (List.mem_cons_of_mem _ hj)

theorem Contained.dropItems {L : String → Prop} (h : Contained s L) (ids : List String) :
    Contained (s.dropItems ids) L :=
  ⟨fun i hi => h.items i (List.mem_filter.mp hi).1, h.locations⟩

/-- Moving an item leaves the items where they were, or puts them at the destination. -/
theorem MoveItem.contained [Host] {L : String → Prop} {destinationId timestamp : String}
    {i : ItemRecord} (h : Contained s L) (hi : findItem s i.id = some i) (hd : L destinationId)
    (hm : MoveItem s destinationId timestamp i t) : Contained t L := by
  have hhere : i.active = true → L i.locationId := h.items i (findItem_mem hi).1
  cases hm with
  | merge hm hv hq =>
      obtain ⟨-, -, -, hmd⟩ := mergeTarget_some hm
      rw [dropItem_eq]
      exact (h.putItem fun _ => hmd ▸ hd).dropItems _
  | mergePart hm hv hvi hq hf hp hlt =>
      obtain ⟨-, -, -, hmd⟩ := mergeTarget_some hm
      exact (h.putItem fun _ => hmd ▸ hd).putItem hhere
  | relocate hvi =>
      refine h.putItem fun _ => ?_
      exact hd
  | split hnew hvi hf hp hlt =>
      refine Contained.addItems (h.putItem ?_) fun j hj => ?_
      · exact hhere
      · rw [List.mem_singleton.mp hj]
        exact hd

/-- Items moved to such a place. -/
theorem MoveItems.contained [Host] {L : String → Prop} {destinationId timestamp : String}
    {ids : List String} (h : Contained s L) (hd : L destinationId)
    (hm : MoveItems destinationId timestamp s ids t) : Contained t L := by
  induction hm with
  | nil => exact h
  | cons hi _ _ hm _ ih => exact ih (hm.contained h hi hd)

/-- A location that holds nothing active, but for itself perhaps, is replaced. -/
theorem Sheltered.putLocation_bare (h : Sheltered s) {k : Location}
    (hitems : ∀ i ∈ s.items, i.locationId = k.id → i.active = false)
    (hchild : ∀ m ∈ s.locations, m.parentId = some k.id → m.id ≠ k.id → m.active = false)
    (hp : k.active = true → ∀ p, k.parentId = some p → Live s p ∧ p ≠ k.id) :
    Sheltered (s.putLocation k) := by
  have hkeep : ∀ c, Live s c ∧ c ≠ k.id → Live (s.putLocation k) c := by
    rintro c ⟨⟨m, hm, hrest⟩, hc⟩
    refine ⟨m, ?_, hrest⟩
    show findKey _ _ (replaceKey _ _ _) = _
    rw [findKey_replaceKey, if_neg hc]
    exact hm
  refine Contained.mono ⟨fun i hi ha => ?_, fun m hm ha p hmp => ?_⟩ hkeep
  · exact ⟨h.items i hi ha, fun e => by rw [hitems i hi e] at ha; cases ha⟩
  · rcases mem_replaceKey.mp hm with ⟨hm, hne⟩ | ⟨rfl, -⟩
    · exact ⟨h.locations m hm ha p hmp,
        fun e => by rw [hchild m hm (e ▸ hmp) hne] at ha; cases ha⟩
    · exact hp ha p hmp

variable [Host]

/-- **Every effect keeps active records in live locations.** -/
theorem effect_sheltered {timestamp : String} (hanch : Anchored s) (hts : timestamp ≠ "")
    (hs : Sheltered s) (h : Effect s timestamp t) : Sheltered t := by
  have hlive : ∀ {ids : List String}, Contained s fun c => Live s c ∨ Entered s ids c :=
    hs.mono fun _ => .inl
  cases h with
  | rename name _ => exact hs.of_records rfl rfl
  | createLocation hid hcode hparent =>
      exact Sheltered.enter_discard (Keeps.addLocation s _)
        (hlive.addLocation fun p hp => .inr (hparent p hp)) _ _
  | changeLocation hl hact hid harch hcap hparent hcode =>
      refine Sheltered.enter_discard (Keeps.putLocation hl hid (fun ha => ?_) hcap)
        (hlive.putLocation fun ha p hp => ?_) _ _
      · rw [Location.active, harch]
        exact ha
      · rcases hparent with he | ⟨-, he⟩
        · exact .inl (hs.locations _ (findLocation_mem hl).1 hact p (he ▸ hp))
        · exact .inr (he p hp).1
  | @archive l hl hact hinside hitems =>
      refine Sheltered.of_records (hs.putLocation_bare (k := { l with
        archivedAt := some timestamp, updatedAt := timestamp }) hitems (fun m hm hp hne => ?_)
        fun ha => ?_) rfl rfl
      · exact hinside m hm (.single ⟨m, hm, rfl, hp⟩) hne
      · simp [Location.active, isSet, hts] at ha
  | @restore l ids hl hcode hparent =>
      refine Sheltered.enter_discard (Keeps.putLocation hl ?_ (fun _ => ?_) ?_)
        (hlive.putLocation (k := { l with archivedAt := none, updatedAt := timestamp })
          fun _ p hp => .inr (hparent p hp)) _ _ <;> rfl
  | @deleteLocation l locationIds itemIds hl hinside hitems =>
      have hkeep : ∀ c, Live s c ∧ c ∉ locationIds →
          Live ((s.dropItems itemIds).dropLocations locationIds) c := by
        rintro c ⟨⟨m, hm, hrest⟩, hc⟩
        refine ⟨m, ?_, hrest⟩
        show findKey _ _ (s.locations.filter fun l => l.id ∉ locationIds) = _
        rw [findKey_filter Location.id (fun c => decide (c ∉ locationIds)),
          if_pos (decide_eq_true hc)]
        exact hm
      refine Sheltered.of_records (Contained.mono ⟨fun i hi ha => ?_, fun m hm ha p hp => ?_⟩
        hkeep) rfl rfl
      · obtain ⟨hi, hout⟩ := List.mem_filter.mp hi
        exact ⟨hs.items i hi ha, fun hin => of_decide_eq_true hout ((hitems i hi).mpr hin)⟩
      · obtain ⟨hm, hout⟩ := List.mem_filter.mp hm
        refine ⟨hs.locations m hm ha p hp, fun hin => of_decide_eq_true hout ?_⟩
        obtain ⟨n, hn, hnp⟩ := hanch.parents m hm p hp
        exact (hinside m hm).mpr (.head ⟨m, hm, rfl, hp⟩
          (hnp ▸ (hinside n hn).mp (hnp ▸ hin)))
  | @emptyLocation l itemIds hl hact hchild hitems =>
      have hdrop : Sheltered (s.dropItems itemIds) :=
        (Contained.dropItems hs itemIds).mono fun _ hc => hc.of_locations rfl
      refine Sheltered.of_records (hdrop.putLocation_bare (k := { l with
        captureStatus := .knownEmpty, updatedAt := timestamp }) (fun i hi he => ?_)
        (fun m hm hp _ => hchild m hm hp) fun _ p hp => ⟨hdrop.locations l (findLocation_mem hl).1 hact p hp, fun he => ?_⟩) rfl rfl
      · obtain ⟨hi, hout⟩ := List.mem_filter.mp hi
        rw [← Bool.not_eq_true]
        exact fun ha => of_decide_eq_true hout ((hitems i hi).mpr ⟨he, ha⟩)
      · rw [hchild l (findLocation_mem hl).1 (he ▸ hp)] at hact
        cases hact
  | @markCapture l status hl hact hempty =>
      have hparent : ∀ p, l.parentId = some p → Live s p :=
        hs.locations l (findLocation_mem hl).1 hact
      refine Sheltered.of_records (s := s.putLocation { l with
        captureStatus := status, updatedAt := timestamp }) ?_ rfl rfl
      by_cases hstatus : status = .knownEmpty
      · obtain ⟨hchild, hitems⟩ := hempty hstatus
        refine hs.putLocation_bare hitems (fun m hm hp _ => hchild m hm hp) fun _ p hp =>
          ⟨hparent p hp, fun he => ?_⟩
        rw [hchild l (findLocation_mem hl).1 (he ▸ hp)] at hact
        cases hact
      · refine Contained.mono (Contained.putLocation hs fun _ => hparent) ?_
        rintro c ⟨m, hm, ha, hc⟩
        rw [Live]
        show ∃ l', findKey _ c (replaceKey _ _ s.locations) = some l' ∧ _
        rw [findKey_replaceKey]
        split
        · rename_i he
          subst he
          show ∃ l', (findLocation s l.id).map _ = some l' ∧ _
          rw [hl]
          exact ⟨_, rfl, hact, hstatus⟩
        · exact ⟨m, hm, ha, hc⟩
  | createItems hn hnew hfits hchanged hentered =>
      exact Sheltered.enter_discard (t := s.addItems _) (Keeps.of_locations rfl)
        (hlive.addItems fun i hi => .inr (hentered i hi)) _ _
  | changeItems hn hold hfits =>
      refine Sheltered.enter_discard (Keeps.of_locations (putItems_locations s _))
        (hlive.putItems fun i hi ha => ?_) _ _
      obtain ⟨j, hj, hloc, harch, -⟩ := hold i hi
      rw [hloc]
      refine .inl (hs.items j (findItem_mem hj).1 ?_)
      rw [ItemRecord.active, ← harch]
      exact ha
  | deleteItem hi =>
      rw [dropItem_eq]
      exact Sheltered.of_records ((Contained.dropItems hs _).mono fun _ hc =>
        hc.of_locations rfl) rfl rfl
  | moveItems hmoves hentered hdest hsource =>
      refine Sheltered.enter_discard (Keeps.of_locations ?_)
        (hmoves.contained hlive (.inr hentered)) _ _
      rw [hmoves.frame]
  | createPlan hid hactive hsteps hok => exact hs.of_records rfl rfl
  | planStatus hp hne hcomplete hactive => exact hs.of_records rfl rfl
  | completeItem hc hi htype hitem hact hsource hquantity hact' haway hmove hentered =>
      refine Sheltered.of_records (Sheltered.enter (Keeps.of_locations ?_)
        (hmove.contained hlive hi (.inr hentered)) _) rfl rfl
      rw [hmove.frame]
  | @completeContainer plan step l ids hc hl hact htype hlocation hsource houtside hact' hentered =>
      refine Sheltered.of_records (Sheltered.enter (Keeps.putLocation hl ?_ ?_ ?_)
        (hlive.putLocation (k := { l with
          parentId := some step.destinationId, updatedAt := timestamp }) fun _ p hp => ?_) _) rfl rfl
      · rfl
      · exact fun ha => ha
      · rfl
      · cases hp
        exact .inr hentered

end Effects

/-! ## 4. Replays -/

section Replays

/-- The codes of issues of active records in the wrong place. -/
def placementCodes : List String := ["ARCHIVED_LOCATION", "NOT_EMPTY", "PARENT_ARCHIVED"]

/-- With distinct identifiers the last record with one is the first. -/
theorem mapGet_of_mem {α : Type} {key : α → String} {l : List α} (hn : (l.map key).Nodup) {a : α}
    (h : a ∈ l) : mapGet key (key a) l = some a := by
  have hn' : (l.reverse.map key).Nodup := by
    rw [List.map_reverse]
    exact List.nodup_reverse.mpr hn
  exact findKey_of_mem hn' (List.mem_reverse.mpr h)

/-- Records in their place have no issue of the placement. -/
theorem reads_of_placement [Host] {s : WorkspaceState} (h : Placement s) :
    RecordReads (fun code _ => code ∉ placementCodes) s := by
  have hadmits : ∀ codes : List String, (∀ c ∈ codes, c ∉ placementCodes) →
      Admits (fun code _ => code ∉ placementCodes) codes := fun _ h c hc _ => h c hc
  have hfind : ∀ {c : String} {m : Location}, mapGet Location.id c s.locations = some m →
      m ∈ s.locations ∧ m.id = c := by
    intro c m hm
    obtain ⟨hmem, hid⟩ := findKey_some (show findKey _ _ _ = _ from hm)
    exact ⟨List.mem_reverse.mp hmem, hid⟩
  refine ⟨receiptsRead_of_admits (hadmits _ (by decide)) _ _,
    locationsRead_of_admits (hadmits _ (by decide)) _ _ _, fun l hl => ⟨fun _ _ _ => ?_,
    fun ha p hp m hm hma => ?_, fun _ => ?_⟩,
    itemsRead_of_admits (hadmits _ (by decide)) (fun i hi _ ha m hm hma => ?_) _,
    fun l hl hne => absurd (h.emptied l hl) hne,
    plansRead_of_admits (hadmits _ (by decide)) (fun _ _ _ _ _ _ =>
      executable_of_admits (hadmits _ (by decide)) _ _ _) ?_ (fun _ _ _ _ => ?_) _, fun _ => ?_⟩
  · show "DANGLING_PARENT" ∉ placementCodes
    decide
  · obtain ⟨hmm, hid⟩ := hfind hm
    have hpar : l.parentId = some p := by
      unfold Location.parentKey at hp
      exact (Option.filter_eq_some_iff.mp hp).1
    rw [h.parents l hl ha p hpar m hmm hid] at hma
    cases hma
  · show "LOCATION_CYCLE" ∉ placementCodes
    decide
  · obtain ⟨hmm, hid⟩ := hfind hm
    rw [h.items i hi ha m hmm hid] at hma
    cases hma
  · show "PLAN_STATUS" ∉ placementCodes
    decide
  · show "PLAN_STATUS" ∉ placementCodes
    decide
  · show "MULTIPLE_ACTIVE_PLANS" ∉ placementCodes
    decide

/-- An item that is read is at a location that is there. -/
theorem ItemsRead.mem {P : String → String → Prop} {ls : List Location}
    {is : List ItemRecord} {ids : List String} (hP : Rejects P graphCodes)
    (h : ItemsRead P ls ids is) : ∀ i ∈ is, ∃ ids, ItemReads P ls ids i := by
  induction is generalizing ids with
  | nil => simp
  | cons i is ih =>
      simp only [ItemsRead] at h
      split at h
      · exact absurd h.1 (hP _ (by decide) _)
      · intro j hj
        rcases List.mem_cons.mp hj with rfl | hj
        · exact ⟨ids, h.1⟩
        · exact ih h.2 j hj

/-- Records without issues of the graph and the placement are in their place. -/
theorem placement_of_reads [Host] {P : String → String → Prop} {s : WorkspaceState}
    (hP : Rejects P graphCodes) (hP' : Rejects P placementCodes) (h : RecordReads P s) :
    Placement s := by
  have hw := wellFormed_of_reads hP h
  refine ⟨fun l hl ha p hp m hm he => ?_, fun i hi ha l hl he => ?_, fun l hl => ?_⟩
  · by_contra hma
    have hpar := parentKey_of_nonblank ((h.locations.sound hP).nonblank l hl).2
    have hget := mapGet_of_mem hw.unique.locations hm
    rw [he] at hget
    exact hP' _ (by decide) _ ((h.placement l hl).archived ha p (hpar.trans hp) m hget
      (Bool.eq_false_iff.mpr hma))
  · by_contra hla
    obtain ⟨ids, hreads⟩ := h.items.mem hP i hi
    have hget := mapGet_of_mem hw.unique.locations hl
    rw [he] at hget
    exact hP' _ (by decide) _ (hreads.archived ((h.items.sound hP).stored i hi) ha l hget
      (Bool.eq_false_iff.mpr hla))
  · by_contra hne
    exact hP' _ (by decide) _ (h.emptied l hl hne)

/-- **A replay that is accepted on records in their place leaves them in their place.** -/
theorem Replayed.placement [Host] {s w : WorkspaceState} {env : CommandEnvelope}
    {direction : Direction} {activities : List ActivityRecord} (hs : Placement s)
    (h : Replayed s w env direction activities) : Placement w := by
  obtain ⟨before, hbefore, -, hreads⟩ := h.reads
  have hkind : Allowed (fun code _ => code ∉ placementCodes) before := by
    refine allowed_of_reads (holds_encode s) hbefore ?_ (workspaceReads_of_admits ?_ _)
      (reads_of_placement hs)
    · exact fun c hc _ => (by decide : ∀ c ∈ historyCodes, c ∉ placementCodes) c hc
    · exact fun c hc _ => (by decide : ∀ c ∈ ["WORKSPACE_NAME", "WORKSPACE_REQUIRED",
        "WORKSPACE_REVISION"], c ∉ placementCodes) c hc
  refine placement_of_reads (rejects_of_legacy (by decide)) ?_ hreads
  rintro c hc m ⟨-, i, hi, rfl, -⟩
  exact (hkind i hi).2 hc

end Replays

/-! ## 5. Every run -/

section Engine

variable [Host]

/-- Where items and locations have different identifiers, an accepted command that is no replay
    leaves the items and locations of one of the effects. -/
theorem applyNormalCommand_effect {s : WorkspaceState} {env : CommandEnvelope} {r : CommandResult}
    (hr : UniqueRecords s) (h : applyNormalCommand s env = .ok r) :
    ∃ t, Effect s env.timestamp t ∧ UniqueRecords t ∧ SameStock t r.state := by
  simp only [applyNormalCommand, result_bind_ok, result_pure_ok] at h
  obtain ⟨change, hchange, u, hu, rfl⟩ := h
  obtain ⟨t, hyields, heffect⟩ := normal_effect hr hchange
  obtain ⟨hitems, hlocations⟩ := hyields.applied s u (.refl s) hu
  exact ⟨t, heffect, hyields.unique, hitems, hlocations⟩

/-- One accepted command keeps live records in their place. -/
theorem step_placement {s t : WorkspaceState} {env : CommandEnvelope} (hanch : Anchored s)
    (hs : Placement s) (h : engine.step s env t) : Placement t := by
  obtain ⟨r, hr, rfl⟩ := h
  have hdate : env.timestamp ≠ "" := by
    obtain ⟨hcheck, -⟩ := applyCommand_ok hr
    simp only [checkEnvelope, validateEnvelopeRuntime, result_bind_ok, refuse_ok,
      Bool.or_eq_false_iff, Bool.not_eq_false'] at hcheck
    obtain ⟨_, ⟨_, ⟨⟨⟨_, hdate⟩, _⟩, _⟩, _⟩, _⟩ := hcheck
    exact ne_empty_of_isDate hdate
  obtain ⟨-, ⟨-, h⟩ | ⟨-, type, activities, -, hmem, h⟩⟩ := applyCommand_ok hr
  · obtain ⟨u, heffect, hunique, hsame⟩ := applyNormalCommand_effect hanch.records h
    have hu := effect_sheltered hanch hdate (hs.sheltered hanch) heffect
    exact (hu.of_records hsame.items hsame.locations).placement (hunique.of_same hsame)
  · obtain ⟨w, hreplay, hrec⟩ := applyHistoryAction_ok h hmem
    have hw := hreplay.wellFormed.anchored
    exact (((hreplay.placement hs).sheltered hw).of_records hrec.items hrec.locations).placement
      (hw.records.of_same ⟨hrec.items, hrec.locations⟩)

/-- A new workspace has nothing in the wrong place. -/
theorem placement_empty (uuid name timestamp : String) :
    Placement (createEmptyState uuid name timestamp) := by
  refine Sheltered.placement (wellFormed_empty _ _ _).unique.records
    ⟨fun i hi => ?_, fun l hl => ?_⟩
  · exact absurd hi List.not_mem_nil
  · exact absurd hl List.not_mem_nil

/-- Nor has any that commands lead to. -/
theorem reachable_placement {s : WorkspaceState} (h : engine.Reachable s) :
    WellFormed s ∧ Placement s := by
  refine h.invariant (P := fun s => WellFormed s ∧ Placement s) ?_
    fun _ _ _ hs hstep => ⟨step_wellFormed hs.1 hstep, step_placement hs.1.anchored hs.2 hstep⟩
  rintro s ⟨uuid, name, timestamp, rfl⟩
  exact ⟨wellFormed_empty _ _ _, placement_empty _ _ _⟩

/-- **Placement and capture.** Where items and locations have different identifiers and their
    references resolve, every command the engine accepts leaves live records in their place; so
    they are in every workspace reached from an empty one. -/
theorem applyCommand_placement :
    (∀ (s : WorkspaceState) (env : CommandEnvelope) (r : CommandResult), Anchored s →
      Placement s → applyCommand s env = .ok r → Placement r.state) ∧
    ∀ s, engine.Reachable s → Placement s :=
  ⟨fun _ _ r hanch hs h => step_placement hanch hs ⟨r, h, rfl⟩, fun _ h => (reachable_placement h).2⟩

end Engine

/-- The lamps are in their boxes. -/
theorem boxesState_placement : Placement boxesState := by
  refine ⟨fun l hl ha p hp => ?_, fun i hi ha l hl he => ?_, fun l hl hc => ?_⟩
  · rcases List.mem_pair.mp hl with rfl | rfl <;> cases hp
  · rcases List.mem_pair.mp hl with rfl | rfl <;> rfl
  · rcases List.mem_pair.mp hl with rfl | rfl <;> cases hc

/-- They are in their boxes after two of them were moved, and after that was undone. -/
theorem applyCommand_placement_lamps : ∃ r q : CommandResult,
    @applyCommand asciiHost boxesState moveLamps = .ok r ∧
    @applyCommand asciiHost r.state undoLamps = .ok q ∧
    Placement r.state ∧ Placement q.state := by
  let : Host := asciiHost
  obtain ⟨q, hq⟩ := exists_of_isOk lamps_moved_back
  simp only [result_bind_ok] at hq
  obtain ⟨r, hr, hq⟩ := hq
  have hmoved := applyCommand_placement.1 boxesState moveLamps r boxesState_wellFormed.anchored
    boxesState_placement hr
  exact ⟨r, q, hr, hq, hmoved, applyCommand_placement.1 r.state undoLamps q
    (step_wellFormed boxesState_wellFormed ⟨r, hr, rfl⟩).anchored hmoved hq⟩

/-! ## 6. What the placement rests on -/

/-- An archived location or one that is marked empty has something active in it. -/
def misplaced (s : WorkspaceState) : Bool :=
  s.locations.any fun l => (!l.active || l.captureStatus = .knownEmpty) &&
    (s.items.any (fun i => i.active && i.locationId = l.id) ||
      s.locations.any fun m => m.active && m.parentId = some l.id)

theorem misplaced_eq_false {s : WorkspaceState} : misplaced s = false ↔ Placement s := by
  simp only [misplaced, List.any_eq_false, Bool.and_eq_true, Bool.or_eq_true, Bool.not_eq_true',
    List.any_eq_true, decide_eq_true_eq, not_and, not_or, not_exists]
  constructor
  · intro h
    refine ⟨fun l hl ha p hp m hm he => ?_, fun i hi ha l hl he => ?_, fun l hl hc => ⟨?_, ?_⟩⟩
    · by_contra hma
      exact (h m hm (.inl (Bool.eq_false_iff.mpr hma))).2 l hl ha (he ▸ hp)
    · by_contra hla
      exact (h l hl (.inl (Bool.eq_false_iff.mpr hla))).1 i hi ha he.symm
    · intro i hi he
      rw [← Bool.not_eq_true]
      exact fun ha => (h l hl (.inr hc)).1 i hi ha he
    · intro m hm hp
      rw [← Bool.not_eq_true]
      exact fun ha => (h l hl (.inr hc)).2 m hm ha hp
  · rintro h l hl (ha | hc)
    · refine ⟨fun i hi hia he => ?_, fun m hm hma hp => ?_⟩
      · rw [h.items i hi hia l hl he.symm] at ha
        cases ha
      · rw [h.parents m hm hma l.id hp l hl rfl] at ha
        cases ha
    · refine ⟨fun i hi hia he => ?_, fun m hm hma hp => ?_⟩
      · rw [(h.emptied l hl hc).1 i hi he] at hia
        cases hia
      · rw [(h.emptied l hl hc).2 m hm hp] at hma
        cases hma

/-- The records are in their place, and a command that is accepted takes one out of it. -/
def Loses (s : WorkspaceState) (env : CommandEnvelope) : Prop :=
  Placement s ∧ ∃ r, @applyCommand asciiHost s env = .ok r ∧ ¬ Placement r.state

theorem loses_of_misplaced {s : WorkspaceState} {env : CommandEnvelope}
    (hs : misplaced s = false)
    (h : ((@applyCommand asciiHost s env).toOption.any fun r => misplaced r.state) = true) :
    Loses s env := by
  refine ⟨misplaced_eq_false.mp hs, ?_⟩
  cases hr : @applyCommand asciiHost s env with
  | error e =>
      rw [hr] at h
      cases h
  | ok r =>
      rw [hr] at h
      refine ⟨r, rfl, fun hp => ?_⟩
      have hmis : misplaced r.state = true := h
      rw [misplaced_eq_false.mpr hp] at hmis
      cases hmis

/-- A box that is marked empty. -/
def emptyBox : Location := { plainLocation "X" "Box" "B1" none with captureStatus := .knownEmpty }

/-- A lamp in a location that does not exist. -/
def danglingState : WorkspaceState := { firstState with items := [plainItem "i1" "Lamp" "X"] }

/-- A shelf in a location that does not exist. -/
def orphanState : WorkspaceState := { firstState with
  locations := [plainLocation "L" "Shelf" "S1" (some "X")] }

/-- Two boxes of one identifier, the second of them archived. -/
def twinBoxes : WorkspaceState := { firstState with
  locations := [plainLocation "X" "Box" "B1" none,
    { plainLocation "X" "Old box" "B2" none with archivedAt := some "2024-01-01T00:00:00.000Z" }] }

/-- Two lamps of one identifier, in two boxes. -/
def twinLamps : WorkspaceState := { firstState with
  locations := [plainLocation "A" "Left box" "L1" none, plainLocation "B" "Right box" "R1" none]
  items := [plainItem "i1" "Lamp" "A", plainItem "i1" "Lamp" "B"] }

/-- **Each part is needed**: where only the locations of items, the parents, or the identifiers of
    locations or of items fail to be in order, an accepted command leaves an active record in a
    location that is archived or marked empty. -/
theorem placement_needs_graph :
    (UniqueRecords danglingState ∧ ParentsThere danglingState ∧
      Loses danglingState (firstEnvelope "c1" (.locationCreate emptyBox))) ∧
    (UniqueRecords orphanState ∧ ItemsThere orphanState ∧
      Loses orphanState (firstEnvelope "c1" (.locationCreate emptyBox))) ∧
    ((twinBoxes.items.map ItemRecord.id).Nodup ∧ ParentsThere twinBoxes ∧ ItemsThere twinBoxes ∧
      Loses twinBoxes (firstEnvelope "c1" (.itemCreate (plainItem "i1" "Lamp" "X")))) ∧
    (twinLamps.locations.map Location.id).Nodup ∧ ParentsThere twinLamps ∧ ItemsThere twinLamps ∧
      Loses twinLamps (firstEnvelope "c1" (.captureEmpty "B" ["i1"])) := by
  have hnone : ∀ {α : Type} {a : α} {X : Prop}, a ∈ ([] : List α) → X :=
    fun h => absurd h List.not_mem_nil
  refine ⟨⟨⟨by decide +kernel, List.nodup_nil⟩, fun _ h => hnone h, ?_⟩,
    ⟨⟨List.nodup_nil, by decide +kernel⟩, fun _ h => hnone h, ?_⟩,
    ⟨List.nodup_nil, fun l hl p hp => ?_, fun _ h => hnone h, ?_⟩,
    by decide +kernel, fun l hl p hp => ?_, fun i hi => ?_, ?_⟩
  · exact loses_of_misplaced (by decide +kernel) (by decide +kernel)
  · exact loses_of_misplaced (by decide +kernel) (by decide +kernel)
  · rcases List.mem_pair.mp hl with rfl | rfl <;> cases hp
  · exact loses_of_misplaced (by decide +kernel) (by decide +kernel)
  · rcases List.mem_pair.mp hl with rfl | rfl <;> cases hp
  · rcases List.mem_pair.mp hi with rfl | rfl
    · exact ⟨_, List.mem_cons_self, rfl⟩
    · exact ⟨_, List.mem_cons_of_mem _ List.mem_cons_self, rfl⟩
  · exact loses_of_misplaced (by decide +kernel) (by decide +kernel)

end Stowplan
