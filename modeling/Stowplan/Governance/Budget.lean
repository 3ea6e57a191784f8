/-
  File:      Stowplan/Governance/Budget.lean
  Subject:   THE STORAGE BUDGET OF ACCOUNTS (migrations/0006).

  An account is charged for the workspaces in its custody, and for their bytes. Four triggers on
  two tables keep it within its limits, whichever statement comes first: a workspace grows, comes
  into custody, or goes from one account to another.

  * `budget_of_row`: a workspace that comes into the custody of an account that may have it;
  * `Statement.budget`: one lemma for each statement;
  * `storage_budget`: no run takes an account above its limits.
-/
import Stowplan.Governance.Operations
import Mathlib.Algebra.Order.BigOperators.Group.List

namespace Stowplan.Governance

open Tables

/-! ## 1. What is in custody -/

/-- What an account may have in its custody. -/
def Tables.Within (T : Tables) (userId : String) : Prop :=
  T.custodyCount userId none ≤ ownedWorkspacesPerUser ∧
    T.custodyBytes userId none ≤ aggregateSnapshotBytesPerAccount

/-- **No account comes to hold more than it may**, unless it held as much before. -/
structure Budget (S T : Tables) : Prop where
  count : ∀ u, T.custodyCount u none ≤ max ownedWorkspacesPerUser (S.custodyCount u none)
  bytes : ∀ u, T.custodyBytes u none ≤ max aggregateSnapshotBytesPerAccount (S.custodyBytes u none)

section Custody

variable {S T : Tables} {w u v : String}

theorem Budget.refl (S : Tables) : Budget S S := ⟨fun _ => le_max_right _ _, fun _ => le_max_right _ _⟩

/-- Budgets that are kept twice are kept. -/
theorem Budget.trans {R : Tables} (h : Budget S T) (h' : Budget T R) : Budget S R :=
  ⟨fun u => (h'.count u).trans (max_le (le_max_left _ _) (h.count u)),
    fun u => (h'.bytes u).trans (max_le (le_max_left _ _) (h.bytes u))⟩

/-- An account within its budget stays within it. -/
theorem Budget.within (h : Budget S T) {b : String} (hb : S.Within b) : T.Within b :=
  ⟨(h.count b).trans (max_le le_rfl hb.1), (h.bytes b).trans (max_le le_rfl hb.2)⟩

/-- The bytes of the rows of an account. -/
def Tables.bytesOf (T : Tables) (userId : String) (rows : List Custody) : Nat :=
  ((rows.filter fun c => c.custodianUserId = userId).map fun c => T.storedBytes c.workspaceId).sum

/-- What an account has in custody, counted over the rows. -/
theorem custodyCount_none (T : Tables) (b : String) :
    T.custodyCount b none = T.custody.rows.countP fun c => c.custodianUserId = b := by
  unfold Tables.custodyCount Table.count
  congr 1
  funext c
  simp

theorem custodyBytes_none (T : Tables) (b : String) :
    T.custodyBytes b none = T.bytesOf b T.custody.rows := by
  unfold Tables.custodyBytes Tables.bytesOf
  congr 3
  funext c
  simp

/-- The custody of the other workspaces. -/
def Tables.custodyBeside (T : Tables) (workspaceId : String) : List Custody :=
  T.custody.rows.filter fun c => decide (Row.key c ≠ workspaceId)

/-- What it has beside one workspace. -/
theorem custodyCount_some (T : Tables) (b w : String) :
    T.custodyCount b (some w) = (T.custodyBeside w).countP fun c => c.custodianUserId = b := by
  unfold Tables.custodyCount Tables.custodyBeside Table.count
  rw [List.countP_filter]
  congr 1
  funext c
  rw [Bool.eq_iff_iff]
  simp [Row.key]

theorem custodyBytes_some (T : Tables) (b w : String) :
    T.custodyBytes b (some w) = T.bytesOf b (T.custodyBeside w) := by
  unfold Tables.custodyBytes Tables.bytesOf Tables.custodyBeside
  rw [List.filter_filter]
  congr 3
  funext c
  rw [Bool.eq_iff_iff]
  simp [Row.key]

/-- The order of the rows does not matter. -/
theorem bytesOf_perm {rows rows' : List Custody} (h : rows.Perm rows') :
    T.bytesOf u rows = T.bytesOf u rows' :=
  ((h.filter _).map _).sum_nat

/-- One row more. -/
theorem bytesOf_cons (c : Custody) (rows : List Custody) : T.bytesOf u (c :: rows) =
    (if c.custodianUserId = u then T.storedBytes c.workspaceId else 0) + T.bytesOf u rows := by
  unfold Tables.bytesOf
  rw [List.filter_cons]
  by_cases h : c.custodianUserId = u
  · simp [h]
  · simp [h]

/-- The count with the row of a workspace put back. -/
theorem custodyCount_row (b : String) {c : Custody}
    (h : T.custody.rows.Perm (c :: S.custodyBeside w)) : T.custodyCount b none =
      S.custodyCount b (some w) + if c.custodianUserId = b then 1 else 0 := by
  rw [custodyCount_none, custodyCount_some, h.countP_eq, List.countP_cons]
  simp

/-- The bytes with it put back. -/
theorem custodyBytes_row (b : String) {c : Custody} (hbytes : T.snapshots = S.snapshots)
    (h : T.custody.rows.Perm (c :: S.custodyBeside w)) : T.custodyBytes b none =
      S.custodyBytes b (some w) +
        if c.custodianUserId = b then S.storedBytes c.workspaceId else 0 := by
  have hstored : T.storedBytes = S.storedBytes := by
    unfold Tables.storedBytes
    rw [hbytes]
  rw [custodyBytes_none, custodyBytes_some, bytesOf_perm h, bytesOf_cons, Nat.add_comm]
  unfold Tables.bytesOf
  rw [hstored]

theorem custodyCount_some_le (T : Tables) (b w : String) :
    T.custodyCount b (some w) ≤ T.custodyCount b none := by
  rw [custodyCount_some, custodyCount_none]
  exact List.filter_sublist.countP_le

theorem custodyBytes_some_le (T : Tables) (b w : String) :
    T.custodyBytes b (some w) ≤ T.custodyBytes b none := by
  rw [custodyBytes_some, custodyBytes_none]
  exact ((List.filter_sublist.filter _).map _).sum_le_sum fun _ _ => Nat.zero_le _

/-- **A workspace comes into the custody of an account that may have it.** -/
theorem budget_of_row (hsnapshots : T.snapshots = S.snapshots)
    (h : T.custody.rows.Perm (⟨w, u⟩ :: S.custodyBeside w))
    (hrefused : S.custodianRefused w u = false) : Budget S T ∧ T.Within u := by
  simp only [Tables.custodianRefused, Bool.or_eq_false_iff, decide_eq_false_iff_not,
    Nat.not_le, Nat.not_lt] at hrefused
  obtain ⟨⟨-, hcount⟩, hbytes⟩ := hrefused
  have hcounts := fun b => custodyCount_row b h
  have hsums := fun b => custodyBytes_row b hsnapshots h
  have hu : T.Within u := by
    refine ⟨?_, ?_⟩
    · rw [hcounts, if_pos rfl]
      exact hcount
    · rw [hsums, if_pos rfl]
      exact hbytes
  refine ⟨⟨fun b => ?_, fun b => ?_⟩, hu⟩
  · by_cases hbu : u = b
    · exact hbu ▸ hu.1.trans (le_max_left _ _)
    · have hle := custodyCount_some_le S b w
      rw [hcounts, if_neg hbu]
      omega
  · by_cases hbu : u = b
    · exact hbu ▸ hu.2.trans (le_max_left _ _)
    · have hle := custodyBytes_some_le S b w
      rw [hsums, if_neg hbu]
      omega

/-- What a change of the custodian does, and what its trigger has checked. -/
theorem setCustodian_cases (hv : S.custodian w = some v) (hne : v ≠ u)
    (h : S.setCustodian w u = some T) : ∃ custody, T = { S with custody } ∧
      custody.rows.Perm (⟨w, u⟩ :: S.custodyBeside w) ∧ S.custodianRefused w u = false ∧
        ∀ x, T.custodian x = if x = w then some u else S.custodian x := by
  obtain ⟨c, hc, -⟩ := Option.map_eq_some_iff.mp hv
  have hw : c.workspaceId = w := (Table.get_some hc).2
  unfold Tables.setCustodian at h
  rw [hv] at h
  dsimp only at h
  split at h
  · cases h
  rename_i hrefused
  have hchanged : (v != u) = true := by simpa using hne
  rw [hchanged, Bool.true_and, Bool.not_eq_true] at hrefused
  cases h
  refine ⟨_, rfl, ?_, hrefused, fun x => ?_⟩
  · have hrows := Table.rows_update_perm (p := fun c : Custody => decide (c.workspaceId = w))
      (Custody.withCustodian_key u) (fun _ => rfl) hc
    have hrow : c.withCustodian u = ⟨w, u⟩ := by
      unfold Custody.withCustodian
      rw [hw]
    rw [hrow] at hrows
    exact hrows
  · have hget := Table.get_update_key (t := S.custody) (k := x) (Custody.withCustodian_key u) w
      (p := fun c : Custody => decide (c.workspaceId = w)) fun _ => rfl
    refine (congrArg (Option.map _) hget).trans ?_
    by_cases hx : x = w
    · rw [if_pos hx, if_pos hx, hx, hc]
      rfl
    · rw [if_neg hx, if_neg hx]
      rfl

end Custody

/-! ## 2. Statements -/

/-- The statements that the triggers guard, on rows that are there. -/
inductive Statement where
  | insertSnapshot (snapshot : Snapshot)
  | updateState (c : ContentWrite)
  | insertMember (m : Member)
  | insertCustody (workspaceId userId : String)
  | setCustodian (workspaceId userId : String)
  | deleteSnapshot (workspaceId : String)

/-- A statement with the triggers of its tables. -/
def Statement.exec (T : Tables) : Statement → Option Tables
  | .insertSnapshot snapshot => T.insertSnapshot snapshot
  | .updateState c => T.updateState c
  | .insertMember m => T.insertMember m
  | .insertCustody w u => T.insertCustody w u
  | .setCustodian w u => T.setCustodian w u
  | .deleteSnapshot w => some (T.deleteSnapshot w)

/-- What a statement would do without the guards of custody and storage. -/
def Statement.unguarded (T : Tables) : Statement → Option Tables
  | .insertSnapshot snapshot => T.insertSnapshot snapshot
  | .updateState c => some { T with
      snapshots := T.snapshots.update (·.workspaceId = c.workspaceId) c.apply c.apply_key }
  | .insertMember m => do
    let T := { T with members := ← T.members.insert m }
    let T ← T.bumpMember m.workspaceId m.userId
    if m.role = .owner && (T.custody.get m.workspaceId).isNone then
      return { T with custody := ← T.custody.insert ⟨m.workspaceId, m.userId⟩ }
    else some T
  | .insertCustody w u => return { T with custody := ← T.custody.insert ⟨w, u⟩ }
  | .setCustodian w u => some { T with
      custody := T.custody.update (·.workspaceId = w) (·.withCustodian u)
        (Custody.withCustodian_key u) }
  | .deleteSnapshot w => some (T.deleteSnapshot w)

/-- The bytes of a workspace are measured, and only workspaces are in custody. -/
structure Measured (T : Tables) : Prop where
  bytes : ∀ w s, T.snapshots.get w = some s → s.storedBytes = s.stateJson.utf8ByteSize
  custody : ∀ w, T.custodian w ≠ none → T.snapshots.get w ≠ none

section Statements

variable {S T R : Tables} {w u : String}

/-- What is stored of the workspaces, and who has them, stays. -/
structure SameStorage (S T : Tables) : Prop where
  snapshots : ∀ w, (T.snapshots.get w).map (fun s => (s.stateJson, s.storedBytes)) =
    (S.snapshots.get w).map fun s => (s.stateJson, s.storedBytes)
  custody : T.custody = S.custody

theorem SameStorage.storedBytes (h : SameStorage S T) (w : String) :
    T.storedBytes w = S.storedBytes w := by
  have := congrArg (Option.map Prod.snd) (h.snapshots w)
  rw [Option.map_map, Option.map_map] at this
  exact congrArg (Option.getD · 0) this

theorem bytesOf_congr {rows : List Custody}
    (h : ∀ c ∈ rows, T.storedBytes c.workspaceId = S.storedBytes c.workspaceId) :
    T.bytesOf u rows = S.bytesOf u rows := by
  unfold Tables.bytesOf
  rw [List.map_congr_left fun c hc => h c (List.mem_filter.mp hc).1]

/-- The custody is the same, and so are the bytes of what is in it. -/
theorem budget_of_same (hcustody : T.custody = S.custody)
    (hbytes : ∀ c ∈ S.custody.rows, T.storedBytes c.workspaceId = S.storedBytes c.workspaceId) :
    Budget S T := by
  refine ⟨fun u => ?_, fun u => ?_⟩
  · rw [custodyCount_none, custodyCount_none, hcustody]
    exact le_max_right _ _
  · rw [custodyBytes_none, custodyBytes_none, hcustody, bytesOf_congr hbytes]
    exact le_max_right _ _

/-- Where nothing stored changes, every budget is kept. -/
theorem SameStorage.budget (h : SameStorage S T) : Budget S T :=
  budget_of_same h.custody fun _ _ => h.storedBytes _

theorem SameStorage.measured (h : SameStorage S T) (hS : Measured S) : Measured T := by
  refine ⟨fun w s hs => ?_, fun w hw hnone => ?_⟩
  · have hw := h.snapshots w
    rw [hs] at hw
    obtain ⟨s', hs', heq⟩ := Option.map_eq_some_iff.mp hw.symm
    obtain ⟨hjson, hbytes⟩ := Prod.mk.inj heq
    rw [← hjson, ← hbytes]
    exact hS.bytes w s' hs'
  · have hw' : S.custodian w ≠ none := by
      unfold Tables.custodian
      rw [← h.custody]
      exact hw
    have hsame := h.snapshots w
    rw [hnone] at hsame
    exact hS.custody w hw' (Option.map_eq_none_iff.mp hsame.symm)

theorem custodian_of_mem {c : Custody} (hc : c ∈ S.custody.rows) :
    S.custodian c.workspaceId = some c.custodianUserId :=
  congrArg (Option.map _) (Table.get_of_mem hc)

/-- Only one workspace has other bytes. -/
theorem storedBytes_put {snapshots : Table Snapshot}
    (hother : ∀ x, x ≠ w → snapshots.get x = S.snapshots.get x) {x : String} (hx : x ≠ w) :
    ({ S with snapshots } : Tables).storedBytes x = S.storedBytes x := by
  show ((snapshots.get x).map _).getD 0 = _
  rw [hother x hx]
  rfl

/-- Each statement keeps the budgets: here a new workspace. -/
theorem insertSnapshot_budget {snapshot : Snapshot} (hS : Measured S)
    (h : S.insertSnapshot snapshot = some T) : Measured T ∧ Budget S T := by
  obtain ⟨snapshots, hs, h⟩ := Option.bind_eq_some_iff.mp h
  cases h
  have hget : ∀ x, snapshots.get x = if snapshot.workspaceId = x then some snapshot.measured
      else S.snapshots.get x := fun x => Table.get_insert hs x
  have hnew : S.snapshots.get (Row.key snapshot.measured) = none := Table.insert_new hs
  refine ⟨⟨fun w s hw => ?_, fun w hw => ?_⟩, budget_of_same rfl fun c hc => ?_⟩
  · have hw : snapshots.get w = some s := hw
    rw [hget] at hw
    split at hw
    · cases hw
      rfl
    · exact hS.bytes w s hw
  · show snapshots.get w ≠ none
    rw [hget]
    split
    · exact Option.some_ne_none _
    · exact hS.custody w hw
  · refine storedBytes_put (w := snapshot.workspaceId) (fun x hx => ?_) fun hkey => ?_
    · rw [hget, if_neg hx.symm]
    · refine hS.custody c.workspaceId ?_ (hkey ▸ hnew)
      rw [custodian_of_mem hc]
      exact Option.some_ne_none _

/-- A workspace in custody is charged to one account, with the bytes that are stored. -/
theorem custodyBytes_charged {c : Custody} (hc : S.custody.get w = some c)
    (hcustody : T.custody = S.custody)
    (hother : ∀ x, x ≠ w → T.storedBytes x = S.storedBytes x) (b : String) :
    T.custodyBytes b none = S.custodyBytes b (some w) +
      if c.custodianUserId = b then T.storedBytes w else 0 := by
  have hkey : c.workspaceId = w := (Table.get_some hc).2
  have hbeside : T.bytesOf b (S.custodyBeside w) = S.bytesOf b (S.custodyBeside w) :=
    bytesOf_congr fun q hq => hother _ (of_decide_eq_true (List.mem_filter.mp hq).2)
  rw [custodyBytes_none, custodyBytes_some, hcustody, bytesOf_perm (Table.rows_perm hc),
    bytesOf_cons, Nat.add_comm, hkey]
  exact congrArg (· + _) hbeside

/-- A content write does nothing, or what its trigger allows. -/
theorem updateState_cases {c : ContentWrite} (h : S.updateState c = some T) : T = S ∨
    ∃ old snapshots, S.snapshots.get c.workspaceId = some old ∧ T = { S with snapshots } ∧
      (∀ x, snapshots.get x =
        if x = c.workspaceId then some (c.apply old) else S.snapshots.get x) ∧
      (old.storedBytes < c.stateJson.utf8ByteSize → S.storageRefused c.workspaceId
        old.storedBytes c.stateJson.utf8ByteSize = false) := by
  unfold Tables.updateState at h
  cases hold : S.snapshots.get c.workspaceId with
  | none =>
      rw [hold] at h
      cases h
      exact .inl rfl
  | some old =>
      rw [hold] at h
      dsimp only at h
      split at h
      · cases h
      rename_i hguard
      cases h
      refine .inr ⟨old, _, rfl, rfl, fun x => ?_, fun hgrows => ?_⟩
      · refine (Table.get_update_key c.apply_key c.workspaceId fun _ => rfl).trans ?_
        by_cases hx : x = c.workspaceId
        · rw [if_pos hx, if_pos hx, hx, hold]
          rfl
        · rw [if_neg hx, if_neg hx]
      · rw [decide_eq_true hgrows, Bool.true_and, Bool.or_eq_true, not_or] at hguard
        exact Bool.not_eq_true _ ▸ hguard.2

/-- **Growth**: the account that has the workspace in its custody keeps within its storage. -/
theorem updateState_budget {c : ContentWrite} (hS : Measured S)
    (h : S.updateState c = some T) : Measured T ∧ Budget S T := by
  rcases updateState_cases h with rfl | ⟨old, snapshots, hold, rfl, hget, hguard⟩
  · exact ⟨hS, .refl T⟩
  have hother : ∀ x, x ≠ c.workspaceId → snapshots.get x = S.snapshots.get x :=
    fun x hx => (hget x).trans (if_neg hx)
  refine ⟨⟨fun w s hw => ?_, fun w hw => ?_⟩, ?_⟩
  · have hw := (hget w).symm.trans hw
    split at hw
    · cases hw
      rfl
    · exact hS.bytes w s hw
  · show snapshots.get w ≠ none
    rw [hget]
    split
    · exact Option.some_ne_none _
    · exact hS.custody w hw
  · cases hc : S.custody.get c.workspaceId with
    | none =>
        refine budget_of_same rfl fun q hq => storedBytes_put hother fun hkey => ?_
        have hget := Table.get_of_mem hq
        rw [show Row.key q = c.workspaceId from hkey, hc] at hget
        cases hget
    | some q =>
        refine ⟨fun b => le_max_right _ _, fun b => ?_⟩
        have hafter := custodyBytes_charged (T := { S with snapshots }) hc rfl
          (fun x hx => storedBytes_put hother hx) b
        have hbefore := custodyBytes_charged (T := S) hc rfl (fun _ _ => rfl) b
        have hstored : S.storedBytes c.workspaceId = old.storedBytes := by
          rw [Tables.storedBytes, hold]
          rfl
        have hstored' : ({ S with snapshots } : Tables).storedBytes c.workspaceId =
            c.stateJson.utf8ByteSize := by
          show ((snapshots.get c.workspaceId).map _).getD 0 = _
          rw [hget, if_pos rfl]
          rfl
        rw [hstored'] at hafter
        rw [hstored] at hbefore
        rw [hafter]
        by_cases hb : q.custodianUserId = b
        · rw [if_pos hb] at hbefore ⊢
          by_cases hgrows : old.storedBytes < c.stateJson.utf8ByteSize
          · have hcustodian : S.custodian c.workspaceId = some b := by
              rw [Tables.custodian, hc, ← hb]
              rfl
            have hroom := hguard hgrows
            simp only [Tables.storageRefused, hcustodian, decide_eq_false_iff_not] at hroom
            omega
          · omega
        · rw [if_neg hb] at hbefore ⊢
          omega

/-- A new row of custody. -/
theorem insertCustody_budget (hS : Measured S) (h : S.insertCustody w u = some T) :
    Measured T ∧ Budget S T := by
  obtain ⟨custody, hcustody, rfl, hrefused, hstored⟩ := insertCustody_eq h
  have hnew : S.custody.get w = none := Table.insert_new hcustody
  have hget : ∀ x, custody.get x = if w = x then some ⟨w, u⟩ else S.custody.get x :=
    fun x => Table.get_insert hcustody x
  have hrow : custody.get w = some ⟨w, u⟩ := (hget w).trans (if_pos rfl)
  refine ⟨⟨hS.bytes, fun x hx => ?_⟩,
    (budget_of_row (S := S) (T := { S with custody }) rfl ?_ hrefused).1⟩
  · by_cases hxw : w = x
    · exact hxw ▸ Option.isSome_iff_ne_none.mp hstored
    · refine hS.custody x fun hnone => hx ?_
      show (custody.get x).map _ = none
      rw [hget, if_neg hxw]
      exact hnone
  · refine (Table.rows_perm hrow).trans (.cons _ (.of_eq ?_))
    unfold Table.insert at hcustody
    split at hcustody
    · cases hcustody
      unfold Tables.custodyBeside
      rw [List.filter_append]
      simp [Row.key]
    · cases hcustody

/-- A new member, who may become custodian. -/
theorem insertMember_budget {m : Member} (hS : Measured S) (h : S.insertMember m = some T) :
    Measured T ∧ Budget S T := by
  obtain ⟨members, R, -, -, hR, h⟩ := insertMember_cases h
  have hR := bumpMember_eq hR
  have hsame : SameStorage S R := by
    subst hR
    refine ⟨fun x => ?_, rfl⟩
    show ((S.snapshots.update _ Snapshot.bumpAccess Snapshot.bumpAccess_key).get x).map _ = _
    rw [Table.get_update, Option.map_map]
    congr 1
    funext s
    show (Snapshot.stateJson (if _ then _ else _), Snapshot.storedBytes (if _ then _ else _)) = _
    split <;> rfl
  rcases h with rfl | h
  · exact ⟨hsame.measured hS, hsame.budget⟩
  · obtain ⟨hT, hbudget⟩ := insertCustody_budget (hsame.measured hS) h
    exact ⟨hT, hsame.budget.trans hbudget⟩

/-- A workspace that has no custodian, or that one already, stays as it is. -/
theorem setCustodian_kept (h : S.setCustodian w u = some T)
    (hv : S.custodian w = none ∨ S.custodian w = some u) : T = S := by
  unfold Tables.setCustodian at h
  rcases hv with hv | hv
  · rw [hv] at h
    cases h
    rfl
  · rw [hv] at h
    dsimp only at h
    rw [if_neg (by simp)] at h
    cases h
    have hrows : (S.custody.update (·.workspaceId = w) (·.withCustodian u)
        (Custody.withCustodian_key u)).rows = S.custody.rows := by
      rw [Table.rows_update]
      refine (List.map_congr_left fun c hc => ?_).trans (List.map_id _)
      by_cases hw : c.workspaceId = w
      · have hcustodian := (custodian_of_mem hc).symm.trans ((congrArg S.custodian hw).trans hv)
        have hu : c.custodianUserId = u := Option.some.inj hcustodian
        subst hu
        exact if_pos (decide_eq_true hw)
      · exact if_neg (by simpa using hw)
    rw [Table.eq_of_rows hrows]

/-- Another custodian. -/
theorem setCustodian_budget (hS : Measured S) (h : S.setCustodian w u = some T) :
    Measured T ∧ Budget S T := by
  cases hv : S.custodian w with
  | none =>
      obtain rfl := setCustodian_kept h (.inl hv)
      exact ⟨hS, .refl T⟩
  | some v =>
      by_cases hne : v = u
      · obtain rfl := setCustodian_kept h (.inr (hne ▸ hv))
        exact ⟨hS, .refl T⟩
      · obtain ⟨custody, rfl, hrows, hrefused, hcustodian⟩ := setCustodian_cases hv hne h
        refine ⟨⟨hS.bytes, fun x hx => ?_⟩,
          (budget_of_row (S := S) (T := { S with custody }) rfl hrows hrefused).1⟩
        by_cases hxw : x = w
        · exact hS.custody x (by rw [hxw, hv]; exact Option.some_ne_none v)
        · refine hS.custody x fun hnone => hx ?_
          rw [hcustodian, if_neg hxw, hnone]

/-- **A workspace that is deleted** leaves its custody. -/
theorem deleteSnapshot_budget (hS : Measured S) (w : String) :
    Measured (S.deleteSnapshot w) ∧ Budget S (S.deleteSnapshot w) := by
  have hget : ∀ x, (S.deleteSnapshot w).snapshots.get x =
      if x = w then none else S.snapshots.get x := fun x => Table.get_delete_key w fun _ => rfl
  have hcustody : ∀ x, (S.deleteSnapshot w).custody.get x =
      if x = w then none else S.custody.get x := fun x => Table.get_delete_key w fun _ => rfl
  have hrows : (S.deleteSnapshot w).custody.rows = S.custodyBeside w :=
    List.filter_congr fun c _ => by
      rw [← decide_not]
      rfl
  refine ⟨⟨fun x s hx => ?_, fun x hx => ?_⟩, fun b => ?_, fun b => ?_⟩
  · rw [hget] at hx
    split at hx
    · cases hx
    · exact hS.bytes x s hx
  · unfold Tables.custodian at hx
    rw [hcustody] at hx
    rw [hget]
    split at hx
    · exact absurd rfl hx
    · rename_i hxw
      rw [if_neg hxw]
      exact hS.custody x hx
  · rw [custodyCount_none, hrows, ← custodyCount_some]
    exact (custodyCount_some_le S b w).trans (le_max_right _ _)
  · have hbytes : (S.deleteSnapshot w).bytesOf b (S.custodyBeside w) =
        S.bytesOf b (S.custodyBeside w) := bytesOf_congr fun c hc => by
      have hcw : c.workspaceId ≠ w := of_decide_eq_true (List.mem_filter.mp hc).2
      unfold Tables.storedBytes
      rw [hget, if_neg hcw]
    rw [custodyBytes_none, hrows, hbytes, ← custodyBytes_some]
    exact (custodyBytes_some_le S b w).trans (le_max_right _ _)

/-- **Every statement keeps the budget.** -/
theorem Statement.budget {q : Statement} (hS : Measured S) (h : q.exec S = some T) :
    Measured T ∧ Budget S T := by
  cases q with
  | insertSnapshot snapshot => exact insertSnapshot_budget hS h
  | updateState c => exact updateState_budget hS h
  | insertMember m => exact insertMember_budget hS h
  | insertCustody w u => exact insertCustody_budget hS h
  | setCustodian w u => exact setCustodian_budget hS h
  | deleteSnapshot w =>
      cases h
      exact deleteSnapshot_budget hS w

/-- The guards refuse a statement, they do not change what it does. -/
theorem Statement.exec_unguarded {q : Statement} (h : q.exec S = some T) :
    q.unguarded S = some T := by
  cases q with
  | insertSnapshot snapshot => exact h
  | updateState c =>
      have h : S.updateState c = some T := h
      unfold Tables.updateState at h
      cases hold : S.snapshots.get c.workspaceId with
      | none =>
          have hsame := Table.update_absent (p := fun s : Snapshot => s.workspaceId = c.workspaceId)
            c.apply_key hold fun _ => rfl
          rw [hold] at h
          cases h
          exact congrArg (fun snapshots => some { S with snapshots }) hsame
      | some old =>
          rw [hold] at h
          dsimp only at h
          split at h
          · cases h
          · exact h
  | insertMember m =>
      have h : S.insertMember m = some T := h
      unfold Tables.insertMember at h
      split at h
      · cases h
      obtain ⟨members, hmembers, h⟩ := Option.bind_eq_some_iff.mp h
      obtain ⟨R, hR, h⟩ := Option.bind_eq_some_iff.mp h
      refine Option.bind_eq_some_iff.mpr ⟨members, hmembers,
        Option.bind_eq_some_iff.mpr ⟨R, hR, ?_⟩⟩
      split at h
      · rename_i howner
        obtain ⟨custody, hcustody, rfl, -, -⟩ := insertCustody_eq h
        rw [if_pos howner, hcustody]
        rfl
      · rename_i howner
        rw [if_neg howner]
        exact h
  | insertCustody w u =>
      obtain ⟨custody, hcustody, rfl, -, -⟩ := insertCustody_eq h
      show (S.custody.insert _ >>= _) = _
      rw [hcustody]
      rfl
  | setCustodian w u =>
      have h : S.setCustodian w u = some T := h
      unfold Tables.setCustodian at h
      cases hv : S.custodian w with
      | none =>
          have hsame := Table.update_absent (t := S.custody)
            (p := fun c : Custody => c.workspaceId = w) (Custody.withCustodian_key u)
            (Option.map_eq_none_iff.mp hv) fun _ => rfl
          rw [hv] at h
          cases h
          exact congrArg (fun custody => some { S with custody }) hsame
      | some v =>
          rw [hv] at h
          dsimp only at h
          split at h
          · cases h
          · exact h
  | deleteSnapshot w => exact h

/-- The statements of a batch, one after the other; the first that is refused aborts it. -/
def runBatch (T : Tables) (batch : List Statement) : Option Tables := batch.foldlM (fun T q => q.exec T) T

/-- So does a batch. -/
theorem runBatch_budget {batch : List Statement} (hS : Measured S)
    (h : runBatch S batch = some T) : Measured T ∧ Budget S T := by
  induction batch generalizing S with
  | nil =>
      cases h
      exact ⟨hS, .refl _⟩
  | cons q batch ih =>
      obtain ⟨R, hR, h⟩ := Option.bind_eq_some_iff.mp h
      obtain ⟨hmeasured, hbudget⟩ := q.budget hS hR
      obtain ⟨hT, hrest⟩ := ih hmeasured h
      exact ⟨hT, hbudget.trans hrest⟩

end Statements

/-! ## 3. Runs -/

/-- A batch, or anything that leaves the stored bytes alone. -/
inductive StorageAction where
  | batch (statements : List Statement)
  | other

/-- A batch commits as a whole or leaves the tables as they are. Between batches anything may
    change but what is stored of the workspaces, and who has them. -/
inductive StorageStep : Tables → StorageAction → Tables → Prop where
  | commit {S T : Tables} {statements : List Statement} (h : runBatch S statements = some T) :
      StorageStep S (.batch statements) T
  | abort {S : Tables} {statements : List Statement} (h : runBatch S statements = none) :
      StorageStep S (.batch statements) S
  | other {S T : Tables} (h : SameStorage S T) : StorageStep S .other T

/-- The stored bytes under any batches. -/
def accountStorage : Machine Tables StorageAction where
  init := Measured
  step := StorageStep

section Runs

variable {S T R : Tables} {actions : List StorageAction}

/-- So does every step. -/
theorem StorageStep.budget {action : StorageAction} (hS : Measured S)
    (h : StorageStep S action T) : Measured T ∧ Budget S T := by
  cases h with
  | commit h => exact runBatch_budget hS h
  | abort h => exact ⟨hS, .refl S⟩
  | other h => exact ⟨h.measured hS, h.budget⟩

/-- So does every run. -/
theorem storage_run (hS : Measured S) (h : accountStorage.Run S actions T) :
    Measured T ∧ Budget S T := by
  refine h.invariant (P := fun T => Measured T ∧ Budget S T) ?_ ⟨hS, .refl S⟩
  rintro T action R ⟨hT, hbudget⟩ hs
  obtain ⟨hR, hrest⟩ := StorageStep.budget hT hs
  exact ⟨hR, hbudget.trans hrest⟩

/-- **THE STORAGE BUDGET**: in every run the bytes of a workspace are those of its state, no
    account comes to hold more workspaces or more bytes than it may, and a batch with a statement
    that would break this changes nothing. -/
theorem storage_budget (hS : accountStorage.Reachable S) (h : accountStorage.Run S actions T) :
    (∀ w s, T.snapshots.get w = some s → s.storedBytes = s.stateJson.utf8ByteSize) ∧
    (∀ u, T.custodyCount u none ≤ max 5 (S.custodyCount u none)) ∧
    (∀ u, T.custodyBytes u none ≤ max 8000000 (S.custodyBytes u none)) ∧
    ∀ before q after Q R, runBatch T before = some Q → q.unguarded Q = some R →
      ¬ (Measured R ∧ Budget Q R) →
        ∀ T', accountStorage.step T (.batch (before ++ q :: after)) T' → T' = T := by
  have hS : Measured S :=
    hS.invariant (fun _ h => h) fun _ _ _ hS h => (StorageStep.budget hS h).1
  obtain ⟨hT, hbudget⟩ := storage_run hS h
  refine ⟨hT.bytes, hbudget.count, hbudget.bytes, fun before q after Q R hbefore hR hbreaks => ?_⟩
  rintro T' (h | h)
  · refine absurd ?_ hbreaks
    rw [runBatch, List.foldlM_append] at h
    obtain ⟨Q', hQ', h⟩ := Option.bind_eq_some_iff.mp h
    obtain rfl : Q' = Q := Option.some.inj (hQ'.symm.trans hbefore)
    obtain ⟨R', hR', -⟩ := Option.bind_eq_some_iff.mp h
    obtain rfl : R' = R := Option.some.inj ((Statement.exec_unguarded hR').symm.trans hR)
    exact Statement.budget (runBatch_budget hT hbefore).1 hR'
  · rfl

theorem sharedWorkspace_measured : Measured sharedWorkspace := by
  refine ⟨fun w s hs => ?_, fun w hw => ?_⟩
  · have hs := (Table.get_some hs).1
    obtain rfl := List.mem_singleton.mp hs
    decide +kernel
  · obtain ⟨c, hc⟩ := Option.ne_none_iff_exists'.mp (Option.map_eq_none_iff.not.mp hw)
    obtain ⟨hc, hkey⟩ := Table.get_some hc
    obtain rfl := List.mem_singleton.mp hc
    rw [← hkey]
    decide +kernel

theorem storage_budget_handedOver :
    ∃ T, runBatch sharedWorkspace [.setCustodian "w" "bob"] = some T ∧
      T.custodyBytes "bob" none ≤ max 8000000 (sharedWorkspace.custodyBytes "bob" none) := by
  obtain ⟨T, hT⟩ : ∃ T, runBatch sharedWorkspace [.setCustodian "w" "bob"] = some T :=
    Option.isSome_iff_exists.mp (by decide +kernel)
  have hreachable : accountStorage.Reachable sharedWorkspace :=
    ⟨_, [], sharedWorkspace_measured, .nil _⟩
  exact ⟨T, hT, (storage_budget hreachable (.single (.commit hT))).2.2.1 "bob"⟩

end Runs

end Stowplan.Governance
