/-
  File:      Stowplan/Domain/AccessOrder.lean
  Subject:   WHAT A DEVICE KNOWS OF ITS ACCESS, over all answers it receives (workspace-access.ts).

  Answers arrive in any order; `shouldApplyWorkspaceAccess` decides which of them replaces what
  is stored. An answer is read from a value first, and what the value leaves out is filled in.

  * `readWorkspaceAccess`: the reading, and `ReadAccess`: what it guarantees of every value;
  * `applied`: the accesses a device stores, one after the other;
  * `NotOlder`: later revisions or the same, and nothing back from deletion without later ones;
    `MayFollow`: and no right more at the same revisions;
  * **`access_mayFollow`**: the stored accesses are in that order, except after an answer that makes
    an owner without write access an editor with it.
-/
import Stowplan.Domain.Access
import Mathlib.Data.Prod.Lex
import Mathlib.Order.RelClasses

namespace Stowplan

open JsValue

/-! ## 1. Reading an answer -/

/-- `nonNegativeInteger(value)`. -/
def nonNegativeIntegerOf : JsValue → Int
  | .num x => match x.toInt? with
    | some n => nonNegativeInteger n
    | none => 0
  | _ => 0

/-- `optionalString(value)`. -/
def optionalStringOf : JsValue → Option String
  | .str s => optionalString s
  | _ => none

/-- `isWorkspaceRole(value) ? value : null`. -/
def workspaceRoleOf : JsValue → Option WorkspaceRole
  | .str s =>
    if s = "owner" then some .owner
    else if s = "editor" then some .editor
    else if s = "viewer" then some .viewer
    else none
  | _ => none

/-- `isWorkspaceAccessStatus(value) ? value : …`. -/
def workspaceAccessStatusOf : JsValue → Option WorkspaceAccessStatus
  | .str s =>
    if s = "active" then some .active
    else if s = "revoked" then some .revoked
    else if s = "left" then some .left
    else if s = "deleted" then some .deleted
    else if s = "unknown" then some .unknown
    else none
  | _ => none

/-- `normalizeCapabilities(value, role, status)`. -/
def readCapabilities (value : JsValue) (role : WorkspaceRole) (status : WorkspaceAccessStatus) :
    WorkspaceCapabilities :=
  if status ≠ .active then readOnlyCapabilities
  else
    let maximum := capabilitiesForWorkspaceRole role
    if !value.isRecord then maximum
    else {
      delete := maximum.delete && decide (value.get "delete" = .bool true)
      leave := decide (value.get "leave" = .bool true)
      manageAccess := maximum.manageAccess && decide (value.get "manageAccess" = .bool true)
      read := maximum.read && decide (value.get "read" ≠ .bool false)
      write := maximum.write && decide (value.get "write" = .bool true) }

/-- `normalizeWorkspaceAccessState(value)`, of any value. -/
def readWorkspaceAccess (value : JsValue) : WorkspaceAccessState :=
  if !value.isRecord || decide (value.get "kind" ≠ .str "server") then deviceOnlyWorkspaceAccess
  else
    let role := workspaceRoleOf (value.get "role")
    let status := (workspaceAccessStatusOf (value.get "status")).getD
      (if role.isSome then .active else .unknown)
    { accountId := .ofOption (optionalStringOf (value.get "accountId"))
      accessRevision := nonNegativeIntegerOf (value.get "accessRevision")
      capabilities := match role with
        | none => readOnlyCapabilities
        | some role => readCapabilities (value.get "capabilities") role status
      checkedAt := optionalStringOf (value.get "checkedAt")
      kind := .server
      membershipRevision := nonNegativeIntegerOf (value.get "membershipRevision")
      role
      status }

/-- An access that has no right its role and status do not give. -/
structure ReadAccess (a : WorkspaceAccessState) : Prop where
  write : a.capabilities.write = true →
    a.status = .active ∧ (a.role = some .owner ∨ a.role = some .editor)
  manageAccess : a.capabilities.manageAccess = true → a.status = .active ∧ a.role = some .owner
  delete : a.capabilities.delete = true → a.status = .active ∧ a.role = some .owner

theorem readCapabilities_within (value : JsValue) (role : WorkspaceRole)
    (status : WorkspaceAccessStatus) :
    ((readCapabilities value role status).write = true →
      status = .active ∧ (role = .owner ∨ role = .editor)) ∧
    ((readCapabilities value role status).manageAccess = true →
      status = .active ∧ role = .owner) ∧
    ((readCapabilities value role status).delete = true → status = .active ∧ role = .owner) := by
  unfold readCapabilities
  by_cases hs : status = .active
  · rw [if_neg (not_not.mpr hs)]
    cases hr : value.isRecord <;>
      simp +contextual [hs, capabilitiesForWorkspaceRole]
  · rw [if_pos hs]
    simp [readOnlyCapabilities]

/-- Whatever an answer says, it is read within its role. -/
theorem readAccess_server {value : JsValue} (h : (readWorkspaceAccess value).kind = .server) :
    ReadAccess (readWorkspaceAccess value) := by
  unfold readWorkspaceAccess at h ⊢
  split
  · rename_i hc
    rw [if_pos hc] at h
    cases h
  · dsimp only
    cases hrole : workspaceRoleOf (value.get "role") with
    | none => exact ⟨by simp [readOnlyCapabilities], by simp [readOnlyCapabilities],
        by simp [readOnlyCapabilities]⟩
    | some role =>
      obtain ⟨hw, hm, hd⟩ := readCapabilities_within (value.get "capabilities") role
        ((workspaceAccessStatusOf (value.get "status")).getD
          (if (some role).isSome then .active else .unknown))
      exact ⟨by simpa using hw, by simpa using hm, by simpa using hd⟩

/-- An answer the server gave about one account. -/
structure AccessCandidate (account : Option String) where
  value : JsValue
  server : (readWorkspaceAccess value).kind = .server
  account_eq : (readWorkspaceAccess value).accountId.optional = account

/-- The access the answer is read as. -/
def AccessCandidate.access {account : Option String} (c : AccessCandidate account) :
    WorkspaceAccessState := readWorkspaceAccess c.value

/-! ## 2. The accesses a device stores -/

/-- The access stored at first and every one that replaces it. -/
def applied (current : WorkspaceAccessState) :
    List WorkspaceAccessState → List WorkspaceAccessState
  | [] => [current]
  | candidate :: rest =>
    if shouldApplyWorkspaceAccess current candidate then current :: applied candidate rest
    else applied current rest

theorem applied_eq_cons (current : WorkspaceAccessState) (cs : List WorkspaceAccessState) :
    ∃ rest, applied current cs = current :: rest := by
  induction cs with
  | nil => exact ⟨[], rfl⟩
  | cons c cs ih =>
      unfold applied
      split
      · exact ⟨_, rfl⟩
      · exact ih

/-- The membership revision first, then the access revision. -/
def WorkspaceAccessState.revisions (a : WorkspaceAccessState) : Int ×ₗ Int :=
  toLex (a.membershipRevision, a.accessRevision)

/-- The second access is not older: later revisions or the same, and later ones where the first
    says that the workspace is deleted and the second does not. -/
structure NotOlder (x y : WorkspaceAccessState) : Prop where
  revisions : x.revisions ≤ y.revisions
  deleted : x.status = .deleted → y.status ≠ .deleted → x.revisions < y.revisions

/-- The second access may follow the first: at the same revisions it has no right more. -/
structure MayFollow (x y : WorkspaceAccessState) : Prop extends NotOlder x y where
  rights : x.revisions = y.revisions →
    (y.capabilities.write = true → x.capabilities.write = true) ∧
    (y.capabilities.manageAccess = true → x.capabilities.manageAccess = true) ∧
    (y.capabilities.delete = true → x.capabilities.delete = true)

theorem NotOlder.trans {x y z : WorkspaceAccessState} (hxy : NotOlder x y) (hyz : NotOlder y z) :
    NotOlder x z := by
  refine ⟨hxy.revisions.trans hyz.revisions, fun hx hz => ?_⟩
  by_cases hy : y.status = .deleted
  · exact hxy.revisions.trans_lt (hyz.deleted hy hz)
  · exact (hxy.deleted hx hy).trans_le hyz.revisions

theorem MayFollow.trans {x y z : WorkspaceAccessState} (hxy : MayFollow x y) (hyz : MayFollow y z) :
    MayFollow x z := by
  refine ⟨hxy.toNotOlder.trans hyz.toNotOlder, fun he => ?_⟩
  have h1 : x.revisions = y.revisions := le_antisymm hxy.revisions (he ▸ hyz.revisions)
  obtain ⟨a1, a2, a3⟩ := hxy.rights h1
  obtain ⟨b1, b2, b3⟩ := hyz.rights (h1.symm.trans he)
  exact ⟨fun h => a1 (b1 h), fun h => a2 (b2 h), fun h => a3 (b3 h)⟩

instance : Trans NotOlder NotOlder NotOlder := ⟨NotOlder.trans⟩

instance : Trans MayFollow MayFollow MayFollow := ⟨MayFollow.trans⟩

/-- At the same revisions, an owner without write access is followed by an editor with it. -/
def WriterAfterOwner (x y : WorkspaceAccessState) : Prop :=
  x.revisions = y.revisions ∧ x.role = some .owner ∧ x.capabilities.write = false ∧
    y.role = some .editor ∧ y.capabilities.write = true

theorem revisions_lt {x y : WorkspaceAccessState} : x.revisions < y.revisions ↔
    x.membershipRevision < y.membershipRevision ∨
      x.membershipRevision = y.membershipRevision ∧ x.accessRevision < y.accessRevision :=
  Prod.Lex.toLex_lt_toLex

theorem revisions_eq {x y : WorkspaceAccessState} : x.revisions = y.revisions ↔
    x.membershipRevision = y.membershipRevision ∧ x.accessRevision = y.accessRevision := by
  unfold WorkspaceAccessState.revisions
  rw [toLex_inj, Prod.mk.injEq]

/-- An access a device stores for the account. -/
structure KnownAccess (account : Option String) (a : WorkspaceAccessState) : Prop where
  server : a.kind = .server
  account_eq : a.accountId.optional = account
  within : ReadAccess a

theorem AccessCandidate.stored {account : Option String} (c : AccessCandidate account) :
    KnownAccess account c.access :=
  ⟨c.server, c.account_eq, readAccess_server c.server⟩

section Step

variable {account : Option String} {x y : WorkspaceAccessState}

/-- Of one account, an answer is applied for later revisions, or for fewer rights at the same. -/
theorem shouldApply_cases (hx : KnownAccess account x) (hy : KnownAccess account y)
    (h : shouldApplyWorkspaceAccess x y = true) :
    x.revisions < y.revisions ∨
      x.revisions = y.revisions ∧
        (x.status = .active ∧ y.status ≠ .active ∨
          x.status = y.status ∧
            (y.role = none ∨ (∃ old new, x.role = some old ∧ y.role = some new ∧
                new.rank < old.rank) ∨
              gainsCapability x.capabilities y.capabilities = false)) := by
  have hacc : y.accountId.optional = x.accountId.optional := hy.account_eq.trans hx.account_eq.symm
  unfold shouldApplyWorkspaceAccess at h
  rw [if_neg (by rw [hy.server]; decide), if_neg (by rw [hx.server]; decide)] at h
  dsimp only at h
  rw [if_neg (by simp [hacc]), if_neg (by rw [hacc]; cases x.accountId.optional <;> simp)] at h
  rw [revisions_lt, revisions_eq]
  split at h
  · exact .inl (.inl (of_decide_eq_true h))
  · rename_i hm
    have hm := (not_not.mp hm).symm
    split at h
    · exact .inl (.inr ⟨hm, of_decide_eq_true h⟩)
    · rename_i ha
      refine .inr ⟨⟨hm, (not_not.mp ha).symm⟩, ?_⟩
      split at h
      · simp only [Bool.and_eq_true, decide_eq_true_eq] at h
        exact .inl h
      · rename_i hs
        refine .inr ⟨not_not.mp hs, ?_⟩
        split at h
        · cases hny : y.role with
          | none => exact .inl rfl
          | some new =>
            cases hox : x.role with
            | none =>
              rw [hny, hox] at h
              cases h
            | some old =>
              rw [hny, hox] at h
              exact .inr (.inl ⟨old, new, rfl, rfl, of_decide_eq_true h⟩)
        · exact .inr (.inr (by simpa using h))

/-- Rights not gained are there already. -/
theorem not_gained {x y : WorkspaceCapabilities} (h : gainsCapability x y = false) :
    (y.write = true → x.write = true) ∧ (y.manageAccess = true → x.manageAccess = true) ∧
      (y.delete = true → x.delete = true) := by
  simp only [gainsCapability, Bool.or_eq_false_iff, Bool.and_eq_false_iff,
    Bool.not_eq_false'] at h
  obtain ⟨⟨⟨⟨hd, _⟩, hm⟩, _⟩, hw⟩ := h
  refine ⟨fun hy => ?_, fun hy => ?_, fun hy => ?_⟩
  · exact hw.resolve_left (by rw [hy]; decide)
  · exact hm.resolve_left (by rw [hy]; decide)
  · exact hd.resolve_left (by rw [hy]; decide)

/-- An access whose role and status give no right has none. -/
theorem rights_of_within (hy : ReadAccess y) (h : y.status ≠ .active ∨ y.role = none) :
    y.capabilities.write = false ∧ y.capabilities.manageAccess = false ∧
      y.capabilities.delete = false := by
  refine ⟨Bool.eq_false_iff.mpr fun hw => ?_, Bool.eq_false_iff.mpr fun hm => ?_,
    Bool.eq_false_iff.mpr fun hd => ?_⟩
  · obtain ⟨hs, hr⟩ := hy.write hw
    rcases h with h | h
    · exact h hs
    · rw [h] at hr
      rcases hr with hr | hr <;> cases hr
  · obtain ⟨hs, hr⟩ := hy.manageAccess hm
    rcases h with h | h
    · exact h hs
    · rw [h] at hr
      cases hr
  · obtain ⟨hs, hr⟩ := hy.delete hd
    rcases h with h | h
    · exact h hs
    · rw [h] at hr
      cases hr

/-- Revisions and deletion go forward with every answer applied. -/
theorem notOlder_step (hx : KnownAccess account x) (hy : KnownAccess account y)
    (h : shouldApplyWorkspaceAccess x y = true) : NotOlder x y := by
  rcases shouldApply_cases hx hy h with hlt | ⟨he, hcase⟩
  · exact ⟨hlt.le, fun _ _ => hlt⟩
  · refine ⟨he.le, fun hdel hnot => ?_⟩
    rcases hcase with ⟨hact, _⟩ | ⟨hs, _⟩
    · rw [hdel] at hact
      cases hact
    · exact absurd (hs.symm.trans hdel) hnot

/-- **One answer applied.** It may follow what was stored unless it lets an editor write where
    the owner could not. -/
theorem mayFollow_step (hx : KnownAccess account x) (hy : KnownAccess account y)
    (h : shouldApplyWorkspaceAccess x y = true) : MayFollow x y ↔ ¬ WriterAfterOwner x y := by
  constructor
  · rintro hn ⟨he, _, hw, _, hw'⟩
    rw [(hn.rights he).1 hw'] at hw
    cases hw
  · intro hbug
    refine ⟨notOlder_step hx hy h, fun he => ?_⟩
    have hnone : (y.status ≠ .active ∨ y.role = none) →
        (y.capabilities.write = true → x.capabilities.write = true) ∧
        (y.capabilities.manageAccess = true → x.capabilities.manageAccess = true) ∧
        (y.capabilities.delete = true → x.capabilities.delete = true) := by
      intro hno
      obtain ⟨h1, h2, h3⟩ := rights_of_within hy.within hno
      rw [h1, h2, h3]
      exact ⟨fun e => absurd e (by decide), fun e => absurd e (by decide),
        fun e => absurd e (by decide)⟩
    rcases shouldApply_cases hx hy h with hlt | ⟨_, hcase⟩
    · exact absurd he hlt.ne
    rcases hcase with ⟨_, hs⟩ | ⟨_, hr | ⟨old, new, hox, hny, hlt⟩ | hg⟩
    · exact hnone (.inl hs)
    · exact hnone (.inr hr)
    · -- a lower role: it manages nothing, and it writes only as an editor below an owner
      have hnew : new ≠ .owner := by
        rintro rfl
        cases old <;> simp [WorkspaceRole.rank] at hlt
      have howner : y.role ≠ some .owner := fun hr => hnew (Option.some.inj (hny.symm.trans hr))
      refine ⟨fun hw => ?_, fun hm => absurd (hy.within.manageAccess hm).2 howner,
        fun hd => absurd (hy.within.delete hd).2 howner⟩
      have hr := (hy.within.write hw).2.resolve_left howner
      obtain rfl := Option.some.inj (hny.symm.trans hr)
      have hold : old = .owner := by
        cases old <;> simp [WorkspaceRole.rank] at hlt ⊢
      by_contra hxw
      exact hbug ⟨he, hold ▸ hox, Bool.eq_false_iff.mpr hxw, hny, hw⟩
    · exact not_gained hg

end Step

/-! ## 3. Every run -/

section Run

variable {account : Option String}

/-- What is the same of every answer applied is the same of the whole run. -/
theorem applied_isChain_iff {R S : WorkspaceAccessState → WorkspaceAccessState → Prop}
    (hstep : ∀ x y, KnownAccess account x → KnownAccess account y →
      shouldApplyWorkspaceAccess x y = true → (R x y ↔ S x y))
    {x : WorkspaceAccessState} {cs : List WorkspaceAccessState} (hx : KnownAccess account x)
    (hcs : ∀ c ∈ cs, KnownAccess account c) :
    (applied x cs).IsChain R ↔ (applied x cs).IsChain S := by
  induction cs generalizing x with
  | nil => simp [applied]
  | cons c cs ih =>
      rw [List.forall_mem_cons] at hcs
      unfold applied
      split
      · rename_i h
        have hc := ih hcs.1 hcs.2
        obtain ⟨rest, hrest⟩ := applied_eq_cons c cs
        rw [hrest] at hc ⊢
        rw [List.isChain_cons_cons, List.isChain_cons_cons, hstep x c hx hcs.1 h, hc]
      · exact ih hx hcs.2

/-- The accesses stored over a run of answers about one account. -/
def accessRun (start : AccessCandidate account) (cs : List (AccessCandidate account)) :
    List WorkspaceAccessState :=
  applied start.access (cs.map AccessCandidate.access)

/-- **What a device knows of its access.** Whatever answers about one account arrive, in any
    order: the stored accesses are never older than those before them; and they never gain a
    right at the same revisions exactly when no answer that was applied makes an editor with write
    access of an owner without it. -/
theorem access_mayFollow (start : AccessCandidate account) (cs : List (AccessCandidate account)) :
    (accessRun start cs).Pairwise NotOlder ∧
      ((accessRun start cs).Pairwise MayFollow ↔
        (accessRun start cs).IsChain fun x y => ¬ WriterAfterOwner x y) := by
  have hcs : ∀ c ∈ cs.map AccessCandidate.access, KnownAccess account c := by
    intro c hc
    obtain ⟨c, _, rfl⟩ := List.mem_map.mp hc
    exact c.stored
  rw [← List.isChain_iff_pairwise, ← List.isChain_iff_pairwise]
  refine ⟨?_, applied_isChain_iff (fun x y => mayFollow_step) start.stored hcs⟩
  refine (applied_isChain_iff (S := fun _ _ => True) (fun x y hx hy h => ?_) start.stored hcs).mpr ?_
  · exact iff_of_true (notOlder_step hx hy h) trivial
  · exact (List.pairwise_of_forall fun _ _ => trivial).isChain

end Run

/-! ## 4. An owner who may not write -/

/-- An answer of the server about one account, at the first revisions. -/
def answer (role : String) (write : Bool) : JsValue :=
  .obj [("accountId", .str "user"), ("accessRevision", .num 1), ("kind", .str "server"),
    ("membershipRevision", .num 1), ("role", .str role), ("status", .str "active"),
    ("capabilities", .obj [("read", .bool true), ("write", .bool write)])]

/-- An owner's access without the right to write, then an editor's with it. -/
theorem access_gains : ∃ start c : AccessCandidate (some "user"),
    accessRun start [c] = [start.access, c.access] ∧
      start.access.revisions = c.access.revisions ∧
      start.access.capabilities.write = false ∧ c.access.capabilities.write = true := by
  refine ⟨⟨answer "owner" false, by decide +kernel, by decide +kernel⟩,
    ⟨answer "editor" true, by decide +kernel, by decide +kernel⟩, ?_, ?_, ?_, ?_⟩
  · decide +kernel
  · decide +kernel
  · decide +kernel
  · decide +kernel

end Stowplan
