/-
  File:      Stowplan/Governance/Owners.lean
  Subject:   NO AUTHORITY IS LOST: each workspace keeps an active owner, and the installation an
             active administrator.

  A statement that takes an owner away looks for another one first: in its own conditions, where
  it changes a membership, or in a trigger, where it changes an account.

  * `Kept`: who had an active owner has one, or is deleted;
  * `updateUser_kept`: by the triggers;
  * `setMemberRole_kept`, `deleteMember_kept`: where the member is not the last owner;
  * `Governed`: what is counted and keeps authority.
-/
import Stowplan.Governance.Membership
import Stowplan.Governance.Revisions

namespace Stowplan.Governance

open Tables

/-! ## 1. What is kept -/

namespace Tables

/-- The workspace has an owner whose account is active and not deleted. -/
def HasOwner (T : Tables) (workspaceId : String) : Prop :=
  ∃ userId, T.role workspaceId userId = some .owner ∧ T.live userId = true

/-- There is an active administrator. -/
def HasAdmin (T : Tables) : Prop := ∃ userId, T.activeAdmin userId = true

end Tables

/-- Owned workspaces stay owned or are deleted, and some administrator stays. -/
structure Kept (s t : Tables) : Prop where
  owners : ∀ w, s.HasOwner w → t.isDeleted w = true ∨ t.HasOwner w
  admins : s.HasAdmin → t.HasAdmin

theorem Kept.refl (s : Tables) : Kept s s := ⟨fun _ h => .inr h, id⟩

/-- Owners and administrators that are kept twice are kept. -/
theorem Kept.trans {s t u : Tables} (h : Kept s t) (h' : Kept t u)
    (hdeleted : ∀ w, t.isDeleted w = true → u.isDeleted w = true) : Kept s u := by
  refine ⟨fun w hw => ?_, fun ha => h'.admins (h.admins ha)⟩
  rcases h.owners w hw with hd | ho
  · exact .inl (hdeleted w hd)
  · exact h'.owners w ho

/-- A statement that changes no account, and takes no ownership. -/
theorem Kept.of_owners {s t : Tables} (hlive : ∀ u, t.live u = s.live u)
    (hadmin : ∀ u, t.activeAdmin u = s.activeAdmin u)
    (howners : ∀ w u, s.role w u = some .owner → t.role w u = some .owner) : Kept s t := by
  refine ⟨fun w => ?_, ?_⟩
  · rintro ⟨u, hr, hl⟩
    exact .inr ⟨u, howners w u hr, (hlive u).trans hl⟩
  · rintro ⟨u, hu⟩
    exact ⟨u, (hadmin u).trans hu⟩

/-- What a fact of the accounts says is the same where the facts are. -/
theorem any_of_map {α : Type} {o o' : Option User} {f : User → α} (h : o'.map f = o.map f)
    (q : α → Bool) : o'.any (fun u => q (f u)) = o.any fun u => q (f u) := by
  cases o <;> cases o' <;> simp_all

/-- Where the facts stay, they are kept. -/
theorem Kept.of_same {s t : Tables} (h : SameFacts s t) : Kept s t := by
  refine .of_owners (fun u => ?_) (fun u => ?_) fun w u hr => ?_
  · exact any_of_map (h.users u) fun x => decide (x.status = .active) && x.deletedAt.isNone
  · exact any_of_map (h.users u) fun x =>
      (decide (x.status = .active) && x.deletedAt.isNone) && decide (x.globalRole = .admin)
  · rw [h.members]
    exact hr

/-- **What the statements of the access operations do**: it is counted, and authority is kept. -/
structure Governed (s t : Tables) : Prop where
  counted : Counted s t
  kept : Kept s t

theorem Governed.refl {s : Tables} (h : Consistent s) : Governed s s := ⟨.refl h, .refl s⟩

/-- Governed changes follow one another. -/
theorem Governed.trans {s t u : Tables} (h : Governed s t) (h' : Governed t u) : Governed s u :=
  ⟨h.counted.trans h'.counted, h.kept.trans h'.kept h'.counted.witness.deleted⟩

theorem Governed.of_same {s t : Tables} (hc : Consistent s) (h : SameFacts s t) : Governed s t :=
  ⟨.of_same hc h, .of_same h⟩

/-! ## 2. Memberships -/

section Members

variable {T T' : Tables} {w u : String}

theorem any_update {p : User → Bool} {f : User → User} (hf : ∀ x, Row.key (f x) = Row.key x)
    (q : User → Bool) (hq : ∀ x, q (f x) = q x) (users : Table User) (x : String) :
    ((users.update p f hf).get x).any q = (users.get x).any q := by
  rw [Table.get_update]
  cases users.get x with
  | none => rfl
  | some y =>
      show q (if p y = true then f y else y) = q y
      split
      · exact hq y
      · rfl

/-- A change of a membership changes no account's standing. -/
theorem bumpMember_standing {members : Table Member}
    (h : Tables.bumpMember { T with members } w u = some T') :
    (∀ x, T'.live x = T.live x) ∧ (∀ x, T'.active x = T.active x) ∧
      ∀ x, T'.activeAdmin x = T.activeAdmin x := by
  have h := bumpMember_eq h
  subst h
  exact ⟨any_update User.bumpMembership_key User.isLive (fun _ => rfl) T.users,
    any_update User.bumpMembership_key User.isActive (fun _ => rfl) T.users,
    any_update User.bumpMembership_key User.isActiveAdmin (fun _ => rfl) T.users⟩

/-- The trigger of a membership changes revisions only. -/
theorem bumpMember_members {members : Table Member}
    (h : Tables.bumpMember { T with members } w u = some T') :
    T'.members = members ∧ T'.deletions = T.deletions := by
  have h := bumpMember_eq h
  subst h
  exact ⟨rfl, rfl⟩

/-- An active account is not deleted. -/
theorem Consistent.live_of_active (hc : Consistent T) (h : T.active u = true) :
    T.live u = true := by
  unfold Tables.active at h
  unfold Tables.live
  cases hu : T.users.get u with
  | none => rw [hu] at h; cases h
  | some x =>
      rw [hu] at h
      have hact : x.status = .active := by simpa [User.isActive] using h
      have hdel : x.deletedAt = none := by
        by_contra hne
        exact hc.deleted u x hu hne hact
      simp [User.isLive, User.isActive, hact, hdel]

theorem active_of_live (h : T.live u = true) : T.active u = true := by
  unfold Tables.live at h
  unfold Tables.active
  cases hu : T.users.get u with
  | none => rw [hu] at h; cases h
  | some x =>
      rw [hu] at h
      simp only [Option.any_some, User.isLive, Bool.and_eq_true] at h
      exact h.1

theorem role_some_iff {r : WorkspaceRole} :
    T.role w u = some r ↔ ∃ m, T.members.get (w, u) = some m ∧ m.role = r := by
  unfold Tables.role
  rw [Option.map_eq_some_iff]

/-- **Where more than one active owner is counted, another one than the member is found.** -/
theorem exists_otherOwner (hc : Consistent T) (hcount : 1 < T.ownerCount w)
    (hmember : T.role w u ≠ none) :
    ∃ v, v ≠ u ∧ T.role w v = some .owner ∧ T.live v = true := by
  obtain ⟨role, hrole⟩ := Option.ne_none_iff_exists'.mp hmember
  obtain ⟨m, hm, -⟩ := role_some_iff.mp hrole
  obtain ⟨⟨w', v⟩, r, hne, hr, hq⟩ := Table.exists_other_of_count hm hcount
  have hkey : (r.workspaceId, r.userId) = (w', v) := (Table.get_some hr).2
  obtain ⟨hw', hv⟩ := Prod.mk.inj hkey
  simp only [Bool.and_eq_true, decide_eq_true_eq] at hq
  obtain ⟨⟨hw, hrole⟩, hactive⟩ := hq
  have hww : w' = w := hw'.symm.trans hw
  refine ⟨v, fun h => hne (by rw [hww, h]), role_some_iff.mpr ⟨r, ?_, hrole⟩, ?_⟩
  · rw [← hww]
    exact hr
  · rw [← hv]
    exact hc.live_of_active hactive

/-- The workspace has an active owner other than the member, or did not have the member for
    one, or is deleted. -/
def Spare (T : Tables) (w u : String) : Prop :=
  T.isDeleted w = true ∨ ¬(T.role w u = some .owner ∧ T.live u = true) ∨
    ∃ v, v ≠ u ∧ T.role w v = some .owner ∧ T.live v = true

/-- The guard of a statement: the member is no owner, or not the last. -/
theorem spareOwner_spare (hc : Consistent T) (hmember : T.role w u ≠ none)
    (h : T.spareOwner w u = true) : Spare T w u := by
  simp only [Tables.spareOwner, Bool.or_eq_true, bne_iff_ne, Bool.not_eq_true',
    decide_eq_true_eq] at h
  rcases h with (hrole | hactive) | hcount
  · exact .inr (.inl fun h => hrole h.1)
  · refine .inr (.inl fun h => ?_)
    rw [active_of_live h.2] at hactive
    cases hactive
  · exact .inr (.inr (exists_otherOwner hc hcount hmember))

/-- A change of one membership, of a member that can be spared. -/
theorem Kept.of_spare {t : Tables} (hlive : ∀ x, t.live x = T.live x)
    (hadmin : ∀ x, t.activeAdmin x = T.activeAdmin x) (hdeletions : t.deletions = T.deletions)
    (hroles : ∀ w' u', (w', u') ≠ (w, u) → t.role w' u' = T.role w' u') (h : Spare T w u) :
    Kept T t := by
  refine ⟨fun w' => ?_, ?_⟩
  · rintro ⟨v, hr, hl⟩
    by_cases hkey : (w', v) = (w, u)
    · obtain ⟨rfl, rfl⟩ := Prod.mk.inj hkey
      rcases h with hd | hnot | ⟨x, hx, hrx, hlx⟩
      · refine .inl ?_
        unfold Tables.isDeleted
        rw [hdeletions]
        exact hd
      · exact absurd ⟨hr, hl⟩ hnot
      · refine .inr ⟨x, ?_, (hlive x).trans hlx⟩
        rw [hroles _ _ fun h => hx (Prod.mk.inj h).2]
        exact hrx
    · refine .inr ⟨v, ?_, (hlive v).trans hl⟩
      rw [hroles _ _ hkey]
      exact hr
  · rintro ⟨v, hv⟩
    exact ⟨v, (hadmin v).trans hv⟩

/-- What `setMemberRole` leaves of the roles. -/
theorem setMemberRole_role {role : WorkspaceRole} (h : T.setMemberRole w u role = some T')
    (w' u' : String) : T'.role w' u' =
      if (w', u') = (w, u) then (T.role w u).map fun _ => role else T.role w' u' := by
  unfold Tables.setMemberRole at h
  split at h
  · rename_i hrole
    cases h
    by_cases hkey : (w', u') = (w, u)
    · obtain ⟨rfl, rfl⟩ := Prod.mk.inj hkey
      rw [if_pos rfl]
      simp only [Bool.or_eq_true, decide_eq_true_eq] at hrole
      rcases hrole with hrole | hrole <;> rw [hrole] <;> rfl
    · rw [if_neg hkey]
  · unfold Tables.role
    rw [(bumpMember_members h).1, members_updated]
    by_cases hkey : (w', u') = (w, u)
    · obtain ⟨rfl, rfl⟩ := Prod.mk.inj hkey
      rw [if_pos rfl, if_pos rfl, Option.map_map, Option.map_map]
      rfl
    · rw [if_neg hkey, if_neg hkey]

/-- The roles after a member is gone. -/
theorem deleteMember_role (h : T.deleteMember w u = some T') (w' u' : String) :
    T'.role w' u' = if (w', u') = (w, u) then none else T.role w' u' := by
  unfold Tables.deleteMember at h
  split at h
  · rename_i hrole
    cases h
    by_cases hkey : (w', u') = (w, u)
    · obtain ⟨rfl, rfl⟩ := Prod.mk.inj hkey
      rw [if_pos rfl, hrole]
    · rw [if_neg hkey]
  · unfold Tables.role
    rw [(bumpMember_members h).1, members_deleted]
    by_cases hkey : (w', u') = (w, u)
    · rw [if_pos hkey, if_pos hkey]
      rfl
    · rw [if_neg hkey, if_neg hkey]

/-- The standing of the accounts, and the tombstones. -/
structure SameStanding (s t : Tables) : Prop where
  live : ∀ x, t.live x = s.live x
  active : ∀ x, t.active x = s.active x
  admin : ∀ x, t.activeAdmin x = s.activeAdmin x
  deletions : t.deletions = s.deletions

theorem SameStanding.refl (s : Tables) : SameStanding s s :=
  ⟨fun _ => rfl, fun _ => rfl, fun _ => rfl, rfl⟩

/-- Where the facts stay, live accounts stay live. -/
theorem SameFacts.live {s t : Tables} (h : SameFacts s t) (u : String) : t.live u = s.live u :=
  any_of_map (h.users u) fun x => decide (x.status = .active) && x.deletedAt.isNone

theorem bumpMember_sameStanding {members : Table Member}
    (h : Tables.bumpMember { T with members } w u = some T') : SameStanding T T' :=
  ⟨(bumpMember_standing h).1, (bumpMember_standing h).2.1, (bumpMember_standing h).2.2,
    (bumpMember_members h).2⟩

/-- A change of role leaves the accounts. -/
theorem setMemberRole_standing {role : WorkspaceRole}
    (h : T.setMemberRole w u role = some T') : SameStanding T T' := by
  unfold Tables.setMemberRole at h
  split at h
  · cases h
    exact .refl T
  · exact bumpMember_sameStanding h

theorem deleteMember_standing (h : T.deleteMember w u = some T') : SameStanding T T' := by
  unfold Tables.deleteMember at h
  split at h
  · cases h
    exact .refl T
  · exact bumpMember_sameStanding h

/-- A member is made an owner. -/
theorem setMemberRole_promoted (hc : Consistent T) (h : T.setMemberRole w u .owner = some T') :
    Governed T T' := by
  have hs := setMemberRole_standing h
  refine ⟨setMemberRole_counted hc h, .of_owners hs.live hs.admin fun w' u' hr => ?_⟩
  rw [setMemberRole_role h]
  by_cases hkey : (w', u') = (w, u)
  · obtain ⟨rfl, rfl⟩ := Prod.mk.inj hkey
    rw [if_pos rfl, hr]
    rfl
  · rw [if_neg hkey]
    exact hr

/-- Each statement keeps an owner: here a change of role. -/
theorem setMemberRole_governed {role : WorkspaceRole} (hc : Consistent T) (hspare : Spare T w u)
    (h : T.setMemberRole w u role = some T') : Governed T T' := by
  have hs := setMemberRole_standing h
  refine ⟨setMemberRole_counted hc h, .of_spare hs.live hs.admin hs.deletions (fun w' u' hne => ?_)
    hspare⟩
  rw [setMemberRole_role h, if_neg hne]

/-- A member who goes, if spare. -/
theorem deleteMember_governed (hc : Consistent T) (hspare : Spare T w u)
    (h : T.deleteMember w u = some T') : Governed T T' := by
  have hs := deleteMember_standing h
  refine ⟨deleteMember_counted hc h, .of_spare hs.live hs.admin hs.deletions (fun w' u' hne => ?_)
    hspare⟩
  rw [deleteMember_role h, if_neg hne]

/-- A new member. -/
theorem insertMember_governed {m : Member} (hc : Consistent T)
    (h : T.insertMember m = some T') : Governed T T' := by
  refine ⟨insertMember_counted hc h, ?_⟩
  obtain ⟨members, S, hm, -, hS, h⟩ := insertMember_cases h
  have hs := bumpMember_sameStanding hS
  have hkept : Kept T S := by
    refine .of_owners hs.live hs.admin fun w u hr => ?_
    unfold Tables.role
    rw [(bumpMember_members hS).1, Table.get_insert hm, if_neg]
    · exact hr
    · intro hkey
      rw [Tables.role, ← hkey, Table.insert_new hm] at hr
      cases hr
  rcases h with rfl | h
  · exact hkept
  · exact hkept.trans (.of_same (insertCustody_same h)) (insertCustody_same h).deleted

end Members

/-! ## 3. Accounts -/

section Accounts

variable {T T' : Tables} {u : String} {c : UserChange} {old : User}

/-- Who is live after an update of one account. -/
theorem Updated.live (h : Updated T u c old T') (x : String) :
    T'.live x = if x = u then (c.apply old).isLive else T.live x := by
  unfold Tables.live
  rw [h.users]
  by_cases hx : x = u
  · rw [if_pos hx, if_pos hx]
    rfl
  · rw [if_neg hx, if_neg hx]

/-- Who is an administrator after it. -/
theorem Updated.activeAdmin (h : Updated T u c old T') (x : String) :
    T'.activeAdmin x = if x = u then (c.apply old).isActiveAdmin else T.activeAdmin x := by
  unfold Tables.activeAdmin
  rw [h.users]
  by_cases hx : x = u
  · rw [if_pos hx, if_pos hx]
    rfl
  · rw [if_neg hx, if_neg hx]

theorem Updated.role (h : Updated T u c old T') (w x : String) : T'.role w x = T.role w x := by
  obtain ⟨users, snapshots, rfl⟩ := h.tables
  rfl

theorem Updated.isDeleted (h : Updated T u c old T') (w : String) :
    T'.isDeleted w = T.isDeleted w := by
  obtain ⟨users, snapshots, rfl⟩ := h.tables
  rfl

/-- **The triggers keep the owners**: an account that loses its standing owns nothing alone. -/
theorem Updated.owners (h : Updated T u c old T') (w : String) (hw : T.HasOwner w) :
    T'.isDeleted w = true ∨ T'.HasOwner w := by
  obtain ⟨v, hr, hl⟩ := hw
  have hguard := h.finalOwner
  by_cases hv : v = u
  · subst hv
    have hold : old.isLive = true := by
      rw [Tables.live, h.before] at hl
      exact hl
    by_cases hnew : (c.apply old).isLive = true
    · refine .inr ⟨v, (h.role w v).trans hr, ?_⟩
      rw [h.live, if_pos rfl]
      exact hnew
    · -- the guard has found another owner of each workspace that is not deleted
      simp only [Tables.finalOwner, hold, Bool.eq_false_iff.mpr hnew, Bool.not_false,
        Bool.true_and] at hguard
      obtain ⟨m, hm, hrole⟩ := role_some_iff.mp hr
      have hkey : (m.workspaceId, m.userId) = (w, v) := (Table.get_some hm).2
      obtain ⟨hmw, hmv⟩ := Prod.mk.inj hkey
      have huser : old.userId = v := (Table.get_some h.before).2
      by_cases hd : T.isDeleted w = true
      · rw [h.isDeleted]
        exact .inl hd
      · have hother : T.otherOwner w v = true := by
          by_contra hno
          rw [← Bool.not_eq_true] at hguard
          refine hguard (Table.any_iff.mpr ⟨(w, v), m, hm, ?_⟩)
          simp [hmw, hmv, huser, hrole, Bool.eq_false_iff.mpr hd, Bool.eq_false_iff.mpr hno]
        obtain ⟨⟨w', x⟩, r, hget, hq⟩ := Table.any_iff.mp hother
        have hrkey : (r.workspaceId, r.userId) = (w', x) := (Table.get_some hget).2
        obtain ⟨hrw, hrx⟩ := Prod.mk.inj hrkey
        simp only [Bool.and_eq_true, decide_eq_true_eq, bne_iff_ne] at hq
        obtain ⟨⟨⟨hqw, hqx⟩, hqrole⟩, hqlive⟩ := hq
        refine .inr ⟨x, ?_, ?_⟩
        · rw [h.role, ← hqw, hrw]
          exact role_some_iff.mpr ⟨r, hget, hqrole⟩
        · rw [h.live, if_neg (hrx ▸ hqx), ← hrx]
          exact hqlive
  · refine .inr ⟨v, (h.role w v).trans hr, ?_⟩
    rw [h.live, if_neg hv]
    exact hl

/-- **The triggers keep the administrators.** -/
theorem Updated.admins (h : Updated T u c old T') (hadmin : T.HasAdmin) : T'.HasAdmin := by
  obtain ⟨v, hv⟩ := hadmin
  by_cases hvu : v = u
  · subst hvu
    have hold : old.isActiveAdmin = true := by
      rw [Tables.activeAdmin, h.before] at hv
      exact hv
    by_cases hnew : (c.apply old).isActiveAdmin = true
    · refine ⟨v, ?_⟩
      rw [h.activeAdmin, if_pos rfl]
      exact hnew
    · have hguard := h.lastAdmin
      simp only [Tables.lastAdmin, hold, Bool.eq_false_iff.mpr hnew, Bool.not_false,
        Bool.true_and, decide_eq_false_iff_not, not_le] at hguard
      obtain ⟨x, r, hne, hget, hq⟩ := Table.exists_other_of_count h.before hguard
      refine ⟨x, ?_⟩
      rw [h.activeAdmin, if_neg hne, Tables.activeAdmin, hget]
      exact hq
  · refine ⟨v, ?_⟩
    rw [h.activeAdmin, if_neg hvu]
    exact hv

/-- An update that leaves the authority to someone. -/
theorem updateUser_governed (hc : Consistent T) (hsound : c.Sound T u)
    (h : T.updateUser u c = some T') : Governed T T' := by
  refine ⟨updateUser_counted hc hsound h, ?_⟩
  rcases updateUser_spec h with ⟨-, rfl⟩ | ⟨old, hu⟩
  · exact .refl _
  · exact ⟨hu.owners, hu.admins⟩

/-- A new account. -/
theorem insertUser_governed {x : User} (hc : Consistent T) (hx : x.deletedAt = none)
    (h : T.insertUser x = some T') : Governed T T' := by
  refine ⟨insertUser_counted hc hx h, ?_⟩
  obtain ⟨users, hu, rfl⟩ := insertUser_eq h
  have hsame : ∀ y q, (T.users.get y).any q = true → (users.get y).any q = true := by
    intro y q hy
    rw [Table.get_insert hu, if_neg]
    · exact hy
    · intro hkey
      rw [← hkey, Table.insert_new hu] at hy
      cases hy
  refine ⟨fun w => ?_, ?_⟩
  · rintro ⟨y, hr, hl⟩
    exact .inr ⟨y, hr, hsame y _ hl⟩
  · rintro ⟨y, hy⟩
    exact ⟨y, hsame y _ hy⟩

end Accounts

/-! ## 4. Guest links, workspaces and many rows -/

section Workspaces

variable {T T' : Tables} {w : String}

/-- A statement that leaves accounts and memberships as they are. -/
theorem Kept.of_tables (husers : T'.users = T.users) (hmembers : T'.members = T.members) :
    Kept T T' := by
  refine .of_owners (fun u => ?_) (fun u => ?_) fun w u hr => ?_
  · rw [Tables.live, husers]
    rfl
  · rw [Tables.activeAdmin, husers]
    rfl
  · rw [Tables.role, hmembers]
    exact hr

theorem bumpAccess_kept {guestLinks : Table GuestLink} {p : String → Bool}
    (h : Tables.bumpAccess { T with guestLinks } p = some T') : Kept T T' := by
  have h := bumpAccess_eq h
  subst h
  exact .of_tables rfl rfl

/-- A new link. -/
theorem insertGuestLink_governed {link : GuestLink} (hc : Consistent T)
    (h : T.insertGuestLink link = some T') : Governed T T' := by
  refine ⟨insertGuestLink_counted hc h, ?_⟩
  unfold Tables.insertGuestLink at h
  split at h
  · cases h
  · obtain ⟨guestLinks, -, h⟩ := Option.bind_eq_some_iff.mp h
    exact bumpAccess_kept h

/-- A used link. -/
theorem consumeLink_governed {id redemptionId : String} {consumedAt : Timestamp}
    (hc : Consistent T) (h : T.consumeLink id consumedAt redemptionId = some T') :
    Governed T T' := by
  refine ⟨consumeLink_counted hc h, ?_⟩
  unfold Tables.consumeLink at h
  split at h
  · split at h
    · cases h
    · exact bumpAccess_kept h
  · cases h
    exact .refl T

theorem revokeLink_governed {id : String} {revokedAt : Timestamp} (hc : Consistent T)
    (h : T.revokeLink id revokedAt = some T') : Governed T T' := by
  refine ⟨revokeLink_counted hc h, ?_⟩
  unfold Tables.revokeLink at h
  split at h
  · exact bumpAccess_kept h
  · cases h
    exact .refl T

theorem deleteLink_governed {id : String} (hc : Consistent T) (h : T.deleteLink id = some T') :
    Governed T T' := by
  refine ⟨deleteLink_counted hc h, ?_⟩
  unfold Tables.deleteLink at h
  split at h
  · exact bumpAccess_kept h
  · cases h
    exact .refl T

theorem insertSnapshot_governed {snapshot : Snapshot} (hc : Consistent T)
    (h : T.insertSnapshot snapshot = some T') : Governed T T' := by
  refine ⟨insertSnapshot_counted hc h, ?_⟩
  obtain ⟨snapshots, -, h⟩ := Option.bind_eq_some_iff.mp h
  cases h
  exact .of_tables rfl rfl

/-- The snapshot of a deleted workspace. -/
theorem deleteSnapshot_governed (hc : Consistent T) (hw : T.isDeleted w = true) :
    Governed T (T.deleteSnapshot w) :=
  ⟨deleteSnapshot_counted hc hw, .of_tables rfl rfl⟩

/-- **A statement over rows** keeps what it keeps on each of them. -/
theorem forRows_invariant {ρ : Type} {rows : List ρ} {statement : Tables → ρ → Option Tables}
    (I : Tables → Prop) (hI : I T)
    (hstatement : ∀ S S' r, r ∈ rows → I S → statement S r = some S' → I S')
    (h : T.forRows rows statement = some T') : I T' := by
  unfold Tables.forRows at h
  induction rows generalizing T with
  | nil =>
      cases h
      exact hI
  | cons r rows ih =>
      obtain ⟨S, hS, h⟩ := Option.bind_eq_some_iff.mp h
      exact ih (hstatement T S r List.mem_cons_self hI hS)
        (fun S S' r hr => hstatement S S' r (List.mem_cons_of_mem _ hr)) h

end Workspaces

end Stowplan.Governance
