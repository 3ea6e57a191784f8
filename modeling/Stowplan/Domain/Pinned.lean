/-
  File:      Stowplan/Domain/Pinned.lean
  Subject:   AREAS AND PINS HOLD while a plan is carried out.

  What a selection of areas and pins comes down to is read off the household anew before every
  step of a plan. A step changes the household; that the areas and the pins are the same after it
  is why the guard of one step protects what the guard of the next one looks at.

  * `Rehoming.resolved`: moving a container that the guard lets pass resolves to the same;
  * `resolved_of_kept`: so does moving an item;
  * `completion`: what completing a step does to the household;
  * `pins_hold`: over every run of steps of a plan the fixed spaces, the pinned items, what is in
    pinned spaces and what is outside the areas stay as they are.
-/
import Stowplan.Domain.Generated
import Stowplan.Lib.Ascent

namespace Stowplan

open Keyed Forest Relation

/-! ## 1. The way up from a location -/

section Ways

variable {places : List Place} {k d x y : String}

/-- A map returns a record with the key. -/
theorem mapGet_key {α : Type} {key : α → String} {id : String} {l : List α} {a : α}
    (h : mapGet key id l = some a) : a ∈ l ∧ key a = id :=
  ⟨mem_of_mapGet h, (findKey_some h).2⟩

/-- A key that is there has a record. -/
theorem exists_mapGet {α : Type} {key : α → String} {id : String} {l : List α}
    (h : id ∈ l.map key) : ∃ a, mapGet key id l = some a ∧ key a = id := by
  have hr : id ∈ l.reverse.map key := by
    rw [List.map_reverse]
    exact List.mem_reverse.mpr h
  obtain ⟨a, ha⟩ := exists_findKey hr
  exact ⟨a, ha, (findKey_some ha).2⟩

/-- What is right above a location, by identifiers. -/
def placeUp (places : List Place) (id : String) : Option String :=
  ((mapGet Place.id id places).bind (placeAbove places)).map (·.id)

theorem placeAbove_key {p q : Place} (h : placeAbove places p = some q) :
    mapGet Place.id q.id places = some q ∧ p.parentId = some q.id := by
  unfold placeAbove at h
  split at h
  · cases h
  · rename_i parentId hparent
    split at h
    · cases h
    · obtain ⟨-, hid⟩ := mapGet_key h
      rw [hid]
      exact ⟨h, hparent⟩

/-- One step up leads to the parent, which is there. -/
theorem placeUp_some (h : placeUp places x = some y) :
    ∃ p ∈ places, p.id = x ∧ p.parentId = some y ∧ y ∈ places.map (·.id) := by
  obtain ⟨q, hq, rfl⟩ := Option.map_eq_some_iff.mp h
  obtain ⟨p, hp, hpq⟩ := Option.bind_eq_some_iff.mp hq
  obtain ⟨hmem, hid⟩ := mapGet_key hp
  obtain ⟨hq, hparent⟩ := placeAbove_key hpq
  exact ⟨p, hmem, hid, hparent, List.mem_map_of_mem (mapGet_key hq).1⟩

/-- A location that has something above it is a location. -/
theorem mem_of_above (hy : y ∈ places.map (·.id)) (h : ReflTransGen (Above (placeUp places)) x y) :
    x ∈ places.map (·.id) := by
  rcases ReflTransGen.cases_head h with rfl | ⟨z, hz, -⟩
  · exact hy
  · obtain ⟨p, hp, rfl, -⟩ := placeUp_some hz
    exact List.mem_map_of_mem hp

/-- What is above a location is a location. -/
theorem above_mem (hx : x ∈ places.map (·.id)) (h : ReflTransGen (Above (placeUp places)) x y) :
    y ∈ places.map (·.id) := by
  rcases ReflTransGen.cases_tail h with rfl | ⟨z, -, hz⟩
  · exact hx
  · obtain ⟨_, _, _, _, hy⟩ := placeUp_some hz
    exact hy

/-- The ancestry is the climb along the parents. -/
theorem ancestry_eq (places : List Place) (id : String) :
    ancestry places id = climb (fun k => k) (placeUp places) (places.map (·.id)).length []
      ((mapGet Place.id id places).map (·.id)) := by
  unfold ancestry
  refine map_climb_keys (P := fun p => mapGet Place.id p.id places = some p) (fun p hp => ?_)
    fun p hp => ⟨?_, fun q hq => (placeAbove_key hq).1⟩
  · have hid := (mapGet_key hp).2
    rw [hid]
    exact hp
  · unfold placeUp
    rw [hp]
    rfl

/-- **The way up from a location** is what is above it. -/
theorem mem_ancestry (hac : Acyclic (Above (placeUp places))) (hx : x ∈ places.map (·.id)) :
    y ∈ ancestry places x ↔ ReflTransGen (Above (placeUp places)) x y := by
  obtain ⟨p, hp, hid⟩ := exists_mapGet hx
  rw [ancestry_eq, hp, Option.map_some, hid]
  refine mem_climb (fun a b hab => ?_) (fun a b hab => hac.ne hab) hx
  obtain ⟨_, _, _, _, hb⟩ := placeUp_some hab
  exact hb

/-! ## 2. A container put elsewhere -/

/-- A location of a household, put into another if it is the one with the identifier. -/
def Place.under (k d : String) (p : Place) : Place :=
  if p.id = k then { p with parentId := some d } else p

@[simp] theorem Place.under_id (k d : String) (p : Place) : (p.under k d).id = p.id := by
  unfold Place.under
  split <;> rfl

@[simp] theorem Place.under_active (k d : String) (p : Place) :
    (p.under k d).active = p.active := by
  unfold Place.under
  split <;> rfl

theorem Place.under_ne {p : Place} (h : p.id ≠ k) : p.under k d = p := if_neg h

/-- Moving a place keeps the ids. -/
theorem map_under_ids (k d : String) (places : List Place) :
    (places.map (Place.under k d)).map (·.id) = places.map (·.id) := by
  rw [List.map_map]
  exact List.map_congr_left fun p _ => Place.under_id k d p

/-- The place with an id after another has moved. -/
theorem mapGet_under (k d id : String) (places : List Place) :
    mapGet Place.id id (places.map (Place.under k d)) =
      (mapGet Place.id id places).map (Place.under k d) := by
  unfold mapGet
  rw [← List.map_reverse]
  exact findKey_map (Place.under_id k d) id _

/-- Putting a container elsewhere changes what is right above it. -/
theorem placeUp_under (hk : k ∈ places.map (·.id)) (hd : d ∈ places.map (·.id)) (hne : d ≠ "") :
    placeUp (places.map (Place.under k d)) = Function.update (placeUp places) k (some d) := by
  funext id
  unfold placeUp
  rw [mapGet_under]
  by_cases hid : id = k
  · subst hid
    rw [Function.update_self]
    obtain ⟨p, hp, hpid⟩ := exists_mapGet hk
    obtain ⟨q, hq, hqid⟩ := exists_mapGet hd
    have hup : p.under id d = { p with parentId := some d } := if_pos hpid
    have habove : placeAbove (places.map (Place.under id d)) (p.under id d) =
        some (q.under id d) := by
      rw [hup]
      unfold placeAbove
      dsimp only
      rw [if_neg hne, mapGet_under, hq]
      rfl
    rw [hp, Option.map_some, Option.bind_some, habove, Option.map_some, Place.under_id, hqid]
  · rw [Function.update_of_ne hid]
    cases hp : mapGet Place.id id places with
    | none => rfl
    | some p =>
        have hpid := (mapGet_key hp).2
        rw [Option.map_some, Option.bind_some, Option.bind_some,
          Place.under_ne (hpid ▸ hid : p.id ≠ k)]
        unfold placeAbove
        split
        · rfl
        · split
          · rfl
          · rw [mapGet_under, Option.map_map]
            exact congrArg (fun f => Option.map f _) (funext fun q => Place.under_id k d q)

/-- A way up that does not pass the container stays. -/
theorem ancestry_under (hk : k ∈ places.map (·.id)) (hd : d ∈ places.map (·.id)) (hne : d ≠ "")
    (hpass : k ∉ ancestry places x) :
    ancestry (places.map (Place.under k d)) x = ancestry places x := by
  have hstart : (mapGet Place.id x (places.map (Place.under k d))).map (·.id) =
      (mapGet Place.id x places).map (·.id) := by
    rw [mapGet_under, Option.map_map]
    exact congrArg (fun f => Option.map f _) (funext fun q => Place.under_id k d q)
  rw [ancestry_eq, ancestry_eq, placeUp_under hk hd hne, map_under_ids, hstart]
  refine climb_congr fun y hy => Function.update_of_ne ?_ _ _
  intro heq
  rw [heq, ← ancestry_eq] at hy
  exact hpass hy

end Ways

/-! ## 3. What a selection comes down to -/

attribute [ext] Resolved

/-- The active locations. -/
def Household.live (h : Household) : List Place := h.places.filter (·.active)

/-- The location is one of the roots, or inside one. -/
def isInside (places : List Place) (roots : List String) (l : Place) : Bool :=
  (ancestry places l.id).any (roots.contains ·)

/-- A place is inside of some roots iff one of them is above it, or itself. -/
theorem isInside_iff {places : List Place} (hac : Acyclic (Above (placeUp places)))
    {roots : List String} {l : Place} (hl : l.id ∈ places.map (·.id)) :
    isInside places roots l = true ↔
      ∃ r, r ∈ roots ∧ ReflTransGen (Above (placeUp places)) l.id r := by
  unfold isInside
  rw [List.any_eq_true]
  constructor
  · intro h
    obtain ⟨r, hr, hin⟩ := h
    exact ⟨r, List.contains_iff_mem.mp hin, (mem_ancestry hac hl).mp hr⟩
  · intro h
    obtain ⟨r, hin, hr⟩ := h
    exact ⟨r, (mem_ancestry hac hl).mpr hr, List.contains_iff_mem.mpr hin⟩

/-- The way up from a location begins with it. -/
theorem ancestry_cons {places : List Place} {x : String} (hx : x ∈ places.map (·.id)) :
    ∃ rest, ancestry places x = x :: rest := by
  obtain ⟨p, hp, hid⟩ := exists_mapGet hx
  obtain ⟨n, hn⟩ := Nat.exists_eq_succ_of_ne_zero (List.length_pos_of_mem hx).ne'
  rw [ancestry_eq, hp, Option.map_some, hid, hn]
  unfold climb
  rw [if_neg List.not_mem_nil]
  exact ⟨_, rfl⟩

theorem mem_of_ancestry {places : List Place} {x y : String} (h : y ∈ ancestry places x) :
    x ∈ places.map (·.id) := by
  rw [ancestry_eq] at h
  cases hp : mapGet Place.id x places with
  | none =>
      rw [hp, Option.map_none, climb_none] at h
      cases h
  | some p =>
      obtain ⟨hmem, hid⟩ := mapGet_key hp
      exact hid ▸ List.mem_map_of_mem hmem

/-- Above what is above is above. -/
theorem ancestry_trans {places : List Place} (hac : Acyclic (Above (placeUp places)))
    {x y z : String} (hxy : y ∈ ancestry places x) (hyz : z ∈ ancestry places y) :
    z ∈ ancestry places x := by
  have hx := mem_of_ancestry hxy
  rw [mem_ancestry hac hx] at hxy ⊢
  rw [mem_ancestry hac (mem_of_ancestry hyz)] at hyz
  exact hxy.trans hyz

section Resolving

variable (h : Household) (sel : PlanSelection)

/-- `resolvePlanSelection`, field by field. -/
theorem resolved_locationIds : (resolvePlanSelection h (some sel)).locationIds =
    (h.live.filter fun l => sel.locationIds.isNone ||
      isInside h.live (sel.locationIds.getD []) l).map (·.id) := rfl

theorem resolved_pinnedLocationIds : (resolvePlanSelection h (some sel)).pinnedLocationIds =
    (h.live.filter (isInside h.live sel.pinnedLocationIds)).map (·.id) := rfl

theorem resolved_pinnedItemIds : (resolvePlanSelection h (some sel)).pinnedItemIds =
    sel.pinnedItemIds ++ (h.things.filter fun t =>
      (resolvePlanSelection h (some sel)).pinnedLocationIds.contains t.locationId).map (·.id) :=
  rfl

theorem resolved_fixedLocationIds : (resolvePlanSelection h (some sel)).fixedLocationIds =
    (resolvePlanSelection h (some sel)).pinnedLocationIds ++
      ((h.things.filter fun t => t.active &&
          (resolvePlanSelection h (some sel)).pinnedItemIds.contains t.id).flatMap fun t =>
        ancestry h.live t.locationId) ++
      sel.pinnedLocationIds.flatMap (ancestry h.live) ++
      (sel.locationIds.getD []).flatMap fun root =>
        if ((ancestry h.live root).drop 1).any ((sel.locationIds.getD []).contains ·) then []
        else ancestry h.live root := rfl

end Resolving

section Fixed

variable {h : Household} {sel : PlanSelection} {k x : String}

theorem mem_area (hac : Acyclic (Above (placeUp h.live))) (hx : x ∈ h.live.map (·.id)) :
    x ∈ (resolvePlanSelection h (some sel)).locationIds ↔ sel.locationIds = none ∨
      ∃ r, r ∈ sel.locationIds.getD [] ∧ ReflTransGen (Above (placeUp h.live)) x r := by
  obtain ⟨l, hl, rfl⟩ := List.mem_map.mp hx
  rw [resolved_locationIds, List.mem_map]
  constructor
  · intro hin
    obtain ⟨m, hm, heq⟩ := hin
    obtain ⟨hmem, hmark⟩ := List.mem_filter.mp hm
    rw [Bool.or_eq_true, Option.isNone_iff_eq_none,
      isInside_iff hac (List.mem_map_of_mem hmem), heq] at hmark
    exact hmark
  · intro hin
    refine ⟨l, List.mem_filter.mpr ⟨hl, ?_⟩, rfl⟩
    rw [Bool.or_eq_true, Option.isNone_iff_eq_none, isInside_iff hac hx]
    exact hin

theorem mem_pinned (hac : Acyclic (Above (placeUp h.live))) (hx : x ∈ h.live.map (·.id)) :
    x ∈ (resolvePlanSelection h (some sel)).pinnedLocationIds ↔
      ∃ r, r ∈ sel.pinnedLocationIds ∧ ReflTransGen (Above (placeUp h.live)) x r := by
  obtain ⟨l, hl, rfl⟩ := List.mem_map.mp hx
  rw [resolved_pinnedLocationIds, List.mem_map]
  constructor
  · intro hin
    obtain ⟨m, hm, heq⟩ := hin
    obtain ⟨hmem, hmark⟩ := List.mem_filter.mp hm
    rw [isInside_iff hac (List.mem_map_of_mem hmem), heq] at hmark
    exact hmark
  · intro hin
    exact ⟨l, List.mem_filter.mpr ⟨hl, (isInside_iff hac hx).mpr hin⟩, rfl⟩

theorem pinned_live (hx : x ∈ (resolvePlanSelection h (some sel)).pinnedLocationIds) :
    x ∈ h.live.map (·.id) := by
  rw [resolved_pinnedLocationIds] at hx
  obtain ⟨l, hl, rfl⟩ := List.mem_map.mp hx
  exact List.mem_map_of_mem (List.mem_filter.mp hl).1

/-- The location is on no way up that has to stay. -/
structure Free (h : Household) (sel : PlanSelection) (k : String) : Prop where
  pinned : k ∉ (resolvePlanSelection h (some sel)).pinnedLocationIds
  items : ∀ t ∈ h.things, t.active = true →
    t.id ∈ (resolvePlanSelection h (some sel)).pinnedItemIds → k ∉ ancestry h.live t.locationId
  pins : ∀ r ∈ sel.pinnedLocationIds, k ∉ ancestry h.live r
  roots : ∀ r ∈ sel.locationIds.getD [], k ∈ ancestry h.live r →
    ((ancestry h.live r).drop 1).any ((sel.locationIds.getD []).contains ·) = true

theorem free_of_not_fixed
    (hk : k ∉ (resolvePlanSelection h (some sel)).fixedLocationIds) : Free h sel k := by
  rw [resolved_fixedLocationIds] at hk
  simp only [List.mem_append, not_or, List.mem_flatMap, not_exists, not_and, List.mem_filter,
    Bool.and_eq_true, List.contains_iff_mem] at hk
  obtain ⟨⟨⟨hpinned, hitems⟩, hpins⟩, hroots⟩ := hk
  refine ⟨hpinned, fun t ht hact hin => hitems t ⟨ht, hact, hin⟩, hpins, fun r hr hin => ?_⟩
  by_contra hany
  refine hroots r hr ?_
  rw [if_neg hany]
  exact hin

/-- **What has to stay stays on its way up**: no such way passes a location that is free. -/
theorem fixed_closed (hac : Acyclic (Above (placeUp h.live)))
    (hk : k ∉ (resolvePlanSelection h (some sel)).fixedLocationIds)
    (hx : x ∈ (resolvePlanSelection h (some sel)).fixedLocationIds) :
    k ∉ ancestry h.live x := by
  have hfree := free_of_not_fixed hk
  intro hpass
  rw [resolved_fixedLocationIds] at hx
  simp only [List.mem_append, List.mem_flatMap, List.mem_filter, Bool.and_eq_true,
    List.contains_iff_mem] at hx
  rcases hx with ((hpin | hitem) | hpin) | hroot
  · have hlive := pinned_live hpin
    obtain ⟨r, hr, hxr⟩ := (mem_pinned hac hlive).mp hpin
    have hxk := (mem_ancestry hac hlive).mp hpass
    rcases Above.total hxk hxr with hkr | hrk
    · exact hfree.pinned ((mem_pinned hac (above_mem hlive hxk)).mpr ⟨r, hr, hkr⟩)
    · exact hfree.pins r hr ((mem_ancestry hac (above_mem hlive hxr)).mpr hrk)
  · obtain ⟨t, ⟨ht, hact, hin⟩, hxt⟩ := hitem
    exact hfree.items t ht hact hin (ancestry_trans hac hxt hpass)
  · obtain ⟨r, hr, hxr⟩ := hpin
    exact hfree.pins r hr (ancestry_trans hac hxr hpass)
  · obtain ⟨r, hr, hxr⟩ := hroot
    split at hxr
    · cases hxr
    · rename_i hany
      exact hany (hfree.roots r hr (ancestry_trans hac hxr hpass))

end Fixed

/-! ## 4. Moves that the guard lets pass -/

/-- The household with a container put elsewhere. -/
def Household.rehome (h : Household) (k d : String) : Household :=
  { h with places := h.places.map (Place.under k d) }

theorem live_rehome (h : Household) (k d : String) :
    (h.rehome k d).live = h.live.map (Place.under k d) := by
  unfold Household.live Household.rehome
  rw [List.filter_map]
  exact congrArg (List.map _) (List.filter_congr fun p _ => Place.under_active k d p)

theorem ids_filter_under {places : List Place} {p q : Place → Bool} {k d : String}
    (h : ∀ l ∈ places, q (l.under k d) = p l) :
    ((places.map (Place.under k d)).filter q).map (·.id) = (places.filter p).map (·.id) := by
  rw [List.filter_map, List.map_map]
  have hfilter : places.filter (q ∘ Place.under k d) = places.filter p := List.filter_congr h
  rw [hfilter]
  exact List.map_congr_left fun l _ => Place.under_id k d l

/-- A move of a container that the guard lets pass. -/
structure Rehoming (h : Household) (sel : PlanSelection) (k d : String) : Prop where
  acyclic : Acyclic (Above (placeUp h.live))
  container : k ∈ h.live.map (·.id)
  destination : d ∈ h.live.map (·.id)
  named : d ≠ ""
  outside : ¬ ReflTransGen (Above (placeUp h.live)) d k
  area : k ∈ (resolvePlanSelection h (some sel)).locationIds
  unfixed : k ∉ (resolvePlanSelection h (some sel)).fixedLocationIds
  receiving : d ∈ (resolvePlanSelection h (some sel)).locationIds
  unpinned : d ∉ (resolvePlanSelection h (some sel)).pinnedLocationIds

section Rehome

variable {h : Household} {sel : PlanSelection} {k d : String}

theorem Rehoming.up (hr : Rehoming h sel k d) :
    placeUp (h.rehome k d).live = Function.update (placeUp h.live) k (some d) := by
  rw [live_rehome]
  exact placeUp_under hr.container hr.destination hr.named

theorem Rehoming.acyclic_after (hr : Rehoming h sel k d) :
    Acyclic (Above (placeUp (h.rehome k d).live)) := by
  rw [hr.up]
  refine hr.acyclic.insert (fun a b hab => ?_) hr.outside
  by_cases hak : a = k
  · subst hak
    have hb : Above (Function.update (placeUp h.live) a (some d)) a d :=
      Function.update_self a _ _
    exact .inr ⟨rfl, hab.unique hb⟩
  · exact .inl ((Above.update_ne hak).mp hab)

theorem Rehoming.live_ids (h : Household) (k d : String) :
    (h.rehome k d).live.map (·.id) = h.live.map (·.id) := by
  rw [live_rehome, map_under_ids]

/-- A location is inside one of some roots after the move if and only if it was before, where the
    two relations of `Lib.Ascent` are the same. -/
theorem Rehoming.isInside_congr (hr : Rehoming h sel k d) {roots : List String}
    (hsame : ∀ x, (∃ r, r ∈ roots ∧
        ReflTransGen (Above (Function.update (placeUp h.live) k (some d))) x r) ↔
      ∃ r, r ∈ roots ∧ ReflTransGen (Above (placeUp h.live)) x r)
    {l : Place} (hl : l ∈ h.live) :
    isInside (h.rehome k d).live roots (l.under k d) = isInside h.live roots l := by
  have hid : l.id ∈ h.live.map (·.id) := List.mem_map_of_mem hl
  refine Bool.eq_iff_iff.mpr ?_
  rw [isInside_iff hr.acyclic hid, isInside_iff hr.acyclic_after, Place.under_id, hr.up]
  · exact hsame l.id
  · rw [Rehoming.live_ids, Place.under_id]
    exact hid

theorem Rehoming.pinnedLocationIds (hr : Rehoming h sel k d) :
    (resolvePlanSelection (h.rehome k d) (some sel)).pinnedLocationIds =
      (resolvePlanSelection h (some sel)).pinnedLocationIds := by
  have hfree := free_of_not_fixed hr.unfixed
  rw [resolved_pinnedLocationIds, resolved_pinnedLocationIds]
  have hin : ∀ r, r ∈ sel.pinnedLocationIds → ¬ ReflTransGen (Above (placeUp h.live)) r k :=
    fun r hp hrk => hfree.pins r hp
      ((mem_ancestry hr.acyclic (mem_of_above hr.container hrk)).mpr hrk)
  have hk : ∀ r, r ∈ sel.pinnedLocationIds → ¬ ReflTransGen (Above (placeUp h.live)) k r :=
    fun r hp hkr => hfree.pinned ((mem_pinned hr.acyclic hr.container).mpr ⟨r, hp, hkr⟩)
  have hd : ∀ r, r ∈ sel.pinnedLocationIds → ¬ ReflTransGen (Above (placeUp h.live)) d r :=
    fun r hp hdr => hr.unpinned ((mem_pinned hr.acyclic hr.destination).mpr ⟨r, hp, hdr⟩)
  conv_lhs => rw [live_rehome]
  exact ids_filter_under fun l hl => live_rehome h k d ▸
    hr.isInside_congr (fun x => Above.marked_of_neither hr.outside hin hk hd) hl

theorem Rehoming.locationIds (hr : Rehoming h sel k d) :
    (resolvePlanSelection (h.rehome k d) (some sel)).locationIds =
      (resolvePlanSelection h (some sel)).locationIds := by
  rw [resolved_locationIds, resolved_locationIds]
  conv_lhs => rw [live_rehome]
  refine ids_filter_under fun l hl => ?_
  rcases (mem_area hr.acyclic hr.container).mp hr.area with hnone | hk
  · rw [hnone]
    rfl
  · rcases (mem_area hr.acyclic hr.destination).mp hr.receiving with hnone | hd
    · rw [hnone]
      rfl
    · rw [← live_rehome,
        hr.isInside_congr (fun x => Above.marked_of_both hr.outside hk hd) hl]

theorem Rehoming.ways (hr : Rehoming h sel k d) {x : String}
    (hpass : k ∉ ancestry h.live x) :
    ancestry (h.rehome k d).live x = ancestry h.live x := by
  rw [live_rehome]
  exact ancestry_under hr.container hr.destination hr.named hpass

/-- A root of an area that is inside the container has a root above it before and after. -/
theorem Rehoming.inner_root (hr : Rehoming h sel k d) {r : String}
    (hroot : r ∈ sel.locationIds.getD []) (hrk : k ∈ ancestry h.live r) :
    ((ancestry (h.rehome k d).live r).drop 1).any
      ((sel.locationIds.getD []).contains ·) = true := by
  have hr_live := mem_of_ancestry hrk
  have hr_live' : r ∈ (h.rehome k d).live.map (·.id) := by
    rw [Rehoming.live_ids]
    exact hr_live
  rw [mem_ancestry hr.acyclic hr_live] at hrk
  rcases (mem_area hr.acyclic hr.destination).mp hr.receiving with hnone | hd
  · rw [hnone] at hroot
    cases hroot
  · obtain ⟨q, hq, hdq⟩ := hd
    have hrq : q ∈ ancestry (h.rehome k d).live r := by
      rw [mem_ancestry hr.acyclic_after hr_live', hr.up]
      exact Above.update_new hr.outside hrk hdq
    obtain ⟨rest, hrest⟩ := ancestry_cons hr_live'
    rw [hrest] at hrq ⊢
    rcases List.mem_cons.mp hrq with heq | hin
    · rw [heq] at hdq
      exact absurd (hdq.trans hrk) hr.outside
    · exact List.any_eq_true.mpr ⟨q, hin, List.contains_iff_mem.mpr hq⟩

/-- **Moving a container that the guard lets pass** leaves what the selection comes down to. -/
theorem Rehoming.resolved (hr : Rehoming h sel k d) :
    resolvePlanSelection (h.rehome k d) (some sel) = resolvePlanSelection h (some sel) := by
  have hfree := free_of_not_fixed hr.unfixed
  have hitems : (resolvePlanSelection (h.rehome k d) (some sel)).pinnedItemIds =
      (resolvePlanSelection h (some sel)).pinnedItemIds := by
    rw [resolved_pinnedItemIds, resolved_pinnedItemIds, hr.pinnedLocationIds]
    rfl
  refine Resolved.ext ?_ hr.locationIds hitems hr.pinnedLocationIds
  rw [resolved_fixedLocationIds, resolved_fixedLocationIds, hr.pinnedLocationIds, hitems]
  refine congrArg₂ _ (congrArg₂ _ (congrArg _ ?_) ?_) ?_
  · refine List.flatMap_congr fun t ht => ?_
    obtain ⟨ht, hin⟩ := List.mem_filter.mp ht
    rw [Bool.and_eq_true, List.contains_iff_mem] at hin
    exact hr.ways (hfree.items t ht hin.1 hin.2)
  · exact List.flatMap_congr fun r hp => hr.ways (hfree.pins r hp)
  · refine List.flatMap_congr fun r hroot => ?_
    by_cases hrk : k ∈ ancestry h.live r
    · rw [if_pos (hr.inner_root hroot hrk), if_pos (hfree.roots r hroot hrk)]
    · rw [hr.ways hrk]

end Rehome

/-! ## 5. What a step leaves alone -/

/-- The item may not be moved, or may not be where something is moved. -/
def Resolved.keepsThing (r : Resolved) (t : Thing) : Bool :=
  r.pinnedItemIds.contains t.id || r.pinnedLocationIds.contains t.locationId ||
    !r.locationIds.contains t.locationId

/-- The location may not be moved. -/
def Resolved.keepsPlace (r : Resolved) (p : Place) : Bool :=
  r.fixedLocationIds.contains p.id || !r.locationIds.contains p.id

/-- What is to be left alone is the same in both households: it is there, and nothing came to it. -/
structure Resolved.Kept (r : Resolved) (h h' : Household) : Prop where
  things : h'.things.filter r.keepsThing = h.things.filter r.keepsThing
  places : h'.places.filter r.keepsPlace = h.places.filter r.keepsPlace
  ways : ∀ id ∈ r.fixedLocationIds, ancestry h'.live id = ancestry h.live id

theorem Resolved.Kept.refl (r : Resolved) (h : Household) : r.Kept h h :=
  ⟨rfl, rfl, fun _ _ => rfl⟩

theorem Resolved.Kept.trans {r : Resolved} {h h' h'' : Household} (a : r.Kept h h')
    (b : r.Kept h' h'') : r.Kept h h'' :=
  ⟨b.things.trans a.things, b.places.trans a.places,
    fun id hid => (b.ways id hid).trans (a.ways id hid)⟩

section Leaving

variable {h : Household} {sel : PlanSelection} {k d : String}

theorem filter_of_filter {α : Type} {p q : α → Bool} {l m : List α}
    (hqp : ∀ a, q a = true → p a = true) (h : l.filter p = m.filter p) :
    l.filter q = m.filter q := by
  have hboth : ∀ l : List α, (l.filter p).filter q = l.filter q := by
    intro l
    rw [List.filter_filter]
    refine List.filter_congr fun a _ => ?_
    cases hq : q a with
    | false => rfl
    | true => rw [hqp a hq, Bool.and_self]
  rw [← hboth l, ← hboth m, h]

/-- Where the items to be left alone are the same, the selection comes down to the same. -/
theorem resolved_of_things {things : List Thing}
    (hthings : things.filter (resolvePlanSelection h (some sel)).keepsThing =
      h.things.filter (resolvePlanSelection h (some sel)).keepsThing) :
    resolvePlanSelection { h with things } (some sel) = resolvePlanSelection h (some sel) := by
  have hpinned : (resolvePlanSelection { h with things } (some sel)).pinnedLocationIds =
      (resolvePlanSelection h (some sel)).pinnedLocationIds := rfl
  have hitems : (resolvePlanSelection { h with things } (some sel)).pinnedItemIds =
      (resolvePlanSelection h (some sel)).pinnedItemIds := by
    rw [resolved_pinnedItemIds, resolved_pinnedItemIds, hpinned]
    refine congrArg (fun ts => sel.pinnedItemIds ++ List.map (·.id) ts)
      (filter_of_filter (fun t ht => ?_) hthings)
    unfold Resolved.keepsThing
    rw [ht, Bool.or_true, Bool.true_or]
  refine Resolved.ext ?_ rfl hitems hpinned
  rw [resolved_fixedLocationIds, resolved_fixedLocationIds, hpinned, hitems]
  refine congrArg (fun ts : List Thing => _ ++ List.flatMap (fun t => ancestry h.live t.locationId)
    ts ++ _ ++ _) (filter_of_filter (fun t ht => ?_) hthings)
  rw [Bool.and_eq_true] at ht
  unfold Resolved.keepsThing
  rw [ht.2, Bool.true_or, Bool.true_or]

theorem kept_of_things {things : List Thing} {r : Resolved}
    (hthings : things.filter r.keepsThing = h.things.filter r.keepsThing) :
    r.Kept h { h with things } :=
  ⟨hthings, rfl, fun _ _ => rfl⟩

/-- Moving a container leaves what has to stay. -/
theorem Rehoming.kept (hr : Rehoming h sel k d) :
    (resolvePlanSelection h (some sel)).Kept h (h.rehome k d) := by
  refine ⟨rfl, ?_, fun id hid => hr.ways (fixed_closed hr.acyclic hr.unfixed hid)⟩
  have hnot : ∀ p : Place, p.id = k →
      (resolvePlanSelection h (some sel)).keepsPlace p = false := by
    intro p hp
    unfold Resolved.keepsPlace
    rw [hp, Bool.or_eq_false_iff, Bool.not_eq_false', List.contains_iff_mem,
      ← Bool.not_eq_true, List.contains_iff_mem]
    exact ⟨hr.unfixed, hr.area⟩
  unfold Household.rehome
  dsimp only
  rw [List.filter_map]
  have hfilter : h.places.filter ((resolvePlanSelection h (some sel)).keepsPlace ∘
      Place.under k d) = h.places.filter (resolvePlanSelection h (some sel)).keepsPlace := by
    refine List.filter_congr fun p _ => ?_
    unfold Resolved.keepsPlace
    rw [Function.comp_apply, Place.under_id]
  rw [hfilter]
  refine (List.map_congr_left fun p hp => ?_).trans (List.map_id _)
  refine Place.under_ne fun heq => ?_
  have hkeep := (List.mem_filter.mp hp).2
  rw [hnot p heq] at hkeep
  cases hkeep

end Leaving

/-! ## 6. Completing a step -/

/-- An item of a household, put into another location if it is the one with the identifier. -/
def Thing.into (id d : String) (t : Thing) : Thing :=
  if t.id = id then { t with locationId := d } else t

/-- What completing a step of a plan does to the household: a container goes into another
    location, or an item does, or it is merged into one that is there. -/
inductive Carried (s : WorkspaceState) (step : PlanStep) (h' : Household) : Prop where
  | container {l m : Location} (hl : findLocation s l.id = some l) (hact : l.active = true)
      (htype : step.type = .location) (hlocation : step.locationId = some l.id)
      (hdest : findLocation s step.destinationId = some m) (hreceives : m.active = true)
      (houtside : ¬ ReflTransGen (Under s) step.destinationId l.id)
      (heq : h' = s.household.rehome l.id step.destinationId)
  | item {i : ItemRecord} (hi : findItem s i.id = some i) (htype : step.type = .item)
      (hitem : step.itemId = some i.id) (hsource : i.locationId = step.sourceId)
      (heq : h' = { s.household with
          things := s.household.things.map (Thing.into i.id step.destinationId) } ∨
        h' = { s.household with things := s.household.things.filter fun t => t.id ≠ i.id })

section Households

variable {s : WorkspaceState}

theorem household_setProgress (s : WorkspaceState) (ids : List String) (timestamp : String) :
    (s.setProgress ids timestamp).household = s.household := by
  unfold WorkspaceState.household WorkspaceState.setProgress mapKeys
  dsimp only
  rw [List.map_map]
  refine congrArg (fun ps => Household.mk ps _) (List.map_congr_left fun l _ => ?_)
  show Location.place (if _ then _ else _) = _
  split <;> rfl

theorem places_putLocation (hu : Unique s) {l k : Location} (hl : findLocation s l.id = some l)
    (hid : k.id = l.id) {d : String} (hplace : k.place = { l.place with parentId := some d }) :
    (s.putLocation k).locations.map Location.place =
      (s.locations.map Location.place).map (Place.under l.id d) := by
  show (replaceKey Location.id k s.locations).map _ = _
  unfold replaceKey
  rw [List.map_map, List.map_map]
  refine List.map_congr_left fun m hm => ?_
  show Location.place (if m.id = k.id then k else m) = Place.under l.id d m.place
  by_cases hmk : m.id = l.id
  · have heq : m = l := eq_of_key_eq hu.locations hm (findLocation_mem hl).1 hmk
    rw [if_pos (hmk.trans hid.symm), hplace, heq]
    exact (if_pos rfl).symm
  · rw [if_neg (hid ▸ hmk)]
    exact (Place.under_ne hmk).symm

theorem things_putItem (hu : Unique s) {i j : ItemRecord} (hi : findItem s i.id = some i)
    (hid : j.id = i.id) {f : Thing → Thing} (hthing : j.thing = f i.thing)
    (hother : ∀ t : Thing, t.id ≠ i.id → f t = t) :
    (s.putItem j).items.map ItemRecord.thing = (s.items.map ItemRecord.thing).map f := by
  show (replaceKey ItemRecord.id j s.items).map _ = _
  unfold replaceKey
  rw [List.map_map, List.map_map]
  refine List.map_congr_left fun m hm => ?_
  show ItemRecord.thing (if m.id = j.id then j else m) = f m.thing
  by_cases hmi : m.id = i.id
  · have heq : m = i := eq_of_key_eq hu.items hm (findItem_mem hi).1 hmi
    rw [if_pos (hmi.trans hid.symm), hthing, heq]
  · rw [if_neg (hid ▸ hmi)]
    exact (hother m.thing hmi).symm

end Households

section Completion

variable [Host] {s t : WorkspaceState} {planId : String}

/-- An item moved whole, as the household shows it. -/
theorem Transfer.household (hu : Unique s) {i : ItemRecord} (hi : findItem s i.id = some i)
    {destinationId timestamp : String} {u : WorkspaceState}
    (h : Transfer s destinationId timestamp i i.quantity u) :
    u.household = { s.household with
        things := s.household.things.map (Thing.into i.id destinationId) } ∨
      u.household =
        { s.household with things := s.household.things.filter fun t => t.id ≠ i.id } := by
  rcases h.whole with ⟨m, hm, -, rfl⟩ | rfl
  · right
    have hmem := mergeTarget_some hm
    have hput := things_putItem hu (hu.findItem hmem.1) (j := { m with
      quantity := m.quantity.add i.quantity
      updatedAt := timestamp
      version := m.version + 1 }) (f := id) rfl rfl fun _ _ => rfl
    show Household.mk _ ((List.filter _ (s.putItem _).items).map _) = _
    refine congrArg (Household.mk _) ?_
    rw [List.map_id] at hput
    show _ = (s.items.map ItemRecord.thing).filter _
    rw [← hput, List.filter_map]
    rfl
  · left
    have hput := things_putItem hu hi (j := { i with
      locationId := destinationId
      order := destinationOrder s destinationId
      updatedAt := timestamp
      version := i.version + 1 }) (f := Thing.into i.id destinationId) rfl (if_pos rfl).symm
      fun t ht => if_neg ht
    exact congrArg (Household.mk _) hput

/-- The physical patches of a container step put it into the destination. -/
theorem stepPatches_location (hw : WellFormed s) {env : CommandEnvelope} {step : PlanStep}
    {physical : List FieldPatch} (htype : step.type = .location)
    (h : stepPatches s env step = .ok physical) :
    ∃ l m ids, step.locationId = some l.id ∧ findLocation s l.id = some l ∧ l.active = true ∧
      findLocation s step.destinationId = some m ∧ m.active = true ∧
      ¬ ReflTransGen (Under s) step.destinationId l.id ∧
      Describes s physical ((s.putLocation { l with
        parentId := some step.destinationId
        updatedAt := env.timestamp }).setProgress ids env.timestamp) := by
  unfold stepPatches at h
  rw [if_neg (by simp [htype])] at h
  split at h
  · rename_i hcase
    simp only [Bool.and_eq_true, decide_eq_true_eq, isSet_iff] at hcase
    obtain ⟨_, id, hid, _⟩ := hcase
    simp only [hid, Option.getD_some, result_bind_ok, requireActiveLocation_ok, refuse_ok,
      decide_eq_false_iff_not, ne_eq, not_not, result_pure_ok] at h
    obtain ⟨l, ⟨hl, hact⟩, _, hsource, _, hin, dst, hdst, progress, hprogress, rfl⟩ := h
    obtain ⟨hlm, rfl⟩ := findLocation_mem hl
    obtain ⟨covers, ls, hls, hcovers⟩ := stepProgress_ok hprogress
    have houtside := outside_of_insideOf hw.unique.records ⟨dst, hdst⟩ hin
    have hput := describes_location_put hw.unique.records hl
      [.parentId (some step.destinationId), .updatedAt env.timestamp]
      (apart_location (by simp [LocationEntry.key]))
    have hprog := hls.yields_put (c := True) (m := putAll [LocationEntry.parentId
      (some step.destinationId), .updatedAt env.timestamp] l)
      (hw.unique.records.of_describes hput) (fun _ hcovered => ?_) rfl
    · exact ⟨l, dst, ls.map Location.id, hid, hl, hact, hdst.1, hdst.2, houtside,
        hput.append (hprog.described trivial)⟩
    rcases (hcovers _).mp hcovered with he | he
    · exact hw.acyclic l.id (.single ⟨l, hlm, rfl, hsource.trans (congrArg some he.symm)⟩)
    · exact houtside (he ▸ .refl)
  · cases h

/-- **Completing a step.** -/
theorem completion (hw : WellFormed s) {env : CommandEnvelope} {r : CommandResult}
    {stepId : String} (hcommand : env.command = .planStepComplete planId stepId)
    (h : applyCommand s env = .ok r) :
    ∃ p step, p.id = planId ∧ Completing s p step ∧ Carried s step r.state.household ∧
      findPlan r.state planId = some (p.complete step env.timestamp) := by
  have hhistory : env.command.isHistory = false := by
    rw [hcommand]
    rfl
  obtain ⟨-, hnormal | hreplay⟩ := applyCommand_ok h
  · obtain ⟨change, u, hchange, hu, -, hr⟩ := applyNormalCommand_ok hw hnormal.2
    have hpatches : planStepComplete s (normalizeCommandEnvelope env) planId stepId =
        .ok change := by
      unfold normalPatches normalizeCommandEnvelope at hchange
      rw [hcommand] at hchange
      exact hchange
    obtain ⟨p, step, physical, hp, -, hc, hphysical, hall⟩ := planStepComplete_ok hpatches
    have hrest : ∀ {v : WorkspaceState}, Describes s physical v → v.plans = s.plans →
        Carried s step v.household →
        Carried s step r.state.household ∧
          findPlan r.state planId = some (p.complete step env.timestamp) := by
      intro v hv hplans hcarried
      have hfound : findPlan v p.id = some p := by
        unfold findPlan
        rw [hplans]
        exact hc.found
      have hboth := hv.append (describes_completion (unique_of_describes hw.unique hv).plans hfound step
        env.timestamp)
      rw [hall] at hu
      obtain rfl : v.putPlan (p.complete step env.timestamp) = u :=
        Except.ok.inj ((applyPatches_of_describes hw.unique hboth).symm.trans
          (applyPatches_of_describes hw.unique hu))
      rw [hr]
      refine ⟨hcarried, ?_⟩
      rw [← hp]
      show findPlan (v.putPlan (p.complete step env.timestamp)) p.id = _
      exact findPlan_putPlan hfound (q := p.complete step env.timestamp) rfl
    refine ⟨p, step, hp, hc, ?_⟩
    cases htype : step.type with
    | item =>
        obtain ⟨i, v, ids, hid, hi, -, hsource, -, -, -, hmove, -, hd⟩ :=
          stepPatches_item hw.unique.records htype hphysical
        refine hrest (hd.described hw.tidy) ?_ (.item hi htype hid hsource ?_)
        · show v.plans = s.plans
          rw [hmove.moveItem.frame]
        · rw [household_setProgress]
          exact hmove.household hw.unique hi
    | location =>
        obtain ⟨l, m, ids, hid, hl, hact, hdest, hma, houtside, hd⟩ :=
          stepPatches_location hw htype hphysical
        refine hrest hd rfl (.container hl hact htype hid hdest hma houtside ?_)
        rw [household_setProgress]
        have hput := places_putLocation hw.unique hl (k := { l with
          parentId := some step.destinationId
          updatedAt := env.timestamp }) rfl (d := step.destinationId) rfl
        exact congrArg (fun ps => Household.mk ps _) hput
  · rw [hhistory] at hreplay
    cases hreplay.1

end Completion

/-! ## 7. Over a run -/

section Guarded

variable {s : WorkspaceState} {sel : PlanSelection} {step : PlanStep} {h' : Household}

/-- What the guard of a step has found. -/
structure StepAllowed (r : Resolved) (step : PlanStep) : Prop where
  source : step.sourceId ∈ r.locationIds
  destination : step.destinationId ∈ r.locationIds
  unpinned : step.destinationId ∉ r.pinnedLocationIds
  item : step.type = .item → ∀ id, step.itemId = some id → id ≠ "" → id ∉ r.pinnedItemIds
  container : step.type = .location → ∀ id, step.locationId = some id → id ≠ "" →
    id ∈ r.locationIds ∧ id ∉ r.fixedLocationIds

theorem stepAllowed_of_issue {h : Household}
    (hissue : planSelectionStepIssue h (some sel) step = none) :
    StepAllowed (resolvePlanSelection h (some sel)) step := by
  unfold planSelectionStepIssue at hissue
  dsimp only at hissue
  split at hissue
  · cases hissue
  · rename_i harea
    split at hissue
    · cases hissue
    · rename_i hreceives
      split at hissue
      · cases hissue
      · rename_i hitem
        split at hissue
        · cases hissue
        · rename_i hcontainer
          simp only [Resolved.canReceive, Resolved.canMoveItem, Resolved.canMoveLocation,
            Bool.or_eq_true, Bool.not_eq_true', Bool.and_eq_true, decide_eq_true_eq, not_or,
            not_and, isSet_iff, bne_iff_ne, ← Bool.not_eq_true, List.contains_iff_mem, not_not]
            at harea hreceives hitem hcontainer
          refine ⟨harea.1, harea.2, fun hin => hreceives fun _ => hin, ?_, ?_⟩
          · intro htype id hid hne hin
            refine hitem ⟨htype, id, hid, hne⟩ fun _ => ?_
            rw [hid]
            exact hin
          · intro htype id hid hne
            have hmay := hcontainer ⟨htype, id, hid, hne⟩
            rw [hid, Option.getD_some, Classical.not_imp] at hmay
            exact ⟨hmay.1.1.2, hmay.2⟩

theorem Identified.of_places (h : Identified s) : ∀ p ∈ s.household.places, p.id ≠ "" := by
  intro p hp
  obtain ⟨l, hl, rfl⟩ := List.mem_map.mp hp
  exact h.locations l hl

theorem under_of_above {a b : String} (h : Above (placeUp s.household.live) a b) :
    Under s a b := by
  obtain ⟨p, hp, hid, hparent, -⟩ := placeUp_some h
  obtain ⟨l, hl, rfl⟩ := List.mem_map.mp (List.mem_filter.mp hp).1
  exact ⟨l, hl, hid, hparent⟩

theorem mem_live {l : Location} {id : String} (hl : findLocation s id = some l)
    (hact : l.active = true) : id ∈ s.household.live.map (·.id) := by
  obtain ⟨hmem, hid⟩ := findLocation_mem hl
  have hplace : l.place ∈ s.household.live :=
    List.mem_filter.mpr ⟨List.mem_map_of_mem (f := Location.place) hmem, hact⟩
  rw [← hid]
  exact List.mem_map_of_mem hplace

theorem filter_map_of {α : Type} {p : α → Bool} {f : α → α} {l : List α}
    (h : ∀ a ∈ l, f a = a ∨ (p a = false ∧ p (f a) = false)) :
    (l.map f).filter p = l.filter p := by
  induction l with
  | nil => rfl
  | cons a l ih =>
      have hrest := ih fun b hb => h b (List.mem_cons_of_mem _ hb)
      rw [List.map_cons]
      rcases h a List.mem_cons_self with heq | ⟨hold, hnew⟩
      · rw [heq, List.filter_cons, List.filter_cons, hrest]
      · rw [List.filter_cons_of_neg (by rw [hnew]; decide),
          List.filter_cons_of_neg (by rw [hold]; decide), hrest]

/-- **A step that the guard lets pass** changes neither what the selection comes down to nor
    anything that is to be left alone. -/
theorem Carried.leaves [Host] (hw : WellFormed s) (hid : Identified s)
    (hissue : planSelectionStepIssue s.household (some sel) step = none)
    (hc : Carried s step h') :
    resolvePlanSelection h' (some sel) = resolvePlanSelection s.household (some sel) ∧
      (resolvePlanSelection s.household (some sel)).Kept s.household h' := by
  have hallowed := stepAllowed_of_issue hissue
  cases hc with
  | @container l m hl hact htype hlocation hdest hreceives houtside heq =>
      have hlm := (findLocation_mem hl).1
      obtain ⟨hmm, hmid⟩ := findLocation_mem hdest
      obtain ⟨harea, hfree⟩ := hallowed.container htype l.id hlocation (hid.locations l hlm)
      have hr : Rehoming s.household sel l.id step.destinationId :=
        ⟨hw.acyclic.mono fun _ _ => under_of_above, mem_live hl hact, mem_live hdest hreceives,
          hmid ▸ hid.locations m hmm,
          fun hpath => houtside (ReflTransGen.mono (fun _ _ => under_of_above) _ _ hpath),
          harea, hfree, hallowed.destination, hallowed.unpinned⟩
      rw [heq]
      exact ⟨hr.resolved, hr.kept⟩
  | @item i hi htype hitem hsource heq =>
      have him := (findItem_mem hi).1
      have hfree := hallowed.item htype i.id hitem (hid.items i him)
      have hthing : i.thing ∈ s.household.things := List.mem_map_of_mem him
      have hunpinned :
          i.locationId ∉ (resolvePlanSelection s.household (some sel)).pinnedLocationIds := by
        intro hin
        refine hfree ?_
        rw [resolved_pinnedItemIds]
        refine List.mem_append_right _ (List.mem_map.mpr ⟨i.thing,
          List.mem_filter.mpr ⟨hthing, List.contains_iff_mem.mpr hin⟩, rfl⟩)
      have hkeeps : ∀ d, d ∈ (resolvePlanSelection s.household (some sel)).locationIds →
          d ∉ (resolvePlanSelection s.household (some sel)).pinnedLocationIds →
          ∀ t : Thing, t.id = i.id → t.locationId = d →
            (resolvePlanSelection s.household (some sel)).keepsThing t = false := by
        intro d harea hpin t ht hloc
        unfold Resolved.keepsThing
        rw [ht, hloc, Bool.or_eq_false_iff, Bool.or_eq_false_iff, Bool.not_eq_false',
          ← Bool.not_eq_true, List.contains_iff_mem, ← Bool.not_eq_true, List.contains_iff_mem,
          List.contains_iff_mem]
        exact ⟨⟨hfree, hpin⟩, harea⟩
      have hone : ∀ t ∈ s.household.things, t.id = i.id →
          (resolvePlanSelection s.household (some sel)).keepsThing t = false := by
        intro t ht htid
        obtain ⟨j, hj, rfl⟩ := List.mem_map.mp ht
        have hji : j = i := eq_of_key_eq hw.unique.items hj him htid
        refine hkeeps step.sourceId hallowed.source (hsource ▸ hunpinned) _ htid ?_
        rw [hji]
        exact hsource
      rcases heq with heq | heq
      · have hthings : (s.household.things.map (Thing.into i.id step.destinationId)).filter
            (resolvePlanSelection s.household (some sel)).keepsThing =
            s.household.things.filter (resolvePlanSelection s.household (some sel)).keepsThing := by
          refine filter_map_of fun t ht => ?_
          unfold Thing.into
          by_cases htid : t.id = i.id
          · rw [if_pos htid]
            exact .inr ⟨hone t ht htid, hkeeps step.destinationId hallowed.destination
              hallowed.unpinned _ htid rfl⟩
          · exact .inl (if_neg htid)
        rw [heq]
        exact ⟨resolved_of_things hthings, kept_of_things hthings⟩
      · have hthings : (s.household.things.filter fun t => t.id ≠ i.id).filter
            (resolvePlanSelection s.household (some sel)).keepsThing =
            s.household.things.filter (resolvePlanSelection s.household (some sel)).keepsThing := by
          rw [List.filter_filter]
          refine List.filter_congr fun t ht => ?_
          by_cases htid : t.id = i.id
          · rw [hone t ht htid, Bool.false_and]
          · rw [decide_eq_true htid, Bool.and_true]
        rw [heq]
        exact ⟨resolved_of_things hthings, kept_of_things hthings⟩

end Guarded

section Runs

variable [Host] {s t : WorkspaceState} {planId : String}

/-- One more step of the plan is completed. -/
def CompletesStep (planId : String) (s t : WorkspaceState) : Prop :=
  ∃ env stepId r, env.command = .planStepComplete planId stepId ∧ applyCommand s env = .ok r ∧
    r.state = t

omit [Host] in
theorem Carried.identified {step : PlanStep} (hid : Identified s)
    (h : Carried s step t.household) : Identified t := by
  have hthings : ∀ u ∈ s.household.things, u.id ≠ "" := by
    intro u hu
    obtain ⟨i, hi, rfl⟩ := List.mem_map.mp hu
    exact hid.items i hi
  have hback : (∀ u ∈ t.household.things, u.id ≠ "") ∧ ∀ p ∈ t.household.places, p.id ≠ "" := by
    cases h with
    | container _ _ _ _ _ _ _ heq =>
        rw [heq]
        refine ⟨hthings, fun p hp => ?_⟩
        obtain ⟨q, hq, rfl⟩ := List.mem_map.mp hp
        rw [Place.under_id]
        exact hid.of_places q hq
    | @item i _ _ _ _ heq =>
        rcases heq with heq | heq
        · rw [heq]
          refine ⟨fun u hu => ?_, hid.of_places⟩
          obtain ⟨v, hv, rfl⟩ := List.mem_map.mp hu
          have hvid : (Thing.into i.id step.destinationId v).id = v.id := by
            unfold Thing.into
            split <;> rfl
          rw [hvid]
          exact hthings v hv
        · rw [heq]
          exact ⟨fun u hu => hthings u (List.mem_filter.mp hu).1, hid.of_places⟩
  exact ⟨fun i hi => hback.1 i.thing (List.mem_map_of_mem hi),
    fun l hl => hback.2 l.place (List.mem_map_of_mem hl)⟩

/-- **Areas and pins hold** over every run of steps of a plan. What the selection comes down to is
    the same after it; the fixed spaces are where they were, with the same way up; pinned items
    are where they were, in pinned spaces is what was there, and outside the areas nothing has
    changed. -/
theorem pins_hold {plan : MovePlan} {sel : PlanSelection} (hw : WellFormed s)
    (hid : Identified s) (hplan : findPlan s planId = some plan)
    (hsel : plan.selection = some sel) (hrun : ReflTransGen (CompletesStep planId) s t) :
    resolvePlanSelection t.household (some sel) = resolvePlanSelection s.household (some sel) ∧
      (resolvePlanSelection s.household (some sel)).Kept s.household t.household := by
  have hall : (WellFormed t ∧ Identified t ∧
      ∃ p, findPlan t planId = some p ∧ p.selection = some sel) ∧
      resolvePlanSelection t.household (some sel) =
        resolvePlanSelection s.household (some sel) ∧
      (resolvePlanSelection s.household (some sel)).Kept s.household t.household := by
    induction hrun with
    | refl => exact ⟨⟨hw, hid, plan, hplan, hsel⟩, rfl, .refl _ _⟩
    | @tail t u _ hstep ih =>
        obtain ⟨⟨hwt, hidt, p, hp, hpsel⟩, hresolved, hkept⟩ := ih
        obtain ⟨env, stepId, r, hcommand, happly, rfl⟩ := hstep
        obtain ⟨q, step, hq, hc, hcarried, hfound⟩ := completion hwt hcommand happly
        have hpq : p = q := by
          have hqf := hc.found
          rw [hq, hp] at hqf
          exact Option.some.inj hqf
        subst hpq
        have hissue := hc.selection
        rw [hpsel] at hissue
        obtain ⟨hsame, hleft⟩ := hcarried.leaves hwt hidt hissue
        rw [hresolved] at hleft
        exact ⟨⟨step_wellFormed hwt ⟨r, happly, rfl⟩, hcarried.identified hidt, _, hfound,
          hpsel⟩, hsame.trans hresolved, hkept.trans hleft⟩
  exact hall.2

end Runs

/-- The plan that takes the saw to the right shelf while the drill is pinned there. -/
def sawPlan : MovePlan where
  createdAt := "2024-01-02T00:00:00.000Z"
  id := "p1"
  name := "Saw"
  selection := some { locationIds := none, pinnedItemIds := ["i2"], pinnedLocationIds := [] }
  status := .active
  steps := [{
    completedAt := none
    destinationId := "B"
    explanation := []
    id := "s1"
    itemId := some "i1"
    locationId := none
    quantity := some 1
    score := 1
    sourceId := "A"
    type := .item }]
  weights := defaultPlanWeights

/-- The saw is moved, and the drill is where it was. -/
theorem pins_hold_tools : ∃ sel r, sawPlan.selection = some sel ∧
    @applyCommand asciiHost { toolState with plans := [sawPlan] }
      (firstEnvelope "c1" (.planStepComplete "p1" "s1")) = .ok r ∧
    (resolvePlanSelection toolState.household (some sel)).Kept toolState.household
      r.state.household := by
  let : Host := asciiHost
  have hok : (applyCommand { toolState with plans := [sawPlan] }
      (firstEnvelope "c1" (.planStepComplete "p1" "s1"))).isOk = true := by
    decide +kernel
  cases hr : applyCommand { toolState with plans := [sawPlan] }
      (firstEnvelope "c1" (.planStepComplete "p1" "s1")) with
  | error e =>
      rw [hr] at hok
      cases hok
  | ok r =>
      have hw : WellFormed { toolState with plans := [sawPlan] } :=
        toolState_wellFormed.of_plans rfl rfl (List.nodup_singleton _)
      have hid : Identified { toolState with plans := [sawPlan] } :=
        ⟨toolState_identified.items, toolState_identified.locations⟩
      exact ⟨_, r, rfl, rfl, (pins_hold hw hid rfl rfl
        (.single ⟨_, "s1", r, rfl, hr, rfl⟩)).2⟩

end Stowplan
