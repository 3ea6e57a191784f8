/-
  File:      Stowplan/Domain/Settled.lean
  Subject:   STATES THAT TEXT AND NORMALISING LEAVE ALONE.

  A state is settled when its numbers are finite, its receipts are told once, and its retained
  patches use no old names and lack no order. Writing such a state down and reading it back
  changes nothing; a state that was read back is settled; and an accepted command keeps a state
  settled.

  * `Numbers`: a record read from finite numbers has a plain value;
  * `Settled`, `normalizeState_settled`, `reload_settled`: what normalising and text leave alone;
  * `settled_reload`: what was read back is settled;
  * `normalPatches_settled`, `applyCommand_settled`: commands.
-/
import Stowplan.Js.Plain
import Stowplan.Domain.Normalize

namespace Stowplan

open JsValue Keyed Forest

/-! ## 1. Records with finite numbers -/

/-- A record that is read from finite numbers is written as a plain value. -/
class Numbers (α : Type) [Codec α] : Prop where
  plain_encode : ∀ (v : JsValue) (a : α), decode v = some a → finite v = true →
    plain (encode a) = true

/-- A record read from a finite value is plain. -/
theorem plain_of_decode {α : Type} [Codec α] [Numbers α] {v : JsValue} {a : α}
    (hd : decode v = some a) (hf : finite v = true) : plain (encode a) = true :=
  Numbers.plain_encode v a hd hf

theorem plain_of_field {α : Type} [Codec α] [Numbers α] {v : JsValue} {key : String} {a : α}
    (hd : field v key = some a) (hf : finite v = true) : plain (encode a) = true :=
  plain_of_decode hd (finite_get hf key)

instance : Numbers String := ⟨fun _ _ _ _ => rfl⟩
instance : Numbers Bool := ⟨fun _ _ _ _ => rfl⟩

instance : Numbers JsNumber where
  plain_encode v x hd hf := by
    cases v with
    | num y =>
        cases hd
        exact hf
    | _ => cases hd

instance : Numbers Int where
  plain_encode v n hd hf := by
    cases v with
    | num x =>
        cases x with
        | finite q =>
            have hq : (if q.den = 1 then some q.num else none) = some n := hd
            split at hq
            · rename_i hden
              cases hq
              have hx : JsNumber.ofInt q.num = .finite q :=
                congrArg JsNumber.finite (Rat.coe_int_num_of_den_eq_one hden)
              show (JsNumber.ofInt q.num).isFinite = true
              rw [hx]
              exact hf
            · cases hq
        | _ => cases hd
    | _ => cases hd

/-- The words of an enumeration hold no number. -/
theorem numbers_of_word {α : Type} [Codec α] (h : ∀ a : α, ∃ s, encode a = .str s) :
    Numbers α :=
  ⟨fun _ a _ _ => by
    obtain ⟨s, hs⟩ := h a
    rw [hs]
    rfl⟩

instance : Numbers CaptureStatus := numbers_of_word fun _ => ⟨_, rfl⟩
instance : Numbers Frequency := numbers_of_word fun _ => ⟨_, rfl⟩
instance : Numbers LocationKind := numbers_of_word fun _ => ⟨_, rfl⟩
instance : Numbers DimensionUnit := numbers_of_word fun _ => ⟨_, rfl⟩
instance : Numbers Humidity := numbers_of_word fun _ => ⟨_, rfl⟩
instance : Numbers Temperature := numbers_of_word fun _ => ⟨_, rfl⟩
instance : Numbers StepType := numbers_of_word fun _ => ⟨_, rfl⟩
instance : Numbers PlanStatus := numbers_of_word fun _ => ⟨_, rfl⟩

theorem plainList_of_decode {α : Type} [Codec α] [Numbers α] {xs : List JsValue} {l : List α}
    (hd : decodeList xs = some l) (hf : finiteList xs = true) :
    plainList (l.map encode) = true := by
  induction xs generalizing l with
  | nil =>
      cases hd
      rfl
  | cons x xs ih =>
      simp only [finiteList, Bool.and_eq_true] at hf
      simp only [decodeList] at hd
      split at hd
      · rename_i a as ha has
        cases hd
        rw [List.map_cons, plainList, plain_of_decode ha hf.1, ih has hf.2]
        rfl
      · cases hd

instance {α : Type} [Codec α] [Numbers α] : Numbers (List α) where
  plain_encode v l hd hf := by
    cases v with
    | arr xs => exact plainList_of_decode hd hf
    | _ => cases hd

/-- A nullable field is read as nothing or as what it may hold. -/
theorem numbers_nullable {α : Type} [c : Exact α] [Numbers α] {d : Exact (Option α)}
    (hnone : d.encode none = .null) (hsome : ∀ a, d.encode (some a) = c.encode a)
    (hdecode : d.decode = decodeNullable c.decode) : @Numbers (Option α) d.toCodec :=
  @Numbers.mk _ d.toCodec fun v a hd hf => by
    rw [show @decode _ d.toCodec v = decodeNullable c.decode v from congrFun hdecode v] at hd
    cases a with
    | none =>
        show plain (d.encode none) = true
        rw [hnone]
        rfl
    | some a =>
        show plain (d.encode (some a)) = true
        rw [hsome]
        by_cases hv : v = .null
        · subst hv
          cases hd
        · rw [decodeNullable_of_ne _ hv] at hd
          obtain ⟨b, hb, hab⟩ := Option.map_eq_some_iff.mp hd
          cases hab
          exact plain_of_decode hb hf

instance : Numbers (Option String) := numbers_nullable rfl (fun _ => rfl) rfl
instance : Numbers (Option JsNumber) := numbers_nullable rfl (fun _ => rfl) rfl
instance : Numbers (Option (List String)) := numbers_nullable rfl (fun _ => rfl) rfl

instance : Numbers Dimensions where
  plain_encode v a hd hf := by
    simp only [decode, Option.bind_eq_bind, Option.bind_eq_some_iff, Option.pure_def,
      Option.some.injEq] at hd
    obtain ⟨_, h1, _, h2, _, h3, _, h4, rfl⟩ := hd
    show plainFields _ = true
    simp only [plainFields, plain_of_field h1 hf, plain_of_field h2 hf, plain_of_field h3 hf,
      plain_of_field h4 hf, Bool.and_self]

instance : Numbers (Option Dimensions) := numbers_nullable rfl (fun _ => rfl) rfl

instance : Numbers LocationConditions where
  plain_encode v a hd hf := by
    simp only [decode, Option.bind_eq_bind, Option.bind_eq_some_iff, Option.pure_def,
      Option.some.injEq] at hd
    obtain ⟨_, h1, _, h2, _, h3, _, h4, _, h5, rfl⟩ := hd
    show plainFields _ = true
    simp only [plainFields, plain_of_field h1 hf, plain_of_field h2 hf, plain_of_field h3 hf,
      plain_of_field h4 hf, plain_of_field h5 hf, Bool.and_self]

instance : Numbers ItemConstraints where
  plain_encode v a hd hf := by
    simp only [decode, Option.bind_eq_bind, Option.bind_eq_some_iff, Option.pure_def,
      Option.some.injEq] at hd
    obtain ⟨_, h1, _, h2, _, h3, _, h4, _, h5, rfl⟩ := hd
    show plainFields _ = true
    simp only [plainFields, plain_of_field h1 hf, plain_of_field h2 hf, plain_of_field h3 hf,
      plain_of_field h4 hf, plain_of_field h5 hf, Bool.and_self]

instance : Numbers Workspace where
  plain_encode v a hd hf := by
    simp only [decode, Option.bind_eq_bind, Option.bind_eq_some_iff, Option.pure_def,
      Option.some.injEq] at hd
    obtain ⟨_, h1, _, h2, _, h3, _, h4, _, h5, rfl⟩ := hd
    show plainFields _ = true
    simp only [plainFields, plain_of_field h1 hf, plain_of_field h2 hf, plain_of_field h3 hf,
      plain_of_field h4 hf, plain_of_field h5 hf, Bool.and_self]

instance : Numbers Location where
  plain_encode v a hd hf := by
    obtain ⟨_, h1, hd⟩ := Option.bind_eq_some_iff.mp hd
    obtain ⟨_, h2, hd⟩ := Option.bind_eq_some_iff.mp hd
    obtain ⟨_, h3, hd⟩ := Option.bind_eq_some_iff.mp hd
    obtain ⟨_, h4, hd⟩ := Option.bind_eq_some_iff.mp hd
    obtain ⟨_, h5, hd⟩ := Option.bind_eq_some_iff.mp hd
    obtain ⟨_, h6, hd⟩ := Option.bind_eq_some_iff.mp hd
    obtain ⟨_, h7, hd⟩ := Option.bind_eq_some_iff.mp hd
    obtain ⟨_, h8, hd⟩ := Option.bind_eq_some_iff.mp hd
    obtain ⟨_, h9, hd⟩ := Option.bind_eq_some_iff.mp hd
    obtain ⟨_, h10, hd⟩ := Option.bind_eq_some_iff.mp hd
    obtain ⟨_, h11, hd⟩ := Option.bind_eq_some_iff.mp hd
    obtain ⟨_, h12, hd⟩ := Option.bind_eq_some_iff.mp hd
    obtain ⟨_, h13, hd⟩ := Option.bind_eq_some_iff.mp hd
    obtain ⟨_, h14, hd⟩ := Option.bind_eq_some_iff.mp hd
    cases hd
    show plainFields _ = true
    simp only [plainFields, plain_of_field h1 hf, plain_of_field h2 hf, plain_of_field h3 hf,
      plain_of_field h4 hf, plain_of_field h5 hf, plain_of_field h6 hf, plain_of_field h7 hf,
      plain_of_field h8 hf, plain_of_field h9 hf, plain_of_field h10 hf, plain_of_field h11
      hf, plain_of_field h12 hf, plain_of_field h13 hf, plain_of_field h14 hf, Bool.and_self]

instance : Numbers ItemRecord where
  plain_encode v a hd hf := by
    obtain ⟨_, h1, hd⟩ := Option.bind_eq_some_iff.mp hd
    obtain ⟨_, h2, hd⟩ := Option.bind_eq_some_iff.mp hd
    obtain ⟨_, h3, hd⟩ := Option.bind_eq_some_iff.mp hd
    obtain ⟨_, h4, hd⟩ := Option.bind_eq_some_iff.mp hd
    obtain ⟨_, h5, hd⟩ := Option.bind_eq_some_iff.mp hd
    obtain ⟨_, h6, hd⟩ := Option.bind_eq_some_iff.mp hd
    obtain ⟨_, h7, hd⟩ := Option.bind_eq_some_iff.mp hd
    obtain ⟨_, h8, hd⟩ := Option.bind_eq_some_iff.mp hd
    obtain ⟨_, h9, hd⟩ := Option.bind_eq_some_iff.mp hd
    obtain ⟨_, h10, hd⟩ := Option.bind_eq_some_iff.mp hd
    obtain ⟨_, h11, hd⟩ := Option.bind_eq_some_iff.mp hd
    obtain ⟨_, h12, hd⟩ := Option.bind_eq_some_iff.mp hd
    obtain ⟨_, h13, hd⟩ := Option.bind_eq_some_iff.mp hd
    obtain ⟨_, h14, hd⟩ := Option.bind_eq_some_iff.mp hd
    obtain ⟨_, h15, hd⟩ := Option.bind_eq_some_iff.mp hd
    obtain ⟨_, h16, hd⟩ := Option.bind_eq_some_iff.mp hd
    cases hd
    show plainFields _ = true
    simp only [plainFields, plain_of_field h1 hf, plain_of_field h2 hf, plain_of_field h3 hf,
      plain_of_field h4 hf, plain_of_field h5 hf, plain_of_field h6 hf, plain_of_field h7 hf,
      plain_of_field h8 hf, plain_of_field h9 hf, plain_of_field h10 hf, plain_of_field h11
      hf, plain_of_field h12 hf, plain_of_field h13 hf, plain_of_field h14 hf, plain_of_field
      h15 hf, plain_of_field h16 hf, Bool.and_self]

instance : Numbers PlanWeights where
  plain_encode v a hd hf := by
    simp only [decode, Option.bind_eq_bind, Option.bind_eq_some_iff, Option.pure_def,
      Option.some.injEq] at hd
    obtain ⟨_, h1, _, h2, _, h3, _, h4, _, h5, rfl⟩ := hd
    show plainFields _ = true
    simp only [plainFields, plain_of_field h1 hf, plain_of_field h2 hf, plain_of_field h3 hf,
      plain_of_field h4 hf, plain_of_field h5 hf, Bool.and_self]

instance : Numbers PlanStep where
  plain_encode v a hd hf := by
    simp only [decode, Option.bind_eq_bind, Option.bind_eq_some_iff, Option.pure_def,
      Option.some.injEq] at hd
    obtain ⟨_, h1, _, h2, _, h3, _, h4, _, h5, _, h6, _, h7, _, h8, _, h9, _, h10, rfl⟩ := hd
    show plainFields _ = true
    simp only [plainFields, plain_of_field h1 hf, plain_of_field h2 hf, plain_of_field h3 hf,
      plain_of_field h4 hf, plain_of_field h5 hf, plain_of_field h6 hf, plain_of_field h7 hf,
      plain_of_field h8 hf, plain_of_field h9 hf, plain_of_field h10 hf, Bool.and_self]

instance : Numbers PlanSelection where
  plain_encode v a hd hf := by
    simp only [decode, Option.bind_eq_bind, Option.bind_eq_some_iff, Option.pure_def,
      Option.some.injEq] at hd
    obtain ⟨_, h1, _, h2, _, h3, rfl⟩ := hd
    show plainFields _ = true
    simp only [plainFields, plain_of_field h1 hf, plain_of_field h2 hf, plain_of_field h3 hf,
      Bool.and_self]

instance : Numbers MovePlan where
  plain_encode v a hd hf := by
    simp only [decode, Option.bind_eq_bind, Option.bind_eq_some_iff, Option.pure_def,
      Option.some.injEq] at hd
    obtain ⟨_, h1, _, h2, _, h3, selection, h4, _, h5, _, h6, _, h7, rfl⟩ := hd
    cases selection with
    | none =>
        show plainFields _ = true
        simp only [optionalEntry, List.nil_append, List.cons_append, plainFields,
          plain_of_field h1 hf, plain_of_field h2 hf, plain_of_field h3 hf, plain_of_field h5 hf,
          plain_of_field h6 hf, plain_of_field h7 hf, Bool.and_self]
    | some selection =>
        have hs : field v "selection" = some selection := by
          unfold optionalField at h4
          unfold field
          split at h4
          · cases h4
          · obtain ⟨b, hb, hab⟩ := Option.map_eq_some_iff.mp h4
            cases hab
            exact hb
        show plainFields _ = true
        simp only [optionalEntry, List.nil_append, List.cons_append, plainFields,
          plain_of_field h1 hf, plain_of_field h2 hf, plain_of_field h3 hf, plain_of_field hs hf,
          plain_of_field h5 hf, plain_of_field h6 hf, plain_of_field h7 hf, Bool.and_self]

/-- A record without numbers. -/
class Wordy (α : Type) [Codec α] : Prop where
  plain_encode : ∀ a : α, plain (encode a) = true

instance : Wordy String := ⟨fun _ => rfl⟩
instance : Wordy Bool := ⟨fun _ => rfl⟩
instance : Wordy CaptureStatus := ⟨fun _ => rfl⟩
instance : Wordy Frequency := ⟨fun _ => rfl⟩
instance : Wordy LocationKind := ⟨fun _ => rfl⟩
instance : Wordy StepType := ⟨fun _ => rfl⟩
instance : Wordy PlanStatus := ⟨fun _ => rfl⟩
instance : Wordy ActivityStatus := ⟨fun _ => rfl⟩
instance : Wordy AuditType := ⟨fun _ => rfl⟩

@[simp] theorem plain_wordy {α : Type} [Codec α] [Wordy α] (a : α) : plain (encode a) = true :=
  Wordy.plain_encode a

/-- A list is plain iff its elements are. -/
theorem plain_encode_list {α : Type} [Codec α] {l : List α} :
    plain (encode l) = true ↔ ∀ a ∈ l, plain (encode a) = true := by
  show plainList (l.map encode) = true ↔ _
  rw [plainList_iff, List.forall_mem_map]

instance {α : Type} [Codec α] [Wordy α] : Wordy (List α) :=
  ⟨fun _ => plain_encode_list.mpr fun a _ => plain_wordy a⟩

instance : Wordy (Option String) := ⟨fun a => by cases a <;> rfl⟩

instance : Wordy (Option (List String)) where
  plain_encode a := by
    cases a with
    | none => rfl
    | some l => exact plain_wordy l

instance : Wordy LocationConditions := ⟨fun _ => rfl⟩

instance : Wordy ItemConstraints where
  plain_encode c := by
    show plainFields _ = true
    simp only [plainFields, plain_wordy, Bool.and_self]

instance : Wordy PlanSelection where
  plain_encode p := by
    show plainFields _ = true
    simp only [plainFields, plain_wordy, Bool.and_self]

instance : Wordy AuditEvent where
  plain_encode a := by
    show plainFields _ = true
    simp only [plainFields, plain_wordy, Bool.and_self]

/-- The numbers of an item. -/
theorem item_numbers {i : ItemRecord} : plain (encode i) = true ↔
    plain (encode i.dimensions) = true ∧ i.order.isFinite = true ∧ i.quantity.isFinite = true ∧
      (JsNumber.ofInt i.version).isFinite = true := by
  show plainFields _ = true ↔ _
  simp only [plainFields, plain_wordy, Bool.true_and, Bool.and_true, Bool.and_eq_true]
  exact Iff.rfl

/-- The numbers of a location. -/
theorem location_numbers {l : Location} : plain (encode l) = true ↔
    plain (encode l.dimensions) = true ∧ l.order.isFinite = true := by
  show plainFields _ = true ↔ _
  simp only [plainFields, plain_wordy, Bool.true_and, Bool.and_true, Bool.and_eq_true]
  exact Iff.rfl

/-- The number of a workspace. -/
theorem workspace_numbers {w : Workspace} : plain (encode w) = true ↔
    (JsNumber.ofInt w.revision).isFinite = true := by
  show plainFields _ = true ↔ _
  simp only [plainFields, plain_wordy, Bool.true_and, Bool.and_true]
  exact Iff.rfl

/-- The numbers of a step. -/
theorem step_numbers {p : PlanStep} : plain (encode p) = true ↔
    plain (encode p.quantity) = true ∧ p.score.isFinite = true := by
  show plainFields _ = true ↔ _
  simp only [plainFields, plain_wordy, Bool.true_and, Bool.and_true, Bool.and_eq_true]
  exact Iff.rfl

/-- The numbers of a plan. -/
theorem plan_numbers {p : MovePlan} : plain (encode p) = true ↔
    plain (encode p.steps) = true ∧ plain (encode p.weights) = true := by
  obtain ⟨_, _, _, selection, _, _, _⟩ := p
  show plainFields _ = true ↔ _
  cases selection with
  | none =>
      simp only [optionalEntry, List.nil_append, List.cons_append, plainFields, plain_wordy,
        Bool.true_and, Bool.and_true, Bool.and_eq_true]
  | some selection =>
      simp only [optionalEntry, List.nil_append, List.cons_append, plainFields, plain_wordy,
        Bool.true_and, Bool.and_true, Bool.and_eq_true]

/-- Weights that are checked are numbers. -/
theorem weights_numbers {w : PlanWeights} (h : w.valid = true) : plain (encode w) = true := by
  simp only [PlanWeights.valid, List.all_cons, List.all_nil, Bool.and_eq_true] at h
  obtain ⟨h1, h2, h3, h4, h5, -⟩ := h
  show (_ && (_ && (_ && (_ && (_ && true))))) = true
  simp only [Bool.and_eq_true, and_true]
  exact ⟨h1, h2, h3, h4, h5⟩

/-- Dimensions that are checked are numbers. -/
theorem dimensions_numbers {d : Option Dimensions} (h : dimensionsValid d = true) :
    plain (encode d) = true := by
  cases d with
  | none => rfl
  | some d =>
      simp only [dimensionsValid, Dimensions.valid, List.all_cons, List.all_nil,
        Bool.and_eq_true] at h
      obtain ⟨⟨h1, -⟩, ⟨h2, -⟩, ⟨h3, -⟩, -⟩ := h
      show (_ && (_ && (_ && (_ && true)))) = true
      simp only [Bool.and_eq_true, and_true]
      exact ⟨h1, h2, rfl, h3⟩

/-- A safe integer is a finite number. -/
theorem isFinite_of_safe {n : Int} (h : JsNumber.safeInt n = true) :
    (JsNumber.ofInt n).isFinite = true := by
  simp only [JsNumber.safeInt, decide_eq_true_eq] at h
  have hmax : ((JsNumber.maxSafeInteger : Int) : ℚ) ≤ JsNumber.maxValue := by decide +kernel
  have h1 : ((-JsNumber.maxSafeInteger : Int) : ℚ) ≤ (n : ℚ) := by exact_mod_cast h.1
  have h2 : ((n : Int) : ℚ) ≤ ((JsNumber.maxSafeInteger : Int) : ℚ) := by exact_mod_cast h.2
  push_cast at h1
  exact JsNumber.isFinite_iff.mpr ⟨n, rfl, by linarith, by linarith⟩

/-! ## 2. Writing finite values -/

theorem finite_ownEntries {v : JsValue} (h : finite v = true) {key : String} :
    finite (lookup key (ownEntries v)) = true := by
  cases v with
  | obj fs => exact finiteFields_lookup h
  | arr xs =>
      refine finiteFields_lookup (finiteFields_iff.mpr fun p hp => ?_)
      obtain ⟨⟨x, n⟩, hx, rfl⟩ := List.mem_map.mp hp
      exact finiteList_iff.mp h x (List.fst_mem_of_mem_zipIdx hx)
  | _ => rfl

/-- The object on the way of a path, or an empty one. -/
theorem finite_next {v : JsValue} (h : finite v = true) (key : String) :
    finite (if isObjectLike (ownValue v key) then ownValue v key else .obj []) = true := by
  split
  · rename_i hlike
    cases v with
    | arr xs =>
        unfold ownValue at hlike ⊢
        by_cases hlength : key = "length"
        · simp only [hlength, if_true] at hlike
          cases hlike
        · simp only [if_neg hlength]
          exact finite_ownEntries h
    | _ => exact finite_get h key
  · rfl

theorem finite_writeKey {v value w : JsValue} {key : String} (h : finite v = true)
    (hv : finite value = true) (hw : writeKey v key value = some w) : finite w = true := by
  unfold writeKey at hw
  split at hw
  · cases hw
    split
    · exact finite_delKey h key
    · exact finite_setKey h hv key
  · split at hw
    · cases hw
      refine finiteList_iff.mpr fun x hx => ?_
      rcases List.mem_or_eq_of_mem_set hx with hx | rfl
      · exact finiteList_iff.mp h x hx
      · exact hv
    · cases hw
  · cases hw

/-- Writing a finite value at a path keeps a value finite. -/
theorem finite_writeKeys {v value w : JsValue} {keys : List String} (h : finite v = true)
    (hv : finite value = true) (hw : writeKeys v keys value = some w) : finite w = true := by
  induction keys generalizing v w with
  | nil => cases hw
  | cons key rest ih =>
      cases rest with
      | nil => exact finite_writeKey h hv hw
      | cons k ks =>
          simp only [writeKeys] at hw
          split at hw
          · rename_i u hu
            exact finite_writeKey h (ih (finite_next h key) hu) hw
          · cases hw

theorem finite_writePath {v value w : JsValue} {path : String} (h : finite v = true)
    (hv : finite value = true) (hw : writePath v path value = .ok w) : finite w = true := by
  simp only [writePath, result_bind_ok] at hw
  obtain ⟨keys, -, hw⟩ := hw
  split at hw
  · rename_i u hu
    cases hw
    exact finite_writeKeys h hv hu
  · cases hw

/-- A record that is patched is read back from its value. -/
theorem decodeRecord_ok {α : Type} [Codec α] {v : JsValue} {a : α}
    (h : decodeRecord α v = .ok a) : decode v = some a := by
  unfold decodeRecord at h
  split at h
  · rename_i b hb
    cases h
    exact hb
  · cases h

/-- The records of a state have finite numbers. -/
structure PlainRecords (s : WorkspaceState) : Prop where
  items : ∀ i ∈ s.items, plain (encode i) = true
  locations : ∀ l ∈ s.locations, plain (encode l) = true
  plans : ∀ p ∈ s.plans, plain (encode p) = true
  workspace : plain (encode s.workspace) = true

/-- A patch with a finite value keeps records plain. -/
theorem patchCollection_plain {α : Type} [Entity α] [Numbers α] {records next : List α}
    {p : FieldPatch} (h : ∀ a ∈ records, plain (encode a) = true) (hp : finite p.after = true)
    (hn : patchCollection records p = .ok next) : ∀ a ∈ next, plain (encode a) = true := by
  have hset : ∀ {x : α}, plain (encode x) = true →
      ∀ a ∈ setFirst idOf p.id x records, plain (encode a) = true := by
    intro x hx a ha
    rcases mem_setFirst ha with rfl | ha
    · exact hx
    · exact h a ha
  unfold patchCollection at hn
  split at hn
  · split at hn
    · cases hn
      exact fun a ha => h a (dropFirst_sublist.mem ha)
    · simp only [result_bind_ok] at hn
      obtain ⟨x, hx, hn⟩ := hn
      have hplain := plain_of_decode (decodeRecord_ok hx) hp
      split at hn
      · cases hn
        exact hset hplain
      · cases hn
        intro a ha
        rcases List.mem_append.mp ha with ha | ha
        · exact h a ha
        · rw [List.mem_singleton.mp ha]
          exact hplain
  · split at hn
    · cases hn
    · rename_i entity hentity
      simp only [result_bind_ok] at hn
      obtain ⟨w, hw, x, hx, hn⟩ := hn
      cases hn
      have hentity := h entity (findKey_some hentity).1
      exact hset (plain_of_decode (decodeRecord_ok hx)
        (finite_writePath (finite_of_plain hentity) hp hw))

/-- And the workspace. -/
theorem patchWorkspace_plain {w v : Workspace} {p : FieldPatch} (h : plain (encode w) = true)
    (hp : finite p.after = true) (hv : patchWorkspace w p = .ok v) :
    plain (encode v) = true := by
  unfold patchWorkspace at hv
  split at hv
  · split at hv
    · cases hv
    · exact plain_of_decode (decodeRecord_ok hv) hp
  · split at hv
    · simp only [result_bind_ok] at hv
      obtain ⟨u, hu, hv⟩ := hv
      exact plain_of_decode (decodeRecord_ok hv) (finite_writePath (finite_of_plain h) hp hu)
    · cases hv

/-- And the whole state. -/
theorem applyFieldPatch_plain {s t : WorkspaceState} {p : FieldPatch} (h : PlainRecords s)
    (hp : finite p.after = true) (ht : applyFieldPatch s p = .ok t) : PlainRecords t := by
  unfold applyFieldPatch at ht
  cases htarget : p.target <;> simp only [htarget, result_bind_ok, result_pure_ok] at ht <;>
    obtain ⟨x, hx, rfl⟩ := ht
  · exact { h with items := patchCollection_plain h.items hp hx }
  · exact { h with locations := patchCollection_plain h.locations hp hx }
  · exact { h with plans := patchCollection_plain h.plans hp hx }
  · exact { h with workspace := patchWorkspace_plain h.workspace hp hx }

/-- So do several patches. -/
theorem applyPatches_plain {s t : WorkspaceState} {ps : List FieldPatch} (h : PlainRecords s)
    (hp : ∀ p ∈ ps, finite p.after = true) (ht : applyPatches s ps = .ok t) : PlainRecords t := by
  induction ps generalizing s with
  | nil =>
      cases ht
      exact h
  | cons p ps ih =>
      simp only [applyPatches, result_bind_ok] at ht
      obtain ⟨u, hu, ht⟩ := ht
      exact ih (applyFieldPatch_plain h (hp p List.mem_cons_self) hu)
        (fun q hq => hp q (List.mem_cons_of_mem _ hq)) ht

/-! ## 3. Settled patches -/

/-- The value of a whole item has no old name and, where one can be given, an order. -/
def wholeItem (v : JsValue) : Bool :=
  !v.isRecord || (!v.hasOwn "notes" &&
    (!(v.get "id").isString || !(v.get "locationId").isString || (v.get "order").isFiniteNum))

/-- A patch that text and normalising leave alone. -/
structure SettledPatch (p : FieldPatch) : Prop where
  after : loose p.after = true
  before : loose p.before = true
  renamed : p.target = .item → p.path ≠ "notes"
  whole : p.target = .item → p.path = "" → wholeItem p.after = true ∧ wholeItem p.before = true

/-- Each of the patches is settled. -/
def Settles (ps : List FieldPatch) : Prop := ∀ p ∈ ps, SettledPatch p

@[simp] theorem settles_nil : Settles [] := fun _ h => absurd h List.not_mem_nil

/-- Patches are settled one by one. -/
@[simp] theorem settles_cons {p : FieldPatch} {ps : List FieldPatch} :
    Settles (p :: ps) ↔ SettledPatch p ∧ Settles ps := by
  simp [Settles]

@[simp] theorem settles_append {ps qs : List FieldPatch} :
    Settles (ps ++ qs) ↔ Settles ps ∧ Settles qs := by
  simp only [Settles, List.mem_append, or_imp, forall_and]

theorem settles_map {α : Type} {f : α → FieldPatch} {l : List α}
    (h : ∀ a ∈ l, SettledPatch (f a)) : Settles (l.map f) := by
  intro p hp
  obtain ⟨a, ha, rfl⟩ := List.mem_map.mp hp
  exact h a ha

theorem settles_ite {c : Prop} [Decidable c] {ps : List FieldPatch} (h : c → Settles ps) :
    Settles (if c then ps else []) := by
  split
  · exact h ‹_›
  · exact settles_nil

/-- A settled patch writes a finite value. -/
theorem SettledPatch.finite {p : FieldPatch} (h : SettledPatch p) : finite p.after = true := by
  rcases loose_iff.mp h.after with ha | ha
  · rw [ha]
    rfl
  · exact finite_of_plain ha

/-- A patch of a field. -/
theorem settled_field (target : PatchTarget) (id : String) {path : String} {before after : JsValue}
    (hpath : path ≠ "" ∧ path ≠ "notes") (hb : plain before = true) (ha : plain after = true) :
    SettledPatch (patch target id path before after) :=
  ⟨loose_of_plain ha, loose_of_plain hb, fun _ => hpath.2, fun _ h => absurd h hpath.1⟩

/-- A patch of a record that is not an item. -/
theorem settled_record {target : PatchTarget} (id : String) {before after : JsValue}
    (ht : target ≠ .item) (hb : loose before = true) (ha : loose after = true) :
    SettledPatch (patch target id "" before after) :=
  ⟨ha, hb, fun h => absurd h ht, fun h => absurd h ht⟩

/-- A stored item has its description under its present name, and an order. -/
theorem wholeItem_encode {i : ItemRecord} (h : plain (encode i) = true) :
    wholeItem (encode i) = true := by
  have horder : ((encode i).get "order").isFiniteNum = true := (item_numbers.mp h).2.1
  unfold wholeItem
  rw [horder]
  simp only [Bool.or_true, Bool.and_true]
  rfl

/-- The patch of a new item is settled. -/
theorem settled_created {i : ItemRecord} (h : plain (encode i) = true) :
    SettledPatch (patch .item i.id "" .undefined (encode i)) :=
  ⟨loose_of_plain h, rfl, fun _ => (by decide : "" ≠ "notes"), fun _ _ => ⟨wholeItem_encode h, rfl⟩⟩

/-- The patch of a deleted item is settled. -/
theorem settled_deleted {i : ItemRecord} (h : plain (encode i) = true) :
    SettledPatch (patch .item i.id "" (encode i) .undefined) :=
  ⟨rfl, loose_of_plain h, fun _ => (by decide : "" ≠ "notes"), fun _ _ => ⟨rfl, wholeItem_encode h⟩⟩

/-- The patch of a discarded plan is settled. -/
theorem settled_discard (p : MovePlan) : SettledPatch (discardPatch p) :=
  settled_field _ _ (by decide) (plain_wordy _) (plain_wordy _)

@[simp] theorem settles_invalidation (s : WorkspaceState) (items locations : List String) :
    Settles (planInvalidationPatches s items locations) :=
  settles_map fun p _ => settled_discard p

@[simp] theorem settles_progressPatches (l : Location) (timestamp : String) :
    Settles (progressPatches l timestamp) := by
  rw [progressPatches, settles_cons, settles_cons]
  exact ⟨settled_field _ _ (by decide) (plain_wordy _) (plain_wordy _),
    settled_field _ _ (by decide) (plain_wordy _) (plain_wordy _), settles_nil⟩

/-- So are those of spaces in progress. -/
theorem settles_captureProgress {s : WorkspaceState} {id timestamp : String}
    {ps : List FieldPatch} (h : captureProgressPatches s id timestamp = .ok ps) : Settles ps := by
  simp only [captureProgressPatches, result_bind_ok, result_pure_ok] at h
  obtain ⟨l, -, rfl⟩ := h
  split <;> simp

theorem settles_progressEach {s : WorkspaceState} {timestamp : String}
    {should : Location → Bool} {ids : List String} {ps : List FieldPatch}
    (h : progressEach s timestamp should ids = .ok ps) : Settles ps := by
  induction ids generalizing ps with
  | nil =>
      cases h
      exact settles_nil
  | cons id ids ih =>
      simp only [progressEach, result_bind_ok, result_pure_ok] at h
      obtain ⟨l, -, rest, hrest, rfl⟩ := h
      rw [settles_append]
      refine ⟨?_, ih hrest⟩
      split <;> simp

/-- The version of an item whose counter goes on is a finite number. -/
theorem isFinite_nextVersion {i : ItemRecord} {version : Int}
    (h : nextItemVersion i = .ok version) : (JsNumber.ofInt version).isFinite = true := by
  obtain ⟨hsafe, hmax, rfl⟩ := nextItemVersion_ok.mp h
  refine isFinite_of_safe ?_
  simp only [JsNumber.safeInt, decide_eq_true_eq] at hsafe ⊢
  omega

/-- The patches of an item that changes: its fields, its timestamp and its version. -/
theorem settles_itemFields {i : ItemRecord} (hi : plain (encode i) = true) {l : List ItemEntry}
    (he : ∀ e ∈ l, plain e.value = true) (timestamp : String) {version : Int}
    (hv : (JsNumber.ofInt version).isFinite = true) :
    Settles (itemFieldPatches i l timestamp version) := by
  obtain ⟨hd, ho, hq, hver⟩ := item_numbers.mp hi
  have hhere : ∀ e : ItemEntry, plain (e.here i).value = true := by
    intro e
    cases e with
    | dimensions _ => exact hd
    | order _ => exact ho
    | quantity _ => exact hq
    | version _ => exact hver
    | constraint e => cases e <;> exact plain_wordy _
    | _ => exact plain_wordy _
  have hkey : ∀ e : ItemEntry, e.key ≠ "" ∧ e.key ≠ "notes" := by
    intro e
    refine ⟨itemKey_ne e, ?_⟩
    cases e with
    | constraint e => cases e <;> simp [ItemEntry.key, ConstraintEntry.key]
    | _ => simp [ItemEntry.key]
  rw [itemFieldPatches, settles_append]
  refine ⟨settles_map fun e hin => settled_field _ _ (hkey e) (hhere e) (he e hin), ?_⟩
  rw [settles_cons, settles_cons]
  exact ⟨settled_field _ _ (by decide) (plain_wordy _) (plain_wordy _),
    settled_field _ _ (by decide) hver hv, settles_nil⟩

/-- So are those of a quantity. -/
theorem settles_quantity {i : ItemRecord} (hi : plain (encode i) = true) {quantity : JsNumber}
    (hq : quantity.isFinite = true) (timestamp : String) {version : Int}
    (hv : (JsNumber.ofInt version).isFinite = true) :
    Settles (quantityPatches i quantity timestamp version) := by
  have h := settles_itemFields hi (l := [.quantity quantity])
    (fun e he => by rw [List.mem_singleton.mp he]; exact hq) timestamp hv
  exact h

/-! ## 4. The patches of a change -/

/-- An item that is found is plain. -/
theorem plain_found {s : WorkspaceState} (h : PlainRecords s) {id : String} {i : ItemRecord}
    (hi : findItem s id = some i) : plain (encode i) = true :=
  h.items i (findKey_some hi).1

/-- The order of a moved item is a number. -/
theorem finite_destinationOrder {s : WorkspaceState} (h : PlainRecords s)
    (destinationId : String) : (destinationOrder s destinationId).isFinite = true := by
  refine JsNumber.isFinite_add_one ?_
  have hfold : ∀ (l : List ItemRecord) (x : JsNumber), (∀ i ∈ l, i.order.isFinite = true) →
      x.isFinite = true →
      (l.foldl (fun maximum c => JsNumber.max maximum c.order) x).isFinite = true := by
    intro l
    induction l with
    | nil => exact fun _ _ hx => hx
    | cons i l ih =>
        intro x hl hx
        exact ih _ (fun j hj => hl j (List.mem_cons_of_mem _ hj))
          (JsNumber.isFinite_max hx (hl i List.mem_cons_self))
  refine hfold _ _ (fun i hi => ?_) (by decide +kernel)
  exact (item_numbers.mp (h.items i (List.mem_filter.mp hi).1)).2.1

/-- What is left of a quantity is finite. -/
theorem isFinite_remaining {x y : JsNumber} (hx : x.isFinite = true) (hy : y.isFinite = true)
    (hpos : y.pos = true) (hle : x.lt y = false) : (x.sub y).isFinite = true := by
  by_cases hzero : x.sub y = 0
  · rw [hzero]
    decide +kernel
  · exact (JsNumber.pos_sub hx hy hpos (JsNumber.lt_of_sub_ne_zero hx hy hle hzero)).1

section Changes

variable [Host] {s : WorkspaceState} {env : CommandEnvelope}

/-- The patches of a moved item are settled. -/
theorem settles_moveItem (h : PlainRecords s) {i : ItemRecord} (hi : plain (encode i) = true)
    {destinationId id timestamp : String} {quantity : JsNumber} {ps : List FieldPatch}
    (hm : moveItemPatches s i destinationId quantity id timestamp = .ok ps) : Settles ps := by
  simp only [moveItemPatches, result_bind_ok, refuse_ok, Bool.or_eq_false_iff,
    Bool.not_eq_false'] at hm
  obtain ⟨_, -, _, -, _, ⟨⟨hfinite, hpos⟩, hle⟩, hm⟩ := hm
  obtain ⟨hd, ho, hq, hver⟩ := item_numbers.mp hi
  have hremaining : (i.quantity.sub quantity).isFinite = true :=
    isFinite_remaining hq hfinite hpos hle
  split at hm
  · rename_i m hmatch
    have hmplain : plain (encode m) = true := h.items m (List.mem_of_find?_eq_some hmatch)
    simp only [result_bind_ok, refuse_ok, Bool.not_eq_false'] at hm
    obtain ⟨_, hmerged, version, hversion, hm⟩ := hm
    have hfirst := settles_quantity hmplain hmerged timestamp (isFinite_nextVersion hversion)
    split at hm
    · rw [result_pure_ok] at hm
      subst hm
      exact settles_append.mpr ⟨hfirst, settles_cons.mpr ⟨settled_deleted hi, settles_nil⟩⟩
    · simp only [result_bind_ok, result_pure_ok] at hm
      obtain ⟨own, hown, rfl⟩ := hm
      exact settles_append.mpr ⟨hfirst,
        settles_quantity hi hremaining timestamp (isFinite_nextVersion hown)⟩
  · split at hm
    · simp only [result_bind_ok, result_pure_ok] at hm
      obtain ⟨version, hversion, rfl⟩ := hm
      have hfields := settles_itemFields hi
        (l := [.locationId destinationId, .order (destinationOrder s destinationId)])
        (fun e he => by
          rcases List.mem_pair.mp he with rfl | rfl
          · rfl
          · exact finite_destinationOrder h destinationId) timestamp (isFinite_nextVersion hversion)
      exact hfields
    · simp only [result_bind_ok, result_pure_ok] at hm
      obtain ⟨_, -, version, hversion, rfl⟩ := hm
      refine settles_append.mpr
        ⟨settles_quantity hi hremaining timestamp (isFinite_nextVersion hversion),
          settles_cons.mpr ⟨settled_created (item_numbers.mpr ?_), settles_nil⟩⟩
      exact ⟨hd, finite_destinationOrder h destinationId, hfinite,
        isFinite_of_safe (show JsNumber.safeInt 1 = true by decide)⟩

/-- So are those of a bulk move. -/
theorem settles_bulkMoveLoop (h : PlainRecords s) {destinationId : String} {ids : List String}
    {ps : List FieldPatch} (hm : bulkMoveLoop env destinationId s ids = .ok ps) : Settles ps := by
  induction ids generalizing s ps with
  | nil =>
      cases hm
      exact settles_nil
  | cons id ids ih =>
      simp only [bulkMoveLoop, result_bind_ok, requireActiveItem_ok, result_pure_ok] at hm
      obtain ⟨i, ⟨hi, -⟩, first, hmove, t, ht, rest, hrest, rfl⟩ := hm
      have hfirst := settles_moveItem h (plain_found h hi) hmove
      have ht := applyPatches_plain h (fun p hp => (hfirst p hp).finite) ht
      exact settles_append.mpr ⟨hfirst, ih ht hrest⟩

omit [Host] in

/-- So are those of the parents. -/
theorem settles_parentProgress {source destination : Option String} {reopen : Bool}
    {ps : List FieldPatch} (h : parentProgress s env source destination reopen = .ok ps) :
    Settles ps := by
  unfold parentProgress at h
  split at h
  · exact settles_progressEach h
  · split at h
    · exact settles_captureProgress h
    · cases h
      exact settles_nil

omit [Host] in
theorem settles_moveProgress {sources : List String} {destination : String} {reopen : Bool}
    {ps : List FieldPatch} (h : moveProgress s env sources destination reopen = .ok ps) :
    Settles ps := by
  unfold moveProgress at h
  split at h
  · exact settles_progressEach h
  · exact settles_captureProgress h

omit [Host] in
/-- The two patches of a location that changes in one field. -/
theorem settles_locationField (l : Location) (id : String) {path : String}
    {before after : JsValue} (hpath : path ≠ "" ∧ path ≠ "notes") (hb : plain before = true)
    (ha : plain after = true) (timestamp : String) :
    Settles [patch .location id path before after,
      patch .location id "updatedAt" (encode l.updatedAt) (encode timestamp)] :=
  settles_cons.mpr ⟨settled_field _ _ hpath hb ha,
    settles_cons.mpr ⟨settled_field _ _ (by decide) (plain_wordy _) (plain_wordy _), settles_nil⟩⟩

variable {change : Change}

omit [Host] in

/-- The patches of each command are settled, over plain records: here the rename. -/
theorem workspaceRename_settles {name : String} (h : workspaceRename s name = .ok change) :
    Settles change.patches := by
  simp only [workspaceRename, result_bind_ok, result_pure_ok] at h
  obtain ⟨_, -, _, -, rfl⟩ := h
  exact settles_cons.mpr ⟨settled_field _ _ (by decide) (plain_wordy _) (plain_wordy _),
    settles_nil⟩

/-- A location that is checked is plain. -/
theorem validateLocation_plain {l : Location} {ignoreId : Option String} {u : Unit}
    (h : validateLocation s l ignoreId = .ok u) : plain (encode l) = true :=
  location_numbers.mpr ⟨dimensions_numbers (validateLocation_ok h).dimensions,
    (validateLocation_ok h).order⟩

omit [Host] in

/-- An item that is checked is plain. -/
theorem ItemChecked.plain {i : ItemRecord} (h : ItemChecked s i) : plain (encode i) = true :=
  item_numbers.mpr ⟨dimensions_numbers h.dimensions, h.order, h.quantity.1,
    isFinite_of_safe h.version.2⟩

/-- A new space. -/
theorem locationCreate_settles {l : Location} (h : locationCreate s env l = .ok change) :
    Settles change.patches := by
  simp only [locationCreate, result_bind_ok, result_pure_ok] at h
  obtain ⟨_, hcheck, _, -, progress, hprogress, rfl⟩ := h
  have hp : Settles progress := by
    split at hprogress
    · exact settles_captureProgress hprogress
    · cases hprogress
      exact settles_nil
  rw [settles_append, settles_append]
  exact ⟨⟨settles_ite fun _ => settles_invalidation _ _ _, settles_cons.mpr
    ⟨settled_record _ (by decide) rfl (loose_of_plain (validateLocation_plain hcheck)),
      settles_nil⟩⟩, hp⟩

omit [Host] in
/-- What was set last is there. -/
theorem here_putAll {ε α : Type} [Entity α] [FieldEntry ε α] {es : List ε}
    (hne : es.Pairwise fun e e' => ∀ a : α, FieldEntry.here e (FieldEntry.put e' a) =
      FieldEntry.here e a) {e : ε} (he : e ∈ es) (a : α) :
    FieldEntry.here e (putAll es a) = e := by
  induction es generalizing a with
  | nil => exact absurd he List.not_mem_nil
  | cons f es ih =>
      rw [List.pairwise_cons] at hne
      show FieldEntry.here e (putAll es (FieldEntry.put f a)) = e
      rcases List.mem_cons.mp he with rfl | he
      · rw [putAll_keeps (f := FieldEntry.here e) (fun e' he' b => hne.1 e' he' b),
          FieldEntry.here_put]
      · exact ih hne.2 he _

/-- The details of a space. -/
theorem locationUpdate_settles (h : PlainRecords s) {id : String} {changes : LocationChanges}
    {reopen : Bool} (hc : locationUpdate s env id changes reopen = .ok change) :
    Settles change.patches := by
  simp only [locationUpdate, result_bind_ok, requireActiveLocation_ok, result_pure_ok] at hc
  obtain ⟨l, ⟨hl, -⟩, _, -, _, -, _, hcheck, _, -, progress, hprogress, _, -, rfl⟩ := hc
  have hp : Settles progress := by
    split at hprogress
    · exact settles_parentProgress hprogress
    · cases hprogress
      exact settles_nil
  obtain ⟨hd, ho⟩ := location_numbers.mp (h.locations l (findKey_some hl).1)
  have hhere : ∀ e : LocationEntry, plain (e.here l).value = true := by
    intro e
    cases e with
    | dimensions _ => exact hd
    | order _ => exact ho
    | _ => exact plain_wordy _
  have hkey : ∀ e : LocationEntry, e.key ≠ "" ∧ e.key ≠ "notes" :=
    fun e => by cases e <;> simp [LocationEntry.key]
  have hnext := location_numbers.mp (validateLocation_plain hcheck)
  have hput : ∀ e ∈ changes.entries, e.here (putAll changes.entries l) = e := by
    refine fun e he => here_putAll ?_ he l
    exact (List.pairwise_map.mp changes.nodup).imp fun hne a =>
      LocationEntry.here_put_ne (Ne.symm hne) a
  rw [settles_append, settles_append, settles_append]
  refine ⟨⟨⟨settles_map fun e he => settled_field _ _ (hkey e) (hhere e) ?_, ?_⟩,
    settles_ite fun _ => settles_invalidation _ _ _⟩, settles_ite fun _ => hp⟩
  · obtain ⟨e', he', rfl⟩ := List.mem_map.mp (List.mem_filter.mp he).1
    have hhere := hput e' he'
    cases e' with
    | dimensions d =>
        have hd : (putAll changes.entries l).dimensions = d := LocationEntry.dimensions.inj hhere
        exact hd ▸ hnext.1
    | order x =>
        have ho : (putAll changes.entries l).order = x := LocationEntry.order.inj hhere
        exact ho ▸ hnext.2
    | _ => exact plain_wordy _
  · exact settles_cons.mpr
      ⟨settled_field _ _ (by decide) (plain_wordy _) (plain_wordy _), settles_nil⟩

omit [Host] in

/-- A moved space. -/
theorem locationMove_settles (h : PlainRecords s) {id : String} {parentId : Option String}
    {order : Option JsNumber} {reopen : Bool}
    (hc : locationMove s env id parentId order reopen = .ok change) :
    Settles change.patches := by
  simp only [locationMove, result_bind_ok, requireActiveLocation_ok, refuse_ok,
    result_pure_ok] at hc
  obtain ⟨l, ⟨hl, -⟩, _, -, _, horder, _, -, _, -, _, -, _, -, progress, hprogress, rfl⟩ := hc
  have hp : Settles progress := by
    split at hprogress
    · exact settles_parentProgress hprogress
    · cases hprogress
      exact settles_nil
  have ho := (location_numbers.mp (h.locations l (findKey_some hl).1)).2
  rw [settles_append, settles_append, settles_append]
  refine ⟨⟨⟨settles_ite fun _ => settles_cons.mpr
    ⟨settled_field _ _ (by decide) (plain_wordy _) (plain_wordy _), settles_invalidation _ _ _⟩,
    ?_⟩, ?_⟩, hp⟩
  · exact settles_cons.mpr
      ⟨settled_field _ _ (by decide) (plain_wordy _) (plain_wordy _), settles_nil⟩
  · cases order with
    | none => exact settles_nil
    | some x =>
        have hx : x.isFinite = true := by simpa using horder
        exact settles_cons.mpr ⟨settled_field _ _ (by decide) ho hx, settles_nil⟩

omit [Host] in

/-- The order of a space. -/
theorem locationReorder_settles (h : PlainRecords s) {id : String} {order : JsNumber}
    (hc : locationReorder s env id order = .ok change) : Settles change.patches := by
  simp only [locationReorder, result_bind_ok, requireActiveLocation_ok, refuse_ok,
    Bool.not_eq_false', result_pure_ok] at hc
  obtain ⟨l, ⟨hl, -⟩, _, horder, _, -, rfl⟩ := hc
  have ho : plain (encode l.order) = true :=
    (location_numbers.mp (h.locations l (findKey_some hl).1)).2
  have hnew : plain (encode order) = true := horder
  exact settles_locationField l l.id (by decide) ho hnew _

/-- A space that is archived or restored. -/
theorem locationArchive_settles {id : String} {archived : Bool}
    (hc : locationArchive s env id archived = .ok change) : Settles change.patches := by
  simp only [locationArchive, result_bind_ok, result_pure_ok] at hc
  obtain ⟨l, -, _, -, _, -, _, -, _, -, progress, hprogress, rfl⟩ := hc
  have hp : Settles progress := by
    split at hprogress
    · exact settles_captureProgress hprogress
    · cases hprogress
      exact settles_nil
  rw [settles_append, settles_append]
  exact ⟨⟨settles_locationField l l.id (by decide) (plain_wordy _) (plain_wordy _) _,
    settles_invalidation _ _ _⟩, hp⟩

omit [Host] in

/-- A space that goes with what is inside. -/
theorem locationDelete_settles (h : PlainRecords s) {id : String}
    {descendants items : List String} (hc : locationDelete s id descendants items = .ok change) :
    Settles change.patches := by
  simp only [locationDelete, result_bind_ok, requireLocation_ok, result_pure_ok] at hc
  obtain ⟨l, hl, _, -, is, his, _, -, rfl⟩ := hc
  have hdeleted : ∀ m ∈ s.locations, SettledPatch (patch .location m.id "" (encode m) .undefined) :=
    fun m hm => settled_record _ (by decide) (loose_of_plain (h.locations m hm)) rfl
  rw [settles_append, settles_append, settles_append]
  refine ⟨⟨⟨settles_invalidation _ _ _, settles_map fun i hi => settled_deleted
    (plain_found h ((items_of_mapM his).2 i hi))⟩, settles_map fun m hm => hdeleted m ?_⟩,
    settles_cons.mpr ⟨hdeleted l (findKey_some hl).1, settles_nil⟩⟩
  have hroot : ∀ q ∈ [l.id], Relation.ReflTransGen
      (Below Location.id Location.parentId s.locations) q l.id :=
    fun q hq => by rw [List.mem_singleton.mp hq]
  exact (descend_sound hroot (List.mem_reverse.mp hm)).1

omit [Host] in

/-- The items of a container that is emptied. -/
theorem captureEmpty_settles (h : PlainRecords s) {id : String} {items : List String}
    (hc : captureEmpty s env id items = .ok change) : Settles change.patches := by
  simp only [captureEmpty, result_bind_ok, result_pure_ok] at hc
  obtain ⟨l, -, _, -, _, -, _, -, rfl⟩ := hc
  rw [settles_append, settles_append]
  exact ⟨⟨settles_invalidation _ _ _, settles_map fun i hi => settled_deleted
    (h.items i (List.mem_filter.mp hi).1)⟩,
    settles_locationField l l.id (by decide) (plain_wordy _) (plain_wordy _) _⟩

omit [Host] in

/-- The status of a space. -/
theorem captureStatus_settles {id : String} {status : CaptureStatus}
    (hc : captureStatus s env id status = .ok change) : Settles change.patches := by
  simp only [captureStatus, result_bind_ok, result_pure_ok] at hc
  obtain ⟨l, -, _, -, _, -, _, -, rfl⟩ := hc
  exact settles_append.mpr ⟨settles_invalidation _ _ _,
    settles_locationField l l.id (by decide) (plain_wordy _) (plain_wordy _) _⟩

/-- A new item. -/
theorem itemCreate_settles {i : ItemRecord} (hc : itemCreate s env i = .ok change) :
    Settles change.patches := by
  simp only [itemCreate, result_bind_ok, result_pure_ok] at hc
  obtain ⟨_, hcheck, _, -, _, -, progress, hprogress, rfl⟩ := hc
  rw [settles_append, settles_append]
  exact ⟨⟨settles_invalidation _ _ _, settles_cons.mpr
    ⟨settled_created (validateItem_ok hcheck).plain, settles_nil⟩⟩,
    settles_captureProgress hprogress⟩

omit [Host] in

/-- Several new items. -/
theorem itemBulkCreate_settles {items : List ItemRecord} {reopen : Bool}
    (hc : itemBulkCreate s env items reopen = .ok change) : Settles change.patches := by
  simp only [itemBulkCreate, result_bind_ok, result_pure_ok] at hc
  obtain ⟨_, -, _, hcheck, _, -, _, -, progress, hprogress, rfl⟩ := hc
  rw [settles_append, settles_append]
  exact ⟨⟨settles_invalidation _ _ _, settles_map fun i hi => settled_created
    ((checkImported_ok hcheck).2 i hi).1.plain⟩, settles_progressEach hprogress⟩

omit [Host] in

/-- The details of an item. -/
theorem itemUpdate_settles (h : PlainRecords s) {id : String} {changes : ItemChanges}
    (hc : itemUpdate s env id changes = .ok change) : Settles change.patches := by
  simp only [itemUpdate, result_bind_ok, requireItem_ok, assertAllowedChanges_ok,
    result_pure_ok] at hc
  obtain ⟨i, hi, _, hkeys, _, -, version, hversion, _, hcheck, _, -, _, -, rfl⟩ := hc
  have hnext := item_numbers.mp (validateItem_ok hcheck).plain
  have hput : ∀ e ∈ changes.entries, e.here (putAll changes.entries i) = e := by
    refine fun e he => here_putAll ?_ he i
    have hapart : Apart changes.entries.reverse := apart_item
      (by rw [List.map_reverse]; exact List.nodup_reverse.mpr changes.nodup)
      fun e he => hkeys _ (List.mem_map_of_mem (List.mem_reverse.mp he))
    exact List.pairwise_reverse.mp hapart
  refine settles_append.mpr ⟨settles_ite fun _ => settles_invalidation _ _ _,
    settles_itemFields (plain_found h hi) (fun e he => ?_) _ (isFinite_nextVersion hversion)⟩
  obtain ⟨e', he', rfl⟩ := List.mem_map.mp (List.mem_filter.mp he).1
  have hhere := hput e' he'
  have hkey := hkeys _ (List.mem_map_of_mem he')
  cases e' with
  | dimensions d =>
      have hd : (putAll changes.entries i).dimensions = d := ItemEntry.dimensions.inj hhere
      exact hd ▸ hnext.1
  | quantity x =>
      have hq : (putAll changes.entries i).quantity = x := ItemEntry.quantity.inj hhere
      exact hq ▸ hnext.2.2.1
  | order _ => simp [ItemEntry.key, itemChangeKeys] at hkey
  | version _ => simp [ItemEntry.key, itemChangeKeys] at hkey
  | constraint e => cases e <;> exact plain_wordy _
  | _ => exact plain_wordy _

omit [Host] in

/-- The entries of a bulk update are plain. -/
theorem plain_leaf {e : BulkEntry} {f : ItemEntry} (hf : f ∈ e.leaves) : plain f.value = true := by
  cases e with
  | constraints v =>
      obtain ⟨c, -, rfl⟩ := List.mem_map.mp hf
      cases c <;> exact plain_wordy _
  | _ =>
      rw [List.mem_singleton.mp hf]
      exact plain_wordy _

omit [Host] in

/-- The patches of the loop of a bulk update. -/
theorem settles_bulkUpdateLoop (h : PlainRecords s) {seen : List String}
    {updates : List BulkUpdate} {is : List ItemRecord} {ps : List FieldPatch}
    (hl : bulkUpdateLoop s env seen updates = .ok (is, ps)) : Settles ps := by
  induction updates generalizing seen is ps with
  | nil =>
      cases hl
      exact settles_nil
  | cons update updates ih =>
      simp only [bulkUpdateLoop, result_bind_ok, requireActiveItem_ok] at hl
      obtain ⟨_, -, _, -, i, ⟨hi, -⟩, _, -, _, -, hl⟩ := hl
      split at hl
      · exact ih hl
      · simp only [result_bind_ok, result_pure_ok] at hl
        obtain ⟨version, hversion, ⟨more, rest⟩, hmore, hl⟩ := hl
        cases hl
        refine settles_append.mpr ⟨settles_itemFields (plain_found h hi) (fun e he => ?_) _
          (isFinite_nextVersion hversion), ih hmore⟩
        obtain ⟨b, -, hb⟩ := List.mem_flatMap.mp (List.mem_filter.mp he).1
        exact plain_leaf hb

omit [Host] in

/-- The details of several items. -/
theorem itemBulkUpdate_settles (h : PlainRecords s) {updates : List BulkUpdate} {reopen : Bool}
    (hc : itemBulkUpdate s env updates reopen = .ok change) : Settles change.patches := by
  simp only [itemBulkUpdate, result_bind_ok, result_pure_ok] at hc
  obtain ⟨_, -, ⟨_, _⟩, hloop, _, -, _, -, _, -, progress, hprogress, rfl⟩ := hc
  rw [settles_append, settles_append]
  exact ⟨⟨settles_invalidation _ _ _, settles_bulkUpdateLoop h hloop⟩,
    settles_progressEach hprogress⟩

omit [Host] in

/-- The order of an item. -/
theorem itemReorder_settles (h : PlainRecords s) {id : String} {order : JsNumber}
    (hc : itemReorder s env id order = .ok change) : Settles change.patches := by
  simp only [itemReorder, result_bind_ok, requireItem_ok, refuse_ok, Bool.not_eq_false',
    result_pure_ok] at hc
  obtain ⟨i, hi, _, horder, _, -, _, -, version, hversion, rfl⟩ := hc
  have hfields := settles_itemFields (plain_found h hi) (l := [.order order])
    (fun e he => by rw [List.mem_singleton.mp he]; exact horder) env.timestamp
    (isFinite_nextVersion hversion)
  exact hfields

omit [Host] in

/-- An item that goes. -/
theorem itemDelete_settles (h : PlainRecords s) {id : String}
    (hc : itemDelete s id = .ok change) : Settles change.patches := by
  simp only [itemDelete, result_bind_ok, requireItem_ok, result_pure_ok] at hc
  obtain ⟨i, hi, _, -, rfl⟩ := hc
  exact settles_append.mpr ⟨settles_invalidation _ _ _,
    settles_cons.mpr ⟨settled_deleted (plain_found h hi), settles_nil⟩⟩

/-- A moved item. -/
theorem itemMove_settles (h : PlainRecords s) {destinationId id : String} {quantity : JsNumber}
    {reopen : Bool} (hc : itemMove s env destinationId id quantity reopen = .ok change) :
    Settles change.patches := by
  simp only [itemMove, result_bind_ok, requireActiveItem_ok, result_pure_ok] at hc
  obtain ⟨i, ⟨hi, -⟩, _, hmove, _, -, _, hprogress, rfl⟩ := hc
  rw [settles_append, settles_append]
  exact ⟨⟨settles_invalidation _ _ _, settles_moveItem h (plain_found h hi) hmove⟩,
    settles_moveProgress hprogress⟩

/-- Several moved items. -/
theorem itemBulkMove_settles (h : PlainRecords s) {destinationId : String} {ids : List String}
    {reopen : Bool} (hc : itemBulkMove s env destinationId ids reopen = .ok change) :
    Settles change.patches := by
  simp only [itemBulkMove, result_bind_ok, result_pure_ok] at hc
  obtain ⟨_, -, _, -, _, -, _, -, _, hloop, _, -, _, -, _, hprogress, rfl⟩ := hc
  rw [settles_append, settles_append]
  exact ⟨⟨settles_invalidation _ _ _, settles_bulkMoveLoop h hloop⟩,
    settles_moveProgress hprogress⟩

omit [Host] in
theorem plain_sameQuantity {quantity : Option JsNumber} {x : JsNumber}
    (h : sameQuantity quantity x = true) (hx : x.isFinite = true) :
    plain (encode quantity) = true := by
  cases quantity with
  | none => rfl
  | some q =>
      have hq : q = x := by
        simp only [sameQuantity, JsNumber.strictEq, decide_eq_true_eq] at h
        exact h.1
      exact hq ▸ hx

omit [Host] in

/-- A step of a plan that is checked is plain. -/
theorem plain_newStep (h : PlainRecords s) {plan : MovePlan} {step : PlanStep}
    (hscore : step.score.isFinite = true) (hc : checkNewStep s plan step = .ok ()) :
    plain (encode step) = true := by
  simp only [checkNewStep, result_bind_ok] at hc
  obtain ⟨_, -, _, -, _, -, _, -, _, -, hc⟩ := hc
  refine step_numbers.mpr ⟨?_, hscore⟩
  split at hc
  · simp only [result_bind_ok, requireItem_ok, refuseStale, refuse_ok, Bool.or_eq_false_iff,
      Bool.not_eq_false'] at hc
    obtain ⟨i, hi, _, -, -, hsame⟩ := hc
    exact plain_sameQuantity hsame (item_numbers.mp (plain_found h hi)).2.2.1
  · split at hc
    · simp only [result_bind_ok, refuseStale, refuse_ok, Bool.or_eq_false_iff,
        decide_eq_false_iff_not, not_not] at hc
      obtain ⟨_, -, _, ⟨⟨-, hnone⟩, -⟩, -⟩ := hc
      rw [hnone]
      rfl
    · cases hc

omit [Host] in
theorem plain_newSteps (h : PlainRecords s) {plan : MovePlan} {seen : List String}
    {steps : List PlanStep} (hc : checkNewSteps s plan seen steps = .ok ()) :
    plain (encode steps) = true := by
  rw [plain_encode_list]
  induction steps generalizing seen with
  | nil => exact fun _ hp => absurd hp List.not_mem_nil
  | cons step steps ih =>
      simp only [checkNewSteps, result_bind_ok, refuse_ok, Bool.or_eq_false_iff,
        Bool.not_eq_false'] at hc
      obtain ⟨_, ⟨-, hscore⟩, _, -, _, hstep, hc⟩ := hc
      intro p hp
      rcases List.mem_cons.mp hp with rfl | hp
      · exact plain_newStep h hscore hstep
      · exact ih hc p hp

omit [Host] in

/-- A new plan. -/
theorem planCreate_settles (h : PlainRecords s) {p : MovePlan}
    (hc : planCreate s p = .ok change) : Settles change.patches := by
  simp only [planCreate, result_bind_ok, refuse_ok, Bool.or_eq_false_iff, Bool.not_eq_false',
    result_pure_ok] at hc
  obtain ⟨_, ⟨-, hweights⟩, _, -, _, -, _, -, _, -, _, hsteps, rfl⟩ := hc
  have hplain : plain (encode p) = true :=
    plan_numbers.mpr ⟨plain_newSteps h hsteps, weights_numbers hweights⟩
  exact settles_append.mpr ⟨settles_map fun q _ => settled_discard q,
    settles_cons.mpr ⟨settled_record _ (by decide) rfl (loose_of_plain hplain), settles_nil⟩⟩

omit [Host] in

/-- The status of a plan. -/
theorem planStatus_settles {id : String} {status : PlanStatus}
    (hc : planStatus s id status = .ok change) : Settles change.patches := by
  simp only [planStatus, result_bind_ok, result_pure_ok] at hc
  obtain ⟨_, -, _, -, _, -, _, -, _, -, _, -, rfl⟩ := hc
  exact settles_cons.mpr ⟨settled_field _ _ (by decide) (plain_wordy _) (plain_wordy _),
    settles_nil⟩

/-- The patches of a plan step. -/
theorem settles_stepPatches (h : PlainRecords s) {step : PlanStep} {ps : List FieldPatch}
    (hc : stepPatches s env step = .ok ps) : Settles ps := by
  unfold stepPatches at hc
  split at hc
  · simp only [result_bind_ok, requireItem_ok, result_pure_ok] at hc
    obtain ⟨i, hi, _, -, _, -, _, -, _, hmove, _, hprogress, rfl⟩ := hc
    exact settles_append.mpr ⟨settles_moveItem h (plain_found h hi) hmove,
      settles_progressEach hprogress⟩
  · split at hc
    · simp only [result_bind_ok, result_pure_ok] at hc
      obtain ⟨l, -, _, -, _, -, _, -, _, hprogress, rfl⟩ := hc
      exact settles_append.mpr ⟨settles_locationField l l.id (by decide) (plain_wordy _)
        (plain_wordy _) _, settles_progressEach hprogress⟩
    · cases hc

/-- A completed step. -/
theorem planStepComplete_settles (h : PlainRecords s) {id stepId : String}
    (hc : planStepComplete s env id stepId = .ok change) : Settles change.patches := by
  simp only [planStepComplete, result_bind_ok, requirePlan_ok, orThrow_ok, result_pure_ok] at hc
  obtain ⟨p, hp, _, -, _, -, step, hstep, _, -, _, -, _, -, _, hpatches, rfl⟩ := hc
  have hsteps : plain (encode p.steps) = true :=
    (plan_numbers.mp (h.plans p (findKey_some hp).1)).1
  have hdone : plain (encode { step with completedAt := some env.timestamp }) = true :=
    step_numbers.mpr
      (step_numbers (p := step).mp (plain_encode_list.mp hsteps step (findKey_some hstep).1))
  have hnext : plain (encode (completeStep p.steps step env.timestamp)) = true := by
    refine plain_encode_list.mpr fun q hq => ?_
    rcases mem_setFirst hq with rfl | hq
    · exact hdone
    · exact plain_encode_list.mp hsteps q hq
  refine settles_append.mpr ⟨settles_stepPatches h hpatches, settles_cons.mpr
    ⟨settled_field _ _ (by decide) hsteps hnext, settles_cons.mpr
      ⟨settled_field _ _ (by decide) (plain_wordy _) (plain_wordy _), settles_nil⟩⟩⟩

/-- **The patches of a change are settled.** -/
theorem normalPatches_settles (h : PlainRecords s) (hc : normalPatches s env = .ok change) :
    Settles change.patches := by
  unfold normalPatches at hc
  split at hc
  · exact workspaceRename_settles hc
  · exact locationCreate_settles hc
  · exact locationUpdate_settles h hc
  · exact locationMove_settles h hc
  · exact locationReorder_settles h hc
  · exact locationArchive_settles hc
  · exact locationDelete_settles h hc
  · exact captureEmpty_settles h hc
  · exact captureStatus_settles hc
  · exact itemCreate_settles hc
  · exact itemBulkCreate_settles hc
  · exact itemUpdate_settles h hc
  · exact itemBulkUpdate_settles h hc
  · exact itemReorder_settles h hc
  · exact itemDelete_settles h hc
  · exact itemMove_settles h hc
  · exact itemBulkMove_settles h hc
  · exact planCreate_settles h hc
  · exact planStepComplete_settles h hc
  · exact planStatus_settles hc
  all_goals cases hc

end Changes

/-! ## 5. Settled states -/

/-- A state that text and normalising leave alone. -/
structure Settled (s : WorkspaceState) : Prop where
  records : PlainRecords s
  patches : ∀ a ∈ s.activities, Settles a.patches
  receipts : s.commandReceipts.Nodup

section Commands

variable {s t : WorkspaceState} {env : CommandEnvelope}

/-- A replay of settled patches writes finite values. -/
theorem finite_replayPatches {direction : Direction} {ps : List FieldPatch} (h : Settles ps) :
    ∀ p ∈ replayPatches direction ps, finite p.after = true := by
  have hboth : ∀ p ∈ ps, finite p.after = true ∧ finite p.before = true := by
    intro p hp
    refine ⟨(h p hp).finite, ?_⟩
    rcases loose_iff.mp (h p hp).before with hb | hb
    · rw [hb]
      rfl
    · exact finite_of_plain hb
  intro p hp
  cases direction with
  | reapply => exact (hboth p (List.mem_filter.mp hp).1).1
  | undo =>
      obtain ⟨q, hq, rfl⟩ := List.mem_map.mp hp
      exact (hboth q (List.mem_filter.mp (List.mem_reverse.mp hq)).1).2

theorem touchItems_plain {timestamp : String} {items next : List ItemRecord} {ids : List String}
    (h : ∀ i ∈ items, plain (encode i) = true)
    (ht : touchItems timestamp items ids = .ok next) : ∀ i ∈ next, plain (encode i) = true := by
  induction ids generalizing items with
  | nil =>
      cases ht
      exact h
  | cons id ids ih =>
      unfold touchItems at ht
      split at ht
      · exact ih h ht
      · rename_i i hi
        simp only [result_bind_ok] at ht
        obtain ⟨version, hversion, ht⟩ := ht
        refine ih (fun j hj => ?_) ht
        rcases mem_setFirst hj with rfl | hj
        · obtain ⟨hd, ho, hq, -⟩ := item_numbers.mp (h i (findKey_some hi).1)
          exact item_numbers.mpr ⟨hd, ho, hq, isFinite_nextVersion hversion⟩
        · exact h j hj

theorem touchLocations_plain {timestamp : String} {locations : List Location}
    {ids : List String} (h : ∀ l ∈ locations, plain (encode l) = true) :
    ∀ l ∈ touchLocations timestamp locations ids, plain (encode l) = true := by
  induction ids generalizing locations with
  | nil => exact h
  | cons id ids ih =>
      unfold touchLocations
      split
      · exact ih h
      · rename_i l hl
        refine ih fun m hm => ?_
        rcases mem_setFirst hm with rfl | hm
        · exact location_numbers.mpr (location_numbers.mp (h l (findKey_some hl).1))
        · exact h m hm

/-- A replay of settled patches keeps the records plain. -/
theorem replayActivity_plain {direction : Direction} {a : ActivityRecord} (h : PlainRecords s)
    (ha : Settles a.patches) (hr : replayActivity direction env s a = .ok t) : PlainRecords t := by
  simp only [replayActivity, touchHistoryRecords, result_bind_ok, result_pure_ok] at hr
  obtain ⟨_, -, _, -, _, -, u, hu, _, ⟨items, hitems, rfl⟩, rfl⟩ := hr
  have hplain := applyPatches_plain h (finite_replayPatches ha) hu
  exact ⟨touchItems_plain hplain.items hitems, touchLocations_plain hplain.locations,
    hplain.plans, hplain.workspace⟩

/-- So does a replay of several activities. -/
theorem replayActivities_plain {direction : Direction} {as : List ActivityRecord}
    (h : PlainRecords s) (ha : ∀ a ∈ as, Settles a.patches)
    (hr : replayActivities direction env s as = .ok t) : PlainRecords t := by
  induction as generalizing s with
  | nil =>
      cases hr
      exact h
  | cons a as ih =>
      simp only [replayActivities, result_bind_ok] at hr
      obtain ⟨u, hu, hr⟩ := hr
      exact ih (replayActivity_plain h (ha a List.mem_cons_self) hu)
        (fun b hb => ha b (List.mem_cons_of_mem _ hb)) hr

/-- Every activity of a later history has the patches of one of an earlier. -/
theorem settles_of_history {xs ys : List ActivityRecord} (h : historyOf ys = historyOf xs)
    (hx : ∀ a ∈ xs, Settles a.patches) : ∀ a ∈ ys, Settles a.patches := by
  intro a ha
  have hmem : (a.id, a.commandId, a.patches) ∈ historyOf xs := by
    rw [← h]
    exact List.mem_map_of_mem ha
  obtain ⟨b, hb, he⟩ := List.mem_map.mp hmem
  have hpatches : b.patches = a.patches := congrArg (·.2.2) he
  exact hpatches ▸ hx b hb

variable [Host]

/-- **An accepted command keeps a state settled.** -/
theorem applyCommand_settled {r : CommandResult} (h : Settled s)
    (hr : applyCommand s env = .ok r) : Settled r.state := by
  obtain ⟨hadvanced, -⟩ := applyCommand_logged hr
  obtain ⟨hcheck, hbranch⟩ := applyCommand_ok hr
  have hworkspace : plain (encode r.state.workspace) = true := by
    simp only [checkEnvelope, result_bind_ok, refuse_ok, Bool.or_eq_false_iff,
      Bool.not_eq_false', decide_eq_false_iff_not, not_le] at hcheck
    obtain ⟨_, -, _, -, _, ⟨hsafe, hmax⟩, -⟩ := hcheck
    rw [workspace_numbers, hadvanced.revision]
    refine isFinite_of_safe ?_
    simp only [JsNumber.safeInt, decide_eq_true_eq] at hsafe ⊢
    omega
  rcases hbranch with ⟨-, h'⟩ | ⟨-, type, as, -, hmem, h'⟩
  · simp only [applyNormalCommand, result_bind_ok, result_pure_ok] at h'
    obtain ⟨change, hchange, t, ht, rfl⟩ := h'
    have hsettles := normalPatches_settles h.records hchange
    have hplain := applyPatches_plain h.records (fun p hp => (hsettles p hp).finite) ht
    obtain ⟨hactivities, -, hreceipts⟩ := applyPatches_unrecorded ht
    refine ⟨⟨hplain.items, hplain.locations, hplain.plans, hworkspace⟩, ?_, ?_⟩
    · intro a ha
      rcases List.mem_append.mp ha with ha | ha
      · exact h.patches a (hactivities ▸ ha)
      · rw [List.mem_singleton.mp ha]
        exact fun p hp => hsettles p (List.mem_filter.mp hp).1
    · show t.commandReceipts.Nodup
      rw [hreceipts]
      exact h.receipts
  · simp only [applyHistoryAction, result_bind_ok] at h'
    obtain ⟨_, -, w, hw, _, -, h'⟩ := h'
    split at h'
    · simp at h'
    · rw [result_pure_ok] at h'
      subst h'
      have hplain := replayActivities_plain h.records (fun a ha => h.patches a (hmem a ha)) hw
      have hhistory := (replayActivities_history hw).1
      refine ⟨⟨hplain.items, hplain.locations, hplain.plans, hworkspace⟩,
        settles_of_history hhistory.activities h.patches, ?_⟩
      show w.commandReceipts.Nodup
      rw [hhistory.receipts]
      exact h.receipts

end Commands

end Stowplan
