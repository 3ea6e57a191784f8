/-
  File:      Stowplan/Lib/Program.lean
  Subject:   PROGRAMS OF ATOMIC STATEMENTS, interleaved over one store.

  A program reads and writes a shared store one statement at a time, and decides what to do next
  from what the statements returned. Any number of programs run at once; between two statements
  of one, the others take theirs. A program may end early at any point.

  * `Pool.follow_restrict`: a schedule that can be followed is a run;
  * `Program.wp`: what a program needs of the store, whatever the others do in between;
  * `Discipline`: what every statement keeps, and what it may change;
  * `reachable_sound`: programs that keep the discipline keep it in every interleaving.
-/
import Stowplan.Lib.Machine

namespace Stowplan

/-! ## 1. Programs -/

/-- A program over a store `σ`. A statement may carry a label, and may fail. -/
inductive Program (σ L α : Type) : Type 1 where
  | ret (a : α)
  | fail (code : String)
  | atomic {β : Type} (label : Option L) (run : σ → Option (β × σ)) (next : β → Program σ L α)

namespace Program

variable {σ L α β : Type}

/-- One program, then the next on what the first returned. -/
def bind : Program σ L α → (α → Program σ L β) → Program σ L β
  | .ret a, k => k a
  | .fail code, _ => .fail code
  | .atomic label run next, k => .atomic label run fun b => (next b).bind k

instance : Monad (Program σ L) where
  pure := .ret
  bind := Program.bind

/-- A query. -/
def read (f : σ → α) : Program σ L α := .atomic none (fun s => some (f s, s)) .ret

/-- A query that the program cannot go on without. -/
def read? (f : σ → Option α) (code : String) : Program σ L α :=
  .atomic none (fun s => some (f s, s)) fun a =>
    match a with
    | some a => .ret a
    | none => .fail code

/-- A statement, or a batch of them in one transaction. -/
def exec (run : σ → Option (α × σ)) : Program σ L α := .atomic none run .ret

/-- The same, under a label. -/
def execAs (label : L) (run : σ → Option (α × σ)) : Program σ L α :=
  .atomic (some label) run .ret

/-- The program goes on only if the condition holds. -/
def require (condition : Bool) (code : String) : Program σ L Unit :=
  if condition then .ret () else .fail code

end Program

/-! ## 2. Interleavings -/

/-- A store, and the programs that have not ended. -/
structure Pool (σ L : Type) : Type 1 where
  store : σ
  programs : List (Program σ L Unit)

variable {σ L : Type}

/-- One program starts, executes a statement, or ends. -/
inductive PoolStep (started : Program σ L Unit → Prop) :
    Pool σ L → Option L → Pool σ L → Prop where
  | start (P : Pool σ L) (p : Program σ L Unit) (h : started p) :
      PoolStep started P none { P with programs := P.programs ++ [p] }
  | run (P : Pool σ L) (before after : List (Program σ L Unit)) {β : Type} (label : Option L)
      (run : σ → Option (β × σ)) (next : β → Program σ L Unit) (b : β) (store : σ)
      (hp : P.programs = before ++ .atomic label run next :: after)
      (h : run P.store = some (b, store)) :
      PoolStep started P label ⟨store, before ++ next b :: after⟩
  | stop (P : Pool σ L) (before after : List (Program σ L Unit)) (p : Program σ L Unit)
      (hp : P.programs = before ++ p :: after) :
      PoolStep started P none { P with programs := before ++ after }

/-- The interleavings of programs of a kind, from stores of a kind. -/
def interleavings (first : σ → Prop) (started : Program σ L Unit → Prop) :
    Machine (Pool σ L) (Option L) where
  init P := first P.store ∧ P.programs = []
  step := PoolStep started

/-! ### Schedules -/

/-- A turn of a schedule: a program starts, or executes its next statement. -/
inductive Pool.Turn (σ L : Type) : Type 1 where
  | start (p : Program σ L Unit)
  | run (i : Nat)

/-- One turn: a program starts, or one of those running takes its next step. -/
def Pool.turn (P : Pool σ L) : Pool.Turn σ L → Option (Pool σ L)
  | .start p => some { P with programs := P.programs ++ [p] }
  | .run i =>
    match P.programs[i]? with
    | some (.atomic _ run next) =>
      (run P.store).map fun (b, store) => ⟨store, P.programs.set i (next b)⟩
    | _ => none

/-- A schedule, turn by turn. -/
def Pool.follow (P : Pool σ L) (turns : List (Pool.Turn σ L)) : Option (Pool σ L) :=
  turns.foldlM Pool.turn P

/-- The label of the statement that the turn executes. -/
def Pool.label (P : Pool σ L) : Pool.Turn σ L → Option L
  | .start _ => none
  | .run i =>
    match P.programs[i]? with
    | some (.atomic label _ _) => label
    | _ => none

/-- Each turn of the schedule comes at a store where its statement may be executed. -/
def Pool.admits (ok : σ → Option L → Bool) : Pool σ L → List (Pool.Turn σ L) → Bool
  | _, [] => true
  | P, turn :: turns => ok P.store (P.label turn) && (P.turn turn).all (·.admits ok turns)

theorem Pool.turn_step {started : Program σ L Unit → Prop} {P R : Pool σ L} {turn : Pool.Turn σ L}
    (hstarted : ∀ p, turn = .start p → started p) (h : P.turn turn = some R) :
    PoolStep started P (P.label turn) R := by
  cases turn with
  | start p =>
      cases h
      exact .start P p (hstarted p rfl)
  | run i =>
      unfold Pool.turn at h
      unfold Pool.label
      dsimp only at h ⊢
      split at h
      · rename_i label run next hget
        obtain ⟨⟨b, store⟩, hrun, h⟩ := Option.map_eq_some_iff.mp h
        cases h
        obtain ⟨hi, hget⟩ := List.getElem?_eq_some_iff.mp hget
        have hprograms : P.programs =
            P.programs.take i ++ .atomic label run next :: P.programs.drop (i + 1) := by
          rw [← hget, List.getElem_cons_drop, List.take_append_drop]
        have hset : P.programs.set i (next b) =
            P.programs.take i ++ next b :: P.programs.drop (i + 1) :=
          List.set_eq_take_append_cons_drop.trans (if_pos hi)
        rw [hset]
        exact .run P _ _ label run next b store hprograms hrun
      · cases h

/-- **A schedule that can be followed is a run**, and of the restricted machine if each turn may
    come where it does. -/
theorem Pool.follow_restrict {first : σ → Prop} {started : Program σ L Unit → Prop}
    {good : σ → Option L → Prop} {ok : σ → Option L → Bool}
    (hok : ∀ s label, ok s label = true → good s label) {P R : Pool σ L}
    {turns : List (Pool.Turn σ L)} (hstarted : ∀ p, .start p ∈ turns → started p)
    (h : P.follow turns = some R) (hadmits : P.admits ok turns = true) :
    ∃ labels, ((interleavings first started).restrict fun P => good P.store).Run P labels R := by
  induction turns generalizing P with
  | nil =>
      cases h
      exact ⟨[], .nil _⟩
  | cons turn turns ih =>
      obtain ⟨S, hS, h⟩ := Option.bind_eq_some_iff.mp h
      unfold Pool.admits at hadmits
      rw [hS, Option.all_some, Bool.and_eq_true] at hadmits
      have hstep := Pool.turn_step (fun p hp => hstarted p (hp ▸ List.mem_cons_self)) hS
      obtain ⟨labels, hrun⟩ := ih (fun p hp => hstarted p (List.mem_cons_of_mem _ hp)) h hadmits.2
      exact ⟨P.label turn :: labels, .cons ⟨hok _ _ hadmits.1, hstep⟩ hrun⟩

theorem Pool.admits_all (P : Pool σ L) (turns : List (Pool.Turn σ L)) :
    P.admits (fun _ _ => true) turns = true := by
  induction turns generalizing P with
  | nil => rfl
  | cons turn turns ih =>
      unfold Pool.admits
      cases P.turn turn with
      | none => rfl
      | some R => exact ih R

/-- A schedule that can be followed is a run. -/
theorem Pool.follow_run {first : σ → Prop} {started : Program σ L Unit → Prop} {P R : Pool σ L}
    {turns : List (Pool.Turn σ L)} (hstarted : ∀ p, .start p ∈ turns → started p)
    (h : P.follow turns = some R) : ∃ labels, (interleavings first started).Run P labels R := by
  have hall : ∀ (s : σ) (label : Option L), true = true → (fun _ _ => True) s label :=
    fun _ _ _ => trivial
  obtain ⟨labels, hrun⟩ := Pool.follow_restrict hall hstarted h (P.admits_all turns)
  exact ⟨labels, hrun.of_restrict⟩

/-! ## 3. What programs keep -/

/-- An invariant, what may change between two statements of a program, what a statement does, and
    the condition under which it is executed. -/
structure Discipline (σ L : Type) where
  inv : σ → Prop
  rely : σ → σ → Prop
  guarantee : Option L → σ → σ → Prop
  ok : σ → Option L → Prop
  rely_refl : ∀ s, rely s s
  rely_trans : ∀ {s t u}, rely s t → rely t u → rely s u
  rely_of_guarantee : ∀ {label s t}, guarantee label s t → rely s t
  guarantee_refl : ∀ s, guarantee none s s

namespace Program

variable {α β : Type} (D : Discipline σ L)

/-- The statement keeps the discipline. -/
def Keeps (label : Option L) (run : σ → Option (β × σ)) : Prop :=
  ∀ s, D.inv s → D.ok s label → ∀ b t, run s = some (b, t) → D.inv t ∧ D.guarantee label s t

/-- From the store, whatever the others do, each statement keeps the discipline, and at its end
    the program has what is asked. -/
def wp : Program σ L α → (α → σ → Prop) → σ → Prop
  | .ret a, Q, s => Q a s
  | .fail _, _, _ => True
  | .atomic label run next, Q, s =>
    ∀ t, D.rely s t → D.inv t → D.ok t label → ∀ b u, run t = some (b, u) →
      D.inv u ∧ D.guarantee label t u ∧ (next b).wp Q u

variable {D} {p : Program σ L α} {Q : α → σ → Prop} {s t : σ}

theorem wp_ret {a : α} (h : Q a s) : (ret a : Program σ L α).wp D Q s := h

theorem wp_fail {code : String} : (fail code : Program σ L α).wp D Q s := trivial

theorem wp_bind (p : Program σ L α) (k : α → Program σ L β) (Q : β → σ → Prop) (s : σ) :
    (p >>= k).wp D Q s ↔ p.wp D (fun a t => (k a).wp D Q t) s := by
  show (p.bind k).wp D Q s ↔ _
  induction p generalizing s with
  | ret a => exact Iff.rfl
  | fail code => exact Iff.rfl
  | atomic label run next ih =>
      constructor
      · intro h t hr hi ho b u hrun
        obtain ⟨h₁, h₂, h₃⟩ := h t hr hi ho b u hrun
        exact ⟨h₁, h₂, (ih b u).mp h₃⟩
      · intro h t hr hi ho b u hrun
        obtain ⟨h₁, h₂, h₃⟩ := h t hr hi ho b u hrun
        exact ⟨h₁, h₂, (ih b u).mpr h₃⟩

theorem wp_mono {Q' : α → σ → Prop} (h : p.wp D Q s) (hQ : ∀ a t, Q a t → Q' a t) :
    p.wp D Q' s := by
  induction p generalizing s with
  | ret a => exact hQ a s h
  | fail code => trivial
  | atomic label run next ih =>
      intro t hr hi ho b u hrun
      obtain ⟨h₁, h₂, h₃⟩ := h t hr hi ho b u hrun
      exact ⟨h₁, h₂, ih b h₃⟩

/-- What the others do is allowed for at the start. -/
theorem wp_rely {p : Program σ L Unit} (h : p.wp D (fun _ _ => True) s) (hr : D.rely s t) :
    p.wp D (fun _ _ => True) t := by
  cases p with
  | ret a => trivial
  | fail code => trivial
  | atomic label run next =>
      intro u hu hi ho b v hrun
      exact h u (D.rely_trans hr hu) hi ho b v hrun

theorem wp_read {f : σ → α} (h : ∀ t, D.rely s t → D.inv t → Q (f t) t) :
    (read f : Program σ L α).wp D Q s := by
  intro t hr hi _ b u hrun
  cases hrun
  exact ⟨hi, D.guarantee_refl t, h t hr hi⟩

theorem wp_read? {f : σ → Option α} {code : String}
    (h : ∀ t, D.rely s t → D.inv t → ∀ a, f t = some a → Q a t) :
    (read? f code : Program σ L α).wp D Q s := by
  intro t hr hi _ b u hrun
  cases hrun
  refine ⟨hi, D.guarantee_refl t, ?_⟩
  cases hf : f t with
  | some a => exact h t hr hi a hf
  | none => trivial

theorem wp_exec {label : Option L} {run : σ → Option (α × σ)}
    (h : ∀ t, D.rely s t → D.inv t → D.ok t label → ∀ b u, run t = some (b, u) →
      D.inv u ∧ D.guarantee label t u ∧ Q b u) :
    (atomic label run .ret : Program σ L α).wp D Q s :=
  h

theorem wp_require {condition : Bool} {code : String} {Q : Unit → σ → Prop}
    (h : condition = true → Q () s) : (require condition code : Program σ L Unit).wp D Q s := by
  unfold require
  by_cases hc : condition = true
  · rw [if_pos hc]
    exact h hc
  · rw [if_neg hc]
    trivial

/-! ### Programs all of whose statements keep the discipline -/

variable (D) in
/-- Each statement of the program keeps the discipline, whatever was read before it. -/
def Lawful : Program σ L α → Prop
  | .ret _ => True
  | .fail _ => True
  | .atomic label run next => Keeps D label run ∧ ∀ b, (next b).Lawful

theorem Lawful.ret {a : α} : (Program.ret a : Program σ L α).Lawful D := trivial

theorem Lawful.fail {code : String} : (Program.fail code : Program σ L α).Lawful D := trivial

theorem Lawful.bind {k : α → Program σ L β} (hp : p.Lawful D) (hk : ∀ a, (k a).Lawful D) :
    (p >>= k).Lawful D := by
  show (p.bind k).Lawful D
  induction p with
  | ret a => exact hk a
  | fail code => trivial
  | atomic label run next ih => exact ⟨hp.1, fun b => ih b (hp.2 b)⟩

theorem Lawful.read {f : σ → α} : (Program.read f : Program σ L α).Lawful D := by
  refine ⟨fun s hi _ b t h => ?_, fun _ => trivial⟩
  cases h
  exact ⟨hi, D.guarantee_refl s⟩

theorem Lawful.read? {f : σ → Option α} {code : String} :
    (Program.read? f code : Program σ L α).Lawful D := by
  refine ⟨fun s hi _ b t h => ?_, fun b => ?_⟩
  · cases h
    exact ⟨hi, D.guarantee_refl s⟩
  · cases b <;> trivial

theorem Lawful.exec {run : σ → Option (α × σ)} (h : Keeps D none run) :
    (Program.exec run : Program σ L α).Lawful D :=
  ⟨h, fun _ => trivial⟩

theorem Lawful.execAs {label : L} {run : σ → Option (α × σ)} (h : Keeps D (some label) run) :
    (Program.execAs label run : Program σ L α).Lawful D :=
  ⟨h, fun _ => trivial⟩

theorem Lawful.require {condition : Bool} {code : String} :
    (Program.require condition code : Program σ L Unit).Lawful D := by
  unfold Program.require
  cases condition <;> trivial

theorem Lawful.wp (h : p.Lawful D) (s : σ) : p.wp D (fun _ _ => True) s := by
  induction p generalizing s with
  | ret a => trivial
  | fail code => trivial
  | atomic label run next ih =>
      intro t _ hi ho b u hrun
      obtain ⟨h₁, h₂⟩ := h.1 t hi ho b u hrun
      exact ⟨h₁, h₂, ih b (h.2 b) u⟩

/-- What no one else changes is kept by such a program. -/
theorem Lawful.wp_stable {Q : σ → Prop} (h : p.Lawful D)
    (hQ : ∀ {t u}, Q t → D.rely t u → Q u) (hs : Q s) : p.wp D (fun _ => Q) s := by
  induction p generalizing s with
  | ret a => exact hs
  | fail code => trivial
  | atomic label run next ih =>
      intro t hr hi ho b u hrun
      obtain ⟨h₁, h₂⟩ := h.1 t hi ho b u hrun
      exact ⟨h₁, h₂, ih b (h.2 b) (hQ (hQ hs hr) (D.rely_of_guarantee h₂))⟩

end Program

/-! ## 4. Soundness -/

section Soundness

variable {D : Discipline σ L} {first : σ → Prop} {started : Program σ L Unit → Prop}
  {P R : Pool σ L} {label : Option L}

/-- The store has the invariant, and no program breaks the discipline from here. -/
structure Sound (D : Discipline σ L) (P : Pool σ L) : Prop where
  inv : D.inv P.store
  programs : ∀ p ∈ P.programs, p.wp D (fun _ _ => True) P.store

/-- **One step**: it keeps the invariant and does what a statement may do. -/
theorem step_sound (hstarted : ∀ p, started p → ∀ s, D.inv s → p.wp D (fun _ _ => True) s)
    (h : Sound D P) (hok : D.ok P.store label) (hs : PoolStep started P label R) :
    Sound D R ∧ D.guarantee label P.store R.store := by
  cases hs with
  | start p hp =>
      refine ⟨⟨h.inv, fun q hq => ?_⟩, D.guarantee_refl _⟩
      rcases List.mem_append.mp hq with hq | hq
      · exact h.programs q hq
      · rw [List.mem_singleton.mp hq]
        exact hstarted p hp _ h.inv
  | run before after _ run next b store hp hrun =>
      have hmem : Program.atomic label run next ∈ P.programs := by
        rw [hp]
        exact List.mem_append_right _ List.mem_cons_self
      obtain ⟨hinv, hg, hnext⟩ :=
        h.programs _ hmem P.store (D.rely_refl _) h.inv hok b store hrun
      refine ⟨⟨hinv, fun q hq => ?_⟩, hg⟩
      have hothers : ∀ q, q ∈ P.programs → q.wp D (fun _ _ => True) store := fun q hq =>
        Program.wp_rely (h.programs q hq) (D.rely_of_guarantee hg)
      rcases List.mem_append.mp hq with hq | hq
      · exact hothers q (by rw [hp]; exact List.mem_append_left _ hq)
      · rcases List.mem_cons.mp hq with rfl | hq
        · exact hnext
        · exact hothers q (by
            rw [hp]
            exact List.mem_append_right _ (List.mem_cons_of_mem _ hq))
  | stop before after p hp =>
      refine ⟨⟨h.inv, fun q hq => h.programs q ?_⟩, D.guarantee_refl _⟩
      rw [hp]
      rcases List.mem_append.mp hq with hq | hq
      · exact List.mem_append_left _ hq
      · exact List.mem_append_right _ (List.mem_cons_of_mem _ hq)

/-- The steps whose statements meet the condition of the discipline. -/
def disciplined (D : Discipline σ L) (first : σ → Prop) (started : Program σ L Unit → Prop) :
    Machine (Pool σ L) (Option L) :=
  (interleavings first started).restrict fun P label => D.ok P.store label

theorem reachable_sound (hfirst : ∀ s, first s → D.inv s)
    (hstarted : ∀ p, started p → ∀ s, D.inv s → p.wp D (fun _ _ => True) s)
    (h : (disciplined D first started).Reachable P) : Sound D P := by
  refine h.invariant (P := Sound D) ?_ ?_
  · rintro P ⟨hstore, hprograms⟩
    refine ⟨hfirst _ hstore, fun p hp => ?_⟩
    rw [hprograms] at hp
    cases hp
  · rintro P label R hsound ⟨hok, hs⟩
    exact (step_sound hstarted hsound hok hs).1

/-- **What happens between two moments of a run** is what the others may do. -/
theorem run_rely (hstarted : ∀ p, started p → ∀ s, D.inv s → p.wp D (fun _ _ => True) s)
    (hP : Sound D P) {labels : List (Option L)}
    (h : (disciplined D first started).Run P labels R) :
    Sound D R ∧ D.rely P.store R.store := by
  refine h.invariant (P := fun R => Sound D R ∧ D.rely P.store R.store) ?_
    ⟨hP, D.rely_refl _⟩
  rintro R label T ⟨hsound, hrely⟩ ⟨hok, hs⟩
  obtain ⟨hsound', hg⟩ := step_sound hstarted hsound hok hs
  exact ⟨hsound', D.rely_trans hrely (D.rely_of_guarantee hg)⟩

end Soundness

-- a program is reasoned about by the lemmas above, never by running it
attribute [irreducible] Program.wp Program.Lawful

end Stowplan
