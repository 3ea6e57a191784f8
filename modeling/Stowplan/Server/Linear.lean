/-
  File:      Stowplan/Server/Linear.lean
  Subject:   EVERY RESPONSE IS THAT OF ONE ENGINE, which takes one command after the other.

  What a call loads has been through the text of a row, so that a stored snapshot and what the
  next call starts from might differ. They do not: what was read back once is settled, the engine
  keeps that, and a settled state reads back as itself. So the commands that took effect form one
  run of the engine in which each starts on exactly what the one before left, and a response
  shows a state of that run. Its place in the run is no earlier than what was stored when its
  request came.

  * `linked_of_chained`: from what was read back once the chain of turns is exact;
  * `reachable_first`: the first command that took effect found what the first row reads back as;
  * `run_later`: what a call loads from now on is no older than what is stored now;
  * `synchronize_linearizable`: the three together, over every run.
-/
import Stowplan.Server.Bounded

namespace Stowplan

section Linear

variable [Host] {workspaceId : String} {s₀ s₁ s : WorkspaceState} {S T : Server} {ts us : List Turn}

/-! ## 1. Exact chains -/

omit [Host] in
theorem linked_append : Linked s (ts ++ us) ↔ Linked s ts ∧ Linked (endOf s ts) us := by
  induction ts generalizing s with
  | nil => simp [Linked, endOf]
  | cons t ts ih => simp only [List.cons_append, Linked, endOf, ih, and_assoc]

/-- **From a settled state on a chain is exact**: reading back changes nothing. -/
theorem linked_of_chained (hs : Settled s) (hc : Chained s ts) (he : ∀ t ∈ ts, TookEffect t) :
    Linked s ts ∧ Settled (endOf s ts) := by
  induction ts generalizing s with
  | nil => exact ⟨trivial, hs⟩
  | cons t ts ih =>
      obtain ⟨hstarts, hrest⟩ := hc
      have hbefore : t.before = s := by
        rcases hstarts with hsame | hread
        · exact hsame
        · rw [hs.reload, Option.some.injEq] at hread
          exact hread.symm
      have hafter : Settled t.after :=
        (he t List.mem_cons_self).settled (hbefore.symm ▸ hs)
      obtain ⟨hlinked, hend⟩ := ih hafter hrest fun u hu => he u (List.mem_cons_of_mem _ hu)
      exact ⟨⟨hbefore, hlinked⟩, hend⟩

/-! ## 2. The first command -/

/-- The first command that took effect found the state. -/
def FirstFound (s₁ : WorkspaceState) (S : Server) : Prop :=
  ∀ t ts, S.history = t :: ts → t.before = s₁

theorem ServerInv.firstFound (h : ServerInv s₀ S) (hs : reload s₀ = some s₁)
    (hf : FirstFound s₁ S) {call : Call} {l : Loaded} {b : Batch}
    (hcall : call ∈ S.calls) (hl : call.loaded = some l)
    (hb : syncBatch l.initial call.commands = .ok b)
    {t : Turn} {us : List Turn} (hnext : S.history ++
      appliedTurns (turnsOf l.initial (startBatch l.initial) call.commands) = t :: us) :
    t.before = s₁ := by
  cases hhistory : S.history with
  | cons u rest =>
      rw [hhistory, List.cons_append, List.cons.injEq] at hnext
      rw [← hnext.1]
      exact hf u rest hhistory
  | nil =>
      have hfrom := h.calls call hcall l hl
      have htold := syncBatch_told hb
      obtain ⟨hlinked, -⟩ := linked_applied htold.linked htold.faithful
      have hread := hfrom.initial
      rw [hhistory, List.take_nil] at hread
      rw [hhistory, List.nil_append] at hnext
      rw [hnext] at hlinked
      have hinitial : some s₁ = some l.initial := hs.symm.trans hread
      rw [hlinked.1]
      exact (Option.some.inj hinitial).symm

theorem reachable_first (h : (server workspaceId s₀).Reachable S) (hs : reload s₀ = some s₁) :
    FirstFound s₁ S := by
  have hboth : ServerInv s₀ S ∧ FirstFound s₁ S := by
    refine h.invariant (P := fun S => ServerInv s₀ S ∧ FirstFound s₁ S) ?_ ?_
    · intro S hinit
      refine ⟨reachable_serverInv ⟨S, [], hinit, .nil _⟩, fun t ts hhistory => ?_⟩
      rw [hinit.2.2.2.2] at hhistory
      cases hhistory
    · intro S a T hinv hstep
      refine ⟨step_serverInv hinv.1 hstep, ?_⟩
      cases hstep with
      | access db hdb => exact hinv.2
      | receive call _ _ => exact hinv.2
      | load before after call n initial _ _ _ _ => exact hinv.2
      | answer before after call l b _ _ _ _ => exact hinv.2
      | swap before after call l b db hcalls hl hb ha hswap =>
          exact fun t us hnext =>
            hinv.1.firstFound hs hinv.2 (by rw [hcalls]; simp) hl hb hnext
      | swapUnanswered before after call l b db hcalls hl hb ha hswap =>
          exact fun t us hnext =>
            hinv.1.firstFound hs hinv.2 (by rw [hcalls]; simp) hl hb hnext
      | retry before after call l b _ _ _ _ _ _ => exact hinv.2
      | fail before after call e _ _ => exact hinv.2
  exact hboth.2

/-! ## 3. One run of the engine -/

/-- The server as one engine that started with a state. -/
structure Linear (s₁ : WorkspaceState) (S : Server) : Prop where
  /-- Each command that took effect found exactly what the one before it left. -/
  history : Linked s₁ S.history
  effect : ∀ t ∈ S.history, TookEffect t
  /-- What can be loaded is what the last one left. -/
  load : S.db.load = .ok (some (endOf s₁ S.history))
  loads : ∀ commands authorization initial,
    loadInitial S.db commands authorization = .ok initial → initial = endOf s₁ S.history
  /-- A response continues the history from some place, and shows the state it came to; the
      client reads the same state back from its text. -/
  answers : ∀ a ∈ S.answers, Linked s₁ (a.path S.history) ∧
    a.snapshot = endOf s₁ (a.path S.history) ∧ reload a.snapshot = some a.snapshot

theorem ServerInv.linked (h : ServerInv s₀ S) (hs : reload s₀ = some s₁)
    (hf : FirstFound s₁ S) : Linked s₁ S.history := by
  have hchain := h.chain
  have heffect := h.effect
  unfold FirstFound at hf
  cases hhistory : S.history with
  | nil => trivial
  | cons t ts =>
      rw [hhistory] at hchain heffect
      have hbefore := hf t ts hhistory
      have hsettled : Settled t.before := by
        rw [hbefore]
        exact settled_of_reload hs
      have hafter : Settled t.after := (heffect t List.mem_cons_self).settled hsettled
      exact ⟨hbefore, (linked_of_chained hafter hchain.2 fun u hu =>
        heffect u (List.mem_cons_of_mem _ hu)).1⟩

/-- Every place of the history is settled, and its row reads back as it. -/
theorem ServerInv.place (h : ServerInv s₀ S) (hs : reload s₀ = some s₁)
    (hlinked : Linked s₁ S.history) (n : Nat) :
    Linked s₁ (S.history.take n) ∧ Settled (endOf s₁ (S.history.take n)) ∧
      reload (endOf s₀ (S.history.take n)) = some (endOf s₁ (S.history.take n)) := by
  have htake : Linked s₁ (S.history.take n) := by
    rw [← List.take_append_drop n S.history] at hlinked
    exact (linked_append.mp hlinked).1
  have hend := (linked_of_chained (settled_of_reload hs) (chained_of_linked htake)
    fun t ht => h.effect t (List.mem_of_mem_take ht)).2
  refine ⟨htake, hend, ?_⟩
  by_cases hempty : S.history.take n = []
  · rw [hempty]
    exact hs
  · rw [endOf_of_ne hempty s₀ s₁]
    exact hend.reload

/-- The row can be loaded. -/
theorem ServerInv.load (h : ServerInv s₀ S)
    (hread : reload (endOf s₀ S.history) = some s) : S.db.load = .ok (some s) := by
  have hrevision : s.workspace.revision = s₀.workspace.revision + S.history.length := by
    rw [(reload_kept hread).workspace]
    exact endOf_revision h.chain h.effect
  have hstate : readState ⟨s₀.workspace.revision + S.history.length, endOf s₀ S.history⟩ =
      .ok s := by
    unfold readState
    rw [hread]
    exact if_neg (not_not.mpr hrevision)
  unfold Database.load
  rw [h.stored]
  show (do return some (← readState _)) = _
  rw [hstate]
  rfl

theorem ServerInv.shown (h : ServerInv s₀ S) (hs : reload s₀ = some s₁)
    (hlinked : Linked s₁ S.history) {a : Answer} (ha : a ∈ S.answers) :
    Linked s₁ (a.path S.history) ∧ a.snapshot = endOf s₁ (a.path S.history) ∧
      reload a.snapshot = some a.snapshot := by
  have hanswer := h.answers a ha
  obtain ⟨htake, hend, hread⟩ := h.place hs hlinked a.source.seen
  have hsource : a.source.initial = endOf s₁ (S.history.take a.source.seen) :=
    Option.some.inj (hanswer.source.initial.symm.trans hread)
  obtain ⟨hturns, hlast⟩ := linked_applied hanswer.linked hanswer.faithful
  have heffect : ∀ t ∈ appliedTurns a.turns, TookEffect t := by
    intro t ht
    obtain ⟨hmem, hstatus⟩ := List.mem_filter.mp ht
    exact ((hanswer.faithful t hmem).applied (of_decide_eq_true hstatus)).2
  have hsettled : Settled a.snapshot := by
    rw [hanswer.snapshot, ← hlast]
    refine (linked_of_chained ?_ (chained_of_linked hturns) heffect).2
    rw [hsource]
    exact hend
  refine ⟨linked_append.mpr ⟨htake, ?_⟩, ?_, hsettled.reload⟩
  · rw [← hsource]
    exact hanswer.linked
  · rw [hanswer.snapshot, Answer.path, endOf_append, ← hsource]

theorem ServerInv.linear (h : ServerInv s₀ S) (hs : reload s₀ = some s₁)
    (hf : FirstFound s₁ S) : Linear s₁ S := by
  have hlinked := h.linked hs hf
  have hread := (h.place hs hlinked S.history.length).2.2
  rw [List.take_length] at hread
  exact ⟨hlinked, h.effect, h.load hread, fun commands authorization initial hload =>
    Option.some.inj ((loadInitial_ok h.stored hload).symm.trans hread),
    fun a ha => h.shown hs hlinked ha⟩

/-! ## 4. No earlier than what was stored -/

/-- What is loaded or answered after a state, and not from a load before it, has seen all that was
    stored by then. -/
structure Later (S T : Server) : Prop where
  history : S.history <+: T.history
  calls : ∀ c ∈ T.calls, ∀ l, c.loaded = some l →
    (∃ d ∈ S.calls, d.loaded = some l) ∨ S.history.length ≤ l.seen
  answers : ∀ a ∈ T.answers, a ∈ S.answers ∨ (∃ d ∈ S.calls, d.loaded = some a.source) ∨
    S.history.length ≤ a.source.seen

omit [Host] in
theorem Later.refl (S : Server) : Later S S :=
  ⟨List.prefix_refl _, fun c hc _ hl => .inl ⟨c, hc, hl⟩, fun _ ha => .inl ha⟩

omit [Host] in
/-- A call that ends leaves the calls before and after it. -/
theorem Later.without {U : Server} (h : Later S T) {before after : List Call} {call : Call}
    (hcalls : T.calls = before ++ call :: after) (hc : U.calls = before ++ after) :
    ∀ c ∈ U.calls, ∀ l, c.loaded = some l →
      (∃ d ∈ S.calls, d.loaded = some l) ∨ S.history.length ≤ l.seen := by
  intro c hmem l hl
  refine h.calls c ?_ l hl
  rw [hc] at hmem
  rw [hcalls]
  rcases List.mem_append.mp hmem with hin | hin
  · exact List.mem_append_left _ hin
  · exact List.mem_append_right _ (List.mem_cons_of_mem _ hin)

omit [Host] in
/-- A call that goes on leaves the others. -/
theorem Later.replaced {U : Server} (h : Later S T) {before after : List Call} {call call' : Call}
    (hcalls : T.calls = before ++ call :: after) (hc : U.calls = before ++ call' :: after)
    (hnew : ∀ l, call'.loaded = some l → S.history.length ≤ l.seen) :
    ∀ c ∈ U.calls, ∀ l, c.loaded = some l →
      (∃ d ∈ S.calls, d.loaded = some l) ∨ S.history.length ≤ l.seen := by
  intro c hmem l hl
  rw [hc] at hmem
  rcases List.mem_append.mp hmem with hin | hin
  · exact h.calls c (by rw [hcalls]; exact List.mem_append_left _ hin) l hl
  · rcases List.mem_cons.mp hin with rfl | hin
    · exact .inr (hnew l hl)
    · refine h.calls c ?_ l hl
      rw [hcalls]
      exact List.mem_append_right _ (List.mem_cons_of_mem _ hin)

omit [Host] in
/-- The response of a call has seen what the call has. -/
theorem Later.answered (h : Later S T) {call : Call} {l : Loaded} (hcall : call ∈ T.calls)
    (hl : call.loaded = some l) {commands : List CommandEnvelope} {receipts : List SyncReceipt}
    {snapshot : WorkspaceState} :
    ∀ a ∈ T.answers ++ [⟨commands, receipts, snapshot, l⟩], a ∈ S.answers ∨
      (∃ d ∈ S.calls, d.loaded = some a.source) ∨ S.history.length ≤ a.source.seen := by
  intro a ha
  rcases List.mem_append.mp ha with ha | ha
  · exact h.answers a ha
  · rw [List.mem_singleton.mp ha]
    exact .inr (h.calls call hcall l hl)

theorem step_later {a : ServerAction} {U : Server} (h : Later S T)
    (hstep : ServerStep workspaceId T a U) : Later S U := by
  cases hstep with
  | access db hdb => exact ⟨h.history, h.calls, h.answers⟩
  | receive call _ hl =>
      refine ⟨h.history, fun c hc l hcl => ?_, h.answers⟩
      rcases List.mem_append.mp hc with hc | hc
      · exact h.calls c hc l hcl
      · rw [List.mem_singleton.mp hc, hl] at hcl
        cases hcl
  | load before after call n initial hcalls _ _ _ =>
      refine ⟨h.history, h.replaced hcalls rfl fun l hl => ?_, h.answers⟩
      cases hl
      exact h.history.length_le
  | answer before after call l b hcalls hl _ _ =>
      exact ⟨h.history, h.without hcalls rfl, h.answered (by rw [hcalls]; simp) hl⟩
  | swap before after call l b db hcalls hl _ _ _ =>
      exact ⟨h.history.trans (List.prefix_append _ _), h.without hcalls rfl,
        h.answered (by rw [hcalls]; simp) hl⟩
  | swapUnanswered before after call l b db hcalls _ _ _ _ =>
      exact ⟨h.history.trans (List.prefix_append _ _), h.without hcalls rfl, h.answers⟩
  | retry before after call l b hcalls _ _ _ _ _ =>
      refine ⟨h.history, h.replaced hcalls rfl fun l hl => ?_, h.answers⟩
      cases hl
  | fail before after call e hcalls _ => exact ⟨h.history, h.without hcalls rfl, h.answers⟩

theorem run_later {as : List ServerAction} (h : (server workspaceId s₀).Run S as T) :
    Later S T :=
  h.invariant (P := Later S) (fun _ _ _ hl hstep => step_later hl hstep) (.refl S)

/-! ## 5. Every run -/

/-- **The server is linearizable.** Over every interleaving of calls, the commands that took
    effect form one run of the engine, each on exactly what the one before it left; every load and
    every response shows a state of that run. In a run that goes on, a response to a request that
    loads later has all in it that was stored before. -/
theorem synchronize_linearizable (workspaceId : String) (s₀ s₁ : WorkspaceState) (S : Server)
    (h : (server workspaceId s₀).Reachable S) (hs : reload s₀ = some s₁) :
    Linear s₁ S ∧ ∀ as T, (server workspaceId s₀).Run S as T →
      S.history <+: T.history ∧ ∀ a ∈ T.answers, a ∈ S.answers ∨
        (∃ c ∈ S.calls, c.loaded = some a.source) ∨ S.history <+: a.path T.history := by
  refine ⟨(reachable_serverInv h).linear hs (reachable_first h hs), fun as T hrun => ?_⟩
  have hlater := run_later hrun
  refine ⟨hlater.history, fun a ha => ?_⟩
  rcases hlater.answers a ha with hold | hloaded | hseen
  · exact .inl hold
  · exact .inr (.inl hloaded)
  · refine .inr (.inr ?_)
    exact (List.prefix_take_iff.mpr ⟨hlater.history, hseen⟩).trans (List.prefix_append _ _)

end Linear

/-- The responses to two callers that load the same snapshot, and to a command sent again, show
    states of one run. -/
theorem synchronize_linearizable_sentAgain : ∃ s₁ S, S.answers.length = 2 ∧
    S.history.map (·.envelope.id) = ["c1", "c2"] ∧ @Linear asciiHost s₁ S := by
  let : Host := asciiHost
  have hreloads : (reload firstState).isSome = true := by decide +kernel
  obtain ⟨S, hS, hhistory, hanswers, -⟩ := sentAgain_followed
  obtain ⟨s₁, hs₁⟩ := Option.isSome_iff_exists.mp hreloads
  exact ⟨s₁, S, by simpa using congrArg List.length hanswers, hhistory,
    (synchronize_linearizable "ws_1" firstState s₁ S
      (follow_reachable firstServer_reachable hS) hs₁).1⟩

end Stowplan
