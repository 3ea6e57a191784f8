/-
  File:      Stowplan/Server/ExactlyOnce.lean
  Subject:   EXACTLY-ONCE APPLICATION: what holds of the server over every interleaving of calls.

  The stored snapshots form one chain of commands that took effect. A swap that succeeds extends
  the chain at its end, because the revision of a snapshot is its place in the chain and a call
  swaps only at the revision it loaded.

  * `Chained`, `endOf`: the chain, and where it ends;
  * `ServerInv`: the invariant; `step_serverInv`: every step keeps it;
  * `synchronize_exactlyOnce`: the run of the server.
-/
import Stowplan.Server.Synchronize

namespace Stowplan

/-! ## 1. Chains of turns -/

section Chains

variable [Host] {s t : WorkspaceState} {ts us : List Turn}

/-- The turn starts at the state, or at what the state reads back as. -/
def Starts (s : WorkspaceState) (t : Turn) : Prop := t.before = s ∨ reload s = some t.before

/-- Each turn starts where the one before ended, read back or not. -/
def Chained : WorkspaceState → List Turn → Prop
  | _, [] => True
  | s, t :: ts => Starts s t ∧ Chained t.after ts

omit [Host] in
theorem endOf_append : endOf s (ts ++ us) = endOf (endOf s ts) us := by
  induction ts generalizing s with
  | nil => rfl
  | cons t ts ih => exact ih

omit [Host] in
/-- Where turns end does not depend on where they started. -/
theorem endOf_of_ne (h : ts ≠ []) (s t : WorkspaceState) : endOf s ts = endOf t ts := by
  cases ts with
  | nil => exact absurd rfl h
  | cons _ _ => rfl

omit [Host] in
theorem chained_append : Chained s (ts ++ us) ↔ Chained s ts ∧ Chained (endOf s ts) us := by
  induction ts generalizing s with
  | nil => simp [Chained, endOf]
  | cons t ts ih => simp only [List.cons_append, Chained, endOf, ih, and_assoc]

omit [Host] in
theorem chained_take (h : Chained s ts) (k : Nat) : Chained s (ts.take k) := by
  rw [← List.take_append_drop k ts] at h
  exact (chained_append.mp h).1

omit [Host] in
theorem Starts.workspace {t : Turn} (h : Starts s t) : t.before.workspace = s.workspace := by
  rcases h with h | h
  · rw [h]
  · exact (reload_kept h).workspace

omit [Host] in
theorem Starts.wasApplied {t : Turn} (h : Starts s t) (id : String) :
    wasApplied t.before id = Stowplan.wasApplied s id := by
  rcases h with h | h
  · rw [h]
  · exact (reload_kept h).wasApplied id

/-- The revision counts the turns. -/
theorem endOf_revision (hc : Chained s ts) (he : ∀ t ∈ ts, TookEffect t) :
    (endOf s ts).workspace.revision = s.workspace.revision + ts.length := by
  induction ts generalizing s with
  | nil => simp [endOf]
  | cons t ts ih =>
      rw [endOf, ih hc.2 fun u hu => he u (List.mem_cons_of_mem _ hu),
        (he t List.mem_cons_self).revision, hc.1.workspace, List.length_cons]
      push_cast
      omega

/-- The turns of a batch that applied nothing changed nothing. -/
theorem linked_applied (hl : Linked s ts) (hf : ∀ t ∈ ts, t.Faithful) :
    Linked s (appliedTurns ts) ∧ endOf s (appliedTurns ts) = endOf s ts := by
  induction ts generalizing s with
  | nil => exact ⟨trivial, rfl⟩
  | cons t ts ih =>
      obtain ⟨h1, h2⟩ := ih hl.2 fun u hu => hf u (List.mem_cons_of_mem _ hu)
      by_cases hs : t.receipt.status = .applied
      · have hcons : appliedTurns (t :: ts) = t :: appliedTurns ts := by simp [appliedTurns, hs]
        rw [hcons]
        exact ⟨⟨hl.1, h1⟩, h2⟩
      · have hskip : appliedTurns (t :: ts) = appliedTurns ts := by simp [appliedTurns, hs]
        have hkept : t.after = s := ((hf t List.mem_cons_self).kept hs).trans hl.1
        rw [hskip]
        rw [hkept] at h1 h2
        exact ⟨h1, h2.trans (by rw [endOf, hkept])⟩

omit [Host] in
theorem chained_of_linked (hl : Linked s ts) : Chained s ts := by
  induction ts generalizing s with
  | nil => trivial
  | cons t ts ih => exact ⟨.inl hl.1, ih hl.2⟩

omit [Host] in
/-- A chain from what a state reads back as is a chain from the state. -/
theorem Chained.of_reload (h : Chained t ts) (ht : reload s = some t) (hl : Linked t ts) :
    Chained s ts := by
  cases ts with
  | nil => trivial
  | cons u us => exact ⟨.inr (hl.1 ▸ ht), h.2⟩

omit [Host] in
/-- The end of turns records a command that was recorded at the start and after each of them. -/
theorem recorded_at_end {id : String} (hs : wasApplied s id = true)
    (h : ∀ t ∈ ts, wasApplied t.after id = true) : wasApplied (endOf s ts) id = true := by
  induction ts generalizing s with
  | nil => exact hs
  | cons t ts ih =>
      exact ih (h t List.mem_cons_self) fun u hu => h u (List.mem_cons_of_mem _ hu)

end Chains

/-! ## 2. The invariant -/

section Invariant

variable [Host] {workspaceId : String} {s₀ : WorkspaceState}

/-- What a call loaded is a stored snapshot, read back. -/
structure FromStore (s₀ : WorkspaceState) (history : List Turn) (l : Loaded) : Prop where
  seen : l.seen ≤ history.length
  initial : reload (endOf s₀ (history.take l.seen)) = some l.initial

/-- What a response tells: its batch ran on a stored snapshot, turn by turn, and what it applied
    is in the history, right after that snapshot. -/
structure Answered (s₀ : WorkspaceState) (history : List Turn) (a : Answer) : Prop where
  source : FromStore s₀ history a.source
  linked : Linked a.source.initial a.turns
  faithful : ∀ t ∈ a.turns, t.Faithful
  receipts : a.receipts = a.turns.map (·.receipt)
  commands : a.turns.map (·.envelope) = a.commands
  snapshot : a.snapshot = endOf a.source.initial a.turns
  stored : appliedTurns a.turns = [] ∨
    ∃ later, history = history.take a.source.seen ++ appliedTurns a.turns ++ later

/-- The receipts an error carries. -/
def SyncFailure.receipts : SyncFailure → List SyncReceipt
  | .authorization _ _ receipts _ _ => receipts
  | _ => []

/-- The invariant of a server: what is stored is what its history of commands comes to, and what it
    answered is in that history. -/
structure ServerInv (s₀ : WorkspaceState) (S : Server) : Prop where
  stored : S.db.snapshot =
    some ⟨s₀.workspace.revision + S.history.length, endOf s₀ S.history⟩
  chain : Chained s₀ S.history
  effect : ∀ t ∈ S.history, TookEffect t
  calls : ∀ c ∈ S.calls, ∀ l, c.loaded = some l → FromStore s₀ S.history l
  answers : ∀ a ∈ S.answers, Answered s₀ S.history a
  failures : ∀ e ∈ S.failures, ∀ r ∈ e.receipts, r.status ≠ .applied

omit [Host] in
theorem FromStore.mono {history : List Turn} {l : Loaded} (h : FromStore s₀ history l)
    (more : List Turn) : FromStore s₀ (history ++ more) l := by
  refine ⟨?_, ?_⟩
  · rw [List.length_append]
    exact h.seen.trans (Nat.le_add_right _ _)
  · rw [List.take_append_of_le_length h.seen]
    exact h.initial

theorem Answered.mono {history : List Turn} {a : Answer} (h : Answered s₀ history a)
    (more : List Turn) : Answered s₀ (history ++ more) a := by
  refine ⟨h.source.mono more, h.linked, h.faithful, h.receipts, h.commands, h.snapshot,
    h.stored.imp id ?_⟩
  rintro ⟨later, hlater⟩
  refine ⟨later ++ more, ?_⟩
  rw [List.take_append_of_le_length h.source.seen, ← List.append_assoc, ← hlater]

/-- The response of a batch, where what it applied has its place in the history. -/
theorem answered_of_batch {history : List Turn} {l : Loaded} {commands : List CommandEnvelope}
    {b : Batch} (hl : FromStore s₀ history l) (hb : syncBatch l.initial commands = .ok b)
    (hstored : appliedTurns (turnsOf l.initial (startBatch l.initial) commands) = [] ∨
      ∃ later, history = history.take l.seen ++
        appliedTurns (turnsOf l.initial (startBatch l.initial) commands) ++ later) :
    Answered s₀ history ⟨commands, b.receipts, b.state, l⟩ := by
  have ht := syncBatch_told hb
  refine ⟨hl, ht.linked, ht.faithful, ?_, ht.commands, ht.ends, hstored⟩
  show b.receipts = _
  rw [ht.receipts]
  rfl

omit [Host] in
theorem readState_ok {row : SnapshotRow} {s : WorkspaceState} (h : readState row = .ok s) :
    reload row.state = some s := by
  unfold readState at h
  split at h
  · cases h
  · rename_i t ht
    split at h
    · cases h
    · rw [Except.ok.injEq] at h
      rw [ht, h]

omit [Host] in
theorem loadAuthorized_ok {db : Database} {userId : String} {row : SnapshotRow}
    {a : AuthorizedWorkspaceSnapshot} (hrow : db.snapshot = some row)
    (h : db.loadAuthorized userId = .ok (some a)) : reload row.state = some a.state := by
  unfold Database.loadAuthorized at h
  rw [hrow] at h
  cases hm : db.members userId with
  | none => rw [hm] at h; cases h
  | some role =>
      cases hu : db.users userId with
      | none => rw [hm, hu] at h; cases h
      | some user =>
          rw [hm, hu] at h
          dsimp only at h
          split at h
          · cases h
          · split at h
            · cases h
            · simp only [result_bind_ok, result_pure_ok, Option.some.injEq] at h
              obtain ⟨state, hstate, rfl⟩ := h
              exact readState_ok hstate

omit [Host] in
/-- What a call loads is the stored snapshot, read back. -/
theorem loadInitial_ok {db : Database} {commands : List CommandEnvelope}
    {authorization : Option SyncAuthorizationContext} {row : SnapshotRow} {s : WorkspaceState}
    (hrow : db.snapshot = some row) (h : loadInitial db commands authorization = .ok s) :
    reload row.state = some s := by
  unfold loadInitial at h
  cases authorization with
  | some context =>
      dsimp only at h
      unfold authorizedSnapshot at h
      obtain ⟨a, ha, h⟩ := except_bind_ok.mp h
      have ha := mapError_ok.mp ha
      cases a with
      | some a =>
          dsimp only at h
          split at h
          · cases h
            exact loadAuthorized_ok hrow ha
          · cases h
      | none =>
          dsimp only at h
          obtain ⟨_, -, h⟩ := except_bind_ok.mp h
          cases h
  | none =>
      dsimp only at h
      obtain ⟨a, ha, h⟩ := except_bind_ok.mp h
      have ha := mapError_ok.mp ha
      unfold Database.load at ha
      rw [hrow] at ha
      simp only [result_bind_ok, result_pure_ok] at ha
      obtain ⟨state, hstate, rfl⟩ := ha
      cases h
      exact readState_ok hstate

omit [Host] in
theorem compareAndSwap_some {db db' : Database} {revision : Int} {s : WorkspaceState}
    (h : db.compareAndSwap revision s = some db') :
    ∃ row, db.snapshot = some row ∧ row.revision = revision ∧
      db'.snapshot = some ⟨s.workspace.revision, s⟩ := by
  unfold Database.compareAndSwap at h
  split at h
  · cases h
  · rename_i row hrow
    split at h
    · rename_i hrev
      cases h
      exact ⟨row, hrow, hrev, rfl⟩
    · cases h

omit [Host] in
/-- A swap writes the state, at the revision it expects. -/
theorem swapState_some {db db' : Database} {revision : Int} {s : WorkspaceState}
    {authorization : Option SyncAuthorizationContext}
    (h : swapState db revision s authorization = some db') :
    ∃ row, db.snapshot = some row ∧ row.revision = revision ∧
      db'.snapshot = some ⟨s.workspace.revision, s⟩ := by
  unfold swapState at h
  split at h
  · unfold Database.compareAndSwapAuthorized at h
    split at h
    · exact compareAndSwap_some h
    · cases h
  · exact compareAndSwap_some h

omit [Host] in
theorem authorizationReceipts_unapplied {commands : List CommandEnvelope} {revision : Int}
    {message : String} {existing : List SyncReceipt} :
    ∀ r ∈ authorizationReceipts commands revision message existing, r.status ≠ .applied := by
  intro r hr
  unfold authorizationReceipts at hr
  obtain ⟨⟨command, index⟩, -, rfl⟩ := List.mem_map.mp hr
  dsimp only
  split
  · split
    · rename_i hdup
      rw [hdup]
      decide
    · simp
  · simp

omit [Host] in
/-- Without receipts of a batch, every command is rejected. -/
theorem authorizationReceipts_rejected {commands : List CommandEnvelope} {revision : Int}
    {message : String} :
    ∀ r ∈ authorizationReceipts commands revision message [], r.status = .rejected := by
  intro r hr
  unfold authorizationReceipts at hr
  obtain ⟨⟨command, index⟩, -, rfl⟩ := List.mem_map.mp hr
  rfl

omit [Host] in
/-- A call that cannot load tells of each command that it was rejected. -/
theorem loadInitial_rejected {db : Database} {commands : List CommandEnvelope}
    {authorization : Option SyncAuthorizationContext} {e : SyncFailure}
    (h : loadInitial db commands authorization = .error e) :
    ∀ r ∈ e.receipts, r.status = .rejected := by
  have hthrown : ∀ t : Thrown, ∀ r ∈ (SyncFailure.thrown t).receipts, r.status = .rejected :=
    fun _ _ h => absurd h List.not_mem_nil
  unfold loadInitial at h
  cases authorization with
  | none =>
      rcases except_bind_error.mp h with h | ⟨a, -, h⟩
      · obtain ⟨t, rfl⟩ := mapError_error h
        exact hthrown t
      · cases a with
        | none =>
            cases h
            exact fun _ h => absurd h List.not_mem_nil
        | some _ => cases h
  | some context =>
      dsimp only at h
      unfold authorizedSnapshot at h
      rcases except_bind_error.mp h with h | ⟨a, -, h⟩
      · obtain ⟨t, rfl⟩ := mapError_error h
        exact hthrown t
      · cases a with
        | some a =>
            dsimp only at h
            split at h
            · cases h
            · cases h
              exact authorizationReceipts_rejected
        | none =>
            dsimp only at h
            rcases except_bind_error.mp h with h | ⟨c, -, h⟩
            · obtain ⟨t, rfl⟩ := mapError_error h
              exact hthrown t
            · cases h
              exact authorizationReceipts_rejected

omit [Host] in
/-- A call whose swap was refused tells of its commands what its batch made of them. -/
theorem refusalAfterSwap_receipts {db : Database} {initial : WorkspaceState}
    {receipts : List SyncReceipt} {commands : List CommandEnvelope}
    {authorization : Option SyncAuthorizationContext} {e : SyncFailure}
    (h : refusalAfterSwap db initial receipts commands authorization = .error e) :
    (∃ t, e = .thrown t) ∨ ∃ failure message current, e = .authorization failure message
      (authorizationReceipts commands initial.workspace.revision message receipts)
      initial.workspace.revision current := by
  unfold refusalAfterSwap at h
  cases authorization with
  | none => cases h
  | some context =>
      rcases except_bind_error.mp h with h | ⟨c, -, h⟩
      · exact .inl (mapError_error h)
      · split at h
        · cases h
        · cases h
          exact .inr ⟨_, _, _, rfl⟩

theorem Fails.unapplied {S : Server} {call : Call} {e : SyncFailure} (h : Fails S call e) :
    ∀ r ∈ e.receipts, r.status ≠ .applied := by
  cases h with
  | busy => exact fun _ h => absurd h List.not_mem_nil
  | load _ h =>
      intro r hr
      rw [loadInitial_rejected h r hr]
      decide
  | batch => exact fun _ h => absurd h List.not_mem_nil
  | store => exact fun _ h => absurd h List.not_mem_nil
  | refused _ _ _ _ hr =>
      rcases refusalAfterSwap_receipts hr with ⟨t, rfl⟩ | ⟨_, _, _, rfl⟩
      · exact fun _ h => absurd h List.not_mem_nil
      · exact authorizationReceipts_unapplied

end Invariant

/-! ## 3. The steps -/

section Steps

variable [Host] {workspaceId : String} {s₀ : WorkspaceState} {S T : Server}

/-- **A swap that succeeds extends the chain at its end**: the revision it expects is that of the
    snapshot it loaded, and no two snapshots of the chain share one. -/
theorem ServerInv.extend (h : ServerInv s₀ S) {l : Loaded} {commands : List CommandEnvelope}
    {b : Batch} {db : Database} {authorization : Option SyncAuthorizationContext}
    (hl : FromStore s₀ S.history l) (hb : syncBatch l.initial commands = .ok b)
    (ha : b.applied = true)
    (hs : swapState S.db l.initial.workspace.revision b.state authorization = some db) :
    S.history.take l.seen = S.history ∧
      ∀ ts, ts = appliedTurns (turnsOf l.initial (startBatch l.initial) commands) →
        Chained s₀ (S.history ++ ts) ∧ (∀ t ∈ S.history ++ ts, TookEffect t) ∧
        db.snapshot = some ⟨s₀.workspace.revision + (S.history ++ ts).length,
          endOf s₀ (S.history ++ ts)⟩ := by
  obtain ⟨row, hrow, hrev, hdb⟩ := swapState_some hs
  rw [h.stored, Option.some.injEq] at hrow
  subst hrow
  have hseen : S.history.take l.seen = S.history := by
    have hkept := congrArg Workspace.revision (reload_kept hl.initial).workspace
    rw [endOf_revision (chained_take h.chain l.seen)
      fun t ht => h.effect t (List.mem_of_mem_take ht)] at hkept
    have hrev : s₀.workspace.revision + S.history.length = l.initial.workspace.revision := hrev
    have hlen : (S.history.take l.seen).length = S.history.length := by omega
    rw [List.length_take] at hlen
    exact List.take_of_length_le (by omega)
  refine ⟨hseen, ?_⟩
  rintro ts rfl
  have ht := syncBatch_told hb
  obtain ⟨hlinked, hends⟩ := linked_applied ht.linked ht.faithful
  have hreload : reload (endOf s₀ S.history) = some l.initial := by
    have := hl.initial
    rw [hseen] at this
    exact this
  have heffect : ∀ t ∈ S.history ++
      appliedTurns (turnsOf l.initial (startBatch l.initial) commands), TookEffect t := by
    intro t htm
    rcases List.mem_append.mp htm with htm | htm
    · exact h.effect t htm
    · obtain ⟨htm, hstatus⟩ := List.mem_filter.mp htm
      exact ((ht.faithful t htm).applied (by simpa using hstatus)).2
  have hchain : Chained s₀ (S.history ++
      appliedTurns (turnsOf l.initial (startBatch l.initial) commands)) :=
    chained_append.mpr ⟨h.chain, (chained_of_linked hlinked).of_reload hreload hlinked⟩
  refine ⟨hchain, heffect, ?_⟩
  have hne : appliedTurns (turnsOf l.initial (startBatch l.initial) commands) ≠ [] :=
    ht.applied_true rfl ha
  have hend : endOf s₀ (S.history ++
      appliedTurns (turnsOf l.initial (startBatch l.initial) commands)) = b.state := by
    rw [endOf_append, endOf_of_ne hne _ l.initial, hends, ht.ends]
  rw [hdb, ← endOf_revision hchain heffect, hend]

/-- **Every step keeps the invariant.** -/
theorem step_serverInv {a : ServerAction} (h : ServerInv s₀ S)
    (hs : ServerStep workspaceId S a T) : ServerInv s₀ T := by
  cases hs with
  | access db hdb =>
      exact ⟨hdb.trans h.stored, h.chain, h.effect, h.calls, h.answers, h.failures⟩
  | receive call _ hl =>
      refine ⟨h.stored, h.chain, h.effect, ?_, h.answers, h.failures⟩
      intro c hc l hcl
      rcases List.mem_append.mp hc with hc | hc
      · exact h.calls c hc l hcl
      · rw [List.mem_singleton.mp hc, hl] at hcl
        cases hcl
  | load before after call n initial hcalls _ _ hload =>
      refine ⟨h.stored, h.chain, h.effect, ?_, h.answers, h.failures⟩
      intro c hc l hcl
      rcases List.mem_append.mp hc with hc | hc
      · exact h.calls c (by rw [hcalls]; exact List.mem_append_left _ hc) l hcl
      · rcases List.mem_cons.mp hc with rfl | hc
        · cases hcl
          have hread := loadInitial_ok h.stored hload
          refine ⟨le_refl _, ?_⟩
          rw [List.take_length]
          exact hread
        · exact h.calls c
            (by rw [hcalls]; exact List.mem_append_right _ (List.mem_cons_of_mem _ hc)) l hcl
  | answer before after call l b hcalls hl hb ha =>
      have hcall : call ∈ S.calls := by rw [hcalls]; simp
      refine ⟨h.stored, h.chain, h.effect, ?_, ?_, h.failures⟩
      · intro c hc
        refine h.calls c ?_
        rw [hcalls]
        rcases List.mem_append.mp hc with hc | hc
        · exact List.mem_append_left _ hc
        · exact List.mem_append_right _ (List.mem_cons_of_mem _ hc)
      · intro a ham
        rcases List.mem_append.mp ham with ham | ham
        · exact h.answers a ham
        · rw [List.mem_singleton.mp ham]
          refine answered_of_batch (h.calls call hcall l hl) hb (.inl ?_)
          exact (syncBatch_told hb).applied_false ha
  | swap before after call l b db hcalls hl hb ha hs =>
      have hcall : call ∈ S.calls := by rw [hcalls]; simp
      have hfrom := h.calls call hcall l hl
      obtain ⟨hseen, hext⟩ := h.extend hfrom hb ha hs
      obtain ⟨hchain, heffect, hdb⟩ := hext _ rfl
      refine ⟨hdb, hchain, heffect, ?_, ?_, h.failures⟩
      · intro c hc l hcl
        refine (h.calls c ?_ l hcl).mono _
        rw [hcalls]
        rcases List.mem_append.mp hc with hc | hc
        · exact List.mem_append_left _ hc
        · exact List.mem_append_right _ (List.mem_cons_of_mem _ hc)
      · intro a ham
        rcases List.mem_append.mp ham with ham | ham
        · exact (h.answers a ham).mono _
        · rw [List.mem_singleton.mp ham]
          refine answered_of_batch (hfrom.mono _) hb (.inr ⟨[], ?_⟩)
          rw [List.take_append_of_le_length hfrom.seen, hseen, List.append_nil]
  | swapUnanswered before after call l b db hcalls hl hb ha hs =>
      have hcall : call ∈ S.calls := by rw [hcalls]; simp
      obtain ⟨-, hext⟩ := h.extend (h.calls call hcall l hl) hb ha hs
      obtain ⟨hchain, heffect, hdb⟩ := hext _ rfl
      refine ⟨hdb, hchain, heffect, ?_, fun a ham => (h.answers a ham).mono _, h.failures⟩
      intro c hc l hcl
      refine (h.calls c ?_ l hcl).mono _
      rw [hcalls]
      rcases List.mem_append.mp hc with hc | hc
      · exact List.mem_append_left _ hc
      · exact List.mem_append_right _ (List.mem_cons_of_mem _ hc)
  | retry before after call l b hcalls hl hb ha hs hr =>
      refine ⟨h.stored, h.chain, h.effect, ?_, h.answers, h.failures⟩
      intro c hc l' hcl
      rcases List.mem_append.mp hc with hc | hc
      · exact h.calls c (by rw [hcalls]; exact List.mem_append_left _ hc) l' hcl
      · rcases List.mem_cons.mp hc with rfl | hc
        · cases hcl
        · exact h.calls c
            (by rw [hcalls]; exact List.mem_append_right _ (List.mem_cons_of_mem _ hc)) l' hcl
  | fail before after call e hcalls he =>
      refine ⟨h.stored, h.chain, h.effect, ?_, h.answers, ?_⟩
      · intro c hc
        refine h.calls c ?_
        rw [hcalls]
        rcases List.mem_append.mp hc with hc | hc
        · exact List.mem_append_left _ hc
        · exact List.mem_append_right _ (List.mem_cons_of_mem _ hc)
      · intro e' he'
        rcases List.mem_append.mp he' with he' | he'
        · exact h.failures e' he'
        · rw [List.mem_singleton.mp he']
          exact he.unapplied

theorem reachable_serverInv (h : (server workspaceId s₀).Reachable S) : ServerInv s₀ S := by
  refine h.invariant (P := ServerInv s₀) ?_ fun _ _ _ hinv hs => step_serverInv hinv hs
  rintro S ⟨hdb, hcalls, hanswers, hfailures, hhistory⟩
  refine ⟨?_, ?_, ?_, ?_, ?_, ?_⟩
  · rw [hdb, hhistory]
    simp [endOf]
  · rw [hhistory]
    trivial
  · rw [hhistory]
    exact fun _ h => absurd h List.not_mem_nil
  · rw [hcalls]
    exact fun _ h => absurd h List.not_mem_nil
  · rw [hanswers]
    exact fun _ h => absurd h List.not_mem_nil
  · rw [hfailures]
    exact fun _ h => absurd h List.not_mem_nil

end Steps

/-! ## 4. Every run -/

section Exactly

variable [Host] {workspaceId : String} {s₀ s : WorkspaceState} {S : Server}

/-- A command is still recorded where every turn since has kept its record. -/
theorem Chained.recorded {xs ys zs : List Turn} {h t : Turn}
    (hc : Chained s (xs ++ h :: ys ++ t :: zs)) (he : TookEffect h)
    (hys : ∀ u ∈ ys, wasApplied u.after h.envelope.id = true) :
    wasApplied t.before h.envelope.id = true := by
  have hstart : Starts (endOf s (xs ++ h :: ys)) t := (chained_append.mp hc).2.1
  have hend := recorded_at_end he.recorded hys
  rw [hstart.wasApplied, endOf_append, endOf]
  exact hend

theorem TookEffect.named {t : Turn} (h : TookEffect t) : t.envelope.id ≠ "" := by
  obtain ⟨_, r, hr, -⟩ := h.accepted
  have hid := applyCommand_id hr
  exact hid

/-- The turns up to a response: what was stored before its batch, and its batch. -/
def Answer.path (history : List Turn) (a : Answer) : List Turn :=
  history.take a.source.seen ++ a.turns

/-- What holds of a server that started with the snapshot `s₀`. -/
structure ExactlyOnce (s₀ : WorkspaceState) (S : Server) : Prop where
  /-- The stored snapshot is what the commands made of the first one, and the revision has
      counted them. -/
  stored : S.db.snapshot =
    some ⟨s₀.workspace.revision + S.history.length, endOf s₀ S.history⟩
  revision : (endOf s₀ S.history).workspace.revision =
    s₀.workspace.revision + S.history.length
  /-- Each command took effect on the snapshot just before it, and the next one starts from
      what it left: no swap overwrites another. -/
  chain : Chained s₀ S.history
  effect : ∀ t ∈ S.history, TookEffect t
  /-- No command takes effect twice while it is recorded. -/
  once : ∀ xs h ys t zs, S.history = xs ++ h :: ys ++ t :: zs →
    (∀ u ∈ ys, wasApplied u.after h.envelope.id = true) → t.envelope.id ≠ h.envelope.id
  /-- A response has one receipt for each command, in order, and a command it calls applied is
      one of the history. -/
  receipts : ∀ a ∈ S.answers, a.receipts = a.turns.map (·.receipt) ∧
    a.turns.map (·.envelope) = a.commands
  applied : ∀ a ∈ S.answers, ∀ t ∈ a.turns, t.receipt.status = .applied →
    t ∈ S.history ∧ t.receipt.commandId = t.envelope.id
  /-- A command that was applied before, and is recorded, is answered as a duplicate. -/
  resent : ∀ a ∈ S.answers, ∀ xs h ys t zs, a.path S.history = xs ++ h :: ys ++ t :: zs →
    h.receipt.status = .applied → (∀ u ∈ ys, wasApplied u.after h.envelope.id = true) →
    t.envelope.id = h.envelope.id → t.receipt.status = .duplicate
  /-- An error tells of no command that it was applied. -/
  failures : ∀ e ∈ S.failures, ∀ r ∈ e.receipts, r.status ≠ .applied

/-- Up to a response the turns chain on. -/
theorem ServerInv.path (h : ServerInv s₀ S) {a : Answer} (ha : a ∈ S.answers) :
    Chained s₀ (a.path S.history) ∧
      ∀ t ∈ a.path S.history, TookEffect t ∨ t ∈ a.turns ∧ t.Faithful := by
  have hanswer := h.answers a ha
  have hstart : Chained s₀ (S.history.take a.source.seen) := chained_take h.chain a.source.seen
  refine ⟨chained_append.mpr ⟨hstart,
    (chained_of_linked hanswer.linked).of_reload hanswer.source.initial hanswer.linked⟩, ?_⟩
  intro t ht
  rcases List.mem_append.mp ht with ht | ht
  · exact .inl (h.effect t (List.mem_of_mem_take ht))
  · exact .inr ⟨ht, hanswer.faithful t ht⟩

theorem ServerInv.applied (h : ServerInv s₀ S) {a : Answer} (ha : a ∈ S.answers) {t : Turn}
    (ht : t ∈ a.turns) (hs : t.receipt.status = .applied) : t ∈ S.history := by
  have happlied : t ∈ appliedTurns a.turns := List.mem_filter.mpr ⟨ht, by simpa using hs⟩
  rcases (h.answers a ha).stored with hnil | ⟨later, hlater⟩
  · rw [hnil] at happlied
    exact absurd happlied List.not_mem_nil
  · rw [hlater]
    exact List.mem_append_left _ (List.mem_append_right _ happlied)

/-- **A command sent again is a duplicate.** -/
theorem ServerInv.resent (h : ServerInv s₀ S) {a : Answer} (ha : a ∈ S.answers)
    {xs ys zs : List Turn} {g t : Turn} (hpath : a.path S.history = xs ++ g :: ys ++ t :: zs)
    (hg : g.receipt.status = .applied)
    (hys : ∀ u ∈ ys, wasApplied u.after g.envelope.id = true)
    (hid : t.envelope.id = g.envelope.id) : t.receipt.status = .duplicate := by
  obtain ⟨hchain, hturns⟩ := h.path ha
  rw [hpath] at hchain hturns
  have heffect : TookEffect g := by
    rcases hturns g (by simp) with hg' | ⟨-, hf⟩
    · exact hg'
    · exact (hf.applied hg).2
  have hrecorded := hchain.recorded heffect hys
  rw [← hid] at hrecorded
  rcases hturns t (by simp) with ht | ⟨-, hf⟩
  · exact absurd (ht.unrecorded.symm.trans hrecorded) (by decide)
  · refine hf.duplicate.mpr ?_
    rw [hf.named (hid ▸ heffect.named)]
    exact hrecorded

theorem ServerInv.once (h : ServerInv s₀ S) {xs ys zs : List Turn} {g t : Turn}
    (hpath : S.history = xs ++ g :: ys ++ t :: zs)
    (hys : ∀ u ∈ ys, wasApplied u.after g.envelope.id = true) :
    t.envelope.id ≠ g.envelope.id := by
  have hchain := h.chain
  rw [hpath] at hchain
  have hrecorded := hchain.recorded (h.effect g (by rw [hpath]; simp)) hys
  intro hid
  rw [← hid] at hrecorded
  exact absurd ((h.effect t (by rw [hpath]; simp)).unrecorded.symm.trans hrecorded) (by decide)

theorem ServerInv.exactlyOnce (h : ServerInv s₀ S) : ExactlyOnce s₀ S where
  stored := h.stored
  revision := endOf_revision h.chain h.effect
  chain := h.chain
  effect := h.effect
  once _ _ _ _ _ hpath hys := h.once hpath hys
  receipts a ha := ⟨(h.answers a ha).receipts, (h.answers a ha).commands⟩
  applied a ha t ht hs :=
    ⟨h.applied ha ht hs, (((h.answers a ha).faithful t ht).applied hs).1⟩
  resent _ ha _ _ _ _ _ hpath hg hys hid := h.resent ha hpath hg hys hid
  failures := h.failures

/-- **Exactly once.** Over every interleaving of calls, of their attempts and of changes of the
    tables that say who may write: the commands that took effect form one chain from the first
    snapshot to the stored one, each applied once while it is recorded and counted by the
    revision; a command some response calls applied is one of them, and one that is sent again
    is answered as a duplicate. -/
theorem synchronize_exactlyOnce (workspaceId : String) (s₀ : WorkspaceState) (S : Server)
    (h : (server workspaceId s₀).Reachable S) : ExactlyOnce s₀ S :=
  (reachable_serverInv h).exactlyOnce

end Exactly

/-! ## 5. Sent again -/

/-- The server of the empty workspace, with an owner. -/
def firstServer : Server where
  db := {
    snapshot := some ⟨firstState.workspace.revision, firstState⟩
    accessRevision := 0
    deleted := false
    members := fun _ => some .owner
    users := fun _ => some ⟨true, 0⟩ }
  calls := []
  answers := []
  failures := []
  history := []

/-- A call of the owner. -/
def ownerCall (commands : List CommandEnvelope) : Call where
  commands
  authorization := some ⟨{ membershipRevision := 0, workspaceAccessRevision := 0 }, "ann"⟩
  attempts := 2
  loaded := none

/-- Two callers load the same snapshot. The first stores its command and is not told; the second
    loses its swap and tries again; then the first sends its command once more, and again when it
    has become a viewer. -/
def sentAgain : List ServerTurn :=
  [.receive (ownerCall [firstEnvelope "c1" (.workspaceRename "Flat")]),
    .receive (ownerCall [firstEnvelope "c2" (.workspaceRename "House")]),
    .next 0 true, .next 1 true, .next 0 false, .next 0 true, .next 0 true, .next 0 true,
    .receive (ownerCall [firstEnvelope "c1" (.workspaceRename "Flat")]),
    .next 0 true, .next 0 true,
    .access fun _ => some .viewer,
    .receive (ownerCall [firstEnvelope "c1" (.workspaceRename "Flat")]), .next 0 true]

theorem firstServer_reachable : (@server asciiHost "ws_1" firstState).Reachable firstServer :=
  ⟨firstServer, [], ⟨rfl, rfl, rfl, rfl, rfl⟩, .nil _⟩

/-- What the server has stored and told at the end. -/
theorem sentAgain_followed :
    ∃ S, Machine.follow (@Server.turn asciiHost "ws_1") firstServer sentAgain = some S ∧
      S.history.map (·.envelope.id) = ["c1", "c2"] ∧
      (S.answers.map fun a => a.receipts.map fun r => (r.commandId, r.status)) =
        [[("c2", .applied)], [("c1", .duplicate)]] ∧
      wasApplied (endOf firstState S.history) "c1" = true ∧
      (S.failures.map fun e => e.receipts.map fun r => (r.commandId, r.status)) =
        [[("c1", .rejected)]] := by
  let : Host := asciiHost
  have hfollows : (Machine.follow (Server.turn "ws_1") firstServer sentAgain).any (fun S =>
      S.history.map (·.envelope.id) = ["c1", "c2"] &&
      (S.answers.map fun a => a.receipts.map fun r => (r.commandId, r.status)) =
        [[("c2", .applied)], [("c1", .duplicate)]] &&
      wasApplied (endOf firstState S.history) "c1" &&
      (S.failures.map fun e => e.receipts.map fun r => (r.commandId, r.status)) =
        [[("c1", .rejected)]]) = true := by
    decide +kernel
  obtain ⟨S, hS, hfacts⟩ := (Option.any_eq_true _ _).mp hfollows
  simp only [Bool.and_eq_true, decide_eq_true_eq, and_assoc] at hfacts
  exact ⟨S, hS, hfacts⟩

/-- The command that took effect before is a duplicate in the second response. -/
theorem synchronize_exactlyOnce_sentAgain : ∃ S, @ExactlyOnce asciiHost firstState S ∧
    S.history.map (·.envelope.id) = ["c1", "c2"] ∧
    (S.answers.map fun a => a.receipts.map fun r => (r.commandId, r.status)) =
      [[("c2", .applied)], [("c1", .duplicate)]] := by
  let : Host := asciiHost
  obtain ⟨S, hS, hhistory, hanswers, -⟩ := sentAgain_followed
  exact ⟨S, synchronize_exactlyOnce "ws_1" firstState S
    (follow_reachable firstServer_reachable hS), hhistory, hanswers⟩

/-- **A refused call rejects what was applied**: the command took effect and is recorded, and the
    error that ends the call in which it is sent again has a receipt that rejects it. -/
theorem resent_rejected : ∃ S, (@server asciiHost "ws_1" firstState).Reachable S ∧
    (∃ t ∈ S.history, t.envelope.id = "c1") ∧
    wasApplied (endOf firstState S.history) "c1" = true ∧
    ∃ e ∈ S.failures, ∃ r ∈ e.receipts, r.commandId = "c1" ∧ r.status = .rejected := by
  let : Host := asciiHost
  obtain ⟨S, hS, hhistory, -, hrecorded, hfailures⟩ := sentAgain_followed
  have happlied : "c1" ∈ S.history.map (·.envelope.id) := by
    rw [hhistory]
    exact List.mem_cons_self
  obtain ⟨e, he, hreceipts⟩ := List.mem_map.mp (hfailures ▸ List.mem_cons_self)
  obtain ⟨r, hr, hrefused⟩ := List.mem_map.mp (hreceipts ▸ List.mem_cons_self)
  exact ⟨S, follow_reachable firstServer_reachable hS, List.mem_map.mp happlied, hrecorded,
    e, he, r, hr, Prod.mk.inj hrefused⟩

end Stowplan
