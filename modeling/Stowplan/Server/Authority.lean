/-
  File:      Stowplan/Server/Authority.lean
  Subject:   AUTHORIZATION AT THE MOMENT OF THE WRITE (sync-service.ts, d1-snapshot-store.ts).

  Access is checked when a call loads the snapshot and again in the statement that swaps the
  result in. Between the two, and between the attempts of a call, the tables change in any way:
  roles, memberships, accounts, the workspace itself, and the snapshot by other writers.

  * `authority`: the machine of all calls among writers of any kind;
  * `Writable`: what the swap requires of the tables;
  * `Repeats`: what makes a refusal call a command a duplicate that is stored nowhere;
  * `authorization_at_write`: the run.
-/
import Stowplan.Server.ExactlyOnce
import Mathlib.Data.List.Induction

namespace Stowplan

/-! ## 1. The machine -/

/-- The state the table of snapshots holds. -/
def Database.stored (db : Database) : List WorkspaceState := (db.snapshot.map (·.state)).toList

/-- A snapshot that a call persisted, with the tables as the swap found them. -/
structure PersistedWrite where
  number : Nat
  tables : Database
  authorization : Option SyncAuthorizationContext
  state : WorkspaceState

/-- A call that ended in an authorization refusal, with the snapshots stored by then. -/
structure AccessRefusal where
  number : Nat
  call : Call
  receipts : List SyncReceipt
  persisted : List WorkspaceState

/-- The database and the numbered calls in flight; every snapshot that was ever stored; what the
    calls wrote, and the calls that were refused. -/
structure Authority where
  db : Database
  calls : List (Nat × Call)
  received : Nat
  persisted : List WorkspaceState
  writes : List PersistedWrite
  refusals : List AccessRefusal

/-- What happens, as far as authority is concerned. -/
inductive AuthorityAction where
  | other
  | receive
  | load
  | answer
  | swap
  | retry
  | fail

/-- The refusal that an error tells of. -/
def refusalOf (number : Nat) (call : Call) (persisted : List WorkspaceState) :
    SyncFailure → List AccessRefusal
  | .authorization _ _ receipts _ _ => [⟨number, call, receipts, persisted⟩]
  | _ => []

section Machine

variable [Host]

/-- One step of one call, or of another writer of the tables. -/
inductive AuthorityStep (workspaceId : String) :
    Authority → AuthorityAction → Authority → Prop where
  | other (S : Authority) (db : Database) :
      AuthorityStep workspaceId S .other { S with db, persisted := S.persisted ++ db.stored }
  | receive (S : Authority) (call : Call)
      (h : ∀ envelope ∈ call.commands, envelope.workspaceId = workspaceId)
      (hl : call.loaded = none) :
      AuthorityStep workspaceId S .receive { S with
        calls := S.calls ++ [(S.received, call)]
        received := S.received + 1 }
  | load (S : Authority) (before after : List (Nat × Call)) (n : Nat) (call : Call) (k : Nat)
      (initial : WorkspaceState) (hcalls : S.calls = before ++ (n, call) :: after)
      (hl : call.loaded = none) (hk : call.attempts = k + 1)
      (h : loadInitial S.db call.commands call.authorization = .ok initial) :
      AuthorityStep workspaceId S .load { S with
        calls := before ++ (n, { call with
          attempts := k
          loaded := some ⟨initial, S.persisted.length⟩ }) :: after }
  | answer (S : Authority) (before after : List (Nat × Call)) (n : Nat) (call : Call)
      (l : Loaded) (b : Batch) (hcalls : S.calls = before ++ (n, call) :: after)
      (hl : call.loaded = some l) (h : syncBatch l.initial call.commands = .ok b)
      (ha : b.applied = false) :
      AuthorityStep workspaceId S .answer { S with calls := before ++ after }
  | swap (S : Authority) (before after : List (Nat × Call)) (n : Nat) (call : Call)
      (l : Loaded) (b : Batch) (db : Database) (hcalls : S.calls = before ++ (n, call) :: after)
      (hl : call.loaded = some l) (h : syncBatch l.initial call.commands = .ok b)
      (ha : b.applied = true)
      (hs : swapState S.db l.initial.workspace.revision b.state call.authorization = some db) :
      AuthorityStep workspaceId S .swap { S with
        db
        calls := before ++ after
        persisted := S.persisted ++ [b.state]
        writes := S.writes ++ [⟨n, S.db, call.authorization, b.state⟩] }
  | retry (S : Authority) (before after : List (Nat × Call)) (n : Nat) (call : Call)
      (l : Loaded) (b : Batch) (hcalls : S.calls = before ++ (n, call) :: after)
      (hl : call.loaded = some l) (h : syncBatch l.initial call.commands = .ok b)
      (ha : b.applied = true)
      (hs : swapState S.db l.initial.workspace.revision b.state call.authorization = none)
      (hr : refusalAfterSwap S.db l.initial b.receipts call.commands call.authorization =
        .ok ()) :
      AuthorityStep workspaceId S .retry { S with
        calls := before ++ (n, { call with loaded := none }) :: after }
  | fail (S : Authority) (before after : List (Nat × Call)) (n : Nat) (call : Call)
      (e : SyncFailure) (hcalls : S.calls = before ++ (n, call) :: after)
      (h : Fails ⟨S.db, S.calls.map (·.2), [], [], []⟩ call e) :
      AuthorityStep workspaceId S .fail { S with
        calls := before ++ after
        refusals := S.refusals ++ refusalOf n call S.persisted e }

/-- The server of a workspace, among other writers, before any call. -/
def authority (workspaceId : String) : Machine Authority AuthorityAction where
  init S := S.calls = [] ∧ S.persisted = S.db.stored ∧ S.writes = [] ∧ S.refusals = []
  step := AuthorityStep workspaceId

end Machine

/-! ## 2. The second check -/

/-- What the tables say of an account whose edits may be stored: the workspace is there, the
    account is active and an owner or an editor, and one of the two revisions is the one its
    edits were created under. -/
structure Database.Writable (db : Database) (context : SyncAuthorizationContext) : Prop where
  live : db.deleted = false
  account : ∃ user, db.users context.userId = some user ∧ user.active = true ∧
    (user.membershipRevision = context.basis.membershipRevision ∨
      db.accessRevision = context.basis.workspaceAccessRevision)
  role : db.members context.userId = some .owner ∨ db.members context.userId = some .editor

theorem Database.mayWrite_writable {db : Database} {context : SyncAuthorizationContext}
    (h : db.mayWrite context.userId context.basis = true) : db.Writable context := by
  unfold Database.mayWrite at h
  rw [Bool.and_eq_true, Bool.not_eq_true'] at h
  obtain ⟨hlive, h⟩ := h
  cases hm : db.members context.userId with
  | none => rw [hm] at h; cases h
  | some role =>
      cases hu : db.users context.userId with
      | none => rw [hm, hu] at h; cases h
      | some user =>
          rw [hm, hu] at h
          simp only [Bool.and_eq_true, Bool.or_eq_true, decide_eq_true_eq] at h
          obtain ⟨⟨hactive, hrole⟩, hrevision⟩ := h
          refine ⟨hlive, ⟨user, hu, hactive, hrevision⟩, ?_⟩
          rw [hm]
          exact hrole.imp (congrArg some) (congrArg some)

/-- A swap for an account finds the account allowed to write. -/
theorem swapState_writable {db db' : Database} {revision : Int} {s : WorkspaceState}
    {context : SyncAuthorizationContext}
    (h : swapState db revision s (some context) = some db') : db.Writable context := by
  unfold swapState Database.compareAndSwapAuthorized at h
  dsimp only at h
  split at h
  · rename_i hmay
    exact Database.mayWrite_writable hmay
  · cases h

theorem loadInitial_none {db : Database} {commands : List CommandEnvelope}
    {authorization : Option SyncAuthorizationContext} {s : WorkspaceState}
    (hrow : db.snapshot = none) : loadInitial db commands authorization ≠ .ok s := by
  intro h
  unfold loadInitial at h
  cases authorization with
  | none =>
      simp only [Database.load, hrow, bind, Except.bind] at h
      cases h
  | some context =>
      dsimp only at h
      unfold authorizedSnapshot at h
      simp only [Database.loadAuthorized, hrow, mapError_of_ok] at h
      obtain ⟨a, ha, h⟩ := except_bind_ok.mp h
      cases ha
      dsimp only at h
      obtain ⟨_, -, h⟩ := except_bind_ok.mp h
      cases h

/-! ## 3. What a refusal says of the batch -/

section Refusals

variable [Host] {initial : WorkspaceState} {b b' : Batch} {envelope : CommandEnvelope}
  {commands : List CommandEnvelope} {id : String} {receipt : SyncReceipt}

/-- The loop accepts the command: it is not recorded, and applying it does not fail. -/
def Accepts (initial : WorkspaceState) (b : Batch) (envelope : CommandEnvelope) : Prop :=
  wasApplied b.state (receiptId envelope b.receipts.length) = false ∧
    ∃ p, applyAndCompact b (rebasedEnvelope initial b envelope) = .ok p

/-- The loop accepts a command, its identifier comes again, and where it comes for the last time
    the snapshot of the loop still records it. -/
def Repeats (initial : WorkspaceState) (commands : List CommandEnvelope) (id : String) : Prop :=
  ∃ xs c ys d zs b b',
    commands = xs ++ c :: (ys ++ d :: zs) ∧
    syncBatch initial xs = .ok b ∧ Accepts initial b c ∧ c.id = id ∧
    syncBatch initial (xs ++ c :: ys) = .ok b' ∧ wasApplied b'.state id = true ∧
    receiptId d (xs.length + ys.length + 1) = id ∧
    ∀ e k, (e, k) ∈ zs.zipIdx (xs.length + ys.length + 2) → receiptId e k ≠ id

omit [Host] in
theorem receiptFor_append (receipts : List SyncReceipt) :
    receiptFor (receipts ++ [receipt]) id =
      if receipt.commandId = id then some receipt else receiptFor receipts id := by
  unfold receiptFor
  rw [List.reverse_append]
  show (receipt :: receipts.reverse).find? _ = _
  rw [List.find?_cons]
  by_cases hid : receipt.commandId = id
  · simp [hid]
  · simp [hid]

theorem syncLoop_append {xs ys : List CommandEnvelope} :
    syncLoop initial b (xs ++ ys) = (syncLoop initial b xs >>= fun c => syncLoop initial c ys) := by
  induction xs generalizing b with
  | nil => rfl
  | cons x xs ih =>
      show (syncCommand initial b x >>= fun c => syncLoop initial c (xs ++ ys)) = _
      cases hx : syncCommand initial b x with
      | error e => simp [syncLoop, hx, bind, Except.bind]
      | ok c => simpa [syncLoop, hx, bind, Except.bind] using ih

/-- The last turn of a batch. -/
theorem syncBatch_concat (h : syncBatch initial (commands ++ [envelope]) = .ok b') :
    ∃ b, syncBatch initial commands = .ok b ∧ syncCommand initial b envelope = .ok b' := by
  unfold syncBatch at h
  rw [syncLoop_append, except_bind_ok] at h
  obtain ⟨b, hb, h⟩ := h
  simp only [syncLoop, except_bind_ok, Except.ok.injEq] at h
  obtain ⟨c, hc, rfl⟩ := h
  exact ⟨b, hb, hc⟩

/-- The receipt of one turn: a duplicate where the snapshot records the command. -/
theorem syncCommand_receipt (h : syncCommand initial b envelope = .ok b') :
    ∃ receipt, b'.receipts = b.receipts ++ [receipt] ∧
      receipt.commandId = receiptId envelope b.receipts.length ∧
      (receipt.status = .duplicate ↔ wasApplied b.state receipt.commandId = true) := by
  unfold syncCommand at h
  simp only at h
  split at h
  · rename_i hdup
    cases h
    exact ⟨_, rfl, rfl, fun _ => hdup, fun _ => rfl⟩
  · rename_i hnew
    split at h
    · cases h
      exact ⟨_, rfl, rfl, fun h => (by cases h), fun h => absurd h hnew⟩
    · simp only [result_bind_ok, result_pure_ok] at h
      obtain ⟨receipt, hreceipt, rfl⟩ := h
      obtain ⟨hstatus, hid⟩ := rejection_ok hreceipt
      refine ⟨receipt, rfl, hid, fun h => ?_, fun h => ?_⟩
      · cases hstatus.symm.trans h
      · rw [hid] at h
        exact absurd h hnew

theorem syncBatch_length (h : syncBatch initial commands = .ok b) :
    b.receipts.length = commands.length := by
  have ht := syncBatch_told h
  have hlen := congrArg List.length ht.commands
  rw [List.length_map] at hlen
  rw [ht.receipts, List.length_append, List.length_map, hlen]
  exact Nat.zero_add _

/-- What one turn makes the snapshot record. -/
theorem syncCommand_recorded (h : syncCommand initial b envelope = .ok b')
    (ha : wasApplied b'.state id = true) :
    wasApplied b.state id = true ∨ Accepts initial b envelope ∧ envelope.id = id := by
  unfold syncCommand at h
  simp only at h
  split at h
  · cases h
    exact .inl ha
  · rename_i hnew
    split at h
    · rename_i state usage happly
      cases h
      obtain ⟨r, hr, hstate⟩ := applyAndCompact_ok happly
      have hstate : state = compactResult r := hstate
      obtain ⟨base, hbase⟩ := rebasedEnvelope_eq initial b envelope
      have haccepts : Accepts initial b envelope :=
        ⟨Bool.eq_false_iff.mpr hnew, (state, usage), happly⟩
      rw [hbase] at hr
      have ha : wasApplied (compactResult r) id = true := hstate ▸ ha
      exact ((applyCommand_logged hr).2.wasApplied (compactResult_wasApplied ha)).imp_right
        fun hid => ⟨haccepts, hid⟩
    · simp only [result_bind_ok, result_pure_ok] at h
      obtain ⟨_, -, rfl⟩ := h
      exact .inl ha

/-- What a batch makes the snapshot record: the commands its loop accepted. -/
theorem syncBatch_recorded (h : syncBatch initial commands = .ok b)
    (ha : wasApplied b.state id = true) :
    wasApplied initial id = true ∨ ∃ xs c ys b', commands = xs ++ c :: ys ∧
      syncBatch initial xs = .ok b' ∧ Accepts initial b' c ∧ c.id = id := by
  induction commands using List.reverseRecOn generalizing b with
  | nil =>
      cases h
      exact .inl ha
  | append_singleton cs d ih =>
      obtain ⟨b₁, hb₁, hd⟩ := syncBatch_concat h
      rcases syncCommand_recorded hd ha with ha | ⟨hd, hid⟩
      · refine (ih hb₁ ha).imp_right ?_
        rintro ⟨xs, c, ys, b', rfl, hb', hc, hid⟩
        exact ⟨xs, c, ys ++ [d], b', by simp, hb', hc, hid⟩
      · exact .inr ⟨cs, d, [], b₁, rfl, hb₁, hd, hid⟩

/-- **The receipt that a refusal finds for an identifier** calls it a duplicate where the loaded
    snapshot records it, or where the batch repeats it. -/
theorem receiptFor_duplicate (h : syncBatch initial commands = .ok b)
    (hr : receiptFor b.receipts id = some receipt) :
    receipt.commandId = id ∧
      (receipt.status = .duplicate → wasApplied initial id = true ∨ Repeats initial commands id) ∧
      (Repeats initial commands id → receipt.status = .duplicate) := by
  induction commands using List.reverseRecOn generalizing b with
  | nil =>
      cases h
      cases hr
  | append_singleton cs d ih =>
      obtain ⟨b₁, hb₁, hd⟩ := syncBatch_concat h
      obtain ⟨last, hlast, hname, hstatus⟩ := syncCommand_receipt hd
      rw [syncBatch_length hb₁] at hname
      rw [hlast, receiptFor_append] at hr
      by_cases hid : last.commandId = id
      · -- the identifier comes for the last time here
        rw [if_pos hid, Option.some.injEq] at hr
        subst hr
        rw [hid] at hstatus hname
        refine ⟨hid, fun hdup => ?_, ?_⟩
        · have ha := hstatus.mp hdup
          refine (syncBatch_recorded hb₁ ha).imp_right ?_
          rintro ⟨xs, c, ys, b', rfl, hb', hc, hcid⟩
          refine ⟨xs, c, ys, d, [], b', b₁, by simp, hb', hc, hcid, hb₁, ha, ?_, ?_⟩
          · have hplace : (xs ++ c :: ys).length = xs.length + ys.length + 1 := by
              simp only [List.length_append, List.length_cons]
              omega
            rw [hname, hplace]
          · intro e k hek
            exact absurd hek List.not_mem_nil
        · rintro ⟨xs, c, ys, d', zs, b', b'', hsplit, -, -, -, hb'', ha, -, hlater⟩
          cases zs using List.reverseRecOn with
          | nil =>
              have hcs : cs = xs ++ c :: ys := by
                have : cs ++ [d] = (xs ++ c :: ys) ++ [d'] := by simpa using hsplit
                exact (List.append_inj' this rfl).1
              subst hcs
              rw [hb₁, Except.ok.injEq] at hb''
              subst hb''
              exact hstatus.mpr ha
          | append_singleton zs e =>
              have hlong : cs ++ [d] = (xs ++ c :: (ys ++ d' :: zs)) ++ [e] := by
                simpa using hsplit
              obtain ⟨hcs, hde⟩ := List.append_inj' hlong rfl
              cases hde
              refine absurd hname.symm (hlater d cs.length ?_)
              rw [List.zipIdx_append]
              refine List.mem_append_right _ ?_
              rw [hcs]
              simp only [List.zipIdx_cons, List.zipIdx_nil, List.mem_singleton, Prod.mk.injEq,
                true_and, List.length_append, List.length_cons]
              omega
      · rw [if_neg hid] at hr
        obtain ⟨hcommand, hdup, hrep⟩ := ih hb₁ hr
        refine ⟨hcommand, fun hstat => (hdup hstat).imp_right ?_, fun h => hrep ?_⟩
        · rintro ⟨xs, c, ys, d', zs, b', b'', rfl, hb', hc, hcid, hb'', ha, hlastId, hlater⟩
          refine ⟨xs, c, ys, d', zs ++ [d], b', b'', by simp, hb', hc, hcid, hb'', ha, hlastId,
            fun e k hek => ?_⟩
          rw [List.zipIdx_append] at hek
          rcases List.mem_append.mp hek with hek | hek
          · exact hlater e k hek
          · simp only [List.zipIdx_cons, List.zipIdx_nil, List.mem_singleton, Prod.mk.injEq] at hek
            obtain ⟨rfl, rfl⟩ := hek
            have hplace : (xs ++ c :: (ys ++ d' :: zs)).length =
                xs.length + ys.length + 2 + zs.length := by
              simp only [List.length_append, List.length_cons]
              omega
            rw [hname, hplace] at hid
            exact hid
        · obtain ⟨xs, c, ys, d', zs, b', b'', hsplit, hb', hc, hcid, hb'', ha, hlastId, hlater⟩ := h
          cases zs using List.reverseRecOn with
          | nil =>
              have hone : cs ++ [d] = (xs ++ c :: ys) ++ [d'] := by simpa using hsplit
              obtain ⟨hcs, hde⟩ := List.append_inj' hone rfl
              cases hde
              rw [hname, hcs] at hid
              have hplace : (xs ++ c :: ys).length = xs.length + ys.length + 1 := by
                simp only [List.length_append, List.length_cons]
                omega
              rw [hplace] at hid
              exact absurd hlastId hid
          | append_singleton zs e =>
              have hlong : cs ++ [d] = (xs ++ c :: (ys ++ d' :: zs)) ++ [e] := by
                simpa using hsplit
              obtain ⟨hcs, hde⟩ := List.append_inj' hlong rfl
              refine ⟨xs, c, ys, d', zs, b', b'', hcs, hb', hc, hcid, hb'', ha, hlastId,
                fun e' k hek => hlater e' k ?_⟩
              rw [List.zipIdx_append]
              exact List.mem_append_left _ hek

/-- The receipts of a batch carry the identifiers of its commands. -/
theorem syncBatch_names (h : syncBatch initial commands = .ok b) :
    b.receipts.map (·.commandId) = commands.zipIdx.map fun p => receiptId p.1 p.2 := by
  induction commands using List.reverseRecOn generalizing b with
  | nil =>
      cases h
      rfl
  | append_singleton cs d ih =>
      obtain ⟨b₁, hb₁, hd⟩ := syncBatch_concat h
      obtain ⟨last, hlast, hname, -⟩ := syncCommand_receipt hd
      rw [syncBatch_length hb₁] at hname
      rw [hlast, List.map_append, ih hb₁, List.zipIdx_append, List.map_append]
      simp [hname]

omit [Host] in
theorem receiptFor_of_mem {receipts : List SyncReceipt} (h : id ∈ receipts.map (·.commandId)) :
    ∃ r, receiptFor receipts id = some r := by
  obtain ⟨r, hr, hid⟩ := List.mem_map.mp h
  refine Option.isSome_iff_exists.mp (List.find?_isSome.mpr ⟨r, ?_, ?_⟩)
  · rw [List.mem_reverse]
    exact hr
  · simpa using hid

omit [Host] in
/-- A refusal calls a command a duplicate where the batch's last receipt for it does. -/
theorem authorizationReceipts_duplicate {receipts : List SyncReceipt} {revision : Int}
    {message : String} :
    (receipt ∈ authorizationReceipts commands revision message receipts ∧
      receipt.status = .duplicate) ↔
    receipt.status = .duplicate ∧
      ∃ c k, (c, k) ∈ commands.zipIdx ∧ receiptFor receipts (receiptId c k) = some receipt := by
  unfold authorizationReceipts
  constructor
  · rintro ⟨hr, hdup⟩
    refine ⟨hdup, ?_⟩
    obtain ⟨⟨c, k⟩, hck, heq⟩ := List.mem_map.mp hr
    refine ⟨c, k, hck, ?_⟩
    dsimp only at heq
    cases hfor : receiptFor receipts (receiptId c k) with
    | none =>
        rw [hfor] at heq
        rw [← heq] at hdup
        cases hdup
    | some r =>
        rw [hfor] at heq
        dsimp only at heq
        split at heq
        · rw [heq]
        · rw [← heq] at hdup
          cases hdup
  · rintro ⟨hdup, c, k, hck, hfor⟩
    refine ⟨List.mem_map.mpr ⟨(c, k), hck, ?_⟩, hdup⟩
    simp only [hfor, hdup, if_true]

end Refusals

/-! ## 4. The run -/

/-- A command of the refused batch is called a duplicate only if a snapshot stored by then
    records it. -/
def AccessRefusal.Recorded (f : AccessRefusal) : Prop :=
  ∀ r ∈ f.receipts, r.status = .duplicate → ∃ s ∈ f.persisted, wasApplied s r.commandId = true

section Run

variable [Host] {workspaceId : String} {S T : Authority}

/-- The refused attempt accepted a command that its batch repeats, and that no snapshot stored
    by then records. -/
def AccessRefusal.Repeated (f : AccessRefusal) : Prop :=
  ∃ l id, f.call.loaded = some l ∧ Repeats l.initial f.call.commands id ∧
    ∀ s ∈ f.persisted, wasApplied s id = false

/-- What a call loaded was stored. -/
def FromPersisted (persisted : List WorkspaceState) (call : Call) : Prop :=
  ∀ l, call.loaded = some l → ∃ s ∈ persisted, reload s = some l.initial

/-- **What a refusal tells.** -/
theorem refusalOf_told {db : Database} {n : Nat} {call : Call} {persisted : List WorkspaceState}
    {calls : List Call} {e : SyncFailure} (hl : FromPersisted persisted call)
    (h : Fails ⟨db, calls, [], [], []⟩ call e) :
    ∀ f ∈ refusalOf n call persisted e, f.number = n ∧
      (∀ r ∈ f.receipts, r.status ≠ .applied) ∧ (f.Recorded ↔ ¬ f.Repeated) := by
  have hnone : ∀ t : Thrown, ∀ f ∈ refusalOf n call persisted (.thrown t), f.number = n ∧
      (∀ r ∈ f.receipts, r.status ≠ .applied) ∧ (f.Recorded ↔ ¬ f.Repeated) :=
    fun _ _ h => absurd h List.not_mem_nil
  have hall := h.unapplied
  cases h with
  | busy => exact fun _ h => absurd h List.not_mem_nil
  | batch => exact hnone _
  | store => exact hnone _
  | load hunloaded h =>
      have hrejected := loadInitial_rejected h
      cases e with
      | authorization failure message receipts revision current =>
          intro f hf
          rw [List.mem_singleton.mp hf]
          refine ⟨rfl, hall, fun _ => ?_, fun _ r hr hdup => ?_⟩
          · rintro ⟨l, id, hloaded, -⟩
            exact nomatch hunloaded.symm.trans hloaded
          · exact nomatch (hrejected r hr).symm.trans hdup
      | busy => exact fun _ h => absurd h List.not_mem_nil
      | notFound => exact fun _ h => absurd h List.not_mem_nil
      | thrown t => exact hnone t
  | @refused _ l b hloaded hb ha hs hr =>
      rcases refusalAfterSwap_receipts hr with ⟨t, rfl⟩ | ⟨failure, message, current, rfl⟩
      · exact hnone t
      intro f hf
      rw [List.mem_singleton.mp hf]
      refine ⟨rfl, hall, fun hrec => ?_, fun hrep r hr hdup => ?_⟩
      · -- what the batch repeats is called a duplicate
        rintro ⟨l', id, hl', hrepeats, hnew⟩
        cases hloaded.symm.trans hl'
        have hplace : ∃ d k, (d, k) ∈ call.commands.zipIdx ∧ receiptId d k = id := by
          obtain ⟨xs, c, ys, d, zs, _, _, hsplit, -, -, -, -, -, hid, -⟩ := hrepeats
          refine ⟨d, xs.length + ys.length + 1, ?_, hid⟩
          rw [hsplit, List.mk_mem_zipIdx_iff_getElem?]
          have hassoc : xs ++ c :: (ys ++ d :: zs) = (xs ++ c :: ys) ++ d :: zs := by simp
          have hlen : xs.length + ys.length + 1 = (xs ++ c :: ys).length := by
            simp only [List.length_append, List.length_cons]
            omega
          rw [hassoc, hlen, List.getElem?_append_right (le_refl _), Nat.sub_self]
          rfl
        obtain ⟨d, k, hdk, hid⟩ := hplace
        obtain ⟨r, hfor⟩ : ∃ r, receiptFor b.receipts id = some r := by
          refine receiptFor_of_mem ?_
          rw [syncBatch_names hb]
          exact List.mem_map.mpr ⟨(d, k), hdk, hid⟩
        obtain ⟨hname, -, hdup⟩ := receiptFor_duplicate hb hfor
        have hmem : r ∈ authorizationReceipts call.commands l.initial.workspace.revision message
            b.receipts ∧ r.status = .duplicate :=
          authorizationReceipts_duplicate.mpr
            ⟨hdup hrepeats, d, k, hdk, by rw [hid]; exact hfor⟩
        obtain ⟨s, hs, hrecorded⟩ := hrec r hmem.1 hmem.2
        rw [hname, hnew s hs] at hrecorded
        cases hrecorded
      · obtain ⟨-, c, k, -, hfor⟩ := authorizationReceipts_duplicate.mp ⟨hr, hdup⟩
        obtain ⟨hname, hcases, -⟩ := receiptFor_duplicate hb hfor
        rw [hname]
        rcases hcases hdup with hinitial | hrepeats
        · obtain ⟨s, hs, hreload⟩ := hl l hloaded
          exact ⟨s, hs, by rw [← (reload_kept hreload).wasApplied]; exact hinitial⟩
        · by_contra hnew
          refine hrep ⟨l, _, hloaded, hrepeats, fun s hs => ?_⟩
          exact Bool.eq_false_iff.mpr fun hrecorded => hnew ⟨s, hs, hrecorded⟩

/-- The call with this number has ended. -/
def Authority.Ended (S : Authority) (n : Nat) : Prop :=
  n < S.received ∧ ∀ p ∈ S.calls, p.1 ≠ n

/-- The invariant: what is stored or loaded was persisted, and no call both writes and is refused.
    -/
structure AuthorityInv (S : Authority) : Prop where
  stored : ∀ s ∈ S.db.stored, s ∈ S.persisted
  loaded : ∀ p ∈ S.calls, FromPersisted S.persisted p.2
  numbers : ∀ p ∈ S.calls, p.1 < S.received
  distinct : (S.calls.map (·.1)).Nodup
  written : ∀ w ∈ S.writes, S.Ended w.number
  refused : ∀ f ∈ S.refusals, S.Ended f.number
  apart : ∀ f ∈ S.refusals, ∀ w ∈ S.writes, w.number ≠ f.number
  writable : ∀ w ∈ S.writes, ∀ context, w.authorization = some context →
    w.tables.Writable context
  unapplied : ∀ f ∈ S.refusals, ∀ r ∈ f.receipts, r.status ≠ .applied
  recorded : ∀ f ∈ S.refusals, f.Recorded ↔ ¬ f.Repeated

section Calls

variable {before after : List (Nat × Call)} {n : Nat} {call call' : Call}

omit [Host] in
theorem mem_calls_of_rest (hcalls : S.calls = before ++ (n, call) :: after) {p : Nat × Call}
    (hp : p ∈ before ++ after) : p ∈ S.calls := by
  rw [hcalls]
  rcases List.mem_append.mp hp with hp | hp
  · exact List.mem_append_left _ hp
  · exact List.mem_append_right _ (List.mem_cons_of_mem _ hp)

omit [Host] in
theorem mem_calls_self (hcalls : S.calls = before ++ (n, call) :: after) :
    (n, call) ∈ S.calls := by
  rw [hcalls]
  exact List.mem_append_right _ List.mem_cons_self

omit [Host] in
/-- One call goes on with another value, under its number. -/
theorem mem_calls_replaced (hcalls : S.calls = before ++ (n, call) :: after) {p : Nat × Call}
    (hp : p ∈ before ++ (n, call') :: after) :
    p = (n, call') ∨ p ∈ S.calls := by
  rcases List.mem_append.mp hp with hp | hp
  · exact .inr (mem_calls_of_rest hcalls (List.mem_append_left _ hp))
  · rcases List.mem_cons.mp hp with rfl | hp
    · exact .inl rfl
    · exact .inr (mem_calls_of_rest hcalls (List.mem_append_right _ hp))

/-- A call that ends takes its number with it. -/
theorem AuthorityInv.ends (h : AuthorityInv S) (hcalls : S.calls = before ++ (n, call) :: after) :
    n < S.received ∧ (∀ p ∈ before ++ after, p.1 ≠ n) ∧
      ((before ++ after).map (·.1)).Nodup := by
  have hdistinct := h.distinct
  rw [hcalls, List.map_append, List.map_cons] at hdistinct
  refine ⟨h.numbers _ (mem_calls_self hcalls), fun p hp hpn => ?_, ?_⟩
  · have hfst : p.1 ∈ before.map (·.1) ++ after.map (·.1) := by
      rw [← List.map_append]
      exact List.mem_map_of_mem hp
    rw [hpn] at hfst
    exact (List.nodup_middle.mp hdistinct).notMem hfst
  · rw [List.map_append]
    exact (List.nodup_cons.mp (List.nodup_middle.mp hdistinct)).2

/-- What is kept where one call goes on. -/
theorem AuthorityInv.replaced (h : AuthorityInv S)
    (hcalls : S.calls = before ++ (n, call) :: after)
    (hl : FromPersisted S.persisted call') :
    AuthorityInv { S with calls := before ++ (n, call') :: after } := by
  have hmap : (before ++ (n, call') :: after).map (·.1) = S.calls.map (·.1) := by
    rw [hcalls]
    simp
  have hended : ∀ k, S.Ended k → ∀ p ∈ before ++ (n, call') :: after, p.1 ≠ k := by
    intro k hk p hp
    rcases mem_calls_replaced hcalls hp with rfl | hp
    · exact hk.2 (n, call) (mem_calls_self hcalls)
    · exact hk.2 p hp
  refine ⟨h.stored, ?_, ?_, ?_, fun w hw => ⟨(h.written w hw).1, hended _ (h.written w hw)⟩,
    fun f hf => ⟨(h.refused f hf).1, hended _ (h.refused f hf)⟩, h.apart, h.writable,
    h.unapplied, h.recorded⟩
  · intro p hp
    rcases mem_calls_replaced hcalls hp with rfl | hp
    · exact hl
    · exact h.loaded p hp
  · intro p hp
    rcases mem_calls_replaced hcalls hp with rfl | hp
    · exact h.numbers (n, call) (mem_calls_self hcalls)
    · exact h.numbers p hp
  · show ((before ++ (n, call') :: after).map (·.1)).Nodup
    rw [hmap]
    exact h.distinct

/-- What is kept where one call ends. -/
theorem AuthorityInv.removed (h : AuthorityInv S)
    (hcalls : S.calls = before ++ (n, call) :: after) :
    AuthorityInv { S with calls := before ++ after } := by
  obtain ⟨-, -, hnodup⟩ := h.ends hcalls
  have hrest : ∀ p ∈ before ++ after, p ∈ S.calls := fun p => mem_calls_of_rest hcalls
  exact ⟨h.stored, fun p hp => h.loaded p (hrest p hp), fun p hp => h.numbers p (hrest p hp),
    hnodup, fun w hw => ⟨(h.written w hw).1, fun p hp => (h.written w hw).2 p (hrest p hp)⟩,
    fun f hf => ⟨(h.refused f hf).1, fun p hp => (h.refused f hf).2 p (hrest p hp)⟩,
    h.apart, h.writable, h.unapplied, h.recorded⟩

/-- The tables change, and what they store is noted. -/
theorem AuthorityInv.changed (h : AuthorityInv S) (db : Database) (more : List WorkspaceState)
    (hdb : ∀ s ∈ db.stored, s ∈ S.persisted ++ more) :
    AuthorityInv { S with db, persisted := S.persisted ++ more } := by
  refine ⟨hdb, ?_, h.numbers, h.distinct, h.written, h.refused, h.apart, h.writable,
    h.unapplied, h.recorded⟩
  intro p hp l hl
  obtain ⟨s, hs, hreload⟩ := h.loaded p hp l hl
  exact ⟨s, List.mem_append_left _ hs, hreload⟩

end Calls

/-- **Every step keeps the invariant.** -/
theorem step_authorityInv {a : AuthorityAction} (h : AuthorityInv S)
    (hs : AuthorityStep workspaceId S a T) : AuthorityInv T := by
  cases hs with
  | other db => exact h.changed db db.stored fun s hs => List.mem_append_right _ hs
  | receive call _ hl =>
      have hended : ∀ k, S.Ended k → k < S.received + 1 ∧
          ∀ p ∈ S.calls ++ [(S.received, call)], p.1 ≠ k := by
        intro k hk
        refine ⟨Nat.lt_succ_of_lt hk.1, fun p hp => ?_⟩
        rcases List.mem_append.mp hp with hp | hp
        · exact hk.2 p hp
        · rw [List.mem_singleton.mp hp]
          exact Nat.ne_of_gt hk.1
      refine ⟨h.stored, ?_, ?_, ?_, fun w hw => hended _ (h.written w hw),
        fun f hf => hended _ (h.refused f hf), h.apart, h.writable, h.unapplied, h.recorded⟩
      · intro p hp
        rcases List.mem_append.mp hp with hp | hp
        · exact h.loaded p hp
        · rw [List.mem_singleton.mp hp]
          exact fun l hcl => nomatch hl.symm.trans hcl
      · intro p hp
        rcases List.mem_append.mp hp with hp | hp
        · exact Nat.lt_succ_of_lt (h.numbers p hp)
        · rw [List.mem_singleton.mp hp]
          exact Nat.lt_succ_self _
      · show ((S.calls ++ [(S.received, call)]).map (·.1)).Nodup
        rw [List.map_append, List.nodup_append]
        refine ⟨h.distinct, List.nodup_singleton _, fun k hk m hm => ?_⟩
        obtain ⟨p, hp, rfl⟩ := List.mem_map.mp hk
        rw [List.mem_singleton.mp hm]
        exact Nat.ne_of_lt (h.numbers p hp)
  | load before after n call k initial hcalls hl _ hload =>
      refine h.replaced hcalls fun l hloaded => ?_
      cases hloaded
      -- the store has a row, or nothing would have been loaded
      have hrow : ∃ row, S.db.snapshot = some row := by
        cases hrow : S.db.snapshot with
        | some row => exact ⟨row, rfl⟩
        | none => exact absurd hload (loadInitial_none hrow)
      obtain ⟨row, hrow⟩ := hrow
      refine ⟨row.state, h.stored _ ?_, loadInitial_ok hrow hload⟩
      simp [Database.stored, hrow]
  | answer before after n call l b hcalls _ _ _ => exact h.removed hcalls
  | swap before after n call l b db hcalls _ _ _ hs =>
      obtain ⟨hn, hrest, -⟩ := h.ends hcalls
      obtain ⟨row, -, -, hdb⟩ := swapState_some hs
      have hstored : ∀ s ∈ db.stored, s ∈ S.persisted ++ [b.state] := by
        intro s hs
        simp only [Database.stored, hdb, Option.map_some, Option.toList_some,
          List.mem_singleton] at hs
        rw [hs]
        exact List.mem_append_right _ (List.mem_singleton_self _)
      have hkept := (h.removed hcalls).changed db [b.state] hstored
      refine ⟨hkept.stored, hkept.loaded, hkept.numbers, hkept.distinct, ?_, hkept.refused, ?_, ?_,
        hkept.unapplied, hkept.recorded⟩
      · intro w hw
        rcases List.mem_append.mp hw with hw | hw
        · exact hkept.written w hw
        · rw [List.mem_singleton.mp hw]
          exact ⟨hn, hrest⟩
      · intro f hf w hw
        rcases List.mem_append.mp hw with hw | hw
        · exact hkept.apart f hf w hw
        · rw [List.mem_singleton.mp hw]
          exact (h.refused f hf).2 _ (mem_calls_self hcalls)
      · intro w hw context hcontext
        rcases List.mem_append.mp hw with hw | hw
        · exact hkept.writable w hw context hcontext
        · rw [List.mem_singleton.mp hw] at hcontext ⊢
          dsimp only at hcontext
          rw [hcontext] at hs
          exact swapState_writable hs
  | retry before after n call l b hcalls _ _ _ _ _ =>
      exact h.replaced hcalls fun l hloaded => nomatch hloaded
  | fail before after n call e hcalls he =>
      obtain ⟨hn, hrest, -⟩ := h.ends hcalls
      have hkept := h.removed hcalls
      have htold := refusalOf_told (n := n) (h.loaded _ (mem_calls_self hcalls)) he
      refine ⟨hkept.stored, hkept.loaded, hkept.numbers, hkept.distinct, hkept.written, ?_, ?_,
        hkept.writable, ?_, ?_⟩
      · intro f hf
        rcases List.mem_append.mp hf with hf | hf
        · exact hkept.refused f hf
        · rw [(htold f hf).1]
          exact ⟨hn, hrest⟩
      · intro f hf w hw
        rcases List.mem_append.mp hf with hf | hf
        · exact hkept.apart f hf w hw
        · rw [(htold f hf).1]
          exact fun heq => (h.written w hw).2 _ (mem_calls_self hcalls) heq.symm
      · intro f hf
        rcases List.mem_append.mp hf with hf | hf
        · exact hkept.unapplied f hf
        · exact (htold f hf).2.1
      · intro f hf
        rcases List.mem_append.mp hf with hf | hf
        · exact hkept.recorded f hf
        · exact (htold f hf).2.2

theorem reachable_authorityInv (h : (authority workspaceId).Reachable S) : AuthorityInv S := by
  refine h.invariant (P := AuthorityInv) ?_ fun _ _ _ hinv hs => step_authorityInv hinv hs
  rintro S ⟨hcalls, hpersisted, hwrites, hrefusals⟩
  have hnone : ∀ {α : Type} {xs : List α} {P : α → Prop}, xs = [] → ∀ x ∈ xs, P x := by
    rintro α _ P rfl x hx
    exact absurd hx List.not_mem_nil
  refine ⟨fun s hs => hpersisted ▸ hs, hnone hcalls, hnone hcalls, ?_, hnone hwrites,
    hnone hrefusals, hnone hrefusals, hnone hwrites, hnone hrefusals, hnone hrefusals⟩
  rw [hcalls]
  exact List.nodup_nil

/-- What holds of the server among other writers. -/
structure AuthorizedWrites (S : Authority) : Prop where
  /-- A call for an account stored a snapshot only while the account was allowed to write. -/
  writable : ∀ w ∈ S.writes, ∀ context, w.authorization = some context →
    w.tables.Writable context
  /-- A call that was refused has stored nothing. -/
  unchanged : ∀ f ∈ S.refusals, ∀ w ∈ S.writes, w.number ≠ f.number
  unapplied : ∀ f ∈ S.refusals, ∀ r ∈ f.receipts, r.status ≠ .applied
  /-- Its duplicates are recorded by a stored snapshot, unless its batch repeats a command that
      no stored snapshot records. -/
  recorded : ∀ f ∈ S.refusals, f.Recorded ↔ ¬ f.Repeated

/-- **Authorization at the moment of the write.** Over every interleaving of calls, of their
    attempts and of other writers of any kind, a snapshot is stored for an account only while
    the account may write; a call that ends in an authorization refusal has stored nothing and
    tells of no command that it was applied. It calls only recorded commands duplicates, exactly
    where its batch does not repeat a command the attempt accepted. -/
theorem authorization_at_write (workspaceId : String) (S : Authority)
    (h : (authority workspaceId).Reachable S) : AuthorizedWrites S :=
  have hinv := reachable_authorityInv h
  ⟨hinv.writable, hinv.apart, hinv.unapplied, hinv.recorded⟩

end Run

/-! ## 5. A command that is sent twice -/

/-- The tables of the empty workspace, for one account. -/
def memberTables (role : WorkspaceRole) : Database where
  snapshot := some ⟨firstState.workspace.revision, firstState⟩
  accessRevision := 0
  deleted := false
  members := fun userId => if userId = "u1" then some role else none
  users := fun userId => if userId = "u1" then some ⟨true, 0⟩ else none

/-- The context of one member. -/
def memberContext : SyncAuthorizationContext where
  basis := ⟨0, 0⟩
  userId := "u1"

/-- One rename, sent twice. -/
def sentTwice : List CommandEnvelope :=
  [firstEnvelope "c1" (.workspaceRename "Flat"), firstEnvelope "c1" (.workspaceRename "Flat")]

/-- **An editor is demoted between the load and the swap**, and the refusal calls the rename a
    duplicate, though it is stored nowhere. -/
theorem sentTwice_refused : ∃ S, (@authority asciiHost "ws_1").Reachable S ∧
    ∃ f ∈ S.refusals, ∃ r ∈ f.receipts, r.status = .duplicate ∧
      ∀ s ∈ f.persisted, wasApplied s r.commandId = false := by
  let : Host := asciiHost
  let call : Call := ⟨sentTwice, some memberContext, 1, none⟩
  let S₀ : Authority := ⟨memberTables .editor, [], 0, (memberTables .editor).stored, [], []⟩
  have hrun : ((loadInitial (memberTables .editor) sentTwice (some memberContext)).toOption.bind
      fun l => (@syncBatch asciiHost l sentTwice).toOption.map fun b => b.applied &&
        (authorizationReceipts sentTwice l.workspace.revision
          "Viewer access does not allow workspace changes" b.receipts).any
            fun r => r.status = .duplicate && r.commandId = "c1") = some true := by
    decide +kernel
  have hunrecorded : wasApplied firstState "c1" = false := by decide +kernel
  cases hl : loadInitial (memberTables .editor) sentTwice (some memberContext) with
  | error e => rw [hl] at hrun; cases hrun
  | ok l =>
      rw [hl] at hrun
      cases hb : @syncBatch asciiHost l sentTwice with
      | error e => simp [Except.toOption, hb] at hrun
      | ok b =>
          simp only [Except.toOption, hb, Option.bind_some, Option.map_some, Option.some.injEq,
            Bool.and_eq_true, List.any_eq_true, decide_eq_true_eq] at hrun
          obtain ⟨ha, r, hr, hdup, hid⟩ := hrun
          have h₀ : (@authority asciiHost "ws_1").Reachable S₀ :=
            ⟨S₀, [], ⟨rfl, rfl, rfl, rfl⟩, .nil _⟩
          have h₁ := h₀.step (.receive S₀ call (by
            intro c hc
            simp only [call, sentTwice, List.mem_cons, List.not_mem_nil, or_false, or_self] at hc
            rw [hc]
            rfl) rfl)
          have h₂ := h₁.step (.load _ [] [] 0 call 0 l rfl rfl rfl hl)
          have h₃ := h₂.step (.other _ (memberTables .viewer))
          have h₄ := h₃.step (.fail _ [] [] 0 _ _ rfl (.refused rfl hb ha rfl rfl))
          refine ⟨_, h₄, _, List.mem_singleton_self _, r, hr, hdup, fun s hs => ?_⟩
          rw [hid]
          have hfirst : s = firstState := by
            have hs : s ∈ [firstState, firstState] := hs
            simpa using hs
          rw [hfirst]
          exact hunrecorded

/-- A refusal can call a command a duplicate that no snapshot has ever recorded. -/
theorem authorization_not_recorded : ¬ ∀ (host : Host) (workspaceId : String) (S : Authority),
    (@authority host workspaceId).Reachable S → ∀ f ∈ S.refusals, f.Recorded := by
  intro hall
  obtain ⟨S, hS, f, hf, r, hr, hdup, hnew⟩ := sentTwice_refused
  obtain ⟨s, hs, hrecorded⟩ := hall asciiHost "ws_1" S hS f hf r hr hdup
  exact absurd ((hnew s hs).symm.trans hrecorded) (by decide)

/-- The theorem at that run: the refused batch repeats its command. -/
theorem authorization_at_write_sentTwice : ∃ S, @AuthorizedWrites asciiHost S ∧
    ∃ f ∈ S.refusals, @AccessRefusal.Repeated asciiHost f := by
  let : Host := asciiHost
  obtain ⟨S, hS, f, hf, r, hr, hdup, hnew⟩ := sentTwice_refused
  have h := @authorization_at_write asciiHost "ws_1" S hS
  refine ⟨S, h, f, hf, ?_⟩
  by_contra hnot
  obtain ⟨s, hs, hrecorded⟩ := (h.recorded f hf).mpr hnot r hr hdup
  exact absurd ((hnew s hs).symm.trans hrecorded) (by decide)

end Stowplan
