import Shelterflex.Timelock.Queue

/-! How long a queued operation can be executed. -/

namespace Shelterflex.Timelock
open Lib
set_option autoImplicit true

/-- The range that the storage policy promises for the queue, in seconds. -/
def thirtyDays : Nat := 30 * 86400

/-- A ledger at or after another one. Ledgers close no faster than one in five seconds. -/
def Follows (e p : LedgerEnv own) : Prop :=
  p.sequence ≤ e.sequence ∧
    p.timestamp + secondsPerLedger * (e.sequence - p.sequence) ≤ e.timestamp

def Paced (t : History own) : Prop := (t.map (·.input.1.toLedgerEnv)).Pairwise Follows

section
variable (sha256Xdr : List Val → BytesN 32)

/-- The entry is in the queue, and `execute` has no objection. -/
structure Executable (op : Operation) (env : CallEnv own) (s : State) : Prop where
  stored : (getTemporary env.sequence (op.txHash sha256Xdr) s.queued).1 = some op.eta
  checked : ∃ s', release env sha256Xdr op s = .ok s'

/-- After the call `q` that queued it, the operation can be executed in its window, unless it was
cancelled, expired or executed before, or the contract is paused. -/
def StaysExecutable (q : Step own) (op : Operation) : Prop :=
  ∀ later s (env : CallEnv own), (machine sha256Xdr own).Run q.post later s →
    Paced (later ++ [q]) → (∀ e ∈ later ++ [q], Follows env.toLedgerEnv e.input.1.toLedgerEnv) →
    (∀ e ∈ later, ¬ e.input.2.clears sha256Xdr (op.txHash sha256Xdr)) →
    op.eta ≤ env.timestamp → env.timestamp ≤ op.eta + gracePeriod →
    s.paused.getD false = false → Executable sha256Xdr op env s

end

section
variable {sha256Xdr : List Val → BytesN 32}

theorem Removes.lasts {env : CallEnv own} (h : Removes env txHash' s s')
    (hl : s.queued.Lasts txHash eta n) (hne : ¬ txHash' = txHash) :
    s'.queued.Lasts txHash eta n := by
  rw [h.entry]
  apply (extendTemporaryTtl_lasts hl env.sequence txHash').of_get
  exact Store.get_remove_of_ne _ fun he => hne he.symm

theorem Queues.lasts {env : CallEnv own} {eta : Nat} (h : Queues sha256Xdr env op delay s s')
    (hl : s.queued.Lasts txHash eta n) (hn : env.sequence ≤ n) :
    s'.queued.Lasts txHash eta n := by
  have hne : txHash ≠ op.txHash sha256Xdr := by
    rintro rfl
    cases h.absent.symm.trans (hl.read hn)
  rw [h.entry]
  exact setTemporary_lasts (extendTemporaryTtl_lasts hl _ _) hne _

theorem Changes.lasts {env : CallEnv own} (h : Changes sha256Xdr env s s' c)
    (hl : s.queued.Lasts txHash eta n) (hc : ¬ c.clears sha256Xdr txHash)
    (hn : env.sequence ≤ n) : s'.queued.Lasts txHash eta n := by
  cases h with
  | queue _ h => exact h.lasts hl hn
  | execute h => exact h.removes.lasts hl hc
  | cancel _ h | expire _ h => exact h.lasts hl hc
  | init _ _ _ hs | pause hs => rwa [hs]
  | unpause _ hs => rwa [hs]
  | setMinDelay _ _ _ _ hs => rwa [hs]

theorem run_lasts (h : (machine sha256Xdr own).Run s₀ t s) (hl : s₀.queued.Lasts txHash eta n)
    (hc : ∀ e ∈ t, ¬ e.input.2.clears sha256Xdr txHash ∧ e.input.1.sequence ≤ n) :
    s.queued.Lasts txHash eta n := by
  apply h.invariant_of (P := fun _ s => s.queued.Lasts txHash eta n) hc hl
  rintro _ s ⟨env, c⟩ s' o hl hs ⟨hc, hn⟩
  exact (invoke_changes hs).lasts hl hc hn

theorem sequence_le (h : Follows env p) (hd : delay + gracePeriod ≤ thirtyDays)
    (hw : env.timestamp ≤ p.timestamp + delay + gracePeriod) :
    env.sequence ≤ p.sequence + temporaryBumpTo := by
  obtain ⟨_, hpace⟩ := h
  simp only [thirtyDays, secondsPerLedger, temporaryBumpTo, ledgersPerDay] at *
  omega

/-- The new entry outlives the window. -/
theorem Queues.leased {env : CallEnv own} (h : Queues sha256Xdr env op delay s s') :
    s'.queued.Lasts (op.txHash sha256Xdr) op.eta (env.sequence + temporaryBumpTo) := by
  rw [h.entry]
  exact setTemporary_new h.absent _

theorem Queues.staysExecutable {q : Step own}
    (h : Queues sha256Xdr q.input.1 op delay q.pre q.post)
    (hd : delay + gracePeriod ≤ thirtyDays) (hfits : op.eta + gracePeriod < 2 ^ 64) :
    StaysExecutable sha256Xdr q op := by
  intro later s env hr hpaced hfollows hclears hdue hgrace hp
  have hwindow : env.sequence ≤ q.input.1.sequence + temporaryBumpTo := by
    apply sequence_le (hfollows q (List.mem_append_right _ List.mem_cons_self)) hd
    rw [h.eta] at hgrace
    exact hgrace
  have hlasts : s.queued.Lasts (op.txHash sha256Xdr) op.eta
      (q.input.1.sequence + temporaryBumpTo) := by
    apply run_lasts hr h.leased
    intro e he
    exact ⟨hclears e he, (hfollows e (List.mem_append_left _ he)).1.trans hwindow⟩
  have hread := hlasts.read hwindow
  exact ⟨hread, _, release_ok.mpr ⟨hp, hread, hdue, hfits, hgrace, rfl⟩⟩

theorem unpause_ok {env : CallEnv own} (h : ByAdmin env admin s) :
    unpause env admin s = .ok { s with paused := some false } := by
  rw [unpause, bind_of_ok (requireAdmin_ok (u := ()).mpr h)]
  rfl

/-- The admin, who queued the operation, can unpause the contract. At the operation's time
`execute` then adds up the end of the window. -/
theorem StaysExecutable.fits {q : Step own} (h : StaysExecutable sha256Xdr q op)
    (ha : ByAdmin q.input.1 admin q.pre)
    (hq : Queues sha256Xdr q.input.1 op delay q.pre q.post) : op.eta + gracePeriod < 2 ^ 64 := by
  let env (timestamp : Nat) : CallEnv own :=
    ⟨⟨.signed own timestamp, q.input.1.sequence⟩, fun _ _ _ => none⟩
  let e : Step own := ⟨q.post, (env q.input.1.timestamp, .unpause admin), .unit,
    { q.post with paused := some false }⟩
  have hadmin : ByAdmin (env q.input.1.timestamp) admin q.post := by
    constructor
    · rw [hq.entry]
      exact ha.role
    · exact Env.signed_authorized (Env.ne_own ha.authorized) _
  have hrun : (machine sha256Xdr own).Run q.post [e] e.post :=
    .commit .start (commit_some.mpr ⟨_, unpause_ok hadmin, rfl⟩)
  have hfollows {p : Step own} {timestamp : Nat} (hs : p.input.1.sequence = q.input.1.sequence)
      (hle : p.input.1.timestamp ≤ timestamp) :
      Follows (env timestamp).toLedgerEnv p.input.1.toLedgerEnv := by
    constructor
    · exact hs.le
    · rw [hs, Nat.sub_self]
      exact hle
  have heta : q.input.1.timestamp ≤ op.eta := by
    rw [hq.eta]
    exact Nat.le_add_right _ _
  have hpaced : Paced ([e] ++ [q]) := by
    apply List.Pairwise.cons _ (List.pairwise_singleton _ _)
    intro p hp
    cases List.mem_singleton.mp hp
    exact hfollows rfl le_rfl
  have hlater : ∀ p ∈ [e] ++ [q], Follows (env op.eta).toLedgerEnv p.input.1.toLedgerEnv := by
    intro p hp
    rcases List.mem_cons.mp hp with rfl | hp
    · exact hfollows rfl heta
    · cases List.mem_singleton.mp hp
      exact hfollows rfl heta
  have hclears : ∀ p ∈ [e], ¬ p.input.2.clears sha256Xdr (op.txHash sha256Xdr) := by
    intro p hp
    cases List.mem_singleton.mp hp
    exact id
  obtain ⟨_, s', hs⟩ := h [e] e.post (env op.eta) hrun hpaced hlater hclears le_rfl
    (Nat.le_add_right _ _) rfl
  exact (release_ok.mp hs).fits

/-- An operation queued within the thirty days stays executable in its window exactly when the end
of the window is a time of the host. -/
theorem executable_iff (h : (machine sha256Xdr own).Run .fresh t s) {q : Step own} (hq : q ∈ t)
    (hc : q.input.2 = .queue admin target function args delay)
    (hd : delay + gracePeriod ≤ thirtyDays) :
    StaysExecutable sha256Xdr q ⟨target, function, args, q.input.1.timestamp + delay⟩ ↔
      q.input.1.timestamp + delay + gracePeriod < 2 ^ 64 := by
  have hch := invoke_changes (h.committed hq).2
  rw [hc] at hch
  cases hch with
  | queue ha hqueues =>
    constructor
    · exact fun hs => hs.fits ha hqueues
    · exact hqueues.staysExecutable hd

end

def startCalls : List (CallEnv ⟨0⟩ × Call) := [(signedEnv 0 0, .init ⟨1⟩ 100 1000 [⟨2⟩, ⟨3⟩])]

/-- The admin queues the operation with a delay of `100`. -/
def queueCall (timestamp : Nat) : CallEnv ⟨0⟩ × Call :=
  (signedEnv timestamp 2, .queue ⟨1⟩ ⟨9⟩ (adminOp 0).function (adminOp 0).args 100)

def queueStep (timestamp : Nat) : Step ⟨0⟩ :=
  ⟨(perform startCalls).2, queueCall timestamp,
    .hash ((adminOp (timestamp + 100)).txHash opDigest),
    (perform (startCalls ++ [queueCall timestamp])).2⟩

theorem executable_iff_queued :
    StaysExecutable opDigest (queueStep 10) (adminOp 110) ↔ 10 + 100 + gracePeriod < 2 ^ 64 :=
  executable_iff ((machine opDigest ⟨0⟩).run_replay .fresh (startCalls ++ [queueCall 10]))
    (q := queueStep 10) List.mem_cons_self rfl (by decide)

def lateStep : Step ⟨0⟩ := queueStep (2 ^ 64 - 1000)

theorem lateStep_mem : lateStep ∈ (perform (startCalls ++ [queueCall (2 ^ 64 - 1000)])).1 :=
  List.mem_cons_self

/-- An operation queued near the end of the host's time is never executable. -/
theorem window_overflows :
    ¬ ∀ (t : History ⟨0⟩) s, (machine opDigest ⟨0⟩).Run .fresh t s → ∀ q ∈ t,
      ∀ admin target function args delay, q.input.2 = .queue admin target function args delay →
        delay + gracePeriod ≤ thirtyDays →
        StaysExecutable opDigest q ⟨target, function, args, q.input.1.timestamp + delay⟩ := by
  intro hall
  have hrun := (machine opDigest ⟨0⟩).run_replay .fresh (startCalls ++ [queueCall (2 ^ 64 - 1000)])
  have hs := hall _ _ hrun lateStep lateStep_mem ⟨1⟩ _ _ _ _ rfl (by decide)
  have hfollows : ∀ e ∈ [] ++ [lateStep],
      Follows (signedEnv (2 ^ 64 - 900) 2).toLedgerEnv e.input.1.toLedgerEnv := by
    intro e he
    rw [List.mem_singleton.mp he]
    exact ⟨by decide, by decide⟩
  have hx := hs [] lateStep.post (signedEnv (2 ^ 64 - 900) 2) .start (List.pairwise_singleton _ _)
    hfollows (fun _ he => absurd he List.not_mem_nil) (by decide) (by decide) rfl
  obtain ⟨s', hs'⟩ := hx.checked
  exact absurd (release_ok.mp hs').fits (by decide)

end Shelterflex.Timelock
