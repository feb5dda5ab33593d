import Shelterflex.Lib.Since
import Shelterflex.Timelock.Model

/-! What is executed had been queued, and nothing ended it since. -/

namespace Shelterflex.Timelock
open Lib
set_option autoImplicit true

abbrev Step (own : Address) := Event State (CallEnv own × Call) Output

abbrev History (own : Address) := List (Step own)

/-- A call that the stored admin authorized. -/
structure ByAdmin (env : CallEnv own) (admin : Address) (s : State) : Prop where
  role : s.admin = some admin
  authorized : env.authorized admin = true

/-- An accepted operation, and its entry. -/
structure Queues (sha256Xdr : List Val → BytesN 32) (env : CallEnv own) (op : Operation)
    (delay : Nat) (s s' : State) : Prop where
  least : s.minDelay.getD 0 ≤ delay
  most : delay ≤ s.maxDelay.getD u64Max
  eta : op.eta = env.timestamp + delay
  fits : op.eta < 2 ^ 64
  absent : s.queued.read env.sequence (op.txHash sha256Xdr) = none
  entry : s' = { s with
    queued := setTemporary env.sequence (op.txHash sha256Xdr) op.eta
      (extendTemporaryTtl env.sequence (op.txHash sha256Xdr) s.queued) }

/-- What `execute` has checked when it invokes the target. -/
structure Releases (sha256Xdr : List Val → BytesN 32) (env : CallEnv own) (op : Operation)
    (s s' : State) : Prop where
  unpaused : s.paused.getD false = false
  stored : s.queued.read env.sequence (op.txHash sha256Xdr) = some op.eta
  due : op.eta ≤ env.timestamp
  fits : op.eta + gracePeriod < 2 ^ 64
  inGrace : env.timestamp ≤ op.eta + gracePeriod
  entry : s' = { s with
    queued := (extendTemporaryTtl env.sequence (op.txHash sha256Xdr) s.queued).remove
      (op.txHash sha256Xdr) }

/-- The removal of an entry by the admin. -/
structure Removes (env : CallEnv own) (txHash : BytesN 32) (s s' : State) : Prop where
  stored : s.queued.get txHash ≠ none
  entry : s' = { s with
    queued := (extendTemporaryTtl env.sequence txHash s.queued).remove txHash }

inductive Changes (sha256Xdr : List Val → BytesN 32) (env : CallEnv own) (s s' : State) :
    Call → Prop where
  | init (hn : s.admin = none) (hpos : 0 < minDelay) (hle : minDelay ≤ maxDelay)
      (hs : s' = { s with
        admin := some admin
        minDelay := some minDelay
        maxDelay := some maxDelay
        multisigMembers := some members
        paused := some false }) :
      Changes sha256Xdr env s s' (.init admin minDelay maxDelay members)
  | queue (ha : ByAdmin env admin s)
      (h : Queues sha256Xdr env ⟨target, function, args, env.timestamp + delay⟩ delay s s') :
      Changes sha256Xdr env s s' (.queue admin target function args delay)
  | execute (h : Releases sha256Xdr env op s s') : Changes sha256Xdr env s s' (.execute op)
  | cancel (ha : ByAdmin env admin s) (h : Removes env txHash s s') :
      Changes sha256Xdr env s s' (.cancel admin txHash)
  | expire (ha : ByAdmin env admin s) (h : Removes env txHash s s') :
      Changes sha256Xdr env s s' (.expire admin txHash)
  | pause (hs : s' = { s with paused := some true }) :
      Changes sha256Xdr env s s' (.emergencyPause members)
  | unpause (ha : ByAdmin env admin s) (hs : s' = { s with paused := some false }) :
      Changes sha256Xdr env s s' (.unpause admin)
  | setMinDelay (ha : ByAdmin env admin s) (hpos : 0 < newMinDelay)
      (hup : s.minDelay.getD 0 ≤ newMinDelay) (hle : newMinDelay ≤ s.maxDelay.getD u64Max)
      (hs : s' = { s with minDelay := some newMinDelay }) :
      Changes sha256Xdr env s s' (.setMinDelay admin newMinDelay)

section
variable {sha256Xdr : List Val → BytesN 32} {env : CallEnv own}

theorem requireAdmin_ok : requireAdmin env admin s = .ok u ↔ ByAdmin env admin s := by
  simp only [requireAdmin, bind_ok, requireAuth_ok, expect_ok, require_ok, exists_const]
  constructor
  · rintro ⟨ha, _, hr, rfl⟩
    exact ⟨hr, ha⟩
  · rintro ⟨hr, ha⟩
    exact ⟨ha, _, hr, rfl⟩

theorem queue_ok (h : queue env sha256Xdr admin target function args delay s = .ok (txHash, s')) :
    ByAdmin env admin s ∧
      Queues sha256Xdr env ⟨target, function, args, env.timestamp + delay⟩ delay s s' := by
  simp only [queue, hasTemporary, bind_ok, requireAdmin_ok, require_ok, u64Add_ok, pure_ok] at h
  obtain ⟨_, ha, _, hd, _, ⟨hlt, rfl⟩, _, hn, h⟩ := h
  obtain ⟨rfl, rfl⟩ := Prod.mk.inj h
  push Not at hd
  have habsent := Option.isNone_iff_eq_none.mp (Option.isSome_eq_false_iff.mp (require_ok.mp hn))
  exact ⟨ha, hd.1, hd.2, rfl, hlt, habsent, rfl⟩

theorem release_ok : release env sha256Xdr op s = .ok s' ↔ Releases sha256Xdr env op s s' := by
  simp only [release, getTemporary, bind_ok, require_ok, okOr_ok, u64Add_ok, pure_ok,
    exists_const]
  constructor
  · rintro ⟨hp, _, hs, rfl, hd, _, ⟨hlt, rfl⟩, hg, rfl⟩
    exact ⟨hp, hs, not_lt.mp hd, hlt, not_lt.mp hg, rfl⟩
  · rintro ⟨hp, hs, hd, hlt, hg, rfl⟩
    exact ⟨hp, _, hs, rfl, not_lt.mpr hd, _, ⟨hlt, rfl⟩, not_lt.mpr hg, rfl⟩

theorem invoke_changes (h : invoke sha256Xdr env s c = some (s', o)) :
    Changes sha256Xdr env s s' c := by
  cases c with
  | init admin minDelay maxDelay members =>
    obtain ⟨_, hs, he⟩ := commit_some.mp h
    cases he
    simp only [init, bind_ok, require_ok, pure_ok] at hs
    obtain ⟨_, hn, _, hle, _, hpos, rfl⟩ := hs
    exact .init hn (Nat.pos_of_ne_zero hpos) (not_lt.mp hle) rfl
  | queue admin target function args delay =>
    obtain ⟨⟨_, _⟩, hs, he⟩ := commit_some.mp h
    cases he
    obtain ⟨ha, hq⟩ := queue_ok hs
    exact .queue ha hq
  | execute op =>
    obtain ⟨⟨_, _⟩, hs, he⟩ := commit_some.mp h
    cases he
    simp only [execute, bind_ok, pure_ok] at hs
    obtain ⟨_, hr, _, _, hs⟩ := hs
    cases hs
    exact .execute (release_ok.mp hr)
  | cancel admin txHash =>
    obtain ⟨_, hs, he⟩ := commit_some.mp h
    cases he
    simp only [cancel, hasTemporary, bind_ok, requireAdmin_ok, pure_ok] at hs
    obtain ⟨_, ha, _, hp, rfl⟩ := hs
    obtain ⟨_, hv⟩ := Option.isSome_iff_exists.mp (require_ok.mp hp)
    exact .cancel ha ⟨Expiring.stored_of_read hv, rfl⟩
  | emergencyPause members =>
    obtain ⟨_, hs, he⟩ := commit_some.mp h
    cases he
    simp only [emergencyPause, bind_ok, pure_ok] at hs
    obtain ⟨_, _, _, _, _, _, rfl⟩ := hs
    exact .pause rfl
  | unpause admin =>
    obtain ⟨_, hs, he⟩ := commit_some.mp h
    cases he
    simp only [unpause, bind_ok, requireAdmin_ok, pure_ok] at hs
    obtain ⟨_, ha, rfl⟩ := hs
    exact .unpause ha rfl
  | expire admin txHash =>
    obtain ⟨_, hs, he⟩ := commit_some.mp h
    cases he
    simp only [expire, getTemporary, bind_ok, requireAdmin_ok, okOr_ok, pure_ok] at hs
    obtain ⟨_, ha, _, hv, _, _, _, _, rfl⟩ := hs
    exact .expire ha ⟨Expiring.stored_of_read hv, rfl⟩
  | setMinDelay admin newMinDelay =>
    obtain ⟨_, hs, he⟩ := commit_some.mp h
    cases he
    simp only [setMinDelay, bind_ok, requireAdmin_ok, require_ok, pure_ok] at hs
    obtain ⟨_, ha, _, hpos, _, hup, _, hle, rfl⟩ := hs
    exact .setMinDelay ha (Nat.pos_of_ne_zero hpos) (not_lt.mp hup) (not_lt.mp hle) rfl

end

/-- The delays an initialized contract goes by. -/
def Bounded (s : State) : Prop :=
  ∃ least most, s.minDelay = some least ∧ s.maxDelay = some most ∧ 0 < least ∧ least ≤ most

def Configured (s : State) : Prop :=
  s.admin = none ∧ s.minDelay = none ∨ s.admin ≠ none ∧ Bounded s

theorem Configured.bounded (h : Configured s) (hr : s.admin = some admin) : Bounded s := by
  rcases h with ⟨hn, _⟩ | ⟨_, hb⟩
  · cases hn.symm.trans hr
  · exact hb

theorem Configured.keep (h : Configured s) (ha : s'.admin = s.admin)
    (hmin : s'.minDelay = s.minDelay) (hmax : s'.maxDelay = s.maxDelay) : Configured s' := by
  rwa [Configured, Bounded, ha, hmin, hmax]

section
variable {sha256Xdr : List Val → BytesN 32}

theorem Changes.configured {env : CallEnv own} (h : Changes sha256Xdr env s s' c)
    (hc : Configured s) : Configured s' := by
  cases h with
  | init _ hpos hle hs =>
    subst hs
    exact .inr ⟨nofun, _, _, rfl, rfl, hpos, hle⟩
  | queue _ h => exact hc.keep (by rw [h.entry]) (by rw [h.entry]) (by rw [h.entry])
  | execute h => exact hc.keep (by rw [h.entry]) (by rw [h.entry]) (by rw [h.entry])
  | cancel _ h | expire _ h =>
    exact hc.keep (by rw [h.entry]) (by rw [h.entry]) (by rw [h.entry])
  | pause hs => exact hc.keep (by rw [hs]) (by rw [hs]) (by rw [hs])
  | unpause _ hs => exact hc.keep (by rw [hs]) (by rw [hs]) (by rw [hs])
  | setMinDelay ha hpos _ hle hs =>
    obtain ⟨_, _, _, hmax, _, _⟩ := hc.bounded ha.role
    subst hs
    rw [hmax] at hle
    exact .inr ⟨by simp [ha.role], _, _, rfl, hmax, hpos, hle⟩

theorem reachable_configured (h : (machine sha256Xdr own).Reachable .fresh s) : Configured s := by
  apply h.invariant (.inl ⟨rfl, rfl⟩)
  intro s i s' o hc hs
  exact (invoke_changes hs).configured hc

theorem Changes.minDelay_le {env : CallEnv own} (h : Changes sha256Xdr env s s' c)
    (hc : Configured s) (hmin : s.minDelay = some least) :
    ∃ least', s'.minDelay = some least' ∧ least ≤ least' := by
  have same (he : s'.minDelay = s.minDelay) :
      ∃ least', s'.minDelay = some least' ∧ least ≤ least' :=
    ⟨least, he.trans hmin, le_rfl⟩
  cases h with
  | init hn _ _ _ =>
    rcases hc with ⟨_, hnone⟩ | ⟨hne, _⟩
    · cases hnone.symm.trans hmin
    · exact absurd hn hne
  | queue _ h => exact same (by rw [h.entry])
  | execute h => exact same (by rw [h.entry])
  | cancel _ h | expire _ h => exact same (by rw [h.entry])
  | pause hs => exact same (by rw [hs])
  | unpause _ hs => exact same (by rw [hs])
  | setMinDelay _ _ hup _ hs =>
    rw [hmin] at hup
    exact ⟨_, by rw [hs], hup⟩

end

/-- The serialized list tells the operations apart, however many arguments they have. -/
theorem hashData_injective : Function.Injective Operation.hashData := by
  rintro ⟨target, function, args, eta⟩ ⟨target', function', args', eta'⟩ h
  obtain ⟨ht, h⟩ := List.cons.inj h
  obtain ⟨hf, h⟩ := List.cons.inj h
  obtain ⟨ha, he⟩ := List.append_inj' h rfl
  cases ht
  cases hf
  cases ha
  cases he
  rfl

/-- The stored admin queued the operation, with a delay within the bounds then in force. -/
def Queued (op : Operation) (e : Step own) : Prop :=
  ∃ admin delay least most, e.input.2 = .queue admin op.target op.function op.args delay ∧
    ByAdmin e.input.1 admin e.pre ∧ op.eta = e.input.1.timestamp + delay ∧
    e.pre.minDelay = some least ∧ e.pre.maxDelay = some most ∧ least ≤ delay ∧ delay ≤ most

section
variable (sha256Xdr : List Val → BytesN 32)

/-- The call cancels, expires or executes the operation. -/
def Call.ends (op : Operation) : Call → Prop
  | .cancel _ txHash => txHash = op.txHash sha256Xdr
  | .expire _ txHash => txHash = op.txHash sha256Xdr
  | .execute op' => op' = op
  | _ => False

/-- The operation was queued and still is, its time has come and not passed. -/
structure Backed (op : Operation) (earlier : History own) (e : Step own) : Prop where
  queued : Since (Queued op) (fun q => q.input.2.ends sha256Xdr op) earlier
  due : op.eta ≤ e.input.1.timestamp
  inGrace : e.input.1.timestamp ≤ op.eta + gracePeriod
  unpaused : e.pre.paused ≠ some true

structure Safe (t : History own) (s : State) : Prop where
  backed : ∀ later e earlier op, t = later ++ e :: earlier → e.input.2 = .execute op →
    Backed sha256Xdr op earlier e
  delays : s.admin ≠ none → Bounded s
  raised : ∀ e ∈ t, ∀ least, e.pre.minDelay = some least →
    ∃ least', e.post.minDelay = some least' ∧ least ≤ least'

/-- The call removes the entry under the hash. -/
def Call.clears (txHash : BytesN 32) : Call → Prop
  | .cancel _ txHash' => txHash' = txHash
  | .expire _ txHash' => txHash' = txHash
  | .execute op => op.txHash sha256Xdr = txHash
  | _ => False

end

/-- The operation that a call queues or executes. -/
def operation (e : Step own) : Option Operation :=
  match e.input.2 with
  | .queue _ target function args delay =>
    some ⟨target, function, args, e.input.1.timestamp + delay⟩
  | .execute op => some op
  | _ => none

/-- The serialized operations that a run queues or executes. -/
def hashed (t : History own) : List (List Val) := (t.filterMap operation).map Operation.hashData

theorem mem_hashed {t : History own} (he : e ∈ t) (ho : operation e = some op) :
    op.hashData ∈ hashed t :=
  List.mem_map_of_mem (List.mem_filterMap.mpr ⟨e, he, ho⟩)

theorem operation_of {e : Step own} (h : e.input.2 = .execute op) : operation e = some op := by
  rw [operation, h]

theorem Queued.operation {e : Step own} (h : Queued op e) : operation e = some op := by
  obtain ⟨_, _, _, _, hc, _, he, _⟩ := h
  rw [Timelock.operation, hc]
  exact congrArg some (congrArg (Operation.mk _ _ _) he.symm)

section
variable {sha256Xdr : List Val → BytesN 32}

theorem Removes.stored_elsewhere {env : CallEnv own} (h : Removes env txHash s s')
    (hk : s'.queued.get k ≠ none) : k ≠ txHash ∧ s.queued.get k ≠ none := by
  rw [h.entry] at hk
  have hne : k ≠ txHash := by
    rintro rfl
    exact hk (Store.get_remove_self _ _)
  rw [Store.get_remove_of_ne _ hne] at hk
  exact ⟨hne, extendTemporaryTtl_stored.mp hk⟩

theorem Releases.removes {env : CallEnv own} (h : Releases sha256Xdr env op s s') :
    Removes env (op.txHash sha256Xdr) s s' :=
  ⟨Expiring.stored_of_read h.stored, h.entry⟩

theorem Changes.stored {env : CallEnv own} (h : Changes sha256Xdr env s s' c)
    (hc : Configured s) (hk : s'.queued.get txHash ≠ none) :
    (∃ op, Queued op (⟨s, (env, c), o, s'⟩ : Step own) ∧ op.txHash sha256Xdr = txHash) ∨
      ¬ c.clears sha256Xdr txHash ∧ s.queued.get txHash ≠ none := by
  cases h with
  | @queue admin target function args delay ha h =>
    by_cases he : txHash =
        Operation.txHash sha256Xdr ⟨target, function, args, env.timestamp + delay⟩
    · obtain ⟨least, most, hmin, hmax, _, _⟩ := hc.bounded ha.role
      have hleast := h.least
      have hmost := h.most
      rw [hmin] at hleast
      rw [hmax] at hmost
      refine .inl ⟨_, ⟨admin, delay, least, most, rfl, ha, rfl, hmin, hmax, ?_⟩, he.symm⟩
      exact ⟨hleast, hmost⟩
    · rw [h.entry, setTemporary_stored he] at hk
      exact .inr ⟨id, extendTemporaryTtl_stored.mp hk⟩
  | execute h =>
    obtain ⟨hne, hs⟩ := h.removes.stored_elsewhere hk
    exact .inr ⟨fun he => hne he.symm, hs⟩
  | cancel _ h | expire _ h =>
    obtain ⟨hne, hs⟩ := h.stored_elsewhere hk
    exact .inr ⟨fun he => hne he.symm, hs⟩
  | init _ _ _ hs | pause hs =>
    rw [hs] at hk
    exact .inr ⟨id, hk⟩
  | unpause _ hs =>
    rw [hs] at hk
    exact .inr ⟨id, hk⟩
  | setMinDelay _ _ _ _ hs =>
    rw [hs] at hk
    exact .inr ⟨id, hk⟩

/-- What is queued under a hash was queued by the admin, and not cleared since. -/
theorem queued_since (h : (machine sha256Xdr own).Run .fresh t s)
    (hk : s.queued.get txHash ≠ none) :
    Since (fun e => ∃ op, Queued op e ∧ op.txHash sha256Xdr = txHash)
      (fun e => e.input.2.clears sha256Xdr txHash) t := by
  apply h.since_of (C := fun _ => True) (f := fun s => s.queued.get txHash ≠ none)
  · exact fun _ _ => trivial
  · exact fun hn => hn rfl
  · intro s i s' o hr hs _ hk
    exact (invoke_changes hs).stored (reachable_configured hr) hk
  · exact hk

theorem Call.clears_of_ends (h : Call.ends sha256Xdr op c) :
    c.clears sha256Xdr (op.txHash sha256Xdr) := by
  cases c with
  | cancel _ _ | expire _ _ => exact h
  | execute op' => exact congrArg _ h
  | _ => exact h

theorem eq_of_hash {op op' : Operation} {hashed : Set (List Val)} (hs : Set.InjOn sha256Xdr hashed)
    (hm : op.hashData ∈ hashed) (hm' : op'.hashData ∈ hashed)
    (h : op.txHash sha256Xdr = op'.txHash sha256Xdr) : op = op' :=
  hashData_injective (hs hm hm' h)

/-- The target is invoked only for an operation that the admin queued under the delays then in
force, within its window, while nothing ended it and the contract is not paused. -/
theorem executions_backed (h : (machine sha256Xdr own).Run .fresh t s)
    (hs : Set.InjOn sha256Xdr {data | data ∈ hashed t}) : Safe sha256Xdr t s := by
  constructor
  · intro later e earlier op ht hx
    subst ht
    obtain ⟨hr, hstep⟩ := h.upTo
    have hch := invoke_changes hstep
    rw [hx] at hch
    cases hch with
    | execute hrel =>
      refine ⟨?_, hrel.due, hrel.inGrace, fun hp => ?_⟩
      · apply (queued_since hr hrel.removes.stored).imp
        · rintro q hq ⟨op', hqueued, heq⟩
          have hq := List.mem_append_right later (List.mem_cons_of_mem e hq)
          have he := List.mem_append_right later (List.mem_cons_self (a := e) (l := earlier))
          exact eq_of_hash hs (mem_hashed hq hqueued.operation) (mem_hashed he (operation_of hx))
            heq ▸ hqueued
        · exact fun q _ => Call.clears_of_ends
      · have hun := hrel.unpaused
        rw [hp] at hun
        cases hun
  · intro ha
    rcases reachable_configured ⟨t, h⟩ with ⟨hn, _⟩ | ⟨_, hb⟩
    · exact absurd hn ha
    · exact hb
  · intro e he least hmin
    obtain ⟨hr, hstep⟩ := h.committed he
    exact (invoke_changes hstep).minDelay_le (reachable_configured hr) hmin

end

/-- `admin_op(1)` on a contract. -/
def adminOp (eta : Nat) : Operation :=
  ⟨⟨9⟩, [97, 100, 109, 105, 110, 95, 111, 112], [.address ⟨1⟩], eta⟩

/-- SHA-256 of the serialized operations at the times `110`, `120` and `2 ^ 64 - 900`. -/
def opDigest (data : List Val) : BytesN 32 :=
  if data = (adminOp 110).hashData then
    #v[9, 136, 176, 47, 173, 174, 69, 7, 254, 188, 145, 224, 116, 106, 164, 31, 165, 197, 89, 159,
    124, 135, 75, 177, 83, 39, 22, 120, 48, 160, 41, 246]
  else if data = (adminOp 120).hashData then
    #v[41, 173, 45, 127, 203, 132, 3, 69, 115, 238, 196, 93, 114, 78, 122, 130, 36, 230, 16, 153,
    178, 162, 207, 92, 194, 210, 187, 211, 207, 5, 80, 35]
  else
    #v[200, 165, 226, 150, 235, 156, 42, 73, 186, 185, 75, 148, 211, 51, 180, 241, 138, 65, 177,
    239, 194, 95, 6, 162, 60, 157, 97, 58, 102, 241, 12, 235]

/-- Everyone authorizes the call, and the contracts called answer nothing. -/
def signedEnv (timestamp sequence : Nat) : CallEnv ⟨0⟩ :=
  ⟨⟨.signed ⟨0⟩ timestamp, sequence⟩, fun _ _ _ => some (.other [])⟩

/-- Of two operations the admin cancels the second. -/
def queuedCalls : List (CallEnv ⟨0⟩ × Call) :=
  [(signedEnv 0 0, .init ⟨1⟩ 100 1000 [⟨2⟩, ⟨3⟩]),
    (signedEnv 10 2, .queue ⟨1⟩ ⟨9⟩ (adminOp 110).function (adminOp 110).args 100),
    (signedEnv 20 4, .queue ⟨1⟩ ⟨9⟩ (adminOp 120).function (adminOp 120).args 100),
    (signedEnv 30 6, .cancel ⟨1⟩ ((adminOp 120).txHash opDigest)),
    (signedEnv 110 22, .execute (adminOp 110))]

def perform (cs : List (CallEnv ⟨0⟩ × Call)) : History ⟨0⟩ × State :=
  (machine opDigest ⟨0⟩).replay .fresh cs

theorem hashed_queued : hashed (perform queuedCalls).1 =
    [(adminOp 110).hashData, (adminOp 120).hashData, (adminOp 110).hashData] := by decide

theorem executions_backed_queued :
    Safe opDigest (perform queuedCalls).1 (perform queuedCalls).2 := by
  apply executions_backed ((machine opDigest ⟨0⟩).run_replay .fresh queuedCalls)
  rw [← perform, hashed_queued]
  have hset : {data | data ∈ [(adminOp 110).hashData, (adminOp 120).hashData,
      (adminOp 110).hashData]} = {(adminOp 110).hashData, (adminOp 120).hashData} := by
    ext data
    simp only [List.mem_cons, List.not_mem_nil, or_false, Set.mem_ofPred_eq,
      Set.mem_insert_iff, Set.mem_singleton_iff]
    exact ⟨fun h => h.elim .inl fun h => h.elim .inr .inl, fun h => h.elim .inl (.inr ∘ .inl)⟩
  rw [hset, Set.injOn_pair]
  intro h
  exact absurd h (by decide)

end Shelterflex.Timelock
