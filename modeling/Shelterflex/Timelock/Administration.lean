import Shelterflex.Lib.View
import Shelterflex.Timelock.Queue

/-! A contract that the timelock administers. -/

namespace Shelterflex.Timelock
open Lib
set_option autoImplicit true

/-- Another contract on the ledger: when it is called, by whose authority, which function with
which arguments that is, and what the host makes of its answer. -/
structure Target (σ ι ο : Type) where
  machine : Machine σ ι ο
  address : Address
  timestamp : ι → Nat
  authorized : ι → Address → Bool
  call : ι → Symbol × List Val
  answer : ο → Val

/-- The host answers the call of a contract with what the contract made of it. -/
def CallEnv.answering (env : CallEnv own) (target : Address) (v : Val) : CallEnv own :=
  { env with callee := fun a function args =>
      if a = target then some v else env.callee a function args }

/-- A call of the target, a call of the timelock, or a call that the timelock makes of the
target. -/
inductive Action (own : Address) (ι : Type) where
  | direct (i : ι)
  | timelock (env : CallEnv own) (c : Call)
  | governed (env : CallEnv own) (op : Operation) (i : ι)

def Call.target : Call → Option Address
  | .execute op => some op.target
  | _ => none

/-- The timelock makes this call of the target, at this time. -/
structure Makes (T : Target σ ι ο) (own : Address) (env : CallEnv own) (op : Operation) (i : ι) :
    Prop where
  target : op.target = T.address
  call : T.call i = (op.function, op.args)
  timestamp : T.timestamp i = env.timestamp

instance (T : Target σ ι ο) (env : CallEnv own) (op : Operation) (i : ι) :
    Decidable (Makes T own env op i) :=
  decidable_of_iff (op.target = T.address ∧ T.call i = (op.function, op.args) ∧
      T.timestamp i = env.timestamp)
    ⟨fun ⟨ht, hc, hn⟩ => ⟨ht, hc, hn⟩, fun ⟨ht, hc, hn⟩ => ⟨ht, hc, hn⟩⟩

/-- The timelock at the address `own` and its target. The timelock authorizes no call that it does
not make. -/
def deployment (sha256Xdr : List Val → BytesN 32) (own : Address) (T : Target σ ι ο) :
    Machine (State × σ) (Action own ι) (Option Output × Option ο) where
  step s
    | .direct i =>
      if T.authorized i own then none
      else (T.machine.step s.2 i).map fun r => ((s.1, r.1), none, some r.2)
    | .timelock env c =>
      if c.target = some T.address then none
      else (invoke sha256Xdr env s.1 c).map fun r => ((r.1, s.2), some r.2, none)
    | .governed env op i =>
      if Makes T own env op i then do
        let r ← T.machine.step s.2 i
        let l ← invoke sha256Xdr (env.answering T.address (T.answer r.2)) s.1 (.execute op)
        return ((l.1, r.1), some l.2, some r.2)
      else none

abbrev Deed (own : Address) (σ ι ο : Type) :=
  Event (State × σ) (Action own ι) (Option Output × Option ο)

/-- The time of the ledger at an event. -/
def Deed.timestamp (T : Target σ ι ο) (e : Deed own σ ι ο) : Nat :=
  match e.input with
  | .direct i => T.timestamp i
  | .timelock env _ => env.timestamp
  | .governed env _ _ => env.timestamp

/-- What the target sees of an event. -/
def Deed.ofTarget (e : Deed own σ ι ο) : Option (Event σ ι ο) :=
  match e.input, e.output.2 with
  | .direct i, some o => some ⟨e.pre.2, i, o, e.post.2⟩
  | .governed _ _ i, some o => some ⟨e.pre.2, i, o, e.post.2⟩
  | _, _ => none

/-- What the timelock sees of an event. -/
def Deed.ofTimelock (T : Target σ ι ο) (e : Deed own σ ι ο) : Option (Step own) :=
  match e.input, e.output with
  | .timelock env c, (some l, _) => some ⟨e.pre.1, (env, c), l, e.post.1⟩
  | .governed env op _, (some l, some o) =>
    some ⟨e.pre.1, (env.answering T.address (T.answer o), .execute op), l, e.post.1⟩
  | _, _ => none

section
variable {sha256Xdr : List Val → BytesN 32} {T : Target σ ι ο}

theorem step_direct {s s' : State × σ}
    (h : (deployment sha256Xdr own T).step s (.direct i) = some (s', o)) :
    T.authorized i own = false ∧ ∃ o', T.machine.step s.2 i = some (s'.2, o') ∧ s'.1 = s.1 ∧
      o = (none, some o') := by
  simp only [deployment] at h
  split at h
  · cases h
  · obtain ⟨r, hr, he⟩ := Option.map_eq_some_iff.mp h
    cases he
    exact ⟨Bool.eq_false_of_not_eq_true ‹_›, r.2, hr, rfl, rfl⟩

theorem step_timelock {s s' : State × σ} {env : CallEnv own}
    (h : (deployment sha256Xdr own T).step s (.timelock env c) = some (s', o)) :
    ∃ l, invoke sha256Xdr env s.1 c = some (s'.1, l) ∧ s'.2 = s.2 ∧ o = (some l, none) := by
  simp only [deployment] at h
  split at h
  · cases h
  · obtain ⟨r, hr, he⟩ := Option.map_eq_some_iff.mp h
    cases he
    exact ⟨r.2, hr, rfl, rfl⟩

theorem step_governed {s s' : State × σ} {env : CallEnv own}
    (h : (deployment sha256Xdr own T).step s (.governed env op i) = some (s', o)) :
    Makes T own env op i ∧ ∃ l o', T.machine.step s.2 i = some (s'.2, o') ∧
      invoke sha256Xdr (env.answering T.address (T.answer o')) s.1 (.execute op) =
        some (s'.1, l) ∧ o = (some l, some o') := by
  simp only [deployment] at h
  split at h
  · obtain ⟨r, hr, h⟩ := Option.bind_eq_some_iff.mp h
    obtain ⟨l, hl, he⟩ := Option.bind_eq_some_iff.mp h
    cases he
    exact ⟨‹_›, l.2, r.2, hr, hl, rfl⟩
  · cases h

/-- The target is a machine of its own. -/
def targetView (sha256Xdr : List Val → BytesN 32) (own : Address) (T : Target σ ι ο) :
    Machine.View (deployment sha256Xdr own T) T.machine where
  state := Prod.snd
  event := Deed.ofTarget
  taken {e e'} hs he := by
    obtain ⟨pre, input, output, post⟩ := e
    cases input with
    | direct i =>
      obtain ⟨_, o, hstep, _, rfl⟩ := step_direct hs
      cases he
      exact ⟨rfl, rfl, hstep⟩
    | timelock env c => cases he
    | governed env op i =>
      obtain ⟨_, l, o, hstep, _, rfl⟩ := step_governed hs
      cases he
      exact ⟨rfl, rfl, hstep⟩
  idle {e} hs he := by
    obtain ⟨pre, input, output, post⟩ := e
    cases input with
    | direct i =>
      obtain ⟨_, o, _, _, rfl⟩ := step_direct hs
      cases he
    | timelock env c =>
      obtain ⟨_, _, hsame, _⟩ := step_timelock hs
      exact hsame
    | governed env op i =>
      obtain ⟨_, l, o, _, _, rfl⟩ := step_governed hs
      cases he

/-- The timelock is a machine of its own. -/
def timelockView (sha256Xdr : List Val → BytesN 32) (own : Address) (T : Target σ ι ο) :
    Machine.View (deployment sha256Xdr own T) (machine sha256Xdr own) where
  state := Prod.fst
  event := Deed.ofTimelock T
  taken {e e'} hs he := by
    obtain ⟨pre, input, output, post⟩ := e
    cases input with
    | direct i => cases he
    | timelock env c =>
      obtain ⟨l, hstep, _, rfl⟩ := step_timelock hs
      cases he
      exact ⟨rfl, rfl, hstep⟩
    | governed env op i =>
      obtain ⟨_, l, o, _, hstep, rfl⟩ := step_governed hs
      cases he
      exact ⟨rfl, rfl, hstep⟩
  idle {e} hs he := by
    obtain ⟨pre, input, output, post⟩ := e
    cases input with
    | direct i =>
      obtain ⟨_, _, _, hsame, _⟩ := step_direct hs
      exact hsame
    | timelock env c =>
      obtain ⟨l, _, _, rfl⟩ := step_timelock hs
      cases he
    | governed env op i =>
      obtain ⟨_, l, o, _, _, rfl⟩ := step_governed hs
      cases he

end

/-- The admin of the timelock queued the call in time, and nothing ended it since. -/
structure Deliberate (sha256Xdr : List Val → BytesN 32) (T : Target σ ι ο) (i : ι)
    (earlier : List (Deed own σ ι ο)) (e : Deed own σ ι ο) : Prop where
  queued : ∃ op, op.target = T.address ∧ T.call i = (op.function, op.args) ∧
    op.eta ≤ T.timestamp i ∧ T.timestamp i ≤ op.eta + gracePeriod ∧
    Since (fun q => ∃ x, q.ofTimelock T = some x ∧ Queued op x)
      (fun q => ∃ x, q.ofTimelock T = some x ∧ x.input.2.ends sha256Xdr op) earlier
  unpaused : e.pre.1.paused ≠ some true

section
variable {sha256Xdr : List Val → BytesN 32}

theorem hashed_subset {t t' : History own} (h : t ⊆ t') : hashed t ⊆ hashed t' := by
  intro data hdata
  obtain ⟨op, hop, rfl⟩ := List.mem_map.mp hdata
  obtain ⟨e, he, ho⟩ := List.mem_filterMap.mp hop
  exact mem_hashed (h he) ho

theorem released_since (h : (machine sha256Xdr own).Run .fresh t s)
    (hrel : Releases sha256Xdr env op s s')
    (hs : Set.InjOn sha256Xdr ({op.hashData} ∪ {data | data ∈ hashed t})) :
    Since (Queued op) (fun q => q.input.2.ends sha256Xdr op) t := by
  apply (queued_since h hrel.removes.stored).imp
  · rintro q hq ⟨op', hqueued, heq⟩
    rw [← eq_of_hash hs (.inr (mem_hashed hq hqueued.operation)) (.inl rfl) heq]
    exact hqueued
  · exact fun q _ => Call.clears_of_ends

/-- What the target does by the authority of the timelock, the admin of the timelock queued, and
the delay has passed. -/
theorem governed_deliberate {T : Target σ ι ο}
    (h : (deployment sha256Xdr own T).Run (.fresh, m₀) (later ++ e :: earlier) s)
    (hsha : Set.InjOn sha256Xdr
      {data | data ∈ hashed ((later ++ e :: earlier).filterMap (Deed.ofTimelock T))})
    (he : e.ofTarget = some e') (hauth : T.authorized e'.input own = true) :
    Deliberate sha256Xdr T e'.input earlier e := by
  obtain ⟨hrun, hstep⟩ := h.upTo
  obtain ⟨pre, input, output, post⟩ := e
  cases input with
  | direct i =>
    obtain ⟨hno, o, _, _, rfl⟩ := step_direct hstep
    cases he
    cases hno.symm.trans hauth
  | timelock env c => cases he
  | governed env op i =>
    obtain ⟨hmakes, l, o, _, hinvoke, rfl⟩ := step_governed hstep
    cases he
    have hch := invoke_changes hinvoke
    cases hch with
    | execute hrel =>
      have hdue := hrel.due
      have hgrace := hrel.inGrace
      refine ⟨⟨op, hmakes.target, hmakes.call, ?_, ?_, ?_⟩, fun hp => ?_⟩
      · exact hmakes.timestamp ▸ hdue
      · exact hmakes.timestamp ▸ hgrace
      · refine Since.of_filterMap
          (released_since (hrun.view (timelockView sha256Xdr own T)) hrel ?_)
        refine hsha.mono ?_
        rw [List.filterMap_append, List.filterMap_cons]
        rintro data (rfl | hdata)
        · exact mem_hashed (List.mem_append_right _ List.mem_cons_self) rfl
        · exact hashed_subset
            (fun x hx => List.mem_append_right _ (List.mem_cons_of_mem _ hx)) hdata
      · have hun := hrel.unpaused
        rw [hp] at hun
        cases hun

/-- The admin of the timelock queued the call of the target, at least the least delay before. -/
structure Waited (T : Target σ ι ο) (i : ι) (x : Step own) : Prop where
  queued : ∃ admin delay, x.input.2 = .queue admin T.address (T.call i).1 (T.call i).2 delay ∧
    ByAdmin x.input.1 admin x.pre
  waited : ∃ least, x.pre.minDelay = some least ∧ x.input.1.timestamp + least ≤ T.timestamp i

theorem Deliberate.waited {T : Target σ ι ο} {earlier : List (Deed own σ ι ο)}
    (h : Deliberate sha256Xdr T i earlier e) :
    ∃ q ∈ earlier, ∃ x, q.ofTimelock T = some x ∧ Waited T i x := by
  obtain ⟨op, htarget, hcall, hdue, _, hsince⟩ := h.queued
  obtain ⟨q, hq, x, hx, admin, delay, least, _, hinput, hby, heta, hmin, hle, _⟩ := hsince.happened
  refine ⟨q, hq, x, hx, ⟨admin, delay, ?_, hby⟩, least, hmin, ?_⟩
  · rw [hinput, htarget, hcall]
  · omega

end

end Shelterflex.Timelock
