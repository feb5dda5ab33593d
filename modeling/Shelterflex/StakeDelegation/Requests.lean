import Shelterflex.StakeDelegation.Agreement
import Shelterflex.Lib.Since

namespace Shelterflex.StakeDelegation
open Lib Book
set_option autoImplicit true

/-! What a request in the state tells about the run -/

theorem Requests.delegated_le (h : Requests now s s' c) (hc : ∀ n, c ≠ .delegate a d n) :
    delegated s' a d ≤ delegated s a d := by
  cases h with
  | lower hd _ _ => exact hd a d
  | @delegate a' d' n hd _ _ =>
    apply le_of_eq
    apply hd
    rintro ⟨rfl, rfl⟩
    exact hc n rfl
  | requestRevocation _ he =>
    cases he
    exact le_rfl
  | requestUndelegate _ _ he =>
    cases he
    exact le_rfl

theorem Requests.revocation (h : Requests now s s' c)
    (hr : s'.revocationRequest.get (a, d) = some r) :
    (c = .requestRevocation a d ∧ r = getCurrentEpoch s ∧ 0 < delegated s a d) ∨
      s.revocationRequest.get (a, d) = some r := by
  cases h with
  | lower _ h _ => exact .inr (h _ _ hr)
  | delegate _ h _ => exact .inr (h ▸ hr)
  | @requestRevocation a' d' hp he =>
    cases he
    rw [Store.get_set] at hr
    split at hr <;> rename_i hk
    · cases hk
      cases hr
      exact .inl ⟨rfl, rfl, hp⟩
    · exact .inr hr
  | requestUndelegate _ _ he =>
    cases he
    exact .inr hr

theorem Requests.undelegation (h : Requests now s s' c)
    (hp : s'.pendingUndelegation.get (a, d) = some p) :
    (c = .requestUndelegate a d p.amount ∧ p.requestTime = now ∧ p.amount ≤ delegated s a d) ∨
      s.pendingUndelegation.get (a, d) = some p := by
  cases h with
  | lower _ _ h => exact .inr (h _ _ hp)
  | delegate _ _ h => exact .inr (h ▸ hp)
  | requestRevocation _ he =>
    cases he
    exact .inr hp
  | @requestUndelegate p' a' d' hle ht he =>
    cases he
    rw [Store.get_set] at hp
    split at hp <;> rename_i hk
    · cases hk
      cases hp
      exact .inl ⟨rfl, ht, hle⟩
    · exact .inr hp

def Call.delegates : Call → Option (Address × Address)
  | .delegate delegator delegatee _ => some (delegator, delegatee)
  | _ => none

def Call.asksBack : Call → Option (Address × Address)
  | .requestUndelegate delegator delegatee _ => some (delegator, delegatee)
  | _ => none

/-- Where the call delegates, no request is recorded for more than there is. -/
def Call.MeetsNoStaleRequest (s : State) (c : Call) : Prop :=
  ∀ k ∈ c.delegates,
    (∀ p ∈ s.pendingUndelegation.get k, p.amount ≤ delegated s k.1 k.2) ∧
      ∀ requested ∈ s.revocationRequest.get k, 0 < delegated s k.1 k.2

instance (s : State) (c : Call) : Decidable (c.MeetsNoStaleRequest s) :=
  inferInstanceAs (Decidable (∀ k ∈ c.delegates, _ ∧ _))

section
variable (h : (machine own).Run .fresh t s)
  (hC : ∀ e ∈ t, e.input.2.MeetsNoStaleRequest e.pre)
include h hC

theorem revocation_since (hr : s.revocationRequest.get (a, d) = some r) (hN : r < epoch)
    (hp : 0 < delegated s a d) :
    Since (fun e => e.input.2 = .requestRevocation a d ∧ getCurrentEpoch e.pre < epoch ∧
      0 < delegated e.pre a d) (fun e => delegated e.post a d = 0) t := by
  apply h.since_of (f := fun s => s.revocationRequest.get (a, d) = some r ∧ 0 < delegated s a d) hC
  · rintro ⟨_, hn⟩
    exact lt_irrefl 0 hn
  · rintro s ⟨env, c⟩ s' o ⟨t, hrun⟩ hs hc ⟨hr, hp⟩
    have hreq := (invoke_changes (run_valid hrun) hs).requests
    rcases hreq.revocation hr with ⟨hcall, he, hpos⟩ | hold
    · exact .inl ⟨hcall, he ▸ hN, hpos⟩
    · refine .inr ⟨hp.ne', hold, ?_⟩
      by_cases hd : ∃ n, c = .delegate a d n
      · obtain ⟨n, rfl⟩ := hd
        exact (hc (a, d) rfl).2 r hold
      · exact hp.trans_le (hreq.delegated_le (not_exists.mp hd))
  · exact ⟨hr, hp⟩

theorem undelegation_since (hp : s.pendingUndelegation.get (a, d) = some p) (hn : n ≤ p.amount)
    (hle : n ≤ delegated s a d) (hpos : 0 < n) :
    Since (fun e => e.input.2.asksBack = some (a, d) ∧ e.input.1.timestamp = p.requestTime ∧
      n ≤ delegated e.pre a d) (fun e => delegated e.post a d < n) t := by
  apply h.since_of
    (f := fun s => s.pendingUndelegation.get (a, d) = some p ∧ n ≤ delegated s a d) hC
  · rintro ⟨_, hz⟩
    exact hpos.not_ge hz
  · rintro s ⟨env, c⟩ s' o ⟨t, hrun⟩ hs hc ⟨hp, hle⟩
    have hreq := (invoke_changes (run_valid hrun) hs).requests
    rcases hreq.undelegation hp with ⟨hcall, ht, hd⟩ | hold
    · exact .inl ⟨congrArg Call.asksBack hcall, ht.symm, hn.trans hd⟩
    · refine .inr ⟨hle.not_gt, hold, ?_⟩
      by_cases hd : ∃ n, c = .delegate a d n
      · obtain ⟨n, rfl⟩ := hd
        exact hn.trans ((hc (a, d) rfl).1 p hold)
      · exact hle.trans (hreq.delegated_le (not_exists.mp hd))
  · exact ⟨hp, hle⟩

end

/-- The stake that a call takes out of a delegation was there, and has been there since, when the
delegator asked for it at least the cooldown before. -/
def Undelegated (earlier : List (Event State (Env own × Call) Output))
    (e : Event State (Env own × Call) Output) : Prop :=
  ∀ a d, e.input.2 = .completeUndelegate a d → delegated e.post a d < delegated e.pre a d →
    Since (fun r => r.input.2.asksBack = some (a, d) ∧
        getUndelegationCooldown e.pre ≤ e.input.1.timestamp - r.input.1.timestamp ∧
        delegated e.pre a d - delegated e.post a d ≤ delegated r.pre a d)
      (fun r => delegated r.post a d < delegated e.pre a d - delegated e.post a d) earlier

/-- The delegation that a call revokes was there, and has been there since, when the delegator
asked for the revocation in an earlier epoch. -/
def Revoked (earlier : List (Event State (Env own × Call) Output))
    (e : Event State (Env own × Call) Output) : Prop :=
  ∀ a d, e.input.2 = .finalizeRevocation a d → 0 < delegated e.pre a d →
    Since (fun r => r.input.2 = .requestRevocation a d ∧
        getCurrentEpoch r.pre < getCurrentEpoch e.pre ∧ 0 < delegated r.pre a d)
      (fun r => delegated r.post a d = 0) earlier

theorem exits_waited (later : List (Event State (Env own × Call) Output))
    (h : (machine own).Run .fresh (later ++ e :: earlier) s)
    (hC : ∀ r ∈ later ++ e :: earlier, r.input.2.MeetsNoStaleRequest r.pre) :
    Undelegated earlier e ∧ Revoked earlier e := by
  obtain ⟨hr, hs⟩ := h.upTo
  have hv := run_valid hr
  replace hC : ∀ r ∈ earlier, r.input.2.MeetsNoStaleRequest r.pre := fun r hm =>
    hC r (List.mem_append_right _ (List.mem_cons_of_mem _ hm))
  obtain ⟨s, ⟨env, c⟩, o, s'⟩ := e
  dsimp only at hr hv hs
  constructor
  · rintro a d rfl hlt
    obtain ⟨_, hok, he⟩ := commit_some.mp hs
    cases he
    obtain ⟨l, p, he, hx, hp, hw, _⟩ := completeUndelegate_ok hv hok
    have hn : 0 ≤ delegated s a d := hv.position_nonneg a d
    have hpost : delegated s' a d = max (delegated s a d - p.amount) 0 := he.delegated_self.trans hx
    dsimp only at hlt ⊢
    apply (undelegation_since hr hC hp (n := delegated s a d - delegated s' a d) (by omega)
      (by omega) (by omega)).imp
    · rintro r _ ⟨hcall, ht, hle⟩
      exact ⟨hcall, ht ▸ hw, hle⟩
    · exact fun _ _ => id
  · rintro a d rfl hpos
    obtain ⟨_, hok, he⟩ := commit_some.mp hs
    cases he
    obtain ⟨_, requested, _, _, hq, he, _⟩ := finalizeRevocation_ok hv hok
    exact revocation_since hr hC hq he hpos

/-- Part of a delegation is undelegated after the cooldown, and the rest revoked after it. -/
def patientCalls : List (Env ⟨0⟩ × Call) :=
  [(.signed ⟨0⟩ 0, .init ⟨1⟩ 100), (.signed ⟨0⟩ 0, .stake ⟨2⟩ 100),
    (.signed ⟨0⟩ 0, .delegate ⟨2⟩ ⟨9⟩ 80),
    (.signed ⟨0⟩ 0, .requestUndelegate ⟨2⟩ ⟨9⟩ 30),
    (.signed ⟨0⟩ 0, .requestRevocation ⟨2⟩ ⟨9⟩),
    (.signed ⟨0⟩ 604800, .completeUndelegate ⟨2⟩ ⟨9⟩),
    (.signed ⟨0⟩ 604800, .delegate ⟨2⟩ ⟨9⟩ 10),
    (.signed ⟨0⟩ 604800, .advanceEpoch ⟨1⟩),
    (.signed ⟨0⟩ 604800, .finalizeRevocation ⟨2⟩ ⟨9⟩)]

theorem exits_waited_patient : ∃ e earlier,
    ((machine ⟨0⟩).replay .fresh patientCalls).1 = e :: earlier ∧
      e.input.2 = .finalizeRevocation ⟨2⟩ ⟨9⟩ ∧ delegated e.pre ⟨2⟩ ⟨9⟩ = 60 ∧
      Undelegated earlier e ∧ Revoked earlier e := by
  have hr := (machine ⟨0⟩).run_replay .fresh patientCalls
  exact ⟨_, _, rfl, rfl, by decide, exits_waited [] hr (by decide)⟩

/-- The delegation whose revocation was requested is undelegated. A new one is then revoked at
once. -/
def staleRevocationCalls : List (Env ⟨0⟩ × Call) :=
  [(.signed ⟨0⟩ 0, .init ⟨1⟩ 100), (.signed ⟨0⟩ 0, .stake ⟨2⟩ 100),
    (.signed ⟨0⟩ 0, .delegate ⟨2⟩ ⟨9⟩ 100),
    (.signed ⟨0⟩ 0, .requestRevocation ⟨2⟩ ⟨9⟩),
    (.signed ⟨0⟩ 0, .requestUndelegate ⟨2⟩ ⟨9⟩ 100),
    (.signed ⟨0⟩ 604800, .completeUndelegate ⟨2⟩ ⟨9⟩),
    (.signed ⟨0⟩ 604800, .advanceEpoch ⟨1⟩),
    (.signed ⟨0⟩ 604800, .delegate ⟨2⟩ ⟨9⟩ 100),
    (.signed ⟨0⟩ 604800, .finalizeRevocation ⟨2⟩ ⟨9⟩)]

/-- The delegation that was asked back is revoked. A new one is then undelegated at once. -/
def staleUndelegationCalls : List (Env ⟨0⟩ × Call) :=
  [(.signed ⟨0⟩ 0, .init ⟨1⟩ 100), (.signed ⟨0⟩ 0, .stake ⟨2⟩ 100),
    (.signed ⟨0⟩ 0, .delegate ⟨2⟩ ⟨9⟩ 100),
    (.signed ⟨0⟩ 0, .requestRevocation ⟨2⟩ ⟨9⟩),
    (.signed ⟨0⟩ 0, .requestUndelegate ⟨2⟩ ⟨9⟩ 100),
    (.signed ⟨0⟩ 604800, .advanceEpoch ⟨1⟩),
    (.signed ⟨0⟩ 604800, .finalizeRevocation ⟨2⟩ ⟨9⟩),
    (.signed ⟨0⟩ 604800, .delegate ⟨2⟩ ⟨9⟩ 100),
    (.signed ⟨0⟩ 604800, .completeUndelegate ⟨2⟩ ⟨9⟩)]

theorem exits_evaded :
    (¬ ∀ later e earlier s, (machine ⟨0⟩).Run .fresh (later ++ e :: earlier) s →
      Undelegated earlier e) ∧
    ¬ ∀ later e earlier s, (machine ⟨0⟩).Run .fresh (later ++ e :: earlier) s →
      Revoked earlier e := by
  constructor
  · intro hall
    have hr := (machine ⟨0⟩).run_replay .fresh staleUndelegationCalls
    have hs := hall [] _ _ _ hr ⟨2⟩ ⟨9⟩ rfl (by decide)
    exact absurd hs (by decide)
  · intro hall
    have hr := (machine ⟨0⟩).run_replay .fresh staleRevocationCalls
    have hs := hall [] _ _ _ hr ⟨2⟩ ⟨9⟩ rfl (by decide)
    exact absurd hs (by decide)

end Shelterflex.StakeDelegation
