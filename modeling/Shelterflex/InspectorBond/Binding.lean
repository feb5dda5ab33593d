import Shelterflex.Lib.Since
import Shelterflex.InspectorBond.Bonds

/-! Whether a proposed slash binds the bond. -/

namespace Shelterflex.InspectorBond
open Lib Machine
set_option autoImplicit true

def PendingAgainst (i : Address) (n : Nat) (s : State) : Prop :=
  ∃ q, s.pendingInspectorSlash.get n = some q ∧ q.inspector = i ∧ q.status = .pending

def Proposes (i : Address) (n : Nat) (e : Step own) : Prop :=
  match e.input.2 with
  | .proposeInspectorSlash _ i' _ _ _ => i' = i ∧ e.output = .slashId n
  | _ => False

def Unstakes (i : Address) (e : Step own) : Prop := e.input.2 = .unstakeBond i

/-- An inspector with a pending slash unstakes only a bond that is below the minimum or still
locked, and what a slash leaves is within the types. -/
def Barred (env : Env own) (s : State) : Call → Prop
  | .unstakeBond i => ∀ n, PendingAgainst i n s → ∀ bond, s.bond.get i = some bond →
      bond.amount < minBond s ∨ env.timestamp < bond.lockedUntil
  | .finalizeInspectorSlash _ n => ∀ q bond, s.pendingInspectorSlash.get n = some q →
      s.bond.get q.inspector = some bond → bond.Fits (min q.penaltyAmount bond.amount)
  | _ => True

/-- The bond has not been withdrawn since the slash was proposed, and the admin can finalize the
slash from the deadline on, which takes its penalty from the bond. -/
structure Binds (n : Nat) (q : PendingInspectorSlash) (t : History own) (s : State) : Prop where
  kept : Since (Proposes q.inspector n) (Unstakes q.inspector) t
  finalizes : ∃ bond, s.bond.get q.inspector = some bond ∧ ∀ (env : Env own) admin,
    ByAdmin env s admin → q.deadline ≤ env.timestamp →
      Barred env s (.finalizeInspectorSlash admin n) → ∃ s',
        finalizeInspectorSlash env admin n s = .ok (s', min q.penaltyAmount bond.amount) ∧
          amountAt s' q.inspector = bond.amount - min q.penaltyAmount bond.amount

def PendingBind (t : History own) (s : State) : Prop :=
  ∀ n q, s.pendingInspectorSlash.get n = some q → q.status = .pending → Binds n q t s

theorem SameBonds.pending (h : SameBonds s s') (hp : PendingAgainst i n s') :
    PendingAgainst i n s := by
  rw [PendingAgainst, h.slashes] at hp
  exact hp

theorem pending_put (h : PendingAgainst i n (putPendingInspectorSlash n' q s)) :
    n = n' ∧ q.inspector = i ∧ q.status = .pending ∨ PendingAgainst i n s := by
  obtain ⟨q', hq, hi, hst⟩ := h
  rw [putPendingInspectorSlash, Store.get_set] at hq
  split at hq
  · cases hq
    exact .inl ⟨‹_›, hi, hst⟩
  · exact .inr ⟨q', hq, hi, hst⟩

theorem Changes.pending {e : Step own} (h : Changes e.input.1 e.pre e.post e.input.2 e.output)
    (hb : Barred e.input.1 e.pre e.input.2) (hp : PendingAgainst i n e.post) :
    Proposes i n e ∨ ¬ Unstakes i e ∧ PendingAgainst i n e.pre := by
  obtain ⟨pre, ⟨env, c⟩, o, post⟩ := e
  change Changes env pre post c o at h
  cases h with
  | init _ _ _ _ hk | pause hk | unpause hk | setMinBond hk | setWindow hk =>
    exact .inr ⟨nofun, hk.pending hp⟩
  | stake _ _ _ _ hs | slash _ _ _ hs =>
    cases hs
    exact .inr ⟨nofun, hp⟩
  | unstake _ hbond hmin hl hs =>
    cases hs
    refine .inr ⟨fun he => ?_, hp⟩
    cases he
    rcases hb n hp _ hbond with hlow | hlocked
    · exact absurd hmin (not_le.mpr hlow)
    · exact absurd hl (not_le.mpr hlocked)
  | propose _ _ _ hq _ hs =>
    cases hs
    rcases pending_put hp with ⟨rfl, hi, _⟩ | hp
    · exact .inl ⟨hq.1.symm.trans hi, rfl⟩
    · exact .inr ⟨nofun, hp⟩
  | finalize _ _ _ _ _ _ hs | cancel _ _ _ hs =>
    cases hs
    rcases pending_put hp with ⟨_, _, hst⟩ | hp
    · cases hst
    · exact .inr ⟨nofun, hp⟩

theorem Changes.proposed {e : Step own} (h : Changes e.input.1 e.pre e.post e.input.2 e.output)
    (hp : Proposes i n e) : e.post.bond.get i ≠ none := by
  obtain ⟨pre, ⟨env, c⟩, o, post⟩ := e
  change Changes env pre post c o at h
  cases h with
  | propose _ hb _ _ _ hs =>
    cases hs
    cases hp.1
    exact hb ▸ nofun
  | _ => cases hp

theorem get_put_ne_none (h : s.bond.get i ≠ none) : (putBond i' x s).bond.get i ≠ none := by
  rw [putBond, Store.get_set]
  split
  · nofun
  · exact h

/-- Only the inspector withdraws the bond. -/
theorem Changes.bond_stays {e : Step own} (h : Changes e.input.1 e.pre e.post e.input.2 e.output)
    (hb : e.pre.bond.get i ≠ none) (hn : ¬ Unstakes i e) : e.post.bond.get i ≠ none := by
  obtain ⟨pre, ⟨env, c⟩, o, post⟩ := e
  change Changes env pre post c o at h
  cases h with
  | init _ _ _ _ hk | pause hk | unpause hk | setMinBond hk | setWindow hk => exact hk.bond ▸ hb
  | stake _ _ _ _ hs | slash _ _ _ hs | finalize _ _ _ _ _ _ hs =>
    cases hs
    exact get_put_ne_none hb
  | propose _ _ _ _ _ hs | cancel _ _ _ hs =>
    cases hs
    exact hb
  | unstake _ _ _ _ hs =>
    cases hs
    have hne : i ≠ _ := fun he => hn (congrArg Call.unstakeBond he.symm)
    rwa [Store.get_remove_of_ne _ hne]

theorem run_pendingBind (h : (machine own).Run .fresh t s)
    (hb : ∀ e ∈ t, Barred e.input.1 e.pre e.input.2) : PendingBind t s := by
  intro n q hq hst
  have hkept : Since (Proposes q.inspector n) (Unstakes q.inspector) t := by
    apply h.since_of (f := PendingAgainst q.inspector n) hb
    · rintro ⟨_, he, _⟩
      cases he
    · exact fun _ he hc hf => (invoke_changes he).pending (e := ⟨_, _, _, _⟩) hc hf
    · exact ⟨q, hq, rfl, hst⟩
  have hbond : s.bond.get q.inspector ≠ none := by
    refine h.stands (f := fun s => s.bond.get q.inspector ≠ none) ?_ ?_ hkept
    · exact fun he hp => (invoke_changes he).proposed (e := ⟨_, _, _, _⟩) hp
    · exact fun he hf hn => (invoke_changes he).bond_stays (e := ⟨_, _, _, _⟩) hf hn
  obtain ⟨bond, hbond⟩ := Option.ne_none_iff_exists'.mp hbond
  refine ⟨hkept, bond, hbond, fun env admin ha hd hf => ?_⟩
  refine ⟨_, finalizeInspectorSlash_ok.mpr
    ⟨ha, q, bond, hq, hst, hd, hbond, hf q bond hq hbond, rfl, rfl⟩, ?_⟩
  exact (amountAt_of (Store.get_set_self _ _ _)).trans (reduce_amount bond _)

/-- The pending slashes bind throughout a run exactly when no inspector with a pending slash
unstakes in it. -/
theorem pendingBind_iff (h : (machine own).Run .fresh t s) :
    (∀ later e earlier, t = later ++ e :: earlier → PendingBind (e :: earlier) e.post) ↔
      ∀ e ∈ t, Barred e.input.1 e.pre e.input.2 := by
  constructor
  · intro hbind e he
    obtain ⟨later, earlier, ht⟩ := List.append_of_mem he
    have hpost := hbind later e earlier ht
    have hc := invoke_changes (h.committed he).2
    obtain ⟨pre, ⟨env, c⟩, o, post⟩ := e
    change Changes env pre post c o at hc
    cases hc with
    | unstake _ _ _ _ hs =>
      cases hs
      rintro n ⟨q, hq, rfl, hst⟩
      obtain ⟨bond, hb, _⟩ := (hpost n q hq hst).finalizes
      rw [Store.get_remove_self] at hb
      cases hb
    | finalize _ hq _ _ hb hf =>
      intro q' bond' hq' hb'
      cases hq.symm.trans hq'
      cases hb.symm.trans hb'
      exact hf
    | init | stake | slash | propose | cancel | pause | unpause | setMinBond | setWindow => trivial
  · rintro hb later e earlier rfl
    obtain ⟨hr, hs⟩ := h.upTo
    exact run_pendingBind (hr.commit hs) fun e' he => hb e' (List.mem_append_right _ he)

/-- The admin proposes to slash an inspector who has staked a thousand. -/
def proposedCalls : List (Env ⟨0⟩ × Call) :=
  [(.signed ⟨0⟩ 0, .init ⟨1⟩ 1000 1000 0), (.signed ⟨0⟩ 1, .stakeBond ⟨2⟩ 1000),
    (.signed ⟨0⟩ 2, .proposeInspectorSlash ⟨1⟩ ⟨2⟩ (.replicate 32 7) [1] .high)]

def after (cs : List (Env ⟨0⟩ × Call)) : History ⟨0⟩ × State := (machine ⟨0⟩).replay .fresh cs

theorem pendingBind_iff_proposed :
    (∀ later e earlier, (after proposedCalls).1 = later ++ e :: earlier →
      PendingBind (e :: earlier) e.post) ↔
      ∀ e ∈ (after proposedCalls).1, Barred e.input.1 e.pre e.input.2 :=
  pendingBind_iff ((machine ⟨0⟩).run_replay .fresh proposedCalls)

/-- The inspector withdraws the bond before the slash is finalized. -/
theorem escaped_not_bound :
    ¬ ∀ (t : History ⟨0⟩) s, (machine ⟨0⟩).Run .fresh t s → PendingBind t s := by
  intro hall
  have hbind := hall _ _ ((machine ⟨0⟩).run_replay .fresh
    (proposedCalls ++ [(.signed ⟨0⟩ 3, .unstakeBond ⟨2⟩)]))
  obtain ⟨bond, hb, _⟩ := (hbind 1 _ rfl rfl).finalizes
  cases hb

end Shelterflex.InspectorBond
