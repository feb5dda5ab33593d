import Shelterflex.Lib.Since
import Shelterflex.InspectorBond.Bonds

/-! What is staked is unstaked, slashed, or still there. -/

namespace Shelterflex.InspectorBond
open Lib
set_option autoImplicit true

def staked (e : Step own) : Int :=
  match e.input.2 with
  | .stakeBond _ amount => amount
  | _ => 0

def unstaked (e : Step own) : Int :=
  match e.input.2, e.output with
  | .unstakeBond _, .amount n => n
  | _, _ => 0

/-- What a slash reports. -/
def slashed (e : Step own) : Int :=
  match e.input.2, e.output with
  | .slashInspector _ _, .amount n => n
  | .finalizeInspectorSlash _ _, .amount n => n
  | _, _ => 0

/-- The inspector whose bond a call is about. -/
def subject (e : Step own) : Option Address :=
  match e.input.2 with
  | .stakeBond i _ => i
  | .unstakeBond i => i
  | .slashInspector _ i => i
  | .finalizeInspectorSlash _ n => (e.pre.pendingInspectorSlash.get n).map (·.inspector)
  | _ => none

def Call.slashes : Call → Bool
  | .slashInspector _ _ => true
  | .finalizeInspectorSlash _ _ => true
  | _ => false

def Call.resolves (n : Nat) : Call → Bool
  | .finalizeInspectorSlash _ n' => n' = n
  | .cancelInspectorSlash _ n' => n' = n
  | _ => false

def total (f : Step own → Int) (t : History own) : Int := (t.map f).sum

/-- The calls about the bond of one inspector. -/
def calls (i : Address) (t : History own) : History own := t.filter (subject · = some i)

/-- A slash takes what it reports, between nothing and the whole bond. -/
structure Removes (i : Address) (e : Step own) : Prop where
  nonneg : 0 ≤ slashed e
  le : slashed e ≤ amountAt e.pre i
  taken : amountAt e.post i = amountAt e.pre i - slashed e

/-- A slash is computed from a rate that is not negative. -/
def Fair (e : Step own) : Prop :=
  match e.input.2 with
  | .slashInspector _ _ => 0 ≤ slashBps e.pre
  | .proposeInspectorSlash _ _ _ _ _ => 0 ≤ slashBps e.pre
  | _ => True

/-- The call adds to the bond it is about, and to no other. -/
def Moves (e : Step own) : Prop :=
  ∀ j, amountAt e.post j =
    amountAt e.pre j + if subject e = some j then staked e - unstaked e - slashed e else 0

theorem Moves.of_put {e : Step own} (hs : subject e = some i)
    (hp : ∀ j, amountAt e.post j = if i = j then x else amountAt e.pre j)
    (hx : x = amountAt e.pre i + (staked e - unstaked e - slashed e)) : Moves e := by
  intro j
  rw [hp, hs]
  simp only [Option.some.injEq]
  split
  · subst j
    exact hx
  · exact (add_zero _).symm

theorem Moves.of_same {e : Step own} (hp : ∀ j, amountAt e.post j = amountAt e.pre j)
    (hx : staked e - unstaked e - slashed e = 0) : Moves e := by
  intro j
  rw [hp, hx, ite_self, add_zero]

theorem Changes.amounts {e : Step own} (h : Changes e.input.1 e.pre e.post e.input.2 e.output) :
    Moves e := by
  obtain ⟨pre, ⟨env, c⟩, o, post⟩ := e
  change Changes env pre post c o at h
  cases h with
  | init _ _ _ _ hk | pause hk | unpause hk | setMinBond hk | setWindow hk =>
    exact Moves.of_same (fun j => amountAt_congr (by rw [hk.bond])) rfl
  | propose _ _ _ _ _ hs | cancel _ _ _ hs =>
    cases hs
    exact Moves.of_same (fun _ => rfl) rfl
  | stake _ _ _ hx hs =>
    cases hs
    refine Moves.of_put rfl (amountAt_put _ _ · _) ?_
    simp only [hx, staked, unstaked, slashed, sub_zero]
  | slash _ hb hn hs =>
    cases hs
    refine Moves.of_put rfl (amountAt_put _ _ · _) ?_
    rw [hn, reduce_amount, amountAt_of hb]
    simp only [staked, unstaked, slashed]
    ring
  | finalize _ hq _ _ hb _ hs =>
    cases hs
    refine Moves.of_put (by simp only [subject, hq, Option.map_some]) (amountAt_put _ _ · _) ?_
    rw [reduce_amount, amountAt_of hb]
    simp only [staked, unstaked, slashed]
    ring
  | unstake _ hb _ _ hs =>
    cases hs
    refine Moves.of_put rfl (amountAt_remove rfl) ?_
    rw [amountAt_of hb]
    simp only [staked, unstaked, slashed]
    ring

theorem Changes.still {e : Step own} (h : Changes e.input.1 e.pre e.post e.input.2 e.output)
    (hn : subject e = none) : staked e - unstaked e - slashed e = 0 := by
  obtain ⟨pre, ⟨env, c⟩, o, post⟩ := e
  change Changes env pre post c o at h
  cases h with
  | init | pause | unpause | setMinBond | setWindow | propose | cancel => rfl
  | stake | slash | unstake => cases hn
  | finalize _ hq =>
    simp only [subject, hq, Option.map_some, reduceCtorEq] at hn

theorem amounts_support_finite (s : State) : (amountAt s).support.Finite := by
  apply s.bond.support_finite
  intro i hi
  rw [amountAt, hi]

theorem Moves.finsum {e : Step own} (h : Moves e)
    (hn : subject e = none → staked e - unstaked e - slashed e = 0) :
    ∑ᶠ i, amountAt e.post i = ∑ᶠ i, amountAt e.pre i + (staked e - unstaked e - slashed e) := by
  cases hs : subject e with
  | none =>
    rw [hn hs, add_zero]
    apply finsum_congr
    intro j
    rw [h j, hn hs, ite_self, add_zero]
  | some i =>
    have hi := h i
    rw [hs, if_pos rfl] at hi
    rw [finsum_change (amounts_support_finite e.pre) i, hi]
    · omega
    · intro j hj
      rw [h j, hs, if_neg (fun he => hj (Option.some.inj he).symm), add_zero]

theorem total_cons (f : Step own → Int) (e : Step own) (t : History own) :
    total f (e :: t) = f e + total f t := rfl

theorem calls_cons (i : Address) (e : Step own) (t : History own) :
    calls i (e :: t) = if subject e = some i then e :: calls i t else calls i t := by
  rw [calls, List.filter_cons]
  simp only [decide_eq_true_eq]
  rfl

/-- What is staked is unstaked, slashed or still there: in all, and for each inspector. -/
structure Balanced (t : History own) (s : State) : Prop where
  total : total staked t = total unstaked t + total slashed t + ∑ᶠ i, amountAt s i
  each : ∀ i, InspectorBond.total staked (calls i t) = InspectorBond.total unstaked (calls i t) +
    InspectorBond.total slashed (calls i t) + amountAt s i

theorem Balanced.step {e : Step own} (h : Balanced t e.pre) (hm : Moves e)
    (hn : subject e = none → staked e - unstaked e - slashed e = 0) :
    Balanced (e :: t) e.post := by
  constructor
  · have ht := h.total
    rw [hm.finsum hn]
    simp only [total_cons]
    omega
  · intro i
    have hi := h.each i
    rw [calls_cons, hm i]
    split
    · simp only [total_cons]
      omega
    · rw [add_zero]
      exact hi

structure Accounted (t : History own) (s : State) : Prop extends Balanced t s where
  nonneg : ∀ i, 0 ≤ amountAt s i
  removes : ∀ e ∈ t, ∀ i, e.input.2.slashes = true → subject e = some i → Removes i e
  once : ∀ n, t.countP (fun e => e.input.2.resolves n) ≤ 1
  deadline : ∀ e ∈ t, ∀ admin n, e.input.2 = .finalizeInspectorSlash admin n →
    ∃ q, e.pre.pendingInspectorSlash.get n = some q ∧ q.deadline ≤ e.input.1.timestamp

/-- Neither the bonds nor the penalties are negative. -/
structure Sound (s : State) : Prop where
  amounts : ∀ i, 0 ≤ amountAt s i
  penalties : ∀ n q, s.pendingInspectorSlash.get n = some q → 0 ≤ q.penaltyAmount

theorem penalty_nonneg {amount bps : Int} (ha : 0 ≤ amount) (hb : 0 ≤ bps) :
    0 ≤ min ((amount * bps).tdiv 10000) amount :=
  le_min (Int.tdiv_nonneg (mul_nonneg ha hb) (by decide)) ha

theorem tierPenaltyBps_nonneg (h : (tierPenaltyBps s severity : Outcome ε Int) = .ok bps)
    (hb : 0 ≤ slashBps s) : 0 ≤ bps := by
  cases severity with
  | low | medium =>
    simp only [tierPenaltyBps, bind_ok, i128Mul_ok, i128Div_ok] at h
    obtain ⟨_, ⟨_, rfl⟩, _, _, rfl⟩ := h
    exact Int.tdiv_nonneg (mul_nonneg hb (by decide)) (by decide)
  | high =>
    cases h
    exact hb

theorem Sound.putBond (h : Sound s) (hx : 0 ≤ x.amount) : Sound (putBond i x s) where
  amounts j := by
    rw [amountAt_put]
    split
    · exact hx
    · exact h.amounts j
  penalties := h.penalties

theorem Sound.putSlash (h : Sound s) (hq : 0 ≤ q.penaltyAmount) :
    Sound (putPendingInspectorSlash n q s) where
  amounts := h.amounts
  penalties n' q' hq' := by
    rw [putPendingInspectorSlash, Store.get_set] at hq'
    split at hq'
    · cases hq'
      exact hq
    · exact h.penalties n' q' hq'

theorem Changes.sound {e : Step own} (h : Changes e.input.1 e.pre e.post e.input.2 e.output)
    (hf : Fair e) (hs : Sound e.pre) : Sound e.post := by
  obtain ⟨pre, ⟨env, c⟩, o, post⟩ := e
  change Changes env pre post c o at h
  cases h with
  | init _ _ _ _ hk | pause hk | unpause hk | setMinBond hk | setWindow hk =>
    refine ⟨fun i => ?_, fun n q hq => hs.penalties n q (hk.slashes ▸ hq)⟩
    rw [amountAt_congr (congrArg (·.get i) hk.bond)]
    exact hs.amounts i
  | stake _ hpos _ hx hpost =>
    cases hpost
    exact hs.putBond (hx ▸ add_nonneg (hs.amounts _) hpos.le)
  | slash _ _ _ hpost =>
    cases hpost
    exact hs.putBond (le_max_right _ _)
  | unstake _ _ _ _ hpost =>
    cases hpost
    refine ⟨fun j => ?_, hs.penalties⟩
    change 0 ≤ amountAt { pre with bond := pre.bond.remove _, reentrancy := some false } j
    rw [amountAt_remove rfl]
    split
    · exact le_rfl
    · exact hs.amounts j
  | propose _ hb ht hq hn hpost =>
    cases hpost
    have ha := amountAt_of hb ▸ hs.amounts _
    have hpenalty := penalty_nonneg ha (tierPenaltyBps_nonneg ht hf)
    have hnext (k : Nat) : Sound { pre with nextSlashId := some k } := ⟨hs.amounts, hs.penalties⟩
    exact (hnext _).putSlash (hq.2.2 ▸ hpenalty)
  | finalize _ hq _ _ _ _ hpost =>
    cases hpost
    have hpenalty := hs.penalties _ _ hq
    exact (hs.putBond (le_max_right _ _)).putSlash hpenalty
  | cancel _ hq _ hpost =>
    cases hpost
    have hpenalty := hs.penalties _ _ hq
    exact hs.putSlash hpenalty

/-- A slash from a rate that is not negative takes what it reports. -/
theorem Changes.removes {e : Step own} (h : Changes e.input.1 e.pre e.post e.input.2 e.output)
    (hf : Fair e) (hs : Sound e.pre) (hc : e.input.2.slashes = true) (hi : subject e = some i) :
    Removes i e := by
  have hmoves := h.amounts i
  rw [if_pos hi] at hmoves
  obtain ⟨pre, ⟨env, c⟩, o, post⟩ := e
  change Changes env pre post c o at h
  cases h with
  | slash _ hb hn =>
    cases hi
    have ha := amountAt_of hb
    refine ⟨?_, ?_, ?_⟩
    · rw [slashed, hn]
      exact penalty_nonneg (ha ▸ hs.amounts _) hf
    · rw [slashed, hn, ha]
      exact min_le_right _ _
    · simpa [staked, unstaked, sub_eq_add_neg] using hmoves
  | finalize _ hq _ _ hb =>
    simp only [subject, hq, Option.map_some, Option.some.injEq] at hi
    subst hi
    have ha := amountAt_of hb
    refine ⟨?_, ?_, ?_⟩
    · exact le_min (hs.penalties _ _ hq) (ha ▸ hs.amounts _)
    · rw [slashed, ha]
      exact min_le_right _ _
    · simpa [staked, unstaked, sub_eq_add_neg] using hmoves
  | _ => cases hc

/-- The slashes that exist have the numbers up to the last one given out. -/
def Numbered (s : State) : Prop :=
  ∀ n q, s.pendingInspectorSlash.get n = some q → n ≤ s.nextSlashId.getD 0

/-- The slash has been finalized or cancelled. -/
def Resolved (n : Nat) (s : State) : Prop :=
  ∃ q, s.pendingInspectorSlash.get n = some q ∧ q.status ≠ .pending

theorem Numbered.put (h : Numbered s) (hn : n ≤ s.nextSlashId.getD 0) :
    Numbered (putPendingInspectorSlash n q s) := by
  intro n' q' hq'
  rw [putPendingInspectorSlash, Store.get_set] at hq'
  split at hq'
  · subst n'
    exact hn
  · exact h n' q' hq'

theorem Changes.numbered (h : Changes env s s' c o) (hs : Numbered s) : Numbered s' := by
  cases h with
  | init _ _ _ _ hk | pause hk | unpause hk | setMinBond hk | setWindow hk =>
    intro n q hq
    rw [hk.slashes] at hq
    exact hk.next ▸ hs n q hq
  | stake _ _ _ _ hpost | slash _ _ _ hpost | unstake _ _ _ _ hpost =>
    cases hpost
    exact hs
  | propose _ _ _ _ hn hpost =>
    cases hpost
    have hnext (k : Nat) (hk : s.nextSlashId.getD 0 ≤ k) :
        Numbered { s with nextSlashId := some k } := fun n q hq => (hs n q hq).trans hk
    exact (hnext _ (hn ▸ Nat.le_succ _)).put le_rfl
  | finalize _ hq _ _ _ _ hpost =>
    cases hpost
    have hle := hs _ _ hq
    exact Numbered.put (s := putBond _ _ s) hs hle
  | cancel _ hq _ hpost =>
    cases hpost
    have hle := hs _ _ hq
    exact hs.put hle

theorem Resolved.put (h : Resolved n s) (hne : n ≠ n') :
    Resolved n (putPendingInspectorSlash n' q s) := by
  obtain ⟨q', hq', hst⟩ := h
  exact ⟨q', (Store.get_set_of_ne _ _ hne).trans hq', hst⟩

theorem ne_of_resolved {s : State} (hq : s.pendingInspectorSlash.get n = some q)
    (hst : q.status ≠ .pending) (hq' : s.pendingInspectorSlash.get n' = some q')
    (hst' : q'.status = .pending) : n ≠ n' := by
  rintro rfl
  cases hq.symm.trans hq'
  exact hst hst'

theorem Changes.resolved (h : Changes env s s' c o) (hn : Numbered s) (hr : Resolved n s) :
    c.resolves n = false ∧ Resolved n s' := by
  obtain ⟨q, hq, hst⟩ := hr
  cases h with
  | init _ _ _ _ hk | pause hk | unpause hk | setMinBond hk | setWindow hk =>
    exact ⟨rfl, q, hk.slashes ▸ hq, hst⟩
  | stake _ _ _ _ hpost | slash _ _ _ hpost | unstake _ _ _ _ hpost =>
    cases hpost
    exact ⟨rfl, q, hq, hst⟩
  | propose _ _ _ _ hnext hpost =>
    cases hpost
    have hle := hn _ _ hq
    have hr (k : Nat) : Resolved n { s with nextSlashId := some k } := ⟨q, hq, hst⟩
    exact ⟨rfl, (hr _).put (by omega)⟩
  | finalize _ hq' hst' _ _ _ hpost =>
    cases hpost
    have hne := ne_of_resolved hq hst hq' hst'
    exact ⟨decide_eq_false (Ne.symm hne), Resolved.put (s := putBond _ _ s) ⟨q, hq, hst⟩ hne⟩
  | cancel _ hq' hst' hpost =>
    cases hpost
    have hne := ne_of_resolved hq hst hq' hst'
    exact ⟨decide_eq_false (Ne.symm hne), Resolved.put ⟨q, hq, hst⟩ hne⟩

theorem Changes.resolution (h : Changes env s s' c o) (hr : c.resolves n = true) :
    ¬ Resolved n s ∧ Resolved n s' := by
  cases h with
  | finalize _ hq hst _ _ _ hpost | cancel _ hq hst hpost =>
    cases of_decide_eq_true hr
    cases hpost
    refine ⟨fun ⟨q', hq', hst'⟩ => ?_, ⟨_, Store.get_set_self _ _ _, nofun⟩⟩
    exact ne_of_resolved hq' hst' hq hst rfl
  | _ => cases hr

/-- Nobody has a bond, and no slash has been proposed. -/
structure Unused (s : State) : Prop where
  bond : ∀ i, s.bond.get i = none
  slashes : ∀ n, s.pendingInspectorSlash.get n = none

theorem Unused.amountAt (h : Unused s) (i : Address) : amountAt s i = 0 := by
  rw [InspectorBond.amountAt, h.bond]

theorem Unused.numbered (h : Unused s) : Numbered s :=
  fun n _ hq => nomatch (h.slashes n).symm.trans hq

theorem Unused.sound (h : Unused s) : Sound s where
  amounts i := (h.amountAt i).ge
  penalties n _ hq := nomatch (h.slashes n).symm.trans hq

theorem Unused.balanced (h : Unused s) : Balanced ([] : History own) s where
  total := by
    rw [finsum_congr h.amountAt, finsum_zero]
    rfl
  each i := by
    rw [h.amountAt]
    rfl

section
variable {own : Address} {s₀ : State}

theorem run_numbered (hn : Numbered s₀) (h : (machine own).Run s₀ t s) : Numbered s :=
  h.invariant (P := fun _ => Numbered) hn fun hp he => (invoke_changes he).numbered hp

theorem resolves_once (hn : Numbered s₀) (n : Nat) :
    (machine own).Closes s₀ (fun e => e.input.2.resolves n) (Resolved n) where
  stays := by
    rintro s i s' o ⟨t, hr⟩ he hres
    exact ((invoke_changes he).resolved (run_numbered hn hr) hres).2
  needs := by
    rintro s i s' o - he hp
    exact ((invoke_changes he).resolution hp).1
  sets := by
    rintro s i s' o - he hp
    exact ((invoke_changes he).resolution hp).2

theorem Changes.due (h : Changes env s s' (.finalizeInspectorSlash admin n) o) :
    ∃ q, s.pendingInspectorSlash.get n = some q ∧ q.deadline ≤ env.timestamp := by
  cases h with
  | finalize _ hq _ hd => exact ⟨_, hq, hd⟩

theorem run_sound (hs : Sound s₀) (h : (machine own).Run s₀ t s) (hf : ∀ e ∈ t, Fair e) :
    Sound s :=
  h.invariant_of (P := fun _ => Sound) hf hs
    fun hp he hc => (invoke_changes he).sound (e := ⟨_, _, _, _⟩) hc hp

theorem run_balanced (h₀ : Unused s₀) (h : (machine own).Run s₀ t s) : Balanced t s := by
  apply h.invariant (P := Balanced) h₀.balanced
  intro t s i s' o hb he
  have hc : Changes i.1 s s' i.2 o := invoke_changes he
  exact hb.step (e := ⟨s, i, o, s'⟩) hc.amounts hc.still

/-- A run whose slashes are all computed from a rate that is not negative is accounted for. -/
theorem run_accounted (h₀ : Unused s₀) (h : (machine own).Run s₀ t s) (hf : ∀ e ∈ t, Fair e) :
    Accounted t s where
  toBalanced := run_balanced h₀ h
  nonneg := (run_sound h₀.sound h hf).amounts
  removes := by
    intro e he i hx hi
    obtain ⟨later, earlier, rfl⟩ := List.append_of_mem he
    obtain ⟨hr, hstep⟩ := h.upTo
    have hsound := run_sound h₀.sound hr fun e' he' =>
      hf e' (List.mem_append_right _ (List.mem_cons_of_mem _ he'))
    exact (invoke_changes hstep).removes (hf e he) hsound hx hi
  once n := (h.once (resolves_once h₀.numbered n)).1
  deadline := by
    intro e he admin n hc
    have hchange := invoke_changes (h.committed he).2
    rw [hc] at hchange
    exact hchange.due

end

end Shelterflex.InspectorBond
