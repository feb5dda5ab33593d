import Shelterflex.EpochRewards.Operations

/-! The history of a run against the entries of its epochs. -/

namespace Shelterflex.EpochRewards
open Lib
set_option autoImplicit true

/-- What the calls made during an epoch come to. -/
def within (n : Nat) (f : Event State (Env own × Call) Output → Int) (t : History own) : Int :=
  (t.map fun e => if getCurrentEpoch e.pre = n then f e else 0).sum

def funds (e : Event State (Env own × Call) Output) : Int := e.input.2.funds

/-- How far a call moves the index. -/
def growth (e : Event State (Env own × Call) Output) : Int := increment e.pre (funds e)

/-- All that was funded. -/
def funded (t : History own) : Int := (t.map funds).sum

/-- What the claims of a run have paid. -/
def paid (t : History own) : Int := (t.map fun e => e.output.paid).sum

theorem within_cons (n : Nat) (f : Event State (Env own × Call) Output → Int)
    (e : Event State (Env own × Call) Output) (t : History own) :
    within n f (e :: t) = (if getCurrentEpoch e.pre = n then f e else 0) + within n f t :=
  List.sum_cons

theorem within_cons_zero {f : Event State (Env own × Call) Output → Int} (h : f e = 0)
    (n : Nat) (t : History own) : within n f (e :: t) = within n f t := by
  rw [within_cons, h, ite_self, zero_add]

theorem within_cons_self (f : Event State (Env own × Call) Output → Int) (t : History own) :
    within (getCurrentEpoch e.pre) f (e :: t) = f e + within (getCurrentEpoch e.pre) f t := by
  rw [within_cons, if_pos rfl]

theorem within_cons_ne (h : getCurrentEpoch e.pre ≠ n)
    (f : Event State (Env own × Call) Output → Int) (t : History own) :
    within n f (e :: t) = within n f t := by
  rw [within_cons, if_neg h, zero_add]

/-- Nothing happens in an epoch before it is the current one. -/
theorem within_later {t : History own} (h : ∀ e ∈ t, getCurrentEpoch e.pre < n)
    (f : Event State (Env own × Call) Output → Int) : within n f t = 0 := by
  induction t with
  | nil => rfl
  | cons e t ih =>
    obtain ⟨he, ht⟩ := List.forall_mem_cons.mp h
    rw [within_cons_ne he.ne, ih ht]

theorem increment_zero (s : State) : increment s 0 = 0 := by
  rw [increment, zero_mul, Int.zero_tdiv, ite_self]

theorem growth_zero {e : Event State (Env own × Call) Output} (h : funds e = 0) :
    growth e = 0 := by
  rw [growth, h, increment_zero]

theorem Funds.index (h : Funds amount s s') :
    getRewardIndex s' = getRewardIndex s + increment s amount :=
  congrArg RewardIndex.index h.books

theorem Seals.index (h : Seals s s') : getRewardIndex s' = getRewardIndex s :=
  congrArg RewardIndex.index h.ledger

/-- Before `init` there are no epochs and nothing is funded. -/
structure Unstarted (t : History own) (s : State) : Prop where
  unset : s.admin = none
  current : getCurrentEpoch s = 1
  epochs : s.epoch = .empty
  span : ∀ e ∈ t, getCurrentEpoch e.pre = 1 ∧ funds e = 0

/-- The entries of the epochs against the history. -/
structure Accounts (t : History own) (s : State) : Prop where
  ready : s.admin ≠ none
  current : ∃ info, getEpoch s (getCurrentEpoch s) = some info ∧ info.sealed = false ∧
    info.totalRewards = within (getCurrentEpoch s) funds t ∧
    info.carriedForward + info.totalRewards = funded t
  start : s.epochStartIndex.getD (getCurrentEpoch s) 0 +
    within (getCurrentEpoch s) growth t = getRewardIndex s
  first : 1 ≤ getCurrentEpoch s
  span : ∀ e ∈ t, 1 ≤ getCurrentEpoch e.pre ∧ getCurrentEpoch e.pre ≤ getCurrentEpoch s
  past : ∀ n, 1 ≤ n → n < getCurrentEpoch s → ∃ info, getEpoch s n = some info ∧ info.sealed = true

theorem init_accounts (h : init env admin duration s = .ok s₀) :
    Accounts ([] : History own) s₀ := by
  simp only [init, bind_ok, require_ok, pure_ok] at h
  obtain ⟨_, _, rfl⟩ := h
  constructor
  · exact Option.some_ne_none admin
  · exact ⟨_, Store.get_set_self _ _ _, rfl, rfl, rfl⟩
  · exact (add_zero _).trans (Store.getD_set_self _ _ _ _)
  · exact le_rfl
  · intro e he
    cases he
  · intro n h₁ h₂
    exact absurd h₂ (not_lt.mpr h₁)

theorem funded_cons (e : Event State (Env own × Call) Output) (t : History own) :
    funded (e :: t) = funds e + funded t :=
  List.sum_cons

theorem Accounts.spans {e : Event State (Env own × Call) Output} (h : Accounts t e.pre) :
    ∀ e' ∈ e :: t, 1 ≤ getCurrentEpoch e'.pre ∧
      getCurrentEpoch e'.pre ≤ getCurrentEpoch e.pre :=
  List.forall_mem_cons.mpr ⟨⟨h.first, le_rfl⟩, h.span⟩

theorem Accounts.quiet {e : Event State (Env own × Call) Output} (h : Accounts t e.pre)
    (he : SameEpochs e.pre e.post) (hi : getRewardIndex e.post = getRewardIndex e.pre)
    (hf : funds e = 0) : Accounts (e :: t) e.post := by
  obtain ⟨info, hinfo, hopen, htot, hcar⟩ := h.current
  constructor
  · exact he.admin ▸ h.ready
  · refine ⟨info, ?_, hopen, ?_, ?_⟩
    · rw [getEpoch, he.epoch, he.current]
      exact hinfo
    · rw [he.current, within_cons_zero hf]
      exact htot
    · rw [funded_cons, hf, zero_add]
      exact hcar
  · rw [he.current, he.start, within_cons_zero (growth_zero hf), hi]
    exact h.start
  · exact he.current ▸ h.first
  · rw [he.current]
    exact h.spans
  · rw [he.current]
    intro n h₁ h₂
    rw [getEpoch, he.epoch]
    exact h.past n h₁ h₂

theorem Accounts.fund {e : Event State (Env own × Call) Output} (h : Accounts t e.pre)
    (hf : Funds (funds e) e.pre e.post) : Accounts (e :: t) e.post := by
  obtain ⟨info, hinfo, hopen, htot, hcar⟩ := h.current
  have hi : getRewardIndex e.post = getRewardIndex e.pre + growth e := hf.index
  rcases hf.epochs with ⟨hn, _⟩ | ⟨epoch, dust, he, hset⟩
  · cases hinfo.symm.trans hn
  cases hinfo.symm.trans he
  constructor
  · exact hf.admin ▸ h.ready
  · refine ⟨{ info with totalRewards := info.totalRewards + funds e, dust }, ?_, hopen, ?_, ?_⟩
    · rw [getEpoch, hset, hf.current]
      exact Store.get_set_self _ _ _
    · rw [hf.current, within_cons_self, htot, add_comm]
    · rw [funded_cons, ← hcar, ← add_assoc, add_comm]
  · rw [hf.current, hf.start, within_cons_self, hi, ← h.start]
    omega
  · exact hf.current ▸ h.first
  · rw [hf.current]
    exact h.spans
  · rw [hf.current]
    intro n h₁ h₂
    rw [getEpoch, hset, Store.get_set_of_ne _ _ h₂.ne]
    exact h.past n h₁ h₂

theorem Accounts.close {e : Event State (Env own × Call) Output} (h : Accounts t e.pre)
    (hs : Seals e.pre e.post) (hf : funds e = 0) : Accounts (e :: t) e.post := by
  obtain ⟨info, hinfo, hopen, htot, hcar⟩ := h.current
  obtain ⟨epoch, sealedInfo, next, he, _, hset, hsealed, _, _, _, hnext, hzero, hforward⟩ :=
    hs.epochs
  cases hinfo.symm.trans he
  have hlater : ∀ e' ∈ e :: t, getCurrentEpoch e'.pre < getCurrentEpoch e.pre + 1 :=
    fun e' he' => Nat.lt_succ_of_le (h.spans e' he').2
  constructor
  · exact hs.admin ▸ h.ready
  · refine ⟨next, ?_, hnext, ?_, ?_⟩
    · rw [getEpoch, hset, hs.current]
      exact Store.get_set_self _ _ _
    · rw [hs.current, within_later hlater]
      exact hzero
    · rw [hzero, hforward, funded_cons, hf, add_zero, zero_add]
      exact hcar
  · rw [hs.current, hs.start, within_later hlater, Store.getD_set_self, hs.index, add_zero]
  · rw [hs.current]
    exact Nat.le_add_left _ _
  · rw [hs.current]
    exact fun e' he' => ⟨(h.spans e' he').1, (h.spans e' he').2.trans (Nat.le_succ _)⟩
  · rw [hs.current]
    intro n h₁ h₂
    rw [getEpoch, hset, Store.get_set_of_ne _ _ h₂.ne, Store.get_set]
    split
    · exact ⟨sealedInfo, rfl, hsealed⟩
    · rename_i hne
      exact h.past n h₁ (lt_of_le_of_ne (Nat.le_of_lt_succ h₂) hne)

theorem Accounts.step {e : Event State (Env own × Call) Output} (h : Accounts t e.pre)
    (hs : Spans e.pre e.post e.input.2) : Accounts (e :: t) e.post := by
  cases hs with
  | start hs _ _ => exact absurd hs.unset h.ready
  | quiet he hi hf _ => exact h.quiet he hi hf
  | fund _ hf _ => exact h.fund hf
  | close hs hf _ => exact h.close hs hf

theorem Spans.funds_nonneg (h : Spans s s' c) : 0 ≤ c.funds := by
  cases h with
  | start _ hf _ | quiet _ _ hf _ => exact hf.ge
  | fund ha _ _ => exact ha.le
  | close _ hf _ => exact hf.ge

theorem run_accounts (h₀ : Accounts ([] : History own) s₀) (h : (machine own).Run s₀ t s) :
    Accounts t s := by
  apply h.invariant (P := Accounts) h₀
  intro t s i s' o ha hs
  exact ha.step (e := ⟨s, i, o, s'⟩) (invoke_spans hs)

theorem within_zero {f : Event State (Env own × Call) Output → Int} {t : History own}
    (h : ∀ e ∈ t, f e = 0) (n : Nat) : within n f t = 0 := by
  refine List.sum_eq_zero (List.forall_mem_map.mpr fun e he => ?_)
  rw [h e he, ite_self]

theorem Unstarted.spans {e : Event State (Env own × Call) Output} (h : Unstarted t e.pre)
    (hf : funds e = 0) : ∀ e' ∈ e :: t, getCurrentEpoch e'.pre = 1 ∧ funds e' = 0 :=
  List.forall_mem_cons.mpr ⟨⟨h.current, hf⟩, h.span⟩

theorem Unstarted.start {e : Event State (Env own × Call) Output} (h : Unstarted t e.pre)
    (hs : Starts e.pre e.post) (hf : funds e = 0) : Accounts (e :: t) e.post := by
  have hspan := h.spans hf
  have hzero := fun e' he' => (hspan e' he').2
  have hgrowth := fun e' he' => growth_zero (hzero e' he')
  obtain ⟨now, duration, hset⟩ := hs.epochs
  have hx : getRewardIndex e.post = 0 := congrArg RewardIndex.index hs.ledger
  constructor
  · exact hs.ready
  · refine ⟨openEpoch 1 now duration 0, ?_, rfl, ?_, ?_⟩
    · rw [getEpoch, hset, hs.current]
      exact Store.get_set_self _ _ _
    · exact (within_zero hzero _).symm
    · exact (List.sum_eq_zero (List.forall_mem_map.mpr hzero)).symm
  · rw [hs.current, hs.start, within_zero hgrowth, Store.getD_set_self, hx, add_zero]
  · exact hs.current.ge
  · rw [hs.current]
    exact fun e' he' => ⟨(hspan e' he').1.ge, (hspan e' he').1.le⟩
  · rw [hs.current]
    exact fun n h₁ h₂ => absurd h₂ (not_lt.mpr h₁)

theorem Unstarted.step {e : Event State (Env own × Call) Output} (h : Unstarted t e.pre)
    (hs : Spans e.pre e.post e.input.2) :
    Unstarted (e :: t) e.post ∨ Accounts (e :: t) e.post := by
  cases hs with
  | start hs hf _ => exact .inr (h.start hs hf)
  | quiet he _ hf _ =>
    exact .inl ⟨he.admin.trans h.unset, he.current.trans h.current, he.epoch.trans h.epochs,
      h.spans hf⟩
  | fund _ hf _ => exact absurd h.unset hf.ready
  | close hs _ _ => exact absurd h.unset hs.ready

theorem run_phases (h : (machine own).Run .fresh t s) : Unstarted t s ∨ Accounts t s := by
  apply h.invariant (P := fun t s => Unstarted t s ∨ Accounts t s)
  · exact .inl ⟨rfl, rfl, rfl, List.forall_mem_nil _⟩
  · intro t s i s' o hp hs
    have hspan := invoke_spans hs
    rcases hp with hn | ha
    · exact hn.step (e := ⟨s, i, o, s'⟩) hspan
    · exact .inr (ha.step (e := ⟨s, i, o, s'⟩) hspan)

end Shelterflex.EpochRewards
