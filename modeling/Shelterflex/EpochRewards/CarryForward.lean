import Shelterflex.EpochRewards.Epochs

/-! What a new epoch carries forward against what is still unclaimed. -/

namespace Shelterflex.EpochRewards
open Lib
set_option autoImplicit true

/-- What was funded in the epochs that are sealed in a state. -/
def fundedSealed (s : State) (t : History own) : Int :=
  (t.map fun e =>
    if (getEpoch s (getCurrentEpoch e.pre)).any (·.sealed) then funds e else 0).sum

theorem Accounts.all_sealed {e : Event State (Env own × Call) Output}
    (h : Accounts (e :: t) e.post) (hs : Seals e.pre e.post) (hp : Accounts t e.pre) :
    fundedSealed e.post t = funded t := by
  rw [fundedSealed, funded]
  congr 1
  apply List.map_congr_left
  intro e' he
  obtain ⟨h₁, h₂⟩ := hp.span e' he
  have hlt : getCurrentEpoch e'.pre < getCurrentEpoch e.post := by
    rw [hs.current]
    exact Nat.lt_succ_of_le h₂
  obtain ⟨info, hinfo, hsealed⟩ := h.past _ h₁ hlt
  rw [hinfo]
  exact if_pos hsealed

/-- An epoch that has just been opened carries all that was ever funded. -/
theorem Accounts.carried {e : Event State (Env own × Call) Output}
    (h : Accounts (e :: t) e.post) (hs : Seals e.pre e.post) (hf : funds e = 0) :
    ∃ info, getEpoch e.post (getCurrentEpoch e.post) = some info ∧
      info.carriedForward = funded t := by
  obtain ⟨info, hinfo, _, _, hcar⟩ := h.current
  obtain ⟨_, _, next, _, _, hset, _, _, _, _, _, hzero, _⟩ := hs.epochs
  have hnext : getEpoch e.post (getCurrentEpoch e.post) = some next := by
    rw [getEpoch, hset, hs.current]
    exact Store.get_set_self _ _ _
  cases hinfo.symm.trans hnext
  have hcons : funded (e :: t) = funded t := by
    rw [funded, List.map_cons, List.sum_cons, hf, zero_add]
    rfl
  rw [hzero, add_zero, hcons] at hcar
  exact ⟨info, hinfo, hcar⟩

theorem Spans.seals (h : Spans s s' c) (hc : c.seals = true) : Seals s s' ∧ c.funds = 0 := by
  cases h with
  | start _ _ hn | quiet _ _ _ hn | fund _ _ hn => cases hn.symm.trans hc
  | close hs hf _ => exact ⟨hs, hf⟩

/-- What a seal carries forward is what is still unclaimed exactly when nothing was claimed. -/
theorem carried_unclaimed_iff {e : Event State (Env own × Call) Output}
    (hi : init env admin duration s = .ok s₀)
    (h : (machine own).Run s₀ (later ++ e :: earlier) s') (hs : e.input.2.seals = true) :
    ∃ info, getEpoch e.post (getCurrentEpoch e.post) = some info ∧
      (info.carriedForward = fundedSealed e.post earlier - paid earlier ↔ paid earlier = 0) := by
  obtain ⟨hr, he⟩ := h.upTo
  have hp := run_accounts (init_accounts hi) hr
  have hspan := invoke_spans he
  obtain ⟨hseal, hf⟩ := hspan.seals hs
  have ha := hp.step hspan
  obtain ⟨info, hinfo, hcar⟩ := ha.carried hseal hf
  refine ⟨info, hinfo, ?_⟩
  rw [hcar, ha.all_sealed hseal hp]
  exact ⟨fun heq => by omega, fun hz => by omega⟩

/-- Two epochs are funded, and the first one is sealed. -/
def fundedTwice : List (Env ⟨0⟩ × Call) :=
  [(.signed ⟨0⟩ 0, .stake ⟨2⟩ 4), (.signed ⟨0⟩ 0, .fundEpochRewards ⟨1⟩ 100),
    (.signed ⟨0⟩ 60, .sealEpoch ⟨1⟩ 1 60), (.signed ⟨0⟩ 60, .fundEpochRewards ⟨1⟩ 50)]

/-- The second epoch is sealed after some calls. -/
def secondSeal (calls : List (Env ⟨0⟩ × Call)) : Event State (Env ⟨0⟩ × Call) Output where
  pre := ((machine ⟨0⟩).replay (initialized ⟨1⟩ 0 60) calls).2
  input := (.signed ⟨0⟩ 120, .sealEpoch ⟨1⟩ 2 60)
  output := .unit
  post := ((machine ⟨0⟩).replay (initialized ⟨1⟩ 0 60)
    (calls ++ [(.signed ⟨0⟩ 120, .sealEpoch ⟨1⟩ 2 60)])).2

theorem run_fundedTwice :
    (machine ⟨0⟩).Run (initialized ⟨1⟩ 0 60)
      ([] ++ secondSeal fundedTwice ::
        ((machine ⟨0⟩).replay (initialized ⟨1⟩ 0 60) fundedTwice).1)
      (secondSeal fundedTwice).post :=
  .commit ((machine ⟨0⟩).run_replay (initialized ⟨1⟩ 0 60) fundedTwice) rfl

theorem carried_unclaimed_iff_twice :
    ∃ info, getEpoch (secondSeal fundedTwice).post 3 = some info ∧
      (info.carriedForward =
        fundedSealed (secondSeal fundedTwice).post
            ((machine ⟨0⟩).replay (initialized ⟨1⟩ 0 60) fundedTwice).1 -
          paid ((machine ⟨0⟩).replay (initialized ⟨1⟩ 0 60) fundedTwice).1 ↔
        paid ((machine ⟨0⟩).replay (initialized ⟨1⟩ 0 60) fundedTwice).1 = 0) :=
  carried_unclaimed_iff (init_fresh (.signed ⟨0⟩ 0) ⟨1⟩ 60) run_fundedTwice rfl

/-- The first epoch's rewards are claimed before the second one is sealed. -/
def claimedFirst : List (Env ⟨0⟩ × Call) :=
  [(.signed ⟨0⟩ 0, .stake ⟨2⟩ 1), (.signed ⟨0⟩ 0, .fundEpochRewards ⟨1⟩ 100),
    (.signed ⟨0⟩ 60, .sealEpoch ⟨1⟩ 1 60), (.signed ⟨0⟩ 60, .claim ⟨2⟩)]

theorem run_claimedFirst :
    (machine ⟨0⟩).Run (initialized ⟨1⟩ 0 60)
      ([] ++ secondSeal claimedFirst ::
        ((machine ⟨0⟩).replay (initialized ⟨1⟩ 0 60) claimedFirst).1)
      (secondSeal claimedFirst).post :=
  .commit ((machine ⟨0⟩).run_replay (initialized ⟨1⟩ 0 60) claimedFirst) rfl

theorem claimed_carried :
    ¬ ∀ later e earlier s', (machine ⟨0⟩).Run (initialized ⟨1⟩ 0 60) (later ++ e :: earlier) s' →
      e.input.2.seals = true →
      ∃ info, getEpoch e.post (getCurrentEpoch e.post) = some info ∧
        info.carriedForward = fundedSealed e.post earlier - paid earlier := by
  intro hall
  obtain ⟨info, hinfo, hcar⟩ := hall _ _ _ _ run_claimedFirst rfl
  have hget : getEpoch (secondSeal claimedFirst).post 3 = some
      { epochNumber := 3, startTs := 120, durationSecs := 60, endTs := 0, sealTs := 0,
        sealed := false, totalRewards := 0, carriedForward := 100, rewardIndexAtSeal := 0,
        dust := 0, totalClaimableAtSeal := 0 } := by decide
  cases hinfo.symm.trans hget
  exact absurd hcar (by decide)

end Shelterflex.EpochRewards
