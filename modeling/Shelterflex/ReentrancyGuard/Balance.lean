import Shelterflex.Lib.Since
import Shelterflex.ReentrancyGuard.Model

/-! The depth of an entry point between its calls of `enter` and `exit`. -/

namespace Shelterflex.ReentrancyGuard
open Lib
set_option autoImplicit true

abbrev Step (own : Address) := Event State (Env own × Call) (Result Unit)

abbrev History (own : Address) := List (Step own)

/-- A successful `enter`, which has counted the call unless the pattern is allowed. -/
structure Entered (contract : Address) (entryPoint : BytesN 32) (s s' : State) : Prop where
  active : isGuardActive s contract = true
  counted : isPatternAllowed s entryPoint = true ∧ s' = s ∨
    isPatternAllowed s entryPoint = false ∧
      getCallDepth s contract entryPoint < getMaxCallDepth s ∧
      s' = setCallDepth contract entryPoint (getCallDepth s contract entryPoint + 1) s

structure Exited (contract : Address) (entryPoint : BytesN 32) (s s' : State) : Prop where
  active : isGuardActive s contract = true
  counted : isPatternAllowed s entryPoint = true ∧ s' = s ∨
    isPatternAllowed s entryPoint = false ∧ getCallDepth s contract entryPoint ≠ 0 ∧
      s' = setCallDepth contract entryPoint (getCallDepth s contract entryPoint - 1) s

theorem getCallDepth_self : getCallDepth (setCallDepth k p n s) k p = n :=
  Store.getD_set_self _ _ _ _

theorem getCallDepth_of_ne (h : (k', p') ≠ (k, p)) :
    getCallDepth (setCallDepth k p n s) k' p' = getCallDepth s k' p' :=
  Store.getD_set_of_ne _ _ _ h

/-- Nothing but the depth of the entry point differs. -/
structure DepthOnly (contract : Address) (entryPoint : BytesN 32) (s s' : State) : Prop where
  admin : s'.admin = s.admin
  guardActive : s'.guardActive = s.guardActive
  maxCallDepth : s'.maxCallDepth = s.maxCallDepth
  allowedPattern : s'.allowedPattern = s.allowedPattern
  depth : ∀ k p, (k, p) ≠ (contract, entryPoint) → getCallDepth s' k p = getCallDepth s k p

theorem DepthOnly.refl (contract : Address) (entryPoint : BytesN 32) (s : State) :
    DepthOnly contract entryPoint s s :=
  ⟨rfl, rfl, rfl, rfl, fun _ _ _ => rfl⟩

theorem setCallDepth_only (contract : Address) (entryPoint : BytesN 32) (n : Nat) (s : State) :
    DepthOnly contract entryPoint s (setCallDepth contract entryPoint n s) :=
  ⟨rfl, rfl, rfl, rfl, fun _ _ hne => getCallDepth_of_ne hne⟩

theorem Entered.depthOnly (h : Entered contract entryPoint s s') :
    DepthOnly contract entryPoint s s' := by
  rcases h.counted with ⟨_, rfl⟩ | ⟨_, _, rfl⟩
  · exact .refl _ _ _
  · exact setCallDepth_only _ _ _ _

theorem Exited.depthOnly (h : Exited contract entryPoint s s') :
    DepthOnly contract entryPoint s s' := by
  rcases h.counted with ⟨_, rfl⟩ | ⟨_, _, rfl⟩
  · exact .refl _ _ _
  · exact setCallDepth_only _ _ _ _

theorem enter_ok (h : enter contract entryPoint s = .ok s') : Entered contract entryPoint s s' := by
  simp only [enter, bind_ok] at h
  obtain ⟨_, ha, h⟩ := h
  refine ⟨require_ok.mp ha, ?_⟩
  split at h
  · rename_i hp
    exact .inl ⟨hp, (pure_ok.mp h).symm⟩
  · rename_i hp
    simp only [bind_ok, require_ok, u32Add_ok, pure_ok] at h
    obtain ⟨_, hlt, _, ⟨_, rfl⟩, rfl⟩ := h
    exact .inr ⟨Bool.not_eq_true _ ▸ hp, hlt, rfl⟩

theorem exit_ok :
    exit contract entryPoint s = .ok s' ↔ Exited contract entryPoint s s' := by
  simp only [exit, bind_ok]
  constructor
  · rintro ⟨_, ha, h⟩
    refine ⟨require_ok.mp ha, ?_⟩
    split at h
    · rename_i hp
      exact .inl ⟨hp, (pure_ok.mp h).symm⟩
    · rename_i hp
      simp only [bind_ok, require_ok, u32Sub_ok, pure_ok] at h
      obtain ⟨_, hne, _, ⟨_, rfl⟩, rfl⟩ := h
      exact .inr ⟨Bool.not_eq_true _ ▸ hp, hne, rfl⟩
  · rintro ⟨ha, hc⟩
    refine ⟨(), require_ok.mpr ha, ?_⟩
    rcases hc with ⟨hp, rfl⟩ | ⟨hp, hne, rfl⟩
    · rw [if_pos hp]
      rfl
    · rw [if_neg (ne_true_of_eq_false hp), require_bind_of hne,
        bind_of_ok (u32Sub_ok.mpr ⟨Nat.one_le_iff_ne_zero.mpr hne, rfl⟩)]
      rfl

inductive Changes (s s' : State) : Call → Prop where
  | init (hs : s' = { s with
      admin := some admin
      contractVersion := some 1
      maxCallDepth := some 5 }) :
      Changes s s' (.init admin)
  | setAdmin (hs : s' = { s with admin := some newAdmin }) : Changes s s' (.setAdmin admin newAdmin)
  | setMaxCallDepth (hpos : maxDepth ≠ 0) (hs : s' = { s with maxCallDepth := some maxDepth }) :
      Changes s s' (.setMaxCallDepth admin maxDepth)
  | activateGuard (hs : s' = { s with guardActive := s.guardActive.set contract true }) :
      Changes s s' (.activateGuard admin contract)
  | deactivateGuard (hs : s' = { s with guardActive := s.guardActive.set contract false }) :
      Changes s s' (.deactivateGuard admin contract)
  | allowPattern (hs : s' = { s with allowedPattern := s.allowedPattern.set patternHash true }) :
      Changes s s' (.allowPattern admin patternHash)
  | disallowPattern
      (hs : s' = { s with allowedPattern := s.allowedPattern.set patternHash false }) :
      Changes s s' (.disallowPattern admin patternHash)
  | enter (h : Entered contract entryPoint s s') : Changes s s' (.enter contract entryPoint)
  | exit (h : Exited contract entryPoint s s') : Changes s s' (.exit contract entryPoint)

theorem perform_changes {env : Env own} (h : perform env s c = .ok s') : Changes s s' c := by
  cases c with
  | init admin =>
    simp only [perform, init, bind_ok, pure_ok] at h
    obtain ⟨_, _, _, _, rfl⟩ := h
    exact .init rfl
  | setAdmin admin newAdmin =>
    simp only [perform, setAdmin, bind_ok, pure_ok] at h
    obtain ⟨_, _, rfl⟩ := h
    exact .setAdmin rfl
  | setMaxCallDepth admin maxDepth =>
    simp only [perform, setMaxCallDepth, bind_ok, require_ok, pure_ok] at h
    obtain ⟨_, _, _, hd, rfl⟩ := h
    exact .setMaxCallDepth (fun hz => hd (.inl hz)) rfl
  | activateGuard admin contract =>
    simp only [perform, activateGuard, bind_ok, pure_ok] at h
    obtain ⟨_, _, rfl⟩ := h
    exact .activateGuard rfl
  | deactivateGuard admin contract =>
    simp only [perform, deactivateGuard, bind_ok, pure_ok] at h
    obtain ⟨_, _, rfl⟩ := h
    exact .deactivateGuard rfl
  | allowPattern admin patternHash =>
    simp only [perform, allowPattern, bind_ok, pure_ok] at h
    obtain ⟨_, _, _, _, rfl⟩ := h
    exact .allowPattern rfl
  | disallowPattern admin patternHash =>
    simp only [perform, disallowPattern, bind_ok, pure_ok] at h
    obtain ⟨_, _, rfl⟩ := h
    exact .disallowPattern rfl
  | enter contract entryPoint => exact .enter (enter_ok h)
  | exit contract entryPoint => exact .exit (exit_ok.mp h)

theorem step_cases (h : (machine own).step s i = some (s', o)) :
    o = .ok () ∧ Changes s s' i.2 ∨ o ≠ .ok () ∧ s' = s := by
  have hi : invoke i.1 s i.2 = (s', o) := Option.some.inj h
  unfold invoke at hi
  split at hi
  · rename_i hp
    cases hi
    exact .inl ⟨rfl, perform_changes hp⟩
  · cases hi
    exact .inr ⟨nofun, rfl⟩

theorem Changes.depth_eq (h : Changes s s' c) (he : c ≠ .enter k p) (hx : c ≠ .exit k p) :
    getCallDepth s' k p = getCallDepth s k p := by
  cases h with
  | init hs | setAdmin hs | setMaxCallDepth _ hs | activateGuard hs | deactivateGuard hs =>
    rw [hs]
    rfl
  | allowPattern hs | disallowPattern hs =>
    rw [hs]
    rfl
  | enter h =>
    apply h.depthOnly.depth
    rintro ⟨⟩
    exact he rfl
  | exit h =>
    apply h.depthOnly.depth
    rintro ⟨⟩
    exact hx rfl

section
variable (contract : Address) (entryPoint : BytesN 32)

/-- The call enters, successfully. -/
def enters (x : Step own) : Bool :=
  decide (x.input.2 = .enter contract entryPoint) && decide (x.output = .ok ())

/-- The call is to exit, whether it succeeds or not. -/
def exits (x : Step own) : Bool := decide (x.input.2 = .exit contract entryPoint)

/-- The pattern is not allowed when the call is made, which is then counted. -/
def counted (x : Step own) : Bool := !isPatternAllowed x.pre entryPoint

def entered (t : History own) : Nat := t.countP (enters contract entryPoint)

def exited (t : History own) : Nat := t.countP (exits contract entryPoint)

def countedEnters (t : History own) : Nat :=
  t.countP fun x => enters contract entryPoint x && counted entryPoint x

def countedExits (t : History own) : Nat :=
  t.countP fun x => exits contract entryPoint x && counted entryPoint x

/-- Each call to exit closes a successful `enter`. -/
def Bracketed (t : History own) : Prop :=
  Throughout (fun x earlier => exits contract entryPoint x = true →
    exited contract entryPoint earlier < entered contract entryPoint earlier) t

instance (t : History own) : Decidable (Bracketed contract entryPoint t) :=
  inferInstanceAs (Decidable (Throughout _ t))

/-- The largest depth that was ever configured, the default included. -/
def largestMaxDepth : History own → Nat
  | [] => 5
  | x :: t =>
    match x.input.2, x.output with
    | .setMaxCallDepth _ maxDepth, .ok _ => max maxDepth (largestMaxDepth t)
    | _, _ => largestMaxDepth t

/-- The call to exit succeeds; with every `enter` matched the depth is zero again, and the entry
point can be entered; and the depth has not gone beyond what was configured. -/
structure BalancedAt (x : Step own) (earlier : History own) : Prop where
  exits : exits contract entryPoint x = true → x.output = .ok ()
  unwound : entered contract entryPoint (x :: earlier) = exited contract entryPoint (x :: earlier) →
    getCallDepth x.post contract entryPoint = 0
  usable : entered contract entryPoint (x :: earlier) = exited contract entryPoint (x :: earlier) →
    isGuardActive x.post contract = true → ∃ s', enter contract entryPoint x.post = .ok s'
  bounded : getCallDepth x.post contract entryPoint ≤ largestMaxDepth (x :: earlier)

def Balanced (t : History own) : Prop := Throughout (BalancedAt contract entryPoint) t

/-- The guard is active at the call to exit; if the call is counted, so was an `enter` that is still
open; and with every `enter` matched as many were counted as calls to exit. -/
structure MatchedAt (x : Step own) (earlier : History own) : Prop where
  active : exits contract entryPoint x = true → isGuardActive x.pre contract = true
  covered : exits contract entryPoint x = true → counted entryPoint x = true →
    countedExits contract entryPoint earlier < countedEnters contract entryPoint earlier
  evened : entered contract entryPoint (x :: earlier) = exited contract entryPoint (x :: earlier) →
    countedExits contract entryPoint (x :: earlier) =
      countedEnters contract entryPoint (x :: earlier)

def Matched (t : History own) : Prop := Throughout (MatchedAt contract entryPoint) t

end

section
variable {contract : Address} {entryPoint : BytesN 32}

theorem Entered.depth (h : Entered contract entryPoint s s') :
    getCallDepth s' contract entryPoint =
      getCallDepth s contract entryPoint + (!isPatternAllowed s entryPoint).toNat := by
  rcases h.counted with ⟨hp, rfl⟩ | ⟨hp, _, rfl⟩
  · rw [hp]
    rfl
  · rw [getCallDepth_self, hp]
    rfl

theorem Exited.depth (h : Exited contract entryPoint s s') :
    getCallDepth s' contract entryPoint + (!isPatternAllowed s entryPoint).toNat =
      getCallDepth s contract entryPoint := by
  rcases h.counted with ⟨hp, rfl⟩ | ⟨hp, hne, rfl⟩
  · rw [hp]
    rfl
  · rw [getCallDepth_self, hp]
    exact Nat.sub_add_cancel (Nat.pos_of_ne_zero hne)

/-- A counted `enter` adds one to the depth, and a counted exit takes one off. -/
theorem step_depth (h : (machine own).step s i = some (s', o))
    (hx : exits contract entryPoint (⟨s, i, o, s'⟩ : Step own) = true → o = .ok ()) :
    getCallDepth s' contract entryPoint +
        (exits contract entryPoint (⟨s, i, o, s'⟩ : Step own) &&
          counted entryPoint (⟨s, i, o, s'⟩ : Step own)).toNat =
      getCallDepth s contract entryPoint +
        (enters contract entryPoint (⟨s, i, o, s'⟩ : Step own) &&
          counted entryPoint (⟨s, i, o, s'⟩ : Step own)).toNat := by
  obtain ⟨env, c⟩ := i
  simp only [exits, enters, counted] at hx ⊢
  rcases step_cases h with ⟨rfl, hc⟩ | ⟨hne, rfl⟩
  · by_cases he : c = .enter contract entryPoint
    · subst he
      cases hc with
      | enter h => simpa using h.depth
    · by_cases hx : c = .exit contract entryPoint
      · subst hx
        cases hc with
        | exit h => simpa using h.depth
      · rw [hc.depth_eq he hx]
        simp [he, hx]
  · have hexit : c ≠ .exit contract entryPoint := by
      intro hc
      exact hne (hx (decide_eq_true hc))
    simp [hne, hexit]

/-- What is counted in the history makes up the depth. -/
def Ledger (contract : Address) (entryPoint : BytesN 32) (t : History own) (s : State) : Prop :=
  getCallDepth s contract entryPoint + countedExits contract entryPoint t =
    countedEnters contract entryPoint t

theorem countP_cons_toNat (p : α → Bool) (a : α) (t : List α) :
    (a :: t).countP p = t.countP p + (p a).toNat := by
  rw [List.countP_cons]
  cases p a <;> rfl

theorem Ledger.step {t : History own} (hl : Ledger contract entryPoint t s)
    (hs : (machine own).step s i = some (s', o))
    (hx : exits contract entryPoint (⟨s, i, o, s'⟩ : Step own) = true → o = .ok ()) :
    Ledger contract entryPoint (⟨s, i, o, s'⟩ :: t) s' := by
  have hd := step_depth hs hx
  unfold Ledger countedExits countedEnters at *
  rw [countP_cons_toNat, countP_cons_toNat]
  omega

/-- The depth that may be entered is positive, and no larger than the largest configured. -/
structure Capped (contract : Address) (entryPoint : BytesN 32) (t : History own) (s : State) :
    Prop where
  positive : 0 < getMaxCallDepth s
  configured : getMaxCallDepth s ≤ largestMaxDepth t
  depth : getCallDepth s contract entryPoint ≤ largestMaxDepth t

theorem largestMaxDepth_le (x : Step own) (t : History own) :
    largestMaxDepth t ≤ largestMaxDepth (x :: t) := by
  rw [largestMaxDepth]
  split
  · exact Nat.le_max_right _ _
  · exact Nat.le_refl _

theorem five_le_largestMaxDepth (t : History own) : 5 ≤ largestMaxDepth t := by
  induction t with
  | nil => exact Nat.le_refl 5
  | cons x t ih => exact Nat.le_trans ih (largestMaxDepth_le x t)

theorem Changes.maxCallDepth (h : Changes s s' c) :
    getMaxCallDepth s' = getMaxCallDepth s ∨ getMaxCallDepth s' = 5 ∨
      ∃ admin maxDepth, c = .setMaxCallDepth admin maxDepth ∧ maxDepth ≠ 0 ∧
        getMaxCallDepth s' = maxDepth := by
  cases h with
  | init hs =>
    rw [hs]
    exact .inr (.inl rfl)
  | @setMaxCallDepth maxDepth admin hpos hs =>
    rw [hs]
    exact .inr (.inr ⟨admin, maxDepth, rfl, hpos, rfl⟩)
  | setAdmin hs | activateGuard hs | deactivateGuard hs | allowPattern hs | disallowPattern hs =>
    rw [hs]
    exact .inl rfl
  | enter h => exact .inl (by rw [getMaxCallDepth, h.depthOnly.maxCallDepth, getMaxCallDepth])
  | exit h => exact .inl (by rw [getMaxCallDepth, h.depthOnly.maxCallDepth, getMaxCallDepth])

theorem Changes.depth_le (h : Changes s s' c) :
    getCallDepth s' contract entryPoint ≤ getCallDepth s contract entryPoint ∨
      getCallDepth s' contract entryPoint ≤ getMaxCallDepth s := by
  by_cases he : c = .enter contract entryPoint
  · subst he
    cases h with
    | enter h =>
      rcases h.counted with ⟨_, rfl⟩ | ⟨_, hlt, rfl⟩
      · exact .inl (Nat.le_refl _)
      · rw [getCallDepth_self]
        exact .inr hlt
  · by_cases hx : c = .exit contract entryPoint
    · subst hx
      cases h with
      | exit h => exact .inl (Nat.le.intro h.depth)
    · exact .inl (h.depth_eq he hx).le

theorem Capped.step {t : History own} (h : Capped contract entryPoint t s)
    (hs : (machine own).step s i = some (s', o)) :
    Capped contract entryPoint (⟨s, i, o, s'⟩ :: t) s' := by
  have hle := largestMaxDepth_le (⟨s, i, o, s'⟩ : Step own) t
  rcases step_cases hs with ⟨rfl, hc⟩ | ⟨_, rfl⟩
  · have hdepth : getCallDepth s' contract entryPoint ≤ largestMaxDepth t := by
      rcases hc.depth_le with hd | hd
      · exact Nat.le_trans hd h.depth
      · exact Nat.le_trans hd h.configured
    rcases hc.maxCallDepth with hm | hm | ⟨admin, maxDepth, hi, hpos, hm⟩
    · exact ⟨hm ▸ h.positive, hm ▸ Nat.le_trans h.configured hle, Nat.le_trans hdepth hle⟩
    · refine ⟨by omega, ?_, Nat.le_trans hdepth hle⟩
      rw [hm]
      exact five_le_largestMaxDepth _
    · refine ⟨by omega, ?_, Nat.le_trans hdepth hle⟩
      obtain ⟨env, c⟩ := i
      obtain rfl : c = .setMaxCallDepth admin maxDepth := hi
      rw [hm]
      exact Nat.le_max_left _ _
  · exact ⟨h.positive, Nat.le_trans h.configured hle, Nat.le_trans h.depth hle⟩

theorem exits_ok (hs : (machine own).step s i = some (s', o))
    (hx : exits contract entryPoint (⟨s, i, o, s'⟩ : Step own) = true)
    (ha : isGuardActive s contract = true)
    (hd : isPatternAllowed s entryPoint = false → getCallDepth s contract entryPoint ≠ 0) :
    o = .ok () := by
  obtain ⟨env, c⟩ := i
  obtain rfl : c = .exit contract entryPoint := decide_eq_true_eq.mp hx
  have hexit : ∃ s'', exit contract entryPoint s = .ok s'' := by
    cases hp : isPatternAllowed s entryPoint with
    | true => exact ⟨s, exit_ok.mpr ⟨ha, .inl ⟨hp, rfl⟩⟩⟩
    | false => exact ⟨_, exit_ok.mpr ⟨ha, .inr ⟨hp, hd hp, rfl⟩⟩⟩
  obtain ⟨s'', he⟩ := hexit
  have hi : invoke env s (.exit contract entryPoint) = (s', o) := Option.some.inj hs
  unfold invoke at hi
  rw [perform, he] at hi
  exact (Prod.mk.inj hi).2.symm

theorem exits_changes (hs : (machine own).step s i = some (s', o))
    (hx : exits contract entryPoint (⟨s, i, o, s'⟩ : Step own) = true) (ho : o = .ok ()) :
    Exited contract entryPoint s s' := by
  obtain ⟨env, c⟩ := i
  obtain rfl : c = .exit contract entryPoint := decide_eq_true_eq.mp hx
  rcases step_cases hs with ⟨_, hc⟩ | ⟨hne, _⟩
  · cases hc with
    | exit h => exact h
  · exact absurd ho hne

theorem enter_ready (ha : isGuardActive s contract = true)
    (hd : getCallDepth s contract entryPoint < getMaxCallDepth s)
    (hz : getCallDepth s contract entryPoint = 0) : ∃ s', enter contract entryPoint s = .ok s' := by
  rw [enter, require_bind_of ha]
  split
  · exact ⟨s, rfl⟩
  · rw [require_bind_of hd, hz]
    exact ⟨_, rfl⟩

/-- With the depth as counted so far, a call is balanced exactly when it is matched. -/
theorem balancedAt_iff {t : History own} (hl : Ledger contract entryPoint t s)
    (hc : Capped contract entryPoint t s) (hs : (machine own).step s i = some (s', o)) :
    BalancedAt contract entryPoint (⟨s, i, o, s'⟩ : Step own) t ↔
      MatchedAt contract entryPoint (⟨s, i, o, s'⟩ : Step own) t := by
  constructor
  · intro h
    refine ⟨?_, ?_, ?_⟩
    · intro hx
      exact (exits_changes hs hx (h.exits hx)).active
    · intro hx hp
      rcases (exits_changes hs hx (h.exits hx)).counted with ⟨hallowed, _⟩ | ⟨_, hne, _⟩
      · simp [counted, hallowed] at hp
      · unfold Ledger at hl
        omega
    · intro he
      have hl' := hl.step hs h.exits
      have hz := h.unwound he
      unfold Ledger at hl'
      dsimp only at hz
      omega
  · intro h
    have hexits : exits contract entryPoint (⟨s, i, o, s'⟩ : Step own) = true → o = .ok () := by
      intro hx
      apply exits_ok hs hx (h.active hx)
      intro hp
      have hcovered := h.covered hx (by simp [counted, hp])
      unfold Ledger at hl
      omega
    have hl' := hl.step hs hexits
    have hc' := hc.step hs
    have hzero (he : entered contract entryPoint (⟨s, i, o, s'⟩ :: t) =
        exited contract entryPoint (⟨s, i, o, s'⟩ :: t)) :
        getCallDepth s' contract entryPoint = 0 := by
      have hev := h.evened he
      unfold Ledger at hl'
      omega
    refine ⟨hexits, hzero, ?_, hc'.depth⟩
    intro he ha
    have hz := hzero he
    exact enter_ready ha (hz ▸ hc'.positive) hz

theorem run_capped (h : (machine own).Run .fresh t s) : Capped contract entryPoint t s := by
  induction h with
  | start => exact ⟨Nat.zero_lt_succ 4, Nat.le_refl 5, Nat.zero_le _⟩
  | commit _ hs ih => exact ih.step hs
  | rollback _ _ ih => exact ih

theorem run_ledger (h : (machine own).Run .fresh t s) (hb : Balanced contract entryPoint t) :
    Ledger contract entryPoint t s := by
  induction h with
  | start => rfl
  | commit _ hs ih => exact (ih hb.2).step hs hb.1.exits
  | rollback _ _ ih => exact ih hb

theorem balanced_iff_matched (h : (machine own).Run .fresh t s) :
    Balanced contract entryPoint t ↔ Matched contract entryPoint t := by
  induction h with
  | start => exact Iff.rfl
  | commit hr hs ih =>
    constructor
    · exact fun hb => ⟨(balancedAt_iff (run_ledger hr hb.2) (run_capped hr) hs).mp hb.1, ih.mp hb.2⟩
    · intro hm
      have hb := ih.mpr hm.2
      exact ⟨(balancedAt_iff (run_ledger hr hb) (run_capped hr) hs).mpr hm.1, hb⟩
  | rollback _ _ ih => exact ih

/-- In a bracketed run the depth is balanced when the guard is active at each call to exit and the
allowed patterns treat these calls as they treated the calls of `enter`, and only then. -/
theorem balanced_iff (h : (machine own).Run .fresh t s) :
    (Bracketed contract entryPoint t → Balanced contract entryPoint t) ↔
      (Bracketed contract entryPoint t → Matched contract entryPoint t) :=
  imp_congr_right fun _ => balanced_iff_matched h

end

def signedCall (c : Call) : Env ⟨0⟩ × Call := (.signed ⟨0⟩ 0, c)

def point : BytesN 32 := Vector.replicate 32 7

/-- The contract `9` is guarded. -/
def guardCalls : List Call := [.init ⟨1⟩, .activateGuard ⟨1⟩ ⟨9⟩]

def history (cs : List Call) : History ⟨0⟩ :=
  ((machine ⟨0⟩).replay .fresh (cs.map signedCall)).1

def nestedCalls : List Call :=
  guardCalls ++ [.enter ⟨9⟩ point, .enter ⟨9⟩ point, .exit ⟨9⟩ point, .exit ⟨9⟩ point]

theorem balanced_iff_nested :
    (Bracketed ⟨9⟩ point (history nestedCalls) → Balanced ⟨9⟩ point (history nestedCalls)) ↔
      (Bracketed ⟨9⟩ point (history nestedCalls) → Matched ⟨9⟩ point (history nestedCalls)) :=
  balanced_iff ((machine ⟨0⟩).run_replay .fresh (nestedCalls.map signedCall))

/-- The pattern is allowed between the two halves of a call. -/
def splitCalls : List Call :=
  guardCalls ++ [.enter ⟨9⟩ point, .allowPattern ⟨1⟩ point, .exit ⟨9⟩ point]

theorem splitCalls_bracketed : Bracketed ⟨9⟩ point (history splitCalls) := by
  decide

theorem splitCalls_unbalanced :
    ¬ ∀ (t : History ⟨0⟩) s, (machine ⟨0⟩).Run .fresh t s → ∀ contract entryPoint,
      Bracketed contract entryPoint t → Balanced contract entryPoint t := by
  intro hall
  have hrun := (machine ⟨0⟩).run_replay .fresh (splitCalls.map signedCall)
  have hb := hall _ _ hrun ⟨9⟩ point splitCalls_bracketed
  cases hb.1.unwound (by decide)

end Shelterflex.ReentrancyGuard
