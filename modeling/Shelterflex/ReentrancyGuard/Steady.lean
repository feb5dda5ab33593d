import Shelterflex.ReentrancyGuard.Balance

/-! A configuration that stays while a call is open keeps the depth balanced. -/

namespace Shelterflex.ReentrancyGuard
open Lib
set_option autoImplicit true

section
variable (contract : Address) (entryPoint : BytesN 32)

/-- The call changes whether the pattern is allowed, or takes the guard away. -/
def Call.reconfigures : Call → Prop
  | .allowPattern _ patternHash => patternHash = entryPoint
  | .disallowPattern _ patternHash => patternHash = entryPoint
  | .deactivateGuard _ contract' => contract' = contract
  | _ => False

/-- The configuration changes only with every `enter` matched. -/
def Steady (t : History own) : Prop :=
  Throughout (fun x earlier => x.input.2.reconfigures contract entryPoint →
    entered contract entryPoint earlier = exited contract entryPoint earlier) t

/-- The calls that are open are counted, or not, as the pattern is allowed now. -/
structure Uniform (t : History own) (s : State) : Prop where
  bracketed : exited contract entryPoint t ≤ entered contract entryPoint t
  active : exited contract entryPoint t < entered contract entryPoint t →
    isGuardActive s contract = true
  allowed : isPatternAllowed s entryPoint = true →
    countedExits contract entryPoint t = countedEnters contract entryPoint t
  refused : isPatternAllowed s entryPoint = false →
    countedExits contract entryPoint t + entered contract entryPoint t =
      countedEnters contract entryPoint t + exited contract entryPoint t

end

section
variable {contract : Address} {entryPoint : BytesN 32}

theorem Changes.allowed_eq (h : Changes s s' c) (hc : ¬ c.reconfigures contract entryPoint) :
    isPatternAllowed s' entryPoint = isPatternAllowed s entryPoint := by
  cases h with
  | init hs | setAdmin hs | setMaxCallDepth _ hs | activateGuard hs | deactivateGuard hs =>
    rw [hs]
    rfl
  | allowPattern hs | disallowPattern hs =>
    rw [hs]
    exact Store.getD_set_of_ne _ _ _ fun he => hc he.symm
  | enter h => rw [isPatternAllowed, h.depthOnly.allowedPattern, isPatternAllowed]
  | exit h => rw [isPatternAllowed, h.depthOnly.allowedPattern, isPatternAllowed]

theorem Changes.stays_active (h : Changes s s' c) (hc : ¬ c.reconfigures contract entryPoint)
    (ha : isGuardActive s contract = true) : isGuardActive s' contract = true := by
  cases h with
  | init hs | setAdmin hs | setMaxCallDepth _ hs | allowPattern hs | disallowPattern hs =>
    rw [hs]
    exact ha
  | activateGuard hs =>
    rw [hs, isGuardActive, Store.getD_set]
    split
    · rfl
    · exact ha
  | deactivateGuard hs =>
    rw [hs, isGuardActive, Store.getD_set_of_ne _ _ _ fun he => hc he.symm]
    exact ha
  | enter h => rwa [isGuardActive, h.depthOnly.guardActive]
  | exit h => rwa [isGuardActive, h.depthOnly.guardActive]

/-- The configuration after a call is what it was, unless every `enter` was matched. -/
structure Keeps (contract : Address) (entryPoint : BytesN 32) (s s' : State) : Prop where
  allowed : isPatternAllowed s' entryPoint = isPatternAllowed s entryPoint
  active : isGuardActive s contract = true → isGuardActive s' contract = true

theorem step_keeps (h : (machine own).step s i = some (s', o))
    (hc : ¬ i.2.reconfigures contract entryPoint) : Keeps contract entryPoint s s' := by
  rcases step_cases h with ⟨_, hch⟩ | ⟨_, rfl⟩
  · exact ⟨hch.allowed_eq hc, hch.stays_active hc⟩
  · exact ⟨rfl, id⟩

theorem enters_active (h : (machine own).step s i = some (s', o))
    (he : enters contract entryPoint (⟨s, i, o, s'⟩ : Step own) = true) :
    isGuardActive s contract = true := by
  obtain ⟨env, c⟩ := i
  simp only [enters, Bool.and_eq_true, decide_eq_true_eq] at he
  obtain ⟨rfl, ho⟩ := he
  rcases step_cases h with ⟨_, hc⟩ | ⟨hne, _⟩
  · cases hc with
    | enter h => exact h.active
  · exact absurd ho hne

theorem reconfigures_idle {x : Step own} (hr : x.input.2.reconfigures contract entryPoint) :
    enters contract entryPoint x = false ∧ exits contract entryPoint x = false := by
  constructor
  · simp only [enters, Bool.and_eq_false_imp, decide_eq_true_eq]
    intro hc
    rw [hc] at hr
    cases hr
  · simp only [exits, decide_eq_false_iff_not]
    intro hc
    rw [hc] at hr
    cases hr

theorem counts_cons (contract : Address) (entryPoint : BytesN 32) (x : Step own) (t : History own) :
    entered contract entryPoint (x :: t) =
        entered contract entryPoint t + (enters contract entryPoint x).toNat ∧
      exited contract entryPoint (x :: t) =
        exited contract entryPoint t + (exits contract entryPoint x).toNat ∧
      countedEnters contract entryPoint (x :: t) = countedEnters contract entryPoint t +
        (enters contract entryPoint x && counted entryPoint x).toNat ∧
      countedExits contract entryPoint (x :: t) = countedExits contract entryPoint t +
        (exits contract entryPoint x && counted entryPoint x).toNat := by
  refine ⟨?_, ?_, ?_, ?_⟩
  · exact countP_cons_toNat _ _ _
  · exact countP_cons_toNat _ _ _
  · exact countP_cons_toNat _ _ _
  · exact countP_cons_toNat _ _ _

theorem Uniform.evened {t : History own} (h : Uniform contract entryPoint t s)
    (he : entered contract entryPoint t = exited contract entryPoint t) :
    countedExits contract entryPoint t = countedEnters contract entryPoint t := by
  cases hp : isPatternAllowed s entryPoint with
  | true => exact h.allowed hp
  | false =>
    have hr := h.refused hp
    omega

theorem Uniform.reconfigure {t : History own} (h : Uniform contract entryPoint t s)
    (hr : i.2.reconfigures contract entryPoint)
    (he : entered contract entryPoint t = exited contract entryPoint t) :
    Uniform contract entryPoint ((⟨s, i, o, s'⟩ : Step own) :: t) s' := by
  obtain ⟨hn, hx⟩ := reconfigures_idle (x := ⟨s, i, o, s'⟩) hr
  obtain ⟨hen, hex, hce, hcx⟩ := counts_cons contract entryPoint (⟨s, i, o, s'⟩ : Step own) t
  have hev := h.evened he
  simp only [hn, hx, Bool.false_and, Bool.toNat_false, Nat.add_zero] at hen hex hce hcx
  constructor
  · rw [hen, hex, he]
  · rw [hen, hex, he]
    exact fun hlt => absurd hlt (Nat.lt_irrefl _)
  · rw [hce, hcx, hev]
    exact fun _ => rfl
  · rw [hen, hex, hce, hcx, hev, he]
    exact fun _ => rfl

theorem Uniform.call {t : History own} (h : Uniform contract entryPoint t s)
    (hs : (machine own).step s i = some (s', o)) (hk : Keeps contract entryPoint s s')
    (hb : exits contract entryPoint (⟨s, i, o, s'⟩ : Step own) = true →
      exited contract entryPoint t < entered contract entryPoint t) :
    Uniform contract entryPoint ((⟨s, i, o, s'⟩ : Step own) :: t) s' := by
  obtain ⟨hen, hex, hce, hcx⟩ := counts_cons contract entryPoint (⟨s, i, o, s'⟩ : Step own) t
  have hle := h.bracketed
  constructor
  · rw [hen, hex]
    cases hx : exits contract entryPoint (⟨s, i, o, s'⟩ : Step own) with
    | true => exact Nat.le_trans (hb hx) (Nat.le_add_right _ _)
    | false => exact Nat.le_trans hle (Nat.le_add_right _ _)
  · rw [hen, hex]
    intro hlt
    apply hk.active
    rcases Nat.lt_or_eq_of_le hle with hopen | hclosed
    · exact h.active hopen
    · cases hn : enters contract entryPoint (⟨s, i, o, s'⟩ : Step own) with
      | true => exact enters_active hs hn
      | false =>
        rw [hn, hclosed] at hlt
        exact absurd hlt (Nat.not_lt_of_le (Nat.le_add_right _ _))
  · intro hp
    rw [hk.allowed] at hp
    rw [hce, hcx, h.allowed hp]
    simp [counted, hp]
  · intro hp
    rw [hk.allowed] at hp
    have hr := h.refused hp
    rw [hen, hex, hce, hcx]
    simp only [counted, hp, Bool.not_false, Bool.and_true]
    omega

theorem run_uniform (h : (machine own).Run .fresh t s) (hb : Bracketed contract entryPoint t)
    (hs : Steady contract entryPoint t) : Uniform contract entryPoint t s := by
  induction h with
  | start => exact ⟨Nat.le_refl _, nofun, fun _ => rfl, fun _ => rfl⟩
  | @commit t s i s' o _ hstep ih =>
    have hu := ih hb.2 hs.2
    by_cases hr : i.2.reconfigures contract entryPoint
    · exact hu.reconfigure hr (hs.1 hr)
    · exact hu.call hstep (step_keeps hstep hr) hb.1
  | rollback _ _ ih => exact ih hb hs

theorem matched_of_steady (h : (machine own).Run .fresh t s)
    (hb : Bracketed contract entryPoint t) (hs : Steady contract entryPoint t) :
    Matched contract entryPoint t := by
  induction h with
  | start => exact True.intro
  | @commit t s i s' o hr hstep ih =>
    have hu := run_uniform hr hb.2 hs.2
    refine ⟨⟨?_, ?_, ?_⟩, ih hb.2 hs.2⟩
    · exact fun hx => hu.active (hb.1 hx)
    · intro hx hp
      have hlt := hb.1 hx
      have href := hu.refused (by simpa [counted] using hp)
      omega
    · exact (run_uniform (.commit hr hstep) hb hs).evened
  | rollback _ _ ih => exact ih hb hs

/-- With a configuration that stays while a call is open, the depth is balanced. -/
theorem balanced_of_steady (h : (machine own).Run .fresh t s)
    (hb : Bracketed contract entryPoint t) (hs : Steady contract entryPoint t) :
    Balanced contract entryPoint t :=
  (balanced_iff_matched h).mpr (matched_of_steady h hb hs)

end

end Shelterflex.ReentrancyGuard
