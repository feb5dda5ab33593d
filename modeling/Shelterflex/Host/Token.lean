import Shelterflex.Host.Basic

namespace Shelterflex
set_option autoImplicit true

/-- A token contract: its state, the balances it reports, and its `transfer`, which fails or moves
to a new state. It does not call back into the contract that called it. -/
structure Token (T : Type) where
  balance : T → Address → Int
  transfer : T → (Address → Bool) → Address → Address → Int → Option T

/-- A transfer moves exactly the amount. -/
def Token.Exact (tok : Token T) : Prop :=
  ∀ {t t' : T} {auth : Address → Bool} {source target : Address} {n : Int},
    tok.transfer t auth source target n = some t' → ∀ a,
      tok.balance t' a =
        tok.balance t a - (if a = source then n else 0) + (if a = target then n else 0)

/-- A transfer that its source authorized and can pay does not fail. -/
def Token.Honours (tok : Token T) : Prop :=
  ∀ (t : T) (auth : Address → Bool) (source target : Address) (n : Int),
    auth source = true → 0 ≤ n → n ≤ tok.balance t source →
      (tok.transfer t auth source target n).isSome

/-- A call of `transfer` by the contract `own`, which thereby authorizes its own address. -/
def Token.call (tok : Token T) (env : Env own) (t : T) (source target : Address) (n : Int) :
    Outcome ε T :=
  match tok.transfer t (fun a => a = own || env.authorized a) source target n with
  | some t' => .ok t'
  | none => .error (.trap .tokenFailed)

theorem Token.call_ok {tok : Token T} {env : Env own} :
    (tok.call env t source target n : Outcome ε T) = .ok t' ↔
      tok.transfer t (fun a => a = own || env.authorized a) source target n = some t' := by
  unfold Token.call
  split <;> simp_all

theorem Token.Exact.inflow {tok : Token T} (h : tok.Exact)
    (ht : tok.transfer t auth source own n = some t') (hs : source ≠ own) :
    tok.balance t' own = tok.balance t own + n := by
  rw [h ht own, if_neg hs.symm, if_pos rfl, sub_zero]

theorem Token.Exact.outflow {tok : Token T} (h : tok.Exact)
    (ht : tok.transfer t auth own target n = some t') (hs : target ≠ own) :
    tok.balance t' own = tok.balance t own - n := by
  rw [h ht own, if_pos rfl, if_neg hs.symm, add_zero]

theorem Token.Exact.outflow_le {tok : Token T} (h : tok.Exact)
    (ht : tok.transfer t auth own target n = some t') (hn : 0 ≤ n) :
    tok.balance t own - n ≤ tok.balance t' own := by
  rw [h ht own, if_pos rfl]
  split <;> omega

/-- A contract that pays from what it holds is not turned away by the token. -/
theorem Token.Honours.pay {tok : Token T} (h : tok.Honours) (env : Env own) (target : Address)
    (hn : 0 ≤ n) (hb : n ≤ tok.balance t own) :
    ∃ t', (tok.call env t own target n : Outcome ε T) = .ok t' := by
  have hs := h t (fun a => a = own || env.authorized a) own target n (by simp) hn hb
  obtain ⟨t', ht⟩ := Option.isSome_iff_exists.mp hs
  exact ⟨t', Token.call_ok.mpr ht⟩

/-- Balances of a token that checks the authorization and the funds of the source. -/
def plainToken : Token (Address → Int) where
  balance t a := t a
  transfer t auth source target n :=
    if auth source = true ∧ 0 ≤ n ∧ n ≤ t source then
      some fun a => t a - (if a = source then n else 0) + (if a = target then n else 0)
    else none

theorem plainToken_exact : plainToken.Exact := by
  intro t t' auth source target n h a
  simp only [plainToken, Option.ite_none_right_eq_some, Option.some.injEq] at h
  obtain ⟨_, rfl⟩ := h
  rfl

theorem plainToken_honours : plainToken.Honours := by
  intro t auth source target n ha hn hb
  have h : auth source = true ∧ 0 ≤ n ∧ n ≤ t source := ⟨ha, hn, hb⟩
  simp only [plainToken, if_pos h, Option.isSome_some]

end Shelterflex
