import Shelterflex.Timelock.Administration
import Shelterflex.UpgradeableProxy.Consent

/-! The contract with a timelock for its admin. -/

namespace Shelterflex.UpgradeableProxy
open Lib
set_option autoImplicit true

def symbol (name : String) : Timelock.Symbol := name.toList.map fun c => UInt8.ofNat c.toNat

section
variable (bytesVal : BytesN 32 → Timelock.Val) (stringVal : Bytes → Timelock.Val)

/-- The function that a call is of, and its arguments. -/
def Call.entry : Call → Timelock.Symbol × List Timelock.Val
  | .init admin secondApprover => (symbol "init", [.address admin, .address secondApprover])
  | .proposeUpgrade admin newWasmHash =>
    (symbol "propose_upgrade", [.address admin, bytesVal newWasmHash])
  | .confirmUpgrade approver newWasmHash =>
    (symbol "confirm_upgrade", [.address approver, bytesVal newWasmHash])
  | .cancelUpgrade admin => (symbol "cancel_upgrade", [.address admin])
  | .transferAdmin admin newAdmin =>
    (symbol "transfer_admin", [.address admin, .address newAdmin])
  | .setValue key value => (symbol "set_value", [stringVal key, stringVal value])

/-- The contract as the target of a timelock. -/
def target (builds : BytesN 32 → Bool) (address : Address) :
    Timelock.Target Instance (DeployerEnv address × Call) Unit where
  machine := machine builds address
  address := address
  timestamp i := i.1.timestamp
  authorized i := i.1.authorized
  call i := i.2.entry bytesVal stringVal
  answer _ := .other []

abbrev Deed (own address : Address) := Timelock.Deed own Instance (DeployerEnv address × Call) Unit

/-- The admin of the timelock queued the proposal at least the least delay before `now`. -/
structure Noticed (own address : Address) (newWasmHash : BytesN 32) (now : Nat)
    (x : Timelock.Step own) : Prop where
  queued : ∃ admin delay, x.input.2 = .queue admin address (symbol "propose_upgrade")
    [.address own, bytesVal newWasmHash] delay ∧ Timelock.ByAdmin x.input.1 admin x.pre
  waited : ∃ least, x.pre.minDelay = some least ∧ x.input.1.timestamp + least ≤ now

/-- The second approver confirms what the admin proposed last. If the admin was the timelock, then
the proposal had been queued there and nothing ended it, and the delay has passed. -/
structure Governed (sha256Xdr : List Timelock.Val → BytesN 32) (builds : BytesN 32 → Bool)
    (earlier : List (Deed own address)) (e : Step address) (approver : Address)
    (newWasmHash : BytesN 32) : Prop where
  role : e.pre.storage.secondApprover = some approver
  approved : e.input.1.authorized approver = true
  proposed : ∃ mid q first p, earlier = mid ++ q :: first ∧ q.ofTarget = some p ∧
    Proposes newWasmHash p ∧
    (∀ x ∈ mid, ∀ x', x.ofTarget = some x' → ¬ x'.input.2.concerns) ∧
    (p.pre.storage.admin = some own →
      Timelock.Deliberate sha256Xdr (target bytesVal stringVal builds address) p.input first q ∧
      ∃ x ∈ first, ∃ x', x.ofTimelock (target bytesVal stringVal builds address) = some x' ∧
        Noticed bytesVal own address newWasmHash e.input.1.timestamp x')

end

section
variable {bytesVal : BytesN 32 → Timelock.Val} {stringVal : Bytes → Timelock.Val}
  {sha256Xdr : List Timelock.Val → BytesN 32} {builds : BytesN 32 → Bool} {own address : Address}

theorem ofTarget_timestamp {s s' : Timelock.State × Instance}
    (h : (Timelock.deployment sha256Xdr own
      (target bytesVal stringVal builds address)).step s a = some (s', o))
    (he : Timelock.Deed.ofTarget ⟨s, a, o, s'⟩ = some e) :
    e.input.1.timestamp =
      Timelock.Deed.timestamp (target bytesVal stringVal builds address) ⟨s, a, o, s'⟩ := by
  cases a with
  | direct i =>
    obtain ⟨_, o', _, _, rfl⟩ := Timelock.step_direct h
    cases he
    rfl
  | timelock env c => cases he
  | governed env op i =>
    obtain ⟨hmakes, l, o', _, _, rfl⟩ := Timelock.step_governed h
    cases he
    exact hmakes.timestamp

/-- With a timelock for its admin, the code of the contract changes only after the delay of the
timelock: its admin queued the proposal, and could cancel it for as long as that takes. -/
theorem upgrades_delayed {code : BytesN 32} {t : List (Deed own address)}
    (h : (Timelock.deployment sha256Xdr own (target bytesVal stringVal builds address)).Run
      (.fresh, deployed code) t s)
    (hclock : (t.map (Timelock.Deed.timestamp
      (target bytesVal stringVal builds address))).Pairwise (· ≥ ·))
    (hsha : Set.InjOn sha256Xdr {data | data ∈ Timelock.hashed (t.filterMap
      (Timelock.Deed.ofTimelock (target bytesVal stringVal builds address)))}) :
    ∀ later e earlier e' approver newWasmHash, t = later ++ e :: earlier →
      e.ofTarget = some e' → e'.input.2 = .confirmUpgrade approver newWasmHash →
      Governed bytesVal stringVal sha256Xdr builds earlier e' approver newWasmHash := by
  rintro later e earlier e' approver newWasmHash rfl he hconfirm
  obtain ⟨hrun, hstep⟩ := h.upTo
  obtain ⟨hpre, _, hown⟩ := (Timelock.targetView sha256Xdr own
    (target bytesVal stringVal builds address)).taken hstep he
  have hch := step_changes hown
  rw [hconfirm] at hch
  cases hch with
  | confirmUpgrade ha _ =>
    refine ⟨hpre ▸ ha.role, ha.authorized, ?_⟩
    have hview := hrun.view (Timelock.targetView sha256Xdr own
      (target bytesVal stringVal builds address))
    have hpending := ha.pending
    rw [hpre] at hpending
    obtain ⟨mid, q, first, rfl, ⟨p, hp, hproposes⟩, hmid⟩ :=
      since_iff_append.mp (Since.of_filterMap (pending_since hview hpending))
    refine ⟨mid, q, first, p, rfl, hp, hproposes, ?_, ?_⟩
    · exact fun x hx x' hx' hc => hmid x hx ⟨x', hx', hc⟩
    · intro hadmin
      obtain ⟨admin, hinput, hby⟩ := hproposes
      cases hadmin.symm.trans hby.role
      have hlist : later ++ e :: (mid ++ q :: first) = (later ++ e :: mid) ++ q :: first := by
        rw [List.append_assoc, List.cons_append]
      rw [hlist] at h hsha hclock
      have hdeliberate := Timelock.governed_deliberate h hsha hp hby.authorized
      refine ⟨hdeliberate, ?_⟩
      obtain ⟨x, hx, x', hx', hqueued, least, hmin, hle⟩ := hdeliberate.waited
      refine ⟨x, hx, x', hx', ?_, least, hmin, le_trans hle ?_⟩
      · rw [target] at hqueued
        simp only [hinput, Call.entry] at hqueued
        exact hqueued
      · have hq := ofTarget_timestamp h.upTo.2 hp
        have he := ofTarget_timestamp hstep he
        rw [List.map_append, List.pairwise_append] at hclock
        have hle := hclock.2.2 _ (List.mem_map_of_mem (List.mem_append_right later
          List.mem_cons_self)) _ (List.mem_map_of_mem List.mem_cons_self)
        rw [he]
        exact hq.trans_le hle

end

/-- The serialization of 32 bytes, and of a text. -/
def sampleBytes (h : BytesN 32) : Timelock.Val := .other ([0, 0, 0, 13, 0, 0, 0, 32] ++ h.toList)

def sampleString (s : Bytes) : Timelock.Val :=
  .other ([0, 0, 0, 14, 0, 0, 0, UInt8.ofNat s.length] ++ s)

/-- `propose_upgrade` on the contract, by the timelock. -/
def sampleOp : Timelock.Operation :=
  ⟨⟨9⟩, symbol "propose_upgrade", [.address ⟨0⟩, sampleBytes (hash 8)], 110⟩

/-- SHA-256 of the serialized operation. -/
def sampleDigest (_ : List Timelock.Val) : BytesN 32 :=
  #v[58, 36, 242, 215, 122, 220, 191, 14, 193, 137, 151, 213, 6, 112,
    155, 169, 155, 179, 238, 168, 26, 172, 59, 226, 9, 38, 132, 247,
    72, 112, 199, 207]

def proxyEnv (timestamp : Nat) : DeployerEnv ⟨9⟩ :=
  ⟨⟨timestamp, fun a => a = ⟨1⟩ ∨ a = ⟨2⟩, rfl⟩, sampleBuilds⟩

def timelockEnv (timestamp sequence : Nat) : Timelock.CallEnv ⟨0⟩ :=
  ⟨⟨.signed ⟨0⟩ timestamp, sequence⟩, fun _ _ _ => none⟩

def governedEnv (timestamp : Nat) : DeployerEnv ⟨9⟩ :=
  ⟨⟨timestamp, fun a => a = ⟨0⟩, rfl⟩, sampleBuilds⟩

/-- The contract is handed over to a timelock with a delay of 100 seconds, and upgraded. -/
def governedActions : List (Timelock.Action ⟨0⟩ (DeployerEnv ⟨9⟩ × Call)) :=
  [.direct (proxyEnv 0, .init ⟨1⟩ ⟨2⟩), .direct (proxyEnv 0, .transferAdmin ⟨1⟩ ⟨0⟩),
    .timelock (timelockEnv 0 0) (.init ⟨5⟩ 100 1000 [⟨6⟩, ⟨7⟩]),
    .timelock (timelockEnv 10 2) (.queue ⟨5⟩ ⟨9⟩ sampleOp.function sampleOp.args 100),
    .governed (timelockEnv 110 22) sampleOp (governedEnv 110, .proposeUpgrade ⟨0⟩ (hash 8)),
    .direct (proxyEnv 120, .confirmUpgrade ⟨2⟩ (hash 8))]

def governedRun : List (Deed ⟨0⟩ ⟨9⟩) × (Timelock.State × Instance) :=
  (Timelock.deployment sampleDigest ⟨0⟩ (target sampleBytes sampleString sampleBuilds ⟨9⟩)).replay
    (.fresh, deployed (hash 7)) governedActions

theorem governedRun_last :
    (governedRun.1.head?.bind Timelock.Deed.ofTarget).map (fun e => e.input.2) =
      some (.confirmUpgrade ⟨2⟩ (hash 8)) := by decide +kernel

theorem upgrades_delayed_sample : ∃ e earlier e', governedRun.1 = e :: earlier ∧
    e.ofTarget = some e' ∧ Governed sampleBytes sampleString sampleDigest sampleBuilds earlier e'
      ⟨2⟩ (hash 8) := by
  have hrun := (Timelock.deployment sampleDigest ⟨0⟩
    (target sampleBytes sampleString sampleBuilds ⟨9⟩)).run_replay (.fresh, deployed (hash 7))
    governedActions
  have hlast := governedRun_last
  rw [← governedRun] at hrun
  have hclock : (governedRun.1.map (Timelock.Deed.timestamp
      (target sampleBytes sampleString sampleBuilds ⟨9⟩))).Pairwise (· ≥ ·) := by decide +kernel
  have hhashed : Timelock.hashed (governedRun.1.filterMap (Timelock.Deed.ofTimelock
      (target sampleBytes sampleString sampleBuilds ⟨9⟩))) =
        [sampleOp.hashData, sampleOp.hashData] := by decide +kernel
  have hsha : Set.InjOn sampleDigest {data | data ∈ Timelock.hashed (governedRun.1.filterMap
      (Timelock.Deed.ofTimelock (target sampleBytes sampleString sampleBuilds ⟨9⟩)))} := by
    rw [hhashed]
    intro data hdata data' hdata' _
    have hall : ∀ d ∈ [sampleOp.hashData, sampleOp.hashData], d = sampleOp.hashData := by
      simp only [List.mem_cons, List.not_mem_nil, or_false, or_self, forall_eq]
    rw [hall data hdata, hall data' hdata']
  have hall := upgrades_delayed hrun hclock hsha
  cases hlist : governedRun.1 with
  | nil =>
    rw [hlist] at hlast
    cases hlast
  | cons e earlier =>
    rw [hlist, List.head?_cons] at hlast
    obtain ⟨e', he, hinput⟩ := Option.map_eq_some_iff.mp hlast
    exact ⟨e, earlier, e', rfl, he, hall [] e earlier e' ⟨2⟩ (hash 8) hlist he hinput⟩

end Shelterflex.UpgradeableProxy
