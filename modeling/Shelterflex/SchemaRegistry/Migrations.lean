import Shelterflex.Lib.Listing
import Shelterflex.SchemaRegistry.Transitions

/-! The executed migrations are a chain of rising versions. -/

namespace Shelterflex.SchemaRegistry
open Lib
set_option autoImplicit true

/-- The receipts of the executed migrations, oldest first. -/
def executed (t : History own) : List MigrationReceipt := (t.filterMap Event.output).reverse

def sources (t : History own) : List SchemaVersion := (executed t).map MigrationReceipt.source

def targets (t : History own) : List SchemaVersion := (executed t).map MigrationReceipt.target

/-- The order of the components, the most significant first. -/
def SchemaVersion.Before (v w : SchemaVersion) : Prop :=
  v.major < w.major ∨ v.major = w.major ∧
    (v.minor < w.minor ∨ v.minor = w.minor ∧ v.patch < w.patch)

theorem packed_lt_iff {v w : SchemaVersion} (hv : v.InRange) (hw : w.InRange) :
    v.packed < w.packed ↔ v.Before w := by
  obtain ⟨a, b, c⟩ := v
  obtain ⟨a', b', c'⟩ := w
  simp only [SchemaVersion.InRange, SchemaVersion.packed, SchemaVersion.Before] at *
  omega

/-- The chain of migrations, as the history tells it. -/
structure Forward (t : History own) (s : State) : Prop where
  ids : (executed t).map MigrationReceipt.migrationId = List.range' 1 (executed t).length
  links : sources t ++ [registryVersion s] = initialVersion :: targets t
  rising : (initialVersion :: targets t).Pairwise fun v w => v.packed < w.packed
  lexicographic : (∀ v ∈ targets t, v.InRange) →
    (initialVersion :: targets t).Pairwise SchemaVersion.Before
  unrepeated : (initialVersion :: targets t).Nodup
  unreplayed : ∀ (env : LedgerEnv own) caller source target verificationHash,
    executeMigration env caller source target verificationHash s ≠ .error (.err .alreadyExecuted)
  verified : ∀ i v, verifyMigration i v s = true ↔ ∃ n, i = n + 1 ∧ (targets t)[n]? = some v
  rejected : ∀ i, (machine own).step s i = none → (machine own).apply (t, s) i = (t, s)

/-- What the state keeps of the chain. -/
structure Chained (t : History own) (s : State) : Prop where
  idle : s.admin = none → executed t = []
  links : sources t ++ [registryVersion s] = initialVersion :: targets t
  rising : (sources t ++ [registryVersion s]).IsChain fun v w => v.packed < w.packed
  count : s.nextMigrationId.getD 0 = (executed t).length
  ids : (executed t).map MigrationReceipt.migrationId = List.range' 1 (executed t).length
  byId : Numbered s.migrationReceiptById (executed t)
  byKey : ∀ k, s.migrationReceipt.get k ≠ none → ∃ r ∈ executed t, packedKey r.source r.target = k

theorem executed_skip {e : Step own} (h : e.output = none) : executed (e :: t) = executed t := by
  rw [executed, List.filterMap_cons_none h, executed]

theorem executed_concat {e : Step own} (h : e.output = some r) :
    executed (e :: t) = executed t ++ [r] := by
  rw [executed, List.filterMap_cons_some h, List.reverse_cons, executed]

theorem sources_concat {e : Step own} (h : e.output = some r) :
    sources (e :: t) = sources t ++ [r.source] := by
  rw [sources, executed_concat h, List.map_append]
  rfl

theorem targets_concat {e : Step own} (h : e.output = some r) :
    targets (e :: t) = targets t ++ [r.target] := by
  rw [targets, executed_concat h, List.map_append]
  rfl

theorem Chained.keep {t' : History own} (h : Chained t s) (he : executed t' = executed t)
    (ha : s'.admin = none → s.admin = none) (hv : registryVersion s' = registryVersion s)
    (hn : s'.nextMigrationId = s.nextMigrationId)
    (hi : s'.migrationReceiptById = s.migrationReceiptById)
    (hk : s'.migrationReceipt = s.migrationReceipt) : Chained t' s' := by
  constructor
  · rw [he]
    exact fun hnone => h.idle (ha hnone)
  · rw [sources, targets, he, hv]
    exact h.links
  · rw [sources, he, hv]
    exact h.rising
  · rw [he, hn]
    exact h.count
  · rw [he]
    exact h.ids
  · rw [he, hi]
    exact h.byId
  · rw [he, hk]
    exact h.byKey

theorem Executes.chained {env : LedgerEnv own} (hx : Executes env r s s') (h : Chained t s)
    (ha : s.admin ≠ none) (he : (e : Step own).output = some r) : Chained (e :: t) s' := by
  have hv : registryVersion s' = r.target := by
    rw [hx.entry]
    rfl
  have hid : r.migrationId = (executed t).length + 1 := by rw [hx.next, h.count]
  have hlinks := h.links
  have hrising := h.rising
  rw [hx.starts] at hlinks hrising
  constructor
  · rw [hx.entry]
    exact fun hn => absurd hn ha
  · rw [sources_concat he, targets_concat he, hv, hlinks]
    rfl
  · rw [sources_concat he, hv, List.append_assoc]
    exact List.isChain_append_cons_cons.mpr ⟨hrising, hx.forward, List.isChain_singleton _⟩
  · rw [hx.entry, executed_concat he, List.length_append]
    exact hid
  · rw [executed_concat he, List.map_append, List.length_append, List.length_singleton,
      List.range'_1_concat, h.ids, List.map_singleton, hid, Nat.add_comm]
  · rw [hx.entry, executed_concat he]
    show Numbered (s.migrationReceiptById.set r.migrationId r) _
    rw [hid]
    exact h.byId.push r
  · intro k hk
    rw [hx.entry] at hk
    rw [executed_concat he]
    by_cases hne : k = packedKey r.source r.target
    · exact ⟨r, List.mem_append_right _ List.mem_cons_self, hne.symm⟩
    · obtain ⟨r', hr', hkr⟩ := h.byKey k (by rwa [Store.get_set_of_ne _ _ hne] at hk)
      exact ⟨r', List.mem_append_left _ hr', hkr⟩

theorem Executes.started {env : LedgerEnv own} (hx : Executes env r s s') (hc : Catalogue t s) :
    s.admin ≠ none := by
  intro hn
  obtain ⟨info, hi⟩ := Option.ne_none_iff_exists'.mp hx.supported
  obtain ⟨hmem, _⟩ := hc.sound _ info hi
  rw [hc.started hn] at hmem
  cases hmem

theorem Changes.chained {env : LedgerEnv own} (hc : Changes env s s' c o) (hm : Catalogue t s)
    (h : Chained t s) : Chained ((⟨s, (env, c), o, s'⟩ : Step own) :: t) s' := by
  cases hc with
  | init hn hs =>
    have hv : registryVersion s = initialVersion := by
      have hlinks := h.links
      rw [sources, targets, h.idle hn] at hlinks
      exact (List.cons.inj hlinks).1
    apply h.keep (executed_skip rfl) (fun _ => hn)
    · rw [hv, hs]
      rfl
    · rw [hs]
    · rw [hs]
    · rw [hs]
  | registerTransition _ _ _ hs =>
    apply h.keep (executed_skip rfl)
    · rw [hs]
      exact id
    · rw [hs]
      rfl
    · rw [hs]
    · rw [hs]
    · rw [hs]
  | executeMigration hx => exact hx.chained h (hx.started hm) rfl

theorem run_chained (h : (machine own).Run .fresh t s) : Chained t s := by
  induction h with
  | start =>
    refine ⟨fun _ => rfl, rfl, List.isChain_singleton _, rfl, rfl, .empty, ?_⟩
    exact fun _ hk => absurd rfl hk
  | commit hr hs ih => exact (invoke_changes hs).chained (run_catalogue hr) ih
  | rollback _ _ ih => exact ih

theorem Chained.pairwise (h : Chained t s) :
    (sources t ++ [registryVersion s]).Pairwise fun v w => v.packed < w.packed :=
  have : IsTrans SchemaVersion fun v w => v.packed < w.packed := ⟨fun _ _ _ => Nat.lt_trans⟩
  List.isChain_iff_pairwise.mp h.rising

theorem Chained.left_behind (h : Chained t s) (hr : r ∈ executed t) :
    r.source.packed < (registryVersion s).packed := by
  obtain ⟨_, _, hlt⟩ := List.pairwise_append.mp h.pairwise
  exact hlt _ (List.mem_map_of_mem hr) _ List.mem_cons_self

/-- The migration that starts where the registry stands has no receipt yet. -/
theorem Chained.unexecuted (h : Chained t s) (hv : registryVersion s = source) :
    s.migrationReceipt.has (packedKey source target) = false := by
  by_contra hn
  rw [Bool.not_eq_false] at hn
  obtain ⟨r, hr, hk⟩ := h.byKey _ (Option.isSome_iff_ne_none.mp hn)
  have hlt := h.left_behind hr
  rw [hv, (Prod.mk.inj hk).1] at hlt
  exact absurd hlt (Nat.lt_irrefl _)

theorem requireVersion_no_replay : Avoids (.err .alreadyExecuted) (requireVersion source s) := by
  unfold requireVersion
  split
  · apply versionId_no_err.bind
    intro _ _
    nofun
  · nofun

theorem Chained.unreplayed (h : Chained t s) (env : LedgerEnv own)
    (caller : Address) (source target : SchemaVersion) (verificationHash : BytesN 32) :
    Avoids (.err .alreadyExecuted)
      (executeMigration env caller source target verificationHash s) := by
  apply Avoids.bind requireAuth_no_err
  intro _ _
  apply transitionKey_no_err.bind
  intro k hk
  obtain ⟨_, rfl⟩ := transitionKey_ok.mp hk
  apply requireVersion_no_replay.bind
  intro _ hv
  apply Avoids.bind (okOr_avoids_err (by decide))
  intro info _
  -- the branch of `AlreadyExecuted` is not taken
  apply Avoids.bind
  · rw [require, if_pos (h.unexecuted (requireVersion_ok.mp hv))]
    exact avoids_pure
  intro _ _
  exact checked_avoids (by decide) fun _ => avoids_pure

theorem verifyMigration_iff :
    verifyMigration i v s = true ↔ ∃ r, s.migrationReceiptById.get i = some r ∧ r.target = v := by
  unfold verifyMigration
  split
  · rename_i r hr
    simp [hr]
  · rename_i hr
    simp [hr]

theorem Chained.verified (h : Chained t s) :
    verifyMigration i v s = true ↔ ∃ n, i = n + 1 ∧ (targets t)[n]? = some v := by
  rw [verifyMigration_iff]
  cases i with
  | zero =>
    rw [h.byId.zero]
    exact iff_of_false nofun nofun
  | succ n =>
    rw [h.byId.succ]
    simp only [targets, List.getElem?_map, Option.map_eq_some_iff, Nat.add_right_cancel_iff,
      exists_eq_left']

theorem initialVersion_inRange : initialVersion.InRange := by
  simp [SchemaVersion.InRange, initialVersion]

/-- The executed migrations are numbered without a gap and form one chain of rising versions from
`1.0.0` to the version of the registry. -/
theorem migrations_forward (h : (machine own).Run .fresh t s) : Forward t s := by
  have hc := run_chained h
  have hrising := hc.pairwise
  rw [hc.links] at hrising
  constructor
  · exact hc.ids
  · exact hc.links
  · exact hrising
  · intro hr
    have hin : ∀ v ∈ initialVersion :: targets t, v.InRange :=
      List.forall_mem_cons.mpr ⟨initialVersion_inRange, hr⟩
    apply hrising.imp_of_mem
    intro v w hv hw hlt
    exact (packed_lt_iff (hin v hv) (hin w hw)).mp hlt
  · apply hrising.imp
    rintro v w hlt rfl
    exact absurd hlt (Nat.lt_irrefl _)
  · exact hc.unreplayed
  · exact fun i v => hc.verified
  · exact fun i hs => Machine.apply_of_none t hs

def majorBump : CompatibilityMeta := ⟨⟨1, 1, 0⟩, ⟨2, 0, 0⟩, true, []⟩

/-- Two migrations, one after the other. -/
def migrationCalls : List (LedgerEnv ⟨0⟩ × Call) :=
  bumpCalls ++
    [(callEnv, .registerTransition ⟨1⟩ majorBump),
      (callEnv, .executeMigration ⟨1⟩ ⟨1, 0, 0⟩ ⟨1, 1, 0⟩ (Vector.replicate 32 7)),
      (callEnv, .executeMigration ⟨2⟩ ⟨1, 1, 0⟩ ⟨2, 0, 0⟩ (Vector.replicate 32 8))]

example : (executed (perform migrationCalls).1).map MigrationReceipt.migrationId = [1, 2] := rfl

theorem migrations_forward_two : Forward (perform migrationCalls).1 (perform migrationCalls).2 :=
  migrations_forward ((machine ⟨0⟩).run_replay .fresh migrationCalls)

end Shelterflex.SchemaRegistry
