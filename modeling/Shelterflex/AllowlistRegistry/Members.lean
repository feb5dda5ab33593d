import Shelterflex.AllowlistRegistry.Model
import Shelterflex.Lib.Since

/-! The registry against the calls that the admin has made, and a batch of entries against the
entries one by one. -/

namespace Shelterflex.AllowlistRegistry
open Lib
set_option autoImplicit true

abbrev Step (own : Address) := Event State (LedgerEnv own × Call) (Option Nat)

abbrev History (own : Address) := List (Step own)

/-- A time at which an entry that expires at another counts. -/
def Current (expiresAt now : Nat) : Prop := expiresAt = 0 ∨ now < expiresAt

instance : Decidable (Current expiresAt now) := inferInstanceAs (Decidable (_ ∨ _))

theorem not_expired : ¬ (expiresAt ≠ 0 ∧ expiresAt ≤ now) ↔ Current expiresAt now := by
  rw [Current]
  omega

theorem isExpired_eq_false : isExpired entry now = false ↔ Current entry.expiresAt now := by
  rw [isExpired, decide_eq_false_iff_not]
  exact not_expired

def Item.entry (env : LedgerEnv own) (item : Item) : Entry :=
  ⟨item.label, item.expiresAt, env.sequence⟩

/-- The items that `bulk_add` does not skip. -/
def currentItems (env : LedgerEnv own) (entries : List Item) : List Item :=
  entries.filter fun item => Current item.expiresAt env.timestamp

def put (env : LedgerEnv own) (reg : Registry) (item : Item) : Registry :=
  reg.insert item.address (item.entry env)

section
variable {env : LedgerEnv own}

theorem bulkTurn_eq (acc : Registry × Nat) (item : Item) :
    bulkTurn env acc item = if Current item.expiresAt env.timestamp then
      u32Add acc.2 1 >>= fun count => .ok (put env acc.1 item, count) else .ok acc := by
  rw [bulkTurn, ← ite_not]
  exact if_congr not_expired rfl rfl

/-- The loop of `bulk_add` puts in the current items in order, and counts them. -/
theorem bulkLoop_ok (hn : n < 2 ^ 32) :
    entries.foldlM (bulkTurn env) (reg, n) = .ok (reg', n') ↔
      n + (currentItems env entries).length < 2 ^ 32 ∧
        n' = n + (currentItems env entries).length ∧
        reg' = (currentItems env entries).foldl (put env) reg := by
  induction entries generalizing reg n with
  | nil =>
    change Except.ok (reg, n) = .ok (reg', n') ↔ n < 2 ^ 32 ∧ n' = n ∧ reg' = reg
    rw [Except.ok.injEq, Prod.mk.injEq]
    exact ⟨fun ⟨hreg, hcount⟩ => ⟨hn, hcount.symm, hreg.symm⟩,
      fun ⟨_, hcount, hreg⟩ => ⟨hreg.symm, hcount.symm⟩⟩
  | cons item entries ih =>
    rw [List.foldlM_cons, bulkTurn_eq]
    by_cases hcur : Current item.expiresAt env.timestamp
    · have hitems : currentItems env (item :: entries) = item :: currentItems env entries :=
        List.filter_cons_of_pos (decide_eq_true hcur)
      rw [if_pos hcur, hitems, List.length_cons, List.foldl_cons]
      simp only [bind_ok, u32Add_ok, Except.ok.injEq]
      constructor
      · rintro ⟨_, ⟨_, ⟨hlt, rfl⟩, rfl⟩, h⟩
        obtain ⟨hfits, hcount, hreg⟩ := (ih hlt).mp h
        exact ⟨by omega, by omega, hreg⟩
      · rintro ⟨hfits, hcount, hreg⟩
        exact ⟨_, ⟨_, ⟨by omega, rfl⟩, rfl⟩, (ih (by omega)).mpr ⟨by omega, by omega, hreg⟩⟩
    · have hitems : currentItems env (item :: entries) = currentItems env entries :=
        List.filter_cons_of_neg (by simpa using hcur)
      rw [if_neg hcur, hitems, ok_bind]
      exact ih hn

/-- A call that the stored admin authorized. -/
structure ByAdmin (env : LedgerEnv own) (caller : Address) (s : State) : Prop where
  role : s.admin = some caller
  authorized : env.authorized caller = true

theorem byAdmin_iff {caller : Address} {s : State} : (env.authorized caller = true ∧
    ∃ adm, s.admin = some adm ∧ caller = adm) ↔ ByAdmin env caller s := by
  constructor
  · rintro ⟨ha, _, hr, rfl⟩
    exact ⟨hr, ha⟩
  · rintro ⟨hr, ha⟩
    exact ⟨ha, _, hr, rfl⟩

theorem add_ok : add env caller address label expiresAt s = .ok s' ↔
    ByAdmin env caller s ∧ Current expiresAt env.timestamp ∧
      s' = saveRegistry (put env (registry s) ⟨address, label, expiresAt⟩) s := by
  simp only [add, admin, bind_ok, requireAuth_ok, okOr_ok, require_ok, pure_ok, exists_const]
  rw [← byAdmin_iff]
  constructor
  · rintro ⟨ha, _, hr, rfl, hcur, rfl⟩
    exact ⟨⟨ha, _, hr, rfl⟩, not_expired.mp hcur, rfl⟩
  · rintro ⟨⟨ha, _, hr, rfl⟩, hcur, rfl⟩
    exact ⟨ha, _, hr, rfl, not_expired.mpr hcur, rfl⟩

theorem bulkAdd_ok : bulkAdd env caller entries s = .ok (n, s') ↔
    ByAdmin env caller s ∧ (currentItems env entries).length < 2 ^ 32 ∧
      n = (currentItems env entries).length ∧
      s' = saveRegistry ((currentItems env entries).foldl (put env) (registry s)) s := by
  simp only [bulkAdd, admin, bind_ok, requireAuth_ok, okOr_ok, require_ok, pure_ok, exists_const]
  rw [← byAdmin_iff]
  constructor
  · rintro ⟨ha, _, hr, rfl, ⟨reg, count⟩, hloop, he⟩
    obtain ⟨hfits, hcount, rfl⟩ := (bulkLoop_ok (by decide)).mp hloop
    cases he
    rw [Nat.zero_add] at hfits hcount
    exact ⟨⟨ha, _, hr, rfl⟩, hfits, hcount, rfl⟩
  · rintro ⟨⟨ha, _, hr, rfl⟩, hfits, rfl, rfl⟩
    refine ⟨ha, _, hr, rfl, (_, _), (bulkLoop_ok (by decide)).mpr ⟨?_, rfl, rfl⟩, ?_⟩
    · rwa [Nat.zero_add]
    · rw [Nat.zero_add]

end

/-! What the calls leave under an address. -/

/-- The last current item of an address. -/
def lastItem (env : LedgerEnv own) (entries : List Item) (address : Address) : Option Item :=
  (currentItems env entries).reverse.find? fun item => item.address = address

theorem get_foldl_put (env : LedgerEnv own) (items : List Item) (reg : Registry)
    (address : Address) : (items.foldl (put env) reg).get address =
      ((items.reverse.find? fun item => item.address = address).map (Item.entry env)).or
        (reg.get address) := by
  induction items generalizing reg with
  | nil => rfl
  | cons item items ih =>
    rw [List.foldl_cons, ih, List.reverse_cons, List.find?_append, put, Table.get_insert]
    cases (items.reverse.find? fun item => item.address = address) with
    | some found => rfl
    | none =>
      by_cases ha : item.address = address
      · subst ha
        simp
      · rw [Function.update_of_ne fun he => ha he.symm]
        simp [ha]

/-- What a call leaves under an address, if it is about the address. -/
def Call.effect (env : LedgerEnv own) (address : Address) : Call → Option (Option Entry)
  | .init _ => none
  | .add _ address' label expiresAt =>
    if address' = address then some (some ⟨label, expiresAt, env.sequence⟩) else none
  | .remove _ address' => if address' = address then some none else none
  | .bulkAdd _ entries => (lastItem env entries address).map fun item => some (item.entry env)

/-- What the last call about an address has left there. -/
def entryOf (address : Address) : History own → Option Entry
  | [] => none
  | e :: t => (e.input.2.effect e.input.1 address).getD (entryOf address t)

/-- The address in whose name a call is made, and the entries it makes. -/
inductive Changes (env : LedgerEnv own) (s s' : State) : Call → Prop where
  | init (hn : s.admin = none) (hs : s' = { s with admin := some newAdmin }) :
      Changes env s s' (.init newAdmin)
  | add (ha : ByAdmin env caller s) (hcur : Current expiresAt env.timestamp)
      (hs : s' = saveRegistry (put env (registry s) ⟨address, label, expiresAt⟩) s) :
      Changes env s s' (.add caller address label expiresAt)
  | remove (ha : ByAdmin env caller s)
      (hs : s' = saveRegistry ((registry s).erase address) s) :
      Changes env s s' (.remove caller address)
  | bulkAdd (ha : ByAdmin env caller s)
      (hs : s' = saveRegistry ((currentItems env entries).foldl (put env) (registry s)) s) :
      Changes env s s' (.bulkAdd caller entries)

theorem invoke_changes {env : LedgerEnv own} (h : invoke env s c = some (s', o)) :
    Changes env s s' c := by
  cases c with
  | init newAdmin =>
    obtain ⟨_, hs, he⟩ := commit_some.mp h
    cases he
    simp only [init, bind_ok, require_ok, pure_ok] at hs
    obtain ⟨_, hn, rfl⟩ := hs
    exact .init hn rfl
  | add caller address label expiresAt =>
    obtain ⟨_, hs, he⟩ := commit_some.mp h
    cases he
    obtain ⟨ha, hcur, rfl⟩ := add_ok.mp hs
    exact .add ha hcur rfl
  | remove caller address =>
    obtain ⟨_, hs, he⟩ := commit_some.mp h
    cases he
    simp only [remove, admin, bind_ok, requireAuth_ok, okOr_ok, require_ok, pure_ok,
      exists_const] at hs
    obtain ⟨ha, _, hr, rfl, _, rfl⟩ := hs
    exact .remove ⟨hr, ha⟩ rfl
  | bulkAdd caller entries =>
    obtain ⟨⟨_, _⟩, hs, he⟩ := commit_some.mp h
    cases he
    obtain ⟨ha, _, _, rfl⟩ := bulkAdd_ok.mp hs
    exact .bulkAdd ha rfl

section
variable {env : LedgerEnv own}

theorem registry_save (reg : Registry) (s : State) : registry (saveRegistry reg s) = reg := rfl

theorem Changes.get (h : Changes env s s' c) (address : Address) :
    (registry s').get address = (c.effect env address).getD ((registry s).get address) := by
  cases h with
  | init _ hs =>
    subst hs
    rfl
  | @add _ _ address' _ _ _ hs =>
    subst hs
    rw [registry_save, put, Table.get_insert, Call.effect]
    by_cases ha : address' = address
    · subst ha
      rw [Function.update_self, if_pos rfl]
      rfl
    · rw [Function.update_of_ne fun he => ha he.symm, if_neg ha]
      rfl
  | @remove _ address' _ hs =>
    subst hs
    rw [registry_save, Table.get_erase, Call.effect]
    by_cases ha : address' = address
    · subst ha
      rw [Function.update_self, if_pos rfl]
      rfl
    · rw [Function.update_of_ne fun he => ha he.symm, if_neg ha]
      rfl
  | bulkAdd _ hs =>
    subst hs
    rw [registry_save, get_foldl_put, Call.effect, lastItem]
    cases (currentItems env _).reverse.find? _ <;> rfl

theorem Changes.current (h : Changes env s s' c) (he : c.effect env address = some (some entry)) :
    Current entry.expiresAt env.timestamp ∧ entry.addedAt = env.sequence := by
  cases h with
  | init _ _ => cases he
  | add _ hcur _ =>
    rw [Call.effect] at he
    split at he
    · cases he
      exact ⟨hcur, rfl⟩
    · cases he
  | remove _ _ =>
    rw [Call.effect] at he
    split at he
    · cases he
    · cases he
  | bulkAdd _ _ =>
    obtain ⟨item, hitem, he⟩ := Option.map_eq_some_iff.mp he
    cases he
    have hmem := List.mem_reverse.mp (List.mem_of_find?_eq_some hitem)
    exact ⟨of_decide_eq_true (List.mem_filter.mp hmem).2, rfl⟩

end

/-- The caller that a call names. -/
def Call.caller : Call → Option Address
  | .init _ => none
  | .add caller _ _ _ => some caller
  | .remove caller _ => some caller
  | .bulkAdd caller _ => some caller

/-- The entry was made by an event, and nothing was left under the address since. -/
structure Made (address : Address) (entry : Entry) (e : Step own) : Prop where
  effect : e.input.2.effect e.input.1 address = some (some entry)
  current : Current entry.expiresAt e.input.1.timestamp
  addedAt : entry.addedAt = e.input.1.sequence

/-- The registry is what the calls of its one admin make of it. -/
structure Recorded (t : History own) (s : State) : Prop where
  get : ∀ address, (registry s).get address = entryOf address t
  made : ∀ address entry, entryOf address t = some entry →
    Since (Made address entry) (fun e => (e.input.2.effect e.input.1 address).isSome) t
  signed : ∀ e ∈ t, ∀ caller, e.input.2.caller = some caller →
    s.admin = some caller ∧ e.input.1.authorized caller = true

theorem Changes.admin_keeps {env : LedgerEnv own} (h : Changes env s s' c)
    (ha : s.admin = some a) : s'.admin = some a := by
  cases h with
  | init hn _ => cases hn.symm.trans ha
  | add _ _ hs | remove _ hs =>
    subst hs
    exact ha
  | bulkAdd _ hs =>
    subst hs
    exact ha

theorem Changes.signed {env : LedgerEnv own} (h : Changes env s s' c)
    (hc : c.caller = some caller) : s'.admin = some caller ∧ env.authorized caller = true := by
  cases h with
  | init _ _ => cases hc
  | add ha _ hs | remove ha hs =>
    cases hc
    subst hs
    exact ⟨ha.role, ha.authorized⟩
  | bulkAdd ha hs =>
    cases hc
    subst hs
    exact ⟨ha.role, ha.authorized⟩

theorem run_recorded (h : (machine own).Run .fresh t s) : Recorded t s := by
  refine h.invariant (P := Recorded) ⟨fun _ => rfl, nofun, nofun⟩ ?_
  rintro t s ⟨env, c⟩ s' o ⟨hget, hmade, hsigned⟩ hs
  have hch := invoke_changes hs
  refine ⟨fun address => ?_, fun address entry he => ?_, ?_⟩
  · rw [hch.get, hget]
    rfl
  · cases heff : c.effect env address with
    | none =>
      have he' : entryOf address t = some entry := by
        rw [entryOf] at he
        simp only [heff] at he
        exact he
      refine .earlier ?_ (hmade address entry he')
      simp only [heff, Option.isSome_none, Bool.false_eq_true, not_false_eq_true]
    | some left =>
      rw [entryOf] at he
      simp only [heff, Option.getD_some] at he
      subst he
      obtain ⟨hcur, hadded⟩ := hch.current heff
      exact .now ⟨heff, hcur, hadded⟩
  · intro e he caller hc
    rcases List.mem_cons.mp he with rfl | he
    · exact hch.signed hc
    · obtain ⟨hr, ha⟩ := hsigned e he caller hc
      exact ⟨hch.admin_keeps hr, ha⟩

/-- The call leaves something under the address, or takes away what is there. -/
def Touches (address : Address) (e : Step own) : Prop :=
  (e.input.2.effect e.input.1 address).isSome

theorem entryOf_since {t : History own} (h : Since (Made address entry) (Touches address) t) :
    entryOf address t = some entry := by
  induction h with
  | now ha =>
    rw [entryOf, ha.effect]
    rfl
  | @earlier e t hb _ ih =>
    rw [Touches, Bool.not_eq_true, Option.isSome_eq_false_iff, Option.isNone_iff_eq_none] at hb
    rw [entryOf, hb]
    exact ih

theorem Recorded.entry_iff {t : History own} (h : Recorded t s) :
    (registry s).get address = some entry ↔
      Since (Made address entry) (Touches address) t := by
  rw [h.get]
  exact ⟨h.made address entry, entryOf_since⟩

theorem getEntry_ok {env : LedgerEnv own} : getEntry env address s = .ok entry ↔
    (registry s).get address = some entry ∧ Current entry.expiresAt env.timestamp := by
  rw [getEntry]
  cases (registry s).get address with
  | none => exact ⟨nofun, fun h => nomatch h.1⟩
  | some entry' =>
    rw [← isExpired_eq_false]
    change (if isExpired entry' env.timestamp then _ else _) = _ ↔ _
    cases hexp : isExpired entry' env.timestamp with
    | true =>
      refine ⟨nofun, ?_⟩
      rintro ⟨he, hn⟩
      cases he
      cases hexp.symm.trans hn
    | false =>
      constructor
      · rintro ⟨⟩
        exact ⟨rfl, hexp⟩
      · rintro ⟨⟨⟩, _⟩
        rfl

theorem isMember_iff {env : LedgerEnv own} : isMember env address s = true ↔
    ∃ entry, getEntry env address s = .ok entry := by
  simp only [getEntry_ok, ← isExpired_eq_false]
  rw [isMember]
  cases (registry s).get address with
  | none => simp
  | some entry => simp [nowSecs]

/-- An address is a member exactly when the last call about it, by the one admin, left an entry
there whose time has not come; and the entry found is that one. -/
theorem members_exact (h : (machine own).Run .fresh t s) :
    (∀ (env : LedgerEnv own) address, isMember env address s = true ↔
      ∃ entry, Since (Made address entry) (Touches address) t ∧
        Current entry.expiresAt env.timestamp) ∧
    (∀ (env : LedgerEnv own) address entry, getEntry env address s = .ok entry ↔
      Since (Made address entry) (Touches address) t ∧ Current entry.expiresAt env.timestamp) ∧
    ∀ e ∈ t, ∀ caller, e.input.2.caller = some caller →
      s.admin = some caller ∧ e.input.1.authorized caller = true := by
  have hr := run_recorded h
  have hentry : ∀ (env : LedgerEnv own) address entry, getEntry env address s = .ok entry ↔
      Since (Made address entry) (Touches address) t ∧ Current entry.expiresAt env.timestamp := by
    intro env address entry
    rw [getEntry_ok, hr.entry_iff]
  refine ⟨fun env address => ?_, hentry, hr.signed⟩
  rw [isMember_iff]
  exact exists_congr fun entry => hentry env address entry

def signedEnv (timestamp sequence : Nat) : LedgerEnv ⟨0⟩ := ⟨.signed ⟨0⟩ timestamp, sequence⟩

/-- Of the items of a batch one has expired, and one address has two. -/
def sampleCalls : List (LedgerEnv ⟨0⟩ × Call) :=
  [(signedEnv 0 0, .init ⟨1⟩), (signedEnv 10 2, .add ⟨1⟩ ⟨5⟩ [1] 100),
    (signedEnv 20 4, .bulkAdd ⟨1⟩ [⟨⟨6⟩, [2], 15⟩, ⟨⟨7⟩, [3], 0⟩, ⟨⟨7⟩, [4], 50⟩]),
    (signedEnv 30 6, .remove ⟨1⟩ ⟨5⟩)]

def perform (cs : List (LedgerEnv ⟨0⟩ × Call)) : History ⟨0⟩ × State :=
  (machine ⟨0⟩).replay .fresh cs

theorem members_exact_batch :
    getEntry (signedEnv 49 10) ⟨7⟩ (perform sampleCalls).2 = .ok ⟨[4], 50, 4⟩ ∧
      Since (Made ⟨7⟩ ⟨[4], 50, 4⟩) (Touches ⟨7⟩) (perform sampleCalls).1 := by
  have hentry : getEntry (signedEnv 49 10) ⟨7⟩ (perform sampleCalls).2 = .ok ⟨[4], 50, 4⟩ := by
    decide +kernel
  obtain ⟨_, hall, _⟩ := members_exact ((machine ⟨0⟩).run_replay .fresh sampleCalls)
  exact ⟨hentry, ((hall (signedEnv 49 10) ⟨7⟩ ⟨[4], 50, 4⟩).mp hentry).1⟩

/-- The members at a time. -/
def members (env : LedgerEnv own) (s : State) : Set Address :=
  {address | isMember env address s = true}

theorem memberCount_eq (env : LedgerEnv own) (s : State) :
    memberCount env s = (members env s).ncard % 2 ^ 32 := by
  have hset : members env s = {address | ∃ entry, (registry s).get address = some entry ∧
      (! isExpired entry (nowSecs env)) = true} := by
    ext address
    simp only [members, Set.mem_ofPred_eq, isMember_iff, getEntry_ok, ← isExpired_eq_false,
      Bool.not_eq_true']
    rfl
  rw [memberCount, Table.count_eq_ncard, hset]

section
variable {env : LedgerEnv own}

/-- An item added on its own. -/
def addItem (env : LedgerEnv own) (caller : Address) (s : State) (item : Item) : Result State :=
  add env caller item.address item.label item.expiresAt s

theorem foldlM_addItem (ha : ByAdmin env caller s) (items : List Item)
    (hcur : ∀ item ∈ items, Current item.expiresAt env.timestamp) :
    ∃ s', items.foldlM (addItem env caller) s = .ok s' ∧
      registry s' = items.foldl (put env) (registry s) ∧ s'.admin = s.admin := by
  induction items generalizing s with
  | nil => exact ⟨s, rfl, rfl, rfl⟩
  | cons item items ih =>
    obtain ⟨hitem, hcur⟩ := List.forall_mem_cons.mp hcur
    have hadd : addItem env caller s item =
        .ok (saveRegistry (put env (registry s) item) s) := add_ok.mpr ⟨ha, hitem, rfl⟩
    obtain ⟨s', hs', hreg, hadm⟩ := ih
      (s := saveRegistry (put env (registry s) item) s) ⟨ha.role, ha.authorized⟩ hcur
    refine ⟨s', ?_, hreg, hadm⟩
    rw [List.foldlM_cons, hadd]
    exact hs'

theorem mem_currentItems {item : Item} :
    item ∈ currentItems env entries ↔ item ∈ entries ∧ Current item.expiresAt env.timestamp := by
  rw [currentItems, List.mem_filter, decide_eq_true_eq]

theorem members_put (env : LedgerEnv own) (items : List Item)
    (hcur : ∀ item ∈ items, Current item.expiresAt env.timestamp) (s : State) :
    members env (saveRegistry (items.foldl (put env) (registry s)) s) =
      members env s ∪ {address | ∃ item ∈ items, item.address = address} := by
  ext address
  simp only [members, Set.mem_union, Set.mem_ofPred_eq, isMember_iff, getEntry_ok, registry_save,
    get_foldl_put]
  cases hfind : items.reverse.find? fun item => item.address = address with
  | some item =>
    have hmem := List.mem_reverse.mp (List.mem_of_find?_eq_some hfind)
    have haddr : item.address = address := by simpa using List.find?_some hfind
    constructor
    · exact fun _ => .inr ⟨item, hmem, haddr⟩
    · exact fun _ => ⟨item.entry env, rfl, hcur item hmem⟩
  | none =>
    rw [Option.map_none, Option.none_or]
    constructor
    · exact .inl
    · rintro (h | ⟨item, hmem, haddr⟩)
      · exact h
      · have hnot := List.find?_eq_none.mp hfind item (List.mem_reverse.mpr hmem)
        exact absurd (decide_eq_true haddr) hnot

end

/-- A batch of the admin goes through whatever it holds, and is its current items added one by one.
It returns how many these are, while the members count once each, and those who are members already
do not count again. -/
theorem bulk_add_exact {env : LedgerEnv own} (ha : ByAdmin env caller s)
    (hfits : (entries.filter fun item => Current item.expiresAt env.timestamp).length < 2 ^ 32) :
    ∃ s', bulkAdd env caller entries s =
      .ok ((entries.filter fun item => Current item.expiresAt env.timestamp).length, s') ∧
    (∃ s'', (entries.filter fun item => Current item.expiresAt env.timestamp).foldlM
      (fun s item => add env caller item.address item.label item.expiresAt s) s = .ok s'' ∧
      registry s' = registry s'' ∧ s'.admin = s''.admin) ∧
    memberCount env s' = ({address | isMember env address s = true} ∪
      {address | ∃ item ∈ entries, item.address = address ∧
        Current item.expiresAt env.timestamp}).ncard % 2 ^ 32 := by
  have hcur : ∀ item ∈ currentItems env entries, Current item.expiresAt env.timestamp :=
    fun item hitem => (mem_currentItems.mp hitem).2
  refine ⟨_, bulkAdd_ok.mpr ⟨ha, hfits, rfl, rfl⟩, ?_, ?_⟩
  · obtain ⟨s'', hs'', hreg, hadm⟩ := foldlM_addItem ha (currentItems env entries) hcur
    exact ⟨s'', hs'', hreg.symm, hadm.symm⟩
  · rw [memberCount_eq, members_put env _ hcur, members]
    congr 3
    ext address
    simp only [Set.mem_ofPred_eq, mem_currentItems]
    exact exists_congr fun item => by rw [and_assoc, and_comm (a := Current _ _)]

/-- The address `5` is a member already, and the address `7` is twice in the batch. -/
def sampleItems : List Item := [⟨⟨5⟩, [2], 0⟩, ⟨⟨6⟩, [2], 15⟩, ⟨⟨7⟩, [3], 0⟩, ⟨⟨7⟩, [4], 50⟩]

def sampleState : State := ⟨some ⟨1⟩, some ((∅ : Registry).insert ⟨5⟩ ⟨[1], 100, 2⟩)⟩

theorem bulk_add_exact_twice : ∃ s', bulkAdd (signedEnv 20 4) ⟨1⟩ sampleItems sampleState =
      .ok (3, s') ∧
    memberCount (signedEnv 20 4) s' =
      ({address | isMember (signedEnv 20 4) address sampleState = true} ∪
        {address | ∃ item ∈ sampleItems, item.address = address ∧
          Current item.expiresAt 20}).ncard % 2 ^ 32 ∧
    memberCount (signedEnv 20 4) s' = 2 := by
  have hadmin : ByAdmin (signedEnv 20 4) ⟨1⟩ sampleState := ⟨rfl, rfl⟩
  have hfits : (sampleItems.filter fun item =>
      Current item.expiresAt (signedEnv 20 4).timestamp).length < 2 ^ 32 := by decide
  obtain ⟨s', hs', _, hcount⟩ := bulk_add_exact hadmin hfits
  obtain ⟨_, _, _, rfl⟩ := bulkAdd_ok.mp hs'
  exact ⟨_, hs', hcount, by decide +kernel⟩

end Shelterflex.AllowlistRegistry
