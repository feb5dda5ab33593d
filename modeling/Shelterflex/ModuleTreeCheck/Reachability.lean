import Shelterflex.ModuleTreeCheck.Declarations
import Shelterflex.ModuleTreeCheck.Files

/-! What the walk over the files of a crate finds. -/

namespace Shelterflex.ModuleTreeCheck
open Lib.Worklist Lib.RustLexer
set_option autoImplicit true

theorem extension_rs (name : Name) :
    extension name = some rs ↔ ∃ stem, stem ≠ [] ∧ name = stem ++ '.' :: rs := by
  constructor
  · intro h
    rw [extension] at h
    split at h
    · cases h
    · split at h
      · cases h
      · rename_i hlength
        have hafter := congrArg List.reverse (Option.some.inj h)
        rw [List.reverse_reverse] at hafter
        have hsplit := List.takeWhile_append_dropWhile (p := (· ≠ '.')) (l := name.reverse)
        rw [hafter] at hsplit
        cases hbefore : name.reverse.dropWhile (· ≠ '.') with
        | nil =>
          rw [hbefore] at hlength
          exact absurd Nat.zero_lt_two hlength
        | cons c stem =>
          have hc : c = '.' := by
            have hhead := List.head?_dropWhile_not (· ≠ '.') name.reverse
            rw [hbefore] at hhead
            simpa using hhead
          rw [hbefore] at hlength hsplit
          refine ⟨stem.reverse, ?_, ?_⟩
          · intro hnil
            rw [List.reverse_eq_nil_iff.1 hnil] at hlength
            exact hlength Nat.one_lt_two
          · rw [← List.reverse_reverse name, ← hsplit, hc]
            simp [rs]
  · rintro ⟨stem, hstem, rfl⟩
    have hreverse : (stem ++ '.' :: rs).reverse = 's' :: 'r' :: '.' :: stem.reverse := by
      simp [rs]
    have hpos := List.length_pos_iff.2 hstem
    have hdots : stem ++ '.' :: rs ≠ ['.', '.'] := by
      intro h
      have := congrArg List.length h
      simp [rs] at this
    rw [extension, if_neg hdots, hreverse, if_neg]
    · rfl
    · simp
      omega

/-! One turn of `reachable`. -/

section
variable {fs : FileSystem}

theorem resolveMod_isFile (h : resolveMod fs file name = some target) :
    fs.isFile target = true := by
  cases file with
  | nil => cases h
  | cons _ dir =>
    change (if fs.isFile _ then _ else if fs.isFile _ then _ else _) = some target at h
    split at h
    · cases h
      assumption
    · split at h
      · cases h
        assumption
      · cases h

/-- The names that a file declares, none if it cannot be read. -/
def declares (fs : FileSystem) (file : Path) : Outcome Empty (List Name) :=
  match fs.readToString file with
  | none => .ok []
  | some src => declaredMods src

/-- The real paths of the files that a file declares. -/
def declaredFiles (fs : FileSystem) (file : Path) : Outcome Empty (List Path) := do
  let names ← declares fs file
  return (names.filterMap (resolveMod fs file)).map fs.real

theorem foldl_declare (names : List Name) (w : Walk) :
    names.foldl (Walk.declare fs file) w =
      ⟨w.visited, w.unresolved ∪ (names.filter fun name => resolveMod fs file name = none).toFinset,
        (names.filterMap (resolveMod fs file)).reverse ++ w.queue⟩ := by
  induction names generalizing w with
  | nil => simp
  | cons name names ih =>
    rw [List.foldl_cons, ih, Walk.declare]
    cases hname : resolveMod fs file name with
    | none => simp [hname]
    | some target => simp [hname]

theorem turn_file (visited : Finset Path) (unresolved : Finset Name) (file : Path)
    (queue : List Path) :
    Walk.turn fs ⟨visited, unresolved, file :: queue⟩ =
      if fs.real file ∈ visited then .ok ⟨visited, unresolved, queue⟩
      else declares fs (fs.real file) >>= fun names =>
        .ok (names.foldl (Walk.declare fs (fs.real file))
          ⟨insert (fs.real file) visited, unresolved, queue⟩) := by
  simp only [Walk.turn, declares]
  split
  · rfl
  · cases fs.readToString (fs.real file) with
    | none => rfl
    | some src => rfl

theorem turn_cases (hturn : Walk.turn fs ⟨visited, unresolved, file :: queue⟩ = .ok w) :
    (fs.real file ∈ visited ∧ w = ⟨visited, unresolved, queue⟩) ∨
      (fs.real file ∉ visited ∧ ∃ names, declares fs (fs.real file) = .ok names ∧
        w = names.foldl (Walk.declare fs (fs.real file))
          ⟨insert (fs.real file) visited, unresolved, queue⟩) := by
  rw [turn_file] at hturn
  split at hturn
  · cases hturn
    exact .inl ⟨by assumption, rfl⟩
  · obtain ⟨names, hnames, hw⟩ := bind_ok.1 hturn
    exact .inr ⟨by assumption, names, hnames, (Except.ok.inj hw).symm⟩

theorem turn_error (hturn : Walk.turn fs ⟨visited, unresolved, file :: queue⟩ = .error fault) :
    declares fs (fs.real file) = .error fault := by
  rw [turn_file] at hturn
  split at hturn
  · cases hturn
  · cases hnames : declares fs (fs.real file) with
    | error e =>
      rw [hnames] at hturn
      cases hturn
      rfl
    | ok names =>
      rw [hnames] at hturn
      cases hturn

/-! The files that the declarations of a crate lead to. -/

def Declares (fs : FileSystem) (file : Path) (name : Name) : Prop :=
  ∃ names, declares fs file = .ok names ∧ name ∈ names

/-- A file declares a module, and the file of the module is there. -/
def Leads (fs : FileSystem) (file target : Path) : Prop :=
  ∃ name found, Declares fs file name ∧ resolveMod fs file name = some found ∧
    target = fs.real found

/-- The real path of `lib.rs` or of `main.rs`. -/
def CrateRoot (fs : FileSystem) (srcDir file : Path) : Prop :=
  ∃ name, (name = libRs ∨ name = mainRs) ∧ fs.isFile (srcDir.join name) = true ∧
    file = fs.real (srcDir.join name)

abbrev InTree (fs : FileSystem) (srcDir : Path) : Path → Prop :=
  Reached (Leads fs) (CrateRoot fs srcDir)

theorem edge_leads : Edge (declaredFiles fs) file target ↔ Leads fs file target := by
  constructor
  · rintro ⟨more, hmore, htarget⟩
    obtain ⟨names, hnames, hmap⟩ := bind_ok.1 hmore
    rw [← pure_ok.1 hmap, List.mem_map] at htarget
    obtain ⟨found, hfound, rfl⟩ := htarget
    obtain ⟨name, hname, hresolve⟩ := List.mem_filterMap.1 hfound
    exact ⟨name, found, ⟨names, hnames, hname⟩, hresolve, rfl⟩
  · rintro ⟨name, found, ⟨names, hnames, hname⟩, hresolve, rfl⟩
    refine ⟨_, bind_ok.2 ⟨names, hnames, rfl⟩, List.mem_map.2 ⟨found, ?_, rfl⟩⟩
    exact List.mem_filterMap.2 ⟨name, hname, hresolve⟩

theorem edge_inTree :
    Reached (Edge (declaredFiles fs)) (CrateRoot fs srcDir) = InTree fs srcDir := by
  rw [show Edge (declaredFiles fs) = Leads fs from
    funext fun _ => funext fun _ => propext edge_leads]

theorem mem_crateRoots :
    file ∈ ((crateRoots fs srcDir).reverse).map fs.real ↔ CrateRoot fs srcDir file := by
  simp only [crateRoots, List.mem_map, List.mem_reverse, List.mem_filter, CrateRoot, List.mem_cons,
    List.not_mem_nil, or_false]
  constructor
  · rintro ⟨_, ⟨⟨name, hname, rfl⟩, hfile⟩, rfl⟩
    exact ⟨name, hname, hfile, rfl⟩
  · rintro ⟨name, hname, hfile, rfl⟩
    exact ⟨_, ⟨⟨name, hname, rfl⟩, hfile⟩, rfl⟩

/-! The walk as a search for these files. -/

structure Walk.Traced (fs : FileSystem) (srcDir : Path) (w : Walk) : Prop where
  search : Lib.Worklist.Invariant (declaredFiles fs) (CrateRoot fs srcDir)
    ⟨w.visited, w.queue.map fs.real⟩
  unresolved : ∀ name, name ∈ w.unresolved ↔
    ∃ file ∈ w.visited, Declares fs file name ∧ resolveMod fs file name = none
  isFile : ∀ file ∈ w.queue, fs.isFile file = true

theorem Walk.Traced.start (fs : FileSystem) (srcDir : Path) :
    Walk.Traced fs srcDir ⟨∅, ∅, (crateRoots fs srcDir).reverse⟩ where
  search := by
    have h : Lib.Worklist.Invariant (declaredFiles fs)
        (· ∈ (crateRoots fs srcDir).reverse.map fs.real)
        ⟨∅, (crateRoots fs srcDir).reverse.map fs.real⟩ := .start _
    rwa [show (· ∈ (crateRoots fs srcDir).reverse.map fs.real) = CrateRoot fs srcDir from
      funext fun _ => propext mem_crateRoots] at h
  unresolved name := by simp
  isFile file h := (List.mem_filter.1 (List.mem_reverse.1 h)).2

theorem Walk.Traced.turn (h : Walk.Traced fs srcDir w) (hmore : w.more = true)
    (hturn : Walk.turn fs w = .ok w') : Walk.Traced fs srcDir w' := by
  obtain ⟨visited, unresolved, queue⟩ := w
  cases queue with
  | nil => cases hmore
  | cons file queue =>
    obtain ⟨hseen, rfl⟩ | ⟨hnew, names, hnames, rfl⟩ := turn_cases hturn
    · exact ⟨h.search.skip hseen, h.unresolved, fun f hf => h.isFile f (List.mem_cons_of_mem _ hf)⟩
    · rw [foldl_declare]
      have hmore : declaredFiles fs (fs.real file) =
          .ok ((names.filterMap (resolveMod fs (fs.real file))).map fs.real) := by
        rw [declaredFiles, hnames]
        rfl
      refine ⟨h.search.open hmore ?_, ?_, ?_⟩
      · intro target
        simp only [List.map_append, List.map_reverse, List.mem_append, List.mem_reverse]
      · intro name
        have hdeclares : Declares fs (fs.real file) name ↔ name ∈ names := by
          rw [Declares, hnames]
          constructor
          · rintro ⟨_, ⟨⟩, hname⟩
            exact hname
          · exact fun hname => ⟨names, rfl, hname⟩
        rw [Finset.mem_union, h.unresolved, List.mem_toFinset, List.mem_filter]
        simp only [Finset.mem_insert, exists_eq_or_imp, hdeclares, decide_eq_true_eq]
        exact or_comm
      · intro target htarget
        rcases List.mem_append.1 htarget with htarget | htarget
        · obtain ⟨name, _, hname⟩ := List.mem_filterMap.1 (List.mem_reverse.1 htarget)
          exact resolveMod_isFile hname
        · exact h.isFile target (List.mem_cons_of_mem _ htarget)

theorem Walk.Traced.down (h : Walk.Traced fs srcDir w) (hmore : w.more = true)
    (hturn : Walk.turn fs w = .ok w') :
    remaining fs.files ⟨w'.visited, w'.queue⟩ < remaining fs.files ⟨w.visited, w.queue⟩ := by
  obtain ⟨visited, unresolved, queue⟩ := w
  cases queue with
  | nil => cases hmore
  | cons file queue =>
    obtain ⟨_, rfl⟩ | ⟨hnew, names, _, rfl⟩ := turn_cases hturn
    · exact remaining_skip fs.files visited file queue
    · rw [foldl_declare]
      exact remaining_open hnew (fs.real_mem file (h.isFile file List.mem_cons_self)) _ _

/-- What `reachable` returns: the files of the module tree, and the declarations in them that name
no file. -/
theorem reachable_exact (fs : FileSystem) (srcDir : Path) : ∃ n, ∀ fuel ≥ n,
    match reachable fs fuel srcDir with
    | .ok none => False
    | .ok (some (visited, unresolved)) =>
      (∀ file, file ∈ visited ↔ InTree fs srcDir file) ∧
        (∀ name, name ∈ unresolved ↔ ∃ file, InTree fs srcDir file ∧ Declares fs file name ∧
          resolveMod fs file name = none) ∧
        ∀ file, InTree fs srcDir file → ∃ names, declares fs file = .ok names
    | .error fault => ∃ file, InTree fs srcDir file ∧ declares fs file = .error fault := by
  have hstart := Walk.Traced.start fs srcDir
  have hkeep : ∀ w w', Walk.Traced fs srcDir w → w.more = true → Walk.turn fs w = .ok w' →
      Walk.Traced fs srcDir w' := fun _ _ h hmore hturn => h.turn hmore hturn
  obtain ⟨n, hn⟩ := loop_ends hkeep wellFounded_lt
    (fun w => remaining fs.files ⟨w.visited, w.queue⟩)
    (fun _ _ h hmore hturn => h.down hmore hturn) hstart
  refine ⟨n, fun fuel hfuel => ?_⟩
  obtain ⟨hdone, hfail⟩ := loop_rule hkeep hstart fuel
  rw [reachable]
  cases hloop : loop Walk.more (Walk.turn fs) fuel
      ⟨∅, ∅, (crateRoots fs srcDir).reverse⟩ with
  | error fault =>
    obtain ⟨⟨visited, unresolved, queue⟩, h, hmore, hturn⟩ := hfail fault hloop
    cases queue with
    | nil => cases hmore
    | cons file queue =>
      exact ⟨fs.real file, edge_inTree ▸ h.search.reached _ (.inr List.mem_cons_self),
        turn_error hturn⟩
  | ok walk =>
    cases walk with
    | none => exact hn fuel hfuel hloop
    | some w =>
      obtain ⟨h, hmore⟩ := hdone w hloop
      obtain ⟨visited, unresolved, queue⟩ := w
      have hempty : queue = [] := by
        cases queue with
        | nil => rfl
        | cons => cases hmore
      subst hempty
      have hvisited : ∀ file, file ∈ visited ↔ InTree fs srcDir file := by
        intro file
        rw [h.search.finished, edge_inTree]
      refine ⟨hvisited, ?_, ?_⟩
      · intro name
        rw [h.unresolved]
        exact exists_congr fun file => and_congr_left' (hvisited file)
      · intro file hfile
        obtain ⟨more, hmore, _⟩ := h.search.opened file ((hvisited file).2 hfile)
        obtain ⟨names, hnames, _⟩ := bind_ok.1 hmore
        exact ⟨names, hnames⟩

/-! The Rust files below a directory. -/

/-- A directory right below another. -/
def Below (fs : FileSystem) (dir child : Path) : Prop :=
  ∃ name ∈ (fs.readDir dir).getD [], child = dir.join name ∧ fs.isDir child = true

/-- An entry `STEM.rs` of a directory, if it is no directory itself. -/
def RustEntry (fs : FileSystem) (dir file : Path) : Prop :=
  ∃ stem, stem ≠ [] ∧ stem ++ '.' :: rs ∈ (fs.readDir dir).getD [] ∧
    file = dir.join (stem ++ '.' :: rs) ∧ fs.isDir file = false

/-- A Rust file at any depth below a directory. -/
def RustFile (fs : FileSystem) (srcDir file : Path) : Prop :=
  ∃ dir, Reached (Below fs) (· = srcDir) dir ∧ RustEntry fs dir file

theorem foldl_add (paths : List Path) (l : Listing) :
    paths.foldl (Listing.add fs) l =
      ⟨l.out ∪ (paths.filter fun p => fs.isDir p = false ∧ p.extension = some rs).toFinset,
        (paths.filter fs.isDir).reverse ++ l.stack⟩ := by
  induction paths generalizing l with
  | nil => simp
  | cons path paths ih =>
    rw [List.foldl_cons, ih, Listing.add]
    cases hdir : fs.isDir path with
    | true => simp [hdir]
    | false =>
      by_cases hrs : path.extension = some rs
      · simp [hdir, hrs]
      · simp [hdir, hrs]

theorem listing_turn (out : Finset Path) (dir : Path) (stack : List Path) :
    Listing.turn fs ⟨out, dir :: stack⟩ =
      .ok ((((fs.readDir dir).getD []).map dir.join).foldl (Listing.add fs) ⟨out, stack⟩) := by
  simp only [Listing.turn]
  cases fs.readDir dir with
  | none => rfl
  | some entries => rfl

theorem mem_subdirs : child ∈ (((fs.readDir dir).getD []).map dir.join).filter fs.isDir ↔
    Below fs dir child := by
  rw [List.mem_filter, List.mem_map]
  constructor
  · rintro ⟨⟨name, hname, rfl⟩, hdir⟩
    exact ⟨name, hname, rfl, hdir⟩
  · rintro ⟨name, hname, rfl, hdir⟩
    exact ⟨⟨name, hname, rfl⟩, hdir⟩

theorem mem_rustEntries : file ∈ ((((fs.readDir dir).getD []).map dir.join).filter
    fun p => fs.isDir p = false ∧ p.extension = some rs).toFinset ↔ RustEntry fs dir file := by
  rw [List.mem_toFinset, List.mem_filter, List.mem_map]
  constructor
  · rintro ⟨⟨name, hname, rfl⟩, hfile⟩
    obtain ⟨hdir, hext⟩ := of_decide_eq_true hfile
    obtain ⟨stem, hstem, rfl⟩ := (extension_rs name).1 hext
    exact ⟨stem, hstem, hname, rfl, hdir⟩
  · rintro ⟨stem, hstem, hname, rfl, hdir⟩
    exact ⟨⟨_, hname, rfl⟩, decide_eq_true ⟨hdir, (extension_rs _).2 ⟨stem, hstem, rfl⟩⟩⟩

/-- The Rust files listed, with those that the stack still leads to. -/
def Listing.Complete (fs : FileSystem) (srcDir : Path) (l : Listing) : Prop :=
  ∀ file, RustFile fs srcDir file ↔
    file ∈ l.out ∨ ∃ dir, Reached (Below fs) (· ∈ l.stack) dir ∧ RustEntry fs dir file

theorem Listing.Complete.turn (h : Listing.Complete fs srcDir l) (hmore : l.more = true)
    (hturn : Listing.turn fs l = .ok l') : Listing.Complete fs srcDir l' := by
  obtain ⟨out, stack⟩ := l
  cases stack with
  | nil => cases hmore
  | cons dir stack =>
    rw [listing_turn] at hturn
    cases hturn
    intro file
    rw [h file, foldl_add]
    simp only [Finset.mem_union, mem_rustEntries]
    have hopen : ∀ d, Reached (Below fs) (· ∈ dir :: stack) d ↔ d = dir ∨ Reached (Below fs) (· ∈
        ((((fs.readDir dir).getD []).map dir.join).filter fs.isDir).reverse ++ stack) d := by
      intro d
      apply reached_open
      intro child
      rw [List.mem_append, List.mem_reverse, mem_subdirs]
    simp only [hopen, or_and_right, exists_or, exists_eq_left]
    exact or_assoc.symm

theorem listing_down (hmore : l.more = true) (hturn : Listing.turn fs l = .ok l') :
    Relation.CutExpand (fun child dir => Below fs dir child)
      (l'.stack : Multiset Path) l.stack := by
  obtain ⟨out, stack⟩ := l
  cases stack with
  | nil => cases hmore
  | cons dir stack =>
    rw [listing_turn] at hturn
    cases hturn
    rw [foldl_add]
    refine cut_down (fun child hchild => ?_) stack
    exact mem_subdirs.1 (List.mem_reverse.1 hchild)

theorem allRsFiles_exact (fs : FileSystem) (srcDir : Path) : ∃ n, ∀ fuel ≥ n, ∃ out,
    allRsFiles fs fuel srcDir = .ok (some out) ∧ ∀ file, file ∈ out ↔ RustFile fs srcDir file := by
  have hstart : Listing.Complete fs srcDir ⟨∅, [srcDir]⟩ := by
    intro file
    simp only [Finset.notMem_empty, false_or, List.mem_singleton]
    exact Iff.rfl
  have hkeep : ∀ l l', Listing.Complete fs srcDir l → l.more = true → Listing.turn fs l = .ok l' →
      Listing.Complete fs srcDir l' := fun _ _ h hmore hturn => h.turn hmore hturn
  obtain ⟨n, hn⟩ := loop_ends hkeep (WellFounded.cutExpand fs.deep)
    (fun l => (l.stack : Multiset Path)) (fun _ _ _ hmore hturn => listing_down hmore hturn) hstart
  refine ⟨n, fun fuel hfuel => ?_⟩
  obtain ⟨hdone, hfail⟩ := loop_rule hkeep hstart fuel
  rw [allRsFiles]
  cases hloop : loop Listing.more (Listing.turn fs) fuel ⟨∅, [srcDir]⟩ with
  | error fault =>
    obtain ⟨⟨out, stack⟩, _, hmore, hturn⟩ := hfail fault hloop
    cases stack with
    | nil => cases hmore
    | cons dir stack =>
      rw [listing_turn] at hturn
      cases hturn
  | ok listing =>
    cases listing with
    | none => exact absurd hloop (hn fuel hfuel)
    | some l =>
      obtain ⟨h, hmore⟩ := hdone l hloop
      obtain ⟨out, stack⟩ := l
      refine ⟨out, rfl, fun file => ?_⟩
      cases stack with
      | cons => cases hmore
      | nil =>
        rw [h file]
        refine ⟨.inl, fun h => h.resolve_right ?_⟩
        rintro ⟨dir, ⟨_, hroot, _⟩, _⟩
        exact List.not_mem_nil hroot

theorem findUnreachable_dir (hdir : fs.isDir (Path.join crateDir "src".toList) = true)
    (hreach : reachable fs fuel (Path.join crateDir "src".toList) =
      .ok (some (visited, unresolved)))
    (hfiles : allRsFiles fs fuel (Path.join crateDir "src".toList) = .ok (some out)) :
    findUnreachableInCrate fs fuel crateDir =
      .ok (some ⟨out.filter fun file => fs.real file ∉ visited, unresolved⟩) := by
  simp only [findUnreachableInCrate, hdir, hreach, hfiles]
  rfl

end

/-- On any host, whatever its links and texts are: the walk over a crate ends, with a fault if a
file of the module tree has more open braces than are counted, and else with the Rust files that
are not in the tree and the names declared in it that no file holds. A crate without sources gets
an empty report. -/
theorem find_unreachable_exact (fs : FileSystem) (crateDir : Path) :
    (fs.isDir (crateDir.join "src".toList) = false →
      ∀ fuel, findUnreachableInCrate fs fuel crateDir = .ok (some ⟨∅, ∅⟩)) ∧
    (fs.isDir (crateDir.join "src".toList) = true → ∃ n, ∀ fuel ≥ n,
      match findUnreachableInCrate fs fuel crateDir with
      | .ok none => False
      | .ok (some report) =>
        (∀ file, file ∈ report.unreachable ↔ RustFile fs (crateDir.join "src".toList) file ∧
          ¬ InTree fs (crateDir.join "src".toList) (fs.real file)) ∧
        (∀ name, name ∈ report.unresolved ↔ ∃ file,
          InTree fs (crateDir.join "src".toList) file ∧ Declares fs file name ∧
            resolveMod fs file name = none) ∧
        ∀ file, InTree fs (crateDir.join "src".toList) file →
          ∃ names, declares fs file = .ok names
      | .error fault => ∃ file, InTree fs (crateDir.join "src".toList) file ∧
          declares fs file = .error fault) := by
  refine ⟨fun hdir fuel => ?_, fun hdir => ?_⟩
  · simp only [findUnreachableInCrate, hdir]
    rfl
  obtain ⟨n₁, hreach⟩ := reachable_exact fs (crateDir.join "src".toList)
  obtain ⟨n₂, hlist⟩ := allRsFiles_exact fs (crateDir.join "src".toList)
  refine ⟨max n₁ n₂, fun fuel hfuel => ?_⟩
  have hwalk := hreach fuel (le_of_max_le_left hfuel)
  obtain ⟨out, hout, hmem⟩ := hlist fuel (le_of_max_le_right hfuel)
  cases hres : reachable fs fuel (crateDir.join "src".toList) with
  | error fault =>
    rw [hres] at hwalk
    simp only [findUnreachableInCrate, hdir, hres]
    exact hwalk
  | ok found =>
    rw [hres] at hwalk
    obtain _ | ⟨visited, unresolved⟩ := found
    · exact hwalk.elim
    · obtain ⟨hvisited, hunresolved, hscan⟩ := hwalk
      rw [findUnreachable_dir hdir hres hout]
      refine ⟨fun file => ?_, hunresolved, hscan⟩
      rw [Finset.mem_filter, hmem, hvisited]

def sampleSrc : Path := ["src".toList, "crate".toList]

/-- A crate with a module, and a file that no declaration names. -/
def sampleTexts : List (Path × List Char) := [
  (sampleSrc.join libRs, "mod alpha;".toList),
  ((sampleSrc.join "alpha".toList).join modRs, []),
  (sampleSrc.join "orphan.rs".toList, [])]

theorem find_unreachable_sample : ∃ n, ∀ fuel ≥ n,
    findUnreachableInCrate (disk sampleTexts) fuel ["crate".toList] ≠ .ok none := by
  obtain ⟨n, hn⟩ :=
    (find_unreachable_exact (disk sampleTexts) ["crate".toList]).2 (by decide +kernel)
  refine ⟨n, fun fuel hfuel hnone => ?_⟩
  have h := hn fuel hfuel
  rw [hnone] at h
  exact h

example : findUnreachableInCrate (disk sampleTexts) 4 ["crate".toList] =
    .ok (some ⟨{sampleSrc.join "orphan.rs".toList}, ∅⟩) := by decide +kernel

end Shelterflex.ModuleTreeCheck
