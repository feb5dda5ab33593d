import Shelterflex.ModuleTreeCheck.Reachability

/-! The report of a crate, against the module tree that Rust compiles. -/

namespace Shelterflex.ModuleTreeCheck
open Lib.Worklist Lib.RustLexer
set_option autoImplicit true

/-- No module is declared inside of an inline one. -/
def Outermost (code : List Lexeme) : Prop :=
  ∀ i < code.length, code[i]? = some modWord → code[i + 2]? = some (.punct ';') →
    braces (code.take i) = 0

instance : Decidable (Outermost code) := Nat.decidableBallLT _ _

/-- The attributes by which a module is left out, or found in another file. -/
def placing : List (List Char) := ["cfg".toList, "cfg_attr".toList, "path".toList]

/-- No attribute has a say in which files are compiled. -/
def Unplaced (code : List Lexeme) : Prop :=
  ∀ i < code.length, code[i]? = some (.punct '[') →
    ∀ name ∈ code[i + 1]?.bind nameOf, placing.contains name = false

instance : Decidable (Unplaced code) := Nat.decidableBallLT _ _

/-- The files of the modules that Rust compiles, when all are declared outermost and none is placed
by an attribute, each with the directory in which it looks for the files of the modules declared
there. A module with a file in both places is an error. -/
inductive Compiled (fs : FileSystem) (lexemes : Path → List Lexeme) (srcDir : Path) :
    Path → Path → Prop
  | root (hname : name = libRs ∨ name = mainRs) (hfile : fs.isFile (srcDir.join name) = true) :
    Compiled fs lexemes srcDir (srcDir.join name) srcDir
  | flat (h : Compiled fs lexemes srcDir file dir)
    (hname : name ∈ modDeclarations (lexemes file))
    (hfile : fs.isFile (dir.join (name ++ '.' :: rs)) = true)
    (hnested : fs.isFile ((dir.join name).join modRs) = false) :
    Compiled fs lexemes srcDir (dir.join (name ++ '.' :: rs)) (dir.join name)
  | nested (h : Compiled fs lexemes srcDir file dir)
    (hname : name ∈ modDeclarations (lexemes file))
    (hflat : fs.isFile (dir.join (name ++ '.' :: rs)) = false)
    (hfile : fs.isFile ((dir.join name).join modRs) = true) :
    Compiled fs lexemes srcDir ((dir.join name).join modRs) (dir.join name)

/-- Neither of the files that may hold the module is there. -/
def Missing (fs : FileSystem) (dir : Path) (name : Name) : Prop :=
  fs.isFile (dir.join (name ++ '.' :: rs)) = false ∧ fs.isFile ((dir.join name).join modRs) = false

/-- A crate of texts that the scanner reads, without links, in which a file that declares modules
does so outermost and without placing attributes, and has their files beside it, one a module. -/
structure PlainCrate (xid : Xid) (fs : FileSystem) (lexemes : Path → List Lexeme)
    (srcDir : Path) : Prop where
  texts : ∀ file dir, Compiled fs lexemes srcDir file dir →
    ∃ src, fs.readToString file = some src ∧ RustText xid src (lexemes file) ∧
      Plain src (lexemes file)
  outermost : ∀ file dir, Compiled fs lexemes srcDir file dir → Outermost (codeOf (lexemes file))
  unplaced : ∀ file dir, Compiled fs lexemes srcDir file dir → Unplaced (codeOf (lexemes file))
  linkless : ∀ p, fs.real p = p
  beside : ∀ file dir, Compiled fs lexemes srcDir file dir →
    modDeclarations (lexemes file) ≠ [] → file.parent = some dir
  single : ∀ file dir, Compiled fs lexemes srcDir file dir →
    ∀ name ∈ modDeclarations (lexemes file),
    fs.isFile (dir.join (name ++ '.' :: rs)) = true →
      fs.isFile ((dir.join name).join modRs) = false

theorem resolveMod_parent (h : Path.parent file = some dir) (fs : FileSystem) (name : Name) :
    resolveMod fs file name =
      if fs.isFile (dir.join (name ++ '.' :: rs)) then some (dir.join (name ++ '.' :: rs))
      else if fs.isFile ((dir.join name).join modRs) then some ((dir.join name).join modRs)
      else none := by
  rw [resolveMod, h]
  rfl

section
variable {xid : Xid} {fs : FileSystem} {lexemes : Path → List Lexeme} {srcDir : Path}

theorem PlainCrate.declares (hc : PlainCrate xid fs lexemes srcDir)
    (h : Compiled fs lexemes srcDir file dir) :
    Declares fs file name ↔ name ∈ modDeclarations (lexemes file) := by
  obtain ⟨src, hsrc, hrust, hplain⟩ := hc.texts file dir h
  have hok : ModuleTreeCheck.declares fs file = .ok (modDeclarations (lexemes file)) := by
    rw [ModuleTreeCheck.declares, hsrc]
    exact declaredMods_found hrust hplain
  rw [Declares, hok]
  constructor
  · rintro ⟨_, ⟨⟩, hname⟩
    exact hname
  · exact fun hname => ⟨_, rfl, hname⟩

theorem PlainCrate.parent (hc : PlainCrate xid fs lexemes srcDir)
    (h : Compiled fs lexemes srcDir file dir) (hname : name ∈ modDeclarations (lexemes file)) :
    file.parent = some dir :=
  hc.beside file dir h (List.ne_nil_of_mem hname)

theorem PlainCrate.missing (hc : PlainCrate xid fs lexemes srcDir)
    (h : Compiled fs lexemes srcDir file dir) (hname : name ∈ modDeclarations (lexemes file)) :
    resolveMod fs file name = none ↔ Missing fs dir name := by
  rw [resolveMod_parent (hc.parent h hname), Missing]
  split
  · simp_all
  · split
    · simp_all
    · simp_all

/-- The checker reaches the files that Rust compiles. -/
theorem PlainCrate.inTree (hc : PlainCrate xid fs lexemes srcDir) :
    InTree fs srcDir file ↔ ∃ dir, Compiled fs lexemes srcDir file dir := by
  constructor
  · intro h
    refine h.closed (P := fun file => ∃ dir, Compiled fs lexemes srcDir file dir) ?_ ?_
    · rintro _ ⟨name, hname, hfile, rfl⟩
      rw [hc.linkless]
      exact ⟨srcDir, .root hname hfile⟩
    · rintro file _ ⟨dir, h⟩ ⟨name, found, hname, hfound, rfl⟩
      rw [hc.declares h] at hname
      rw [hc.linkless]
      rw [resolveMod_parent (hc.parent h hname)] at hfound
      split at hfound
      · cases hfound
        exact ⟨_, .flat h hname ‹_› (hc.single file dir h name hname ‹_›)⟩
      · split at hfound
        · cases hfound
          exact ⟨_, .nested h hname (Bool.eq_false_of_not_eq_true ‹_›) ‹_›⟩
        · cases hfound
  · rintro ⟨dir, h⟩
    induction h with
    | @root name hname hfile => exact .of_root ⟨name, hname, hfile, (hc.linkless _).symm⟩
    | @flat file dir name h hname hfile _ ih =>
      refine ih.tail ⟨name, _, (hc.declares h).2 hname, ?_, (hc.linkless _).symm⟩
      rw [resolveMod_parent (hc.parent h hname), if_pos hfile]
    | @nested file dir name h hname hflat hfile ih =>
      refine ih.tail ⟨name, _, (hc.declares h).2 hname, ?_, (hc.linkless _).symm⟩
      rw [resolveMod_parent (hc.parent h hname), hflat, if_neg Bool.false_ne_true, if_pos hfile]

end

/-- The report names the Rust files that are not compiled and the modules without a file, so it is
clean exactly for a crate whose module tree is whole. -/
theorem report_exact {xid : Xid} {fs : FileSystem} {lexemes : Path → List Lexeme}
    {crateDir : Path} (hdir : fs.isDir (crateDir.join "src".toList) = true)
    (hc : PlainCrate xid fs lexemes (crateDir.join "src".toList)) :
    ∃ n, ∀ fuel ≥ n, ∃ report, findUnreachableInCrate fs fuel crateDir = .ok (some report) ∧
      (∀ file, file ∈ report.unreachable ↔ RustFile fs (crateDir.join "src".toList) file ∧
        ∀ dir, ¬ Compiled fs lexemes (crateDir.join "src".toList) file dir) ∧
      (∀ name, name ∈ report.unresolved ↔
        ∃ file dir, Compiled fs lexemes (crateDir.join "src".toList) file dir ∧
          name ∈ modDeclarations (lexemes file) ∧ Missing fs dir name) ∧
      (report.isClean = true ↔
        (∀ file, RustFile fs (crateDir.join "src".toList) file →
          ∃ dir, Compiled fs lexemes (crateDir.join "src".toList) file dir) ∧
        ∀ file dir name, Compiled fs lexemes (crateDir.join "src".toList) file dir →
          name ∈ modDeclarations (lexemes file) → ¬ Missing fs dir name) := by
  obtain ⟨n₁, hreach⟩ := reachable_exact fs (crateDir.join "src".toList)
  obtain ⟨n₂, hlist⟩ := allRsFiles_exact fs (crateDir.join "src".toList)
  refine ⟨max n₁ n₂, fun fuel hfuel => ?_⟩
  have hwalk := hreach fuel (le_of_max_le_left hfuel)
  obtain ⟨out, hout, hmem⟩ := hlist fuel (le_of_max_le_right hfuel)
  have htree : ∀ file, InTree fs (crateDir.join "src".toList) file ↔
      ∃ dir, Compiled fs lexemes (crateDir.join "src".toList) file dir := fun _ => hc.inTree
  cases hres : reachable fs fuel (crateDir.join "src".toList) with
  | error fault =>
    rw [hres] at hwalk
    obtain ⟨file, hfile, hfault⟩ := hwalk
    obtain ⟨dir, h⟩ := (htree file).1 hfile
    obtain ⟨src, hsrc, hrust, hplain⟩ := hc.texts file dir h
    rw [declares, hsrc] at hfault
    change declaredMods src = _ at hfault
    rw [declaredMods_found hrust hplain] at hfault
    cases hfault
  | ok found =>
    rw [hres] at hwalk
    obtain _ | ⟨visited, unresolved⟩ := found
    · exact hwalk.elim
    · obtain ⟨hvisited, hunresolved, _⟩ := hwalk
      refine ⟨_, findUnreachable_dir hdir hres hout, ?_⟩
      have hunreachable : ∀ file, file ∈ out.filter (fun file => fs.real file ∉ visited) ↔
          RustFile fs (crateDir.join "src".toList) file ∧
            ∀ dir, ¬ Compiled fs lexemes (crateDir.join "src".toList) file dir := by
        intro file
        rw [Finset.mem_filter, hmem, hvisited, hc.linkless, htree, not_exists]
      have hmissing : ∀ name, name ∈ unresolved ↔
          ∃ file dir, Compiled fs lexemes (crateDir.join "src".toList) file dir ∧
            name ∈ modDeclarations (lexemes file) ∧ Missing fs dir name := by
        intro name
        rw [hunresolved]
        constructor
        · rintro ⟨file, hfile, hname, hnone⟩
          obtain ⟨dir, h⟩ := (htree file).1 hfile
          have hname := (hc.declares h).1 hname
          exact ⟨file, dir, h, hname, (hc.missing h hname).1 hnone⟩
        · rintro ⟨file, dir, h, hname, hnone⟩
          exact ⟨file, (htree file).2 ⟨dir, h⟩, (hc.declares h).2 hname,
            (hc.missing h hname).2 hnone⟩
      refine ⟨hunreachable, hmissing, ?_⟩
      simp only [Report.isClean, decide_eq_true_eq, Finset.eq_empty_iff_forall_notMem,
        hunreachable, hmissing]
      constructor
      · rintro ⟨hfiles, hnames⟩
        constructor
        · intro file hfile
          by_contra hnone
          exact hfiles file ⟨hfile, fun dir h => hnone ⟨dir, h⟩⟩
        · exact fun file dir name h hname hnone => hnames name ⟨file, dir, h, hname, hnone⟩
      · rintro ⟨hfiles, hnames⟩
        constructor
        · rintro file ⟨hfile, hnone⟩
          obtain ⟨dir, h⟩ := hfiles file hfile
          exact hnone dir h
        · rintro name ⟨file, dir, h, hname, hnone⟩
          exact hnames file dir name h hname hnone

def sampleLexemes (file : Path) : List Lexeme :=
  if file = sampleSrc.join libRs then sampleItem else []

theorem sample_compiled (h : Compiled (disk sampleTexts) sampleLexemes sampleSrc file dir) :
    (file, dir) = (sampleSrc.join libRs, sampleSrc) ∨
      (file, dir) =
        ((sampleSrc.join "alpha".toList).join modRs, sampleSrc.join "alpha".toList) := by
  have hlib : modDeclarations (sampleLexemes (sampleSrc.join libRs)) = ["alpha".toList] := by
    decide +kernel
  have halpha : modDeclarations
      (sampleLexemes ((sampleSrc.join "alpha".toList).join modRs)) = [] := by decide +kernel
  have hflat : (disk sampleTexts).isFile
      (sampleSrc.join ("alpha".toList ++ '.' :: rs)) = false := by decide +kernel
  have hmain : (disk sampleTexts).isFile (sampleSrc.join mainRs) = false := by decide +kernel
  induction h with
  | root hname hfile =>
    rcases hname with rfl | rfl
    · exact .inl rfl
    · rw [hmain] at hfile
      cases hfile
  | flat h hname hfile _ ih =>
    rcases ih with ⟨⟨⟩⟩ | ⟨⟨⟩⟩
    · rw [hlib, List.mem_singleton] at hname
      rw [hname, hflat] at hfile
      cases hfile
    · rw [halpha] at hname
      cases hname
  | nested h hname _ hfile ih =>
    rcases ih with ⟨⟨⟩⟩ | ⟨⟨⟩⟩
    · rw [hlib, List.mem_singleton] at hname
      rw [hname]
      exact .inr rfl
    · rw [halpha] at hname
      cases hname

theorem report_sample : ∃ n, ∀ fuel ≥ n, ∃ report,
    findUnreachableInCrate (disk sampleTexts) fuel ["crate".toList] = .ok (some report) ∧
      report.isClean = false := by
  have hc : PlainCrate latin (disk sampleTexts) sampleLexemes
      (Path.join ["crate".toList] "src".toList) := by
    refine ⟨?_, ?_, ?_, fun _ => rfl, ?_, ?_⟩
    · intro file dir h
      rcases sample_compiled h with ⟨⟨⟩⟩ | ⟨⟨⟩⟩
      · refine ⟨"mod alpha;".toList, by decide +kernel, ?_, ?_⟩
        · constructor <;> decide +kernel
        · constructor <;> decide +kernel
      · refine ⟨[], by decide +kernel, ?_, ?_⟩
        · constructor <;> decide +kernel
        · constructor <;> decide +kernel
    · intro file dir h
      rcases sample_compiled h with ⟨⟨⟩⟩ | ⟨⟨⟩⟩ <;> decide +kernel
    · intro file dir h
      rcases sample_compiled h with ⟨⟨⟩⟩ | ⟨⟨⟩⟩ <;> decide +kernel
    · intro file dir h
      rcases sample_compiled h with ⟨⟨⟩⟩ | ⟨⟨⟩⟩
      · exact fun _ => rfl
      · intro hne
        exact absurd (by decide +kernel) hne
    · intro file dir h
      rcases sample_compiled h with ⟨⟨⟩⟩ | ⟨⟨⟩⟩ <;> decide +kernel
  have hdir : (disk sampleTexts).isDir (Path.join ["crate".toList] "src".toList) = true := by
    decide +kernel
  obtain ⟨n, hn⟩ := report_exact hdir hc
  refine ⟨n, fun fuel hfuel => ?_⟩
  obtain ⟨report, hreport, _, _, hclean⟩ := hn fuel hfuel
  refine ⟨report, hreport, ?_⟩
  by_contra hne
  obtain ⟨hfiles, _⟩ := hclean.1 (Bool.eq_true_of_not_eq_false hne)
  obtain ⟨dir, h⟩ := hfiles (sampleSrc.join "orphan.rs".toList)
    ⟨sampleSrc, .of_root rfl, "orphan".toList, by decide, by decide +kernel, rfl, by decide +kernel⟩
  rcases sample_compiled h with ⟨⟨⟩⟩ | ⟨⟨⟩⟩

/-- A module in a file beside its parent is not looked up where Rust does: this crate does not
compile, and its report is clean. -/
example : findUnreachableInCrate (disk [
    (sampleSrc.join libRs, "mod alpha;".toList),
    (sampleSrc.join "alpha.rs".toList, "mod beta;".toList),
    (sampleSrc.join "beta.rs".toList, [])]) 4 ["crate".toList] = .ok (some ⟨∅, ∅⟩) := by
  decide +kernel

end Shelterflex.ModuleTreeCheck
