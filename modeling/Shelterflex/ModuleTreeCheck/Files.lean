import Mathlib.Data.Finset.Basic
import Mathlib.Order.WellFounded
import Shelterflex.Lib.Worklist
import Shelterflex.ModuleTreeCheck.Model

/-! The walk over the files of a crate. -/

namespace Shelterflex.ModuleTreeCheck
open Lib.Worklist
set_option autoImplicit true

abbrev Name := List Char

/-- An absolute path, its last component first. -/
abbrev Path := List Name

def Path.join (dir : Path) (name : Name) : Path := name :: dir

def Path.parent : Path → Option Path
  | [] => none
  | _ :: dir => some dir

/-- What follows the last dot of a name, if something stands before that dot. -/
def extension (name : Name) : Option Name :=
  if name = ['.', '.'] then none
  else if (name.reverse.dropWhile (· ≠ '.')).length < 2 then none
  else some (name.reverse.takeWhile (· ≠ '.')).reverse

def Path.extension : Path → Option Name
  | [] => none
  | name :: _ => ModuleTreeCheck.extension name

/-- The files and directories of a host, with the links between them resolved. -/
structure FileSystem where
  isFile : Path → Bool
  isDir : Path → Bool
  /-- The names of the entries of a directory that can be read. -/
  readDir : Path → Option (List Name)
  /-- The text of a file that can be read. -/
  readToString : Path → Option (List Char)
  canonicalize : Path → Option Path
  /-- The files by their real paths. -/
  files : Finset Path
  real_mem : ∀ p, isFile p = true → (canonicalize p).getD p ∈ files
  /-- No path of directories is endless. -/
  deep : WellFounded fun child dir : Path =>
    ∃ name ∈ (readDir dir).getD [], child = dir.join name ∧ isDir child = true

/-- The path without links, or the path itself when there is none. -/
def FileSystem.real (fs : FileSystem) (p : Path) : Path := (fs.canonicalize p).getD p

def rs : Name := ['r', 's']

def libRs : Name := "lib.rs".toList

def mainRs : Name := "main.rs".toList

def modRs : Name := "mod.rs".toList

structure Report where
  unreachable : Finset Path
  unresolved : Finset Name
deriving DecidableEq

def Report.isClean (report : Report) : Bool := report.unreachable = ∅ ∧ report.unresolved = ∅

def resolveMod (fs : FileSystem) (file : Path) (name : Name) : Option Path := do
  let dir ← file.parent
  let flat := dir.join (name ++ '.' :: rs)
  if fs.isFile flat then return flat
  let nested := (dir.join name).join modRs
  if fs.isFile nested then return nested
  none

/-- The state of the loop of `all_rs_files`, its stack with the top first. -/
structure Listing where
  out : Finset Path
  stack : List Path

def Listing.add (fs : FileSystem) (l : Listing) (path : Path) : Listing :=
  if fs.isDir path then { l with stack := path :: l.stack }
  else if path.extension = some rs then { l with out := insert path l.out }
  else l

def Listing.more (l : Listing) : Bool := ! l.stack.isEmpty

def Listing.turn (fs : FileSystem) (l : Listing) : Outcome Empty Listing :=
  match l.stack with
  | [] => .ok l
  | dir :: stack =>
    let l := { l with stack }
    match fs.readDir dir with
    | none => .ok l
    | some entries => .ok ((entries.map dir.join).foldl (Listing.add fs) l)

def allRsFiles (fs : FileSystem) (fuel : Nat) (srcDir : Path) :
    Outcome Empty (Option (Finset Path)) := do
  let listing ← loop Listing.more (Listing.turn fs) fuel ⟨∅, [srcDir]⟩
  return listing.map Listing.out

/-- The state of the loop of `reachable`, its queue with the end first. -/
structure Walk where
  visited : Finset Path
  unresolved : Finset Name
  queue : List Path

def Walk.declare (fs : FileSystem) (file : Path) (w : Walk) (name : Name) : Walk :=
  match resolveMod fs file name with
  | some target => { w with queue := target :: w.queue }
  | none => { w with unresolved := insert name w.unresolved }

def Walk.more (w : Walk) : Bool := ! w.queue.isEmpty

def Walk.turn (fs : FileSystem) (w : Walk) : Outcome Empty Walk :=
  match w.queue with
  | [] => .ok w
  | file :: queue =>
    let file := fs.real file
    if file ∈ w.visited then .ok { w with queue }
    else
      let w := { w with visited := insert file w.visited, queue }
      match fs.readToString file with
      | none => .ok w
      | some src => do
        let names ← declaredMods src
        return names.foldl (Walk.declare fs file) w

def crateRoots (fs : FileSystem) (srcDir : Path) : List Path :=
  ([libRs, mainRs].map srcDir.join).filter fs.isFile

def reachable (fs : FileSystem) (fuel : Nat) (srcDir : Path) :
    Outcome Empty (Option (Finset Path × Finset Name)) := do
  let walk ← loop Walk.more (Walk.turn fs) fuel ⟨∅, ∅, (crateRoots fs srcDir).reverse⟩
  return walk.map fun w => (w.visited, w.unresolved)

def findUnreachableInCrate (fs : FileSystem) (fuel : Nat) (crateDir : Path) :
    Outcome Empty (Option Report) := do
  let srcDir := crateDir.join "src".toList
  if ¬ fs.isDir srcDir then return some ⟨∅, ∅⟩
  match ← reachable fs fuel srcDir with
  | none => return none
  | some (visited, unresolved) =>
    match ← allRsFiles fs fuel srcDir with
    | none => return none
    | some files => return some ⟨files.filter fun file => fs.real file ∉ visited, unresolved⟩

/-! A disk without links. -/

def isDirOn (texts : List (Path × List Char)) (p : Path) : Bool :=
  texts.any fun file => p.length < file.1.length ∧ p <:+ file.1

/-- The names right below a path. -/
def entriesOn (texts : List (Path × List Char)) (p : Path) : List Name :=
  (texts.filterMap fun file =>
    if p <:+ file.1 then (file.1.take (file.1.length - p.length)).getLast? else none).dedup

def depthOn (texts : List (Path × List Char)) : Nat :=
  (texts.map fun file => file.1.length).foldr max 0

theorem isDirOn_depth (h : isDirOn texts p = true) : p.length < depthOn texts := by
  induction texts with
  | nil => cases h
  | cons file texts ih =>
    rw [isDirOn, List.any_cons, Bool.or_eq_true] at h
    rcases h with h | h
    · exact lt_max_of_lt_left (of_decide_eq_true h).1
    · exact lt_max_of_lt_right (ih h)

theorem lookup_mem {texts : List (Path × List Char)} (h : (texts.lookup p).isSome = true) :
    p ∈ texts.map Prod.fst := by
  obtain ⟨file, hfile, heq⟩ := List.lookup_isSome_iff.1 h
  exact List.mem_map.2 ⟨file, hfile, (eq_of_beq heq).symm⟩

def disk (texts : List (Path × List Char)) : FileSystem where
  isFile p := (texts.lookup p).isSome
  isDir p := isDirOn texts p
  readDir p := if isDirOn texts p then some (entriesOn texts p) else none
  readToString p := texts.lookup p
  canonicalize p := some p
  files := (texts.map Prod.fst).toFinset
  real_mem _ h := List.mem_toFinset.2 (lookup_mem h)
  deep := by
    refine Subrelation.wf ?_ (InvImage.wf (fun p : Path => depthOn texts - p.length)
      Nat.lt_wfRel.wf)
    rintro child dir ⟨name, _, rfl, hdir⟩
    have hdepth := isDirOn_depth hdir
    have hlength : (dir.join name).length = dir.length + 1 := rfl
    change depthOn texts - (dir.join name).length < depthOn texts - dir.length
    omega

end Shelterflex.ModuleTreeCheck
