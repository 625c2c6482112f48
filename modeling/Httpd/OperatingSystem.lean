import Httpd.Bytes
import Httpd.Lib.PathSegments

namespace Httpd
open PathSegments
set_option autoImplicit true

def slash : UInt8 := 47
def dot : UInt8 := 46

inductive Errno where
  | noent
  | notdir
  | nametoolong
  | acces
  | loop
  | other (code : Nat)
  deriving DecidableEq

inductive FileMode where
  | regular
  | directory
  | other
  deriving DecidableEq

structure Stat where
  mode : FileMode
  size : UInt64
  deriving DecidableEq

/-- What the system calls made for one request answer. A file is the bytes its reads deliver
from its start, so a file that shrank after `stat` is shorter than its recorded size. -/
structure Os where
  realpath : Bytes → Except Errno Bytes
  stat : Bytes → Except Errno Stat
  fopen : Bytes → Option Bytes
  fseeko : UInt64 → Bool
  /-- How many bytes the successive `fread` calls return at most, beyond one. -/
  freads : List Nat
  opendir : Bytes → Option (List Bytes)
  /-- Whether the successive `malloc` and `realloc` calls succeed; later ones do. -/
  allocations : List Bool

inductive Node where
  | file
  | directory
  | other
  | symlink (target : Bytes)

/-- A file system: what stands at each canonical path, the root being the empty list of names. -/
structure FileSystem where
  node : List Bytes → Option Node
  workingDirectory : List Bytes
  workingDirectory_canonical : ∀ n ∈ workingDirectory, CanonicalName slash dot n

namespace FileSystem

def start (fs : FileSystem) (path : Bytes) : List Bytes :=
  if path.head? = some slash then [] else fs.workingDirectory

/-- Following path segments from a directory, through symbolic links. -/
inductive Walk (fs : FileSystem) : List Bytes → List Bytes → List Bytes → Prop where
  | done : Walk fs d [] d
  | stay : seg = [] ∨ seg = [dot] → Walk fs d segs r → Walk fs d (seg :: segs) r
  | parent : Walk fs d.dropLast segs r → Walk fs d (dotDot dot :: segs) r
  | enter : seg ≠ [] → seg ≠ [dot] → seg ≠ dotDot dot →
      fs.node (d ++ [seg]) = some .directory ∨
        segs = [] ∧ (fs.node (d ++ [seg]) = some .file ∨ fs.node (d ++ [seg]) = some .other) →
      Walk fs (d ++ [seg]) segs r → Walk fs d (seg :: segs) r
  | follow : seg ≠ [] → seg ≠ [dot] → seg ≠ dotDot dot →
      fs.node (d ++ [seg]) = some (.symlink target) →
      Walk fs (if target.head? = some slash then [] else d) (segments slash target ++ segs) r →
      Walk fs d (seg :: segs) r

def Resolves (fs : FileSystem) (path : Bytes) (names : List Bytes) : Prop :=
  path ≠ [] ∧ fs.Walk (fs.start path) (segments slash path) names

theorem Walk.canonical {fs : FileSystem} (h : fs.Walk d segs r)
    (hd : ∀ n ∈ d, CanonicalName slash dot n) (hs : ∀ s ∈ segs, slash ∉ s) :
    ∀ n ∈ r, CanonicalName slash dot n := by
  induction h with
  | done => exact hd
  | stay _ _ ih => exact ih hd fun s hm => hs s (List.mem_cons_of_mem _ hm)
  | parent _ ih =>
    exact ih (fun n hn => hd n (List.mem_of_mem_dropLast hn))
      fun s hm => hs s (List.mem_cons_of_mem _ hm)
  | enter h₀ h₁ h₂ _ _ ih =>
    refine ih (fun n hn => ?_) fun s hm => hs s (List.mem_cons_of_mem _ hm)
    rcases List.mem_append.1 hn with hn | hn
    · exact hd n hn
    · rw [List.mem_singleton.1 hn]
      exact ⟨h₀, h₁, h₂, hs _ List.mem_cons_self⟩
  | follow _ _ _ _ _ ih =>
    refine ih (fun n hn => ?_) fun s hm => ?_
    · split at hn
      · cases hn
      · exact hd n hn
    · rcases List.mem_append.1 hm with hm | hm
      · exact sep_notMem_of_mem_segments slash hm
      · exact hs s (List.mem_cons_of_mem _ hm)

theorem Resolves.canonical {fs : FileSystem} (h : fs.Resolves path names) :
    ∀ n ∈ names, CanonicalName slash dot n := by
  refine h.2.canonical (fun n hn => ?_) fun s hm => sep_notMem_of_mem_segments slash hm
  unfold start at hn
  split at hn
  · cases hn
  · exact fs.workingDirectory_canonical n hn

theorem Resolves.components {fs : FileSystem} (h : fs.Resolves path names) :
    ∀ n ∈ names, Component slash n := fun n hn => (h.canonical n hn).component

end FileSystem

def pathMax : Nat := 4096

/-- What a successful `realpath` promises: its argument is no longer than a path may be, and
the answer is the canonical absolute path of what the argument names. -/
structure Os.RealpathSound (os : Os) (fs : FileSystem) : Prop where
  short : os.realpath path = .ok target → path.length < pathMax
  canonical : os.realpath path = .ok target →
    ∃ names, fs.Resolves path names ∧ target = absolutePath slash names

def nameMax : Nat := 255

/-- What a path names, as the names of its canonical path; a longer path names nothing. -/
def FileSystem.Names (fs : FileSystem) (path : Bytes) (names : List Bytes) : Prop :=
  path.length < pathMax ∧ fs.Resolves path names

def FileSystem.IsDirectory (fs : FileSystem) (names : List Bytes) : Prop :=
  names = [] ∨ fs.node names = some .directory

/-- `realpath` fails only on what does not exist, for one of three reasons, and `stat` finds what
`realpath` has found. -/
structure Os.Exact (os : Os) (fs : FileSystem) : Prop where
  found : fs.Names path names → os.realpath path = .ok (absolutePath slash names) ∧
    (absolutePath slash names).length < pathMax
  missing : (∀ names, ¬ fs.Names path names) → ∃ errno, os.realpath path = .error errno
  reasons : os.realpath path = .error e → e = .noent ∨ e = .notdir ∨ e = .nametoolong
  tooLong : os.realpath path = .error .nametoolong →
    pathMax ≤ path.length ∨ ∃ name ∈ segments slash path, nameMax < name.length
  stat : fs.Names path names → ∃ st, os.stat (absolutePath slash names) = .ok st ∧
    (st.mode = .regular ↔ fs.node names = some .file) ∧
    (st.mode = .directory ↔ fs.IsDirectory names)

end Httpd
