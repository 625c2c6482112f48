import Httpd.PathResolution
import Httpd.PathWalk

namespace Httpd
open PathSegments
set_option autoImplicit true

/-- The system calls answer as the file system stands: `realpath` follows the path, and `stat` finds
what `realpath` has found. -/
structure Os.Follows (os : Os) (fs : FileSystem) : Prop where
  workingDirectory : fs.Above fs.workingDirectory
  realpath : ∀ path, os.realpath path = fs.realpath path
  stat : fs.realpath path = .ok (absolutePath slash names) →
    (∀ n ∈ names, CanonicalName slash dot n) → fs.mode names = some mode →
      ∃ size, os.stat (absolutePath slash names) = .ok ⟨mode, size⟩

namespace FileSystem

theorem start_above {fs : FileSystem} (h : fs.Above fs.workingDirectory) (path : Bytes) :
    fs.Above (fs.start path) := by
  rw [start]
  split
  · exact .nil
  · exact h

theorem realpath_ok {fs : FileSystem} (h : fs.realpath path = .ok target) :
    path ≠ [] ∧ path.length < pathMax ∧ ∃ names left,
      fs.resolve path = .ok (names, left) ∧ target = absolutePath slash names := by
  unfold realpath at h
  split at h
  · cases h
  rename_i hne
  split at h
  · cases h
  rename_i hlen
  split at h
  · cases h
  rename_i names left hresolve
  split at h
  · cases h
  cases h
  exact ⟨hne, Nat.not_le.1 hlen, names, left, hresolve, rfl⟩

theorem resolves_of_resolve {fs : FileSystem} (hne : path ≠ [])
    (h : fs.resolve path = .ok (names, left)) : fs.Resolves path names :=
  ⟨hne, walk_of_trail h⟩

end FileSystem

/-- So they are what the confinement of served paths rests on. -/
theorem Os.Follows.realpathSound {os : Os} {fs : FileSystem} (h : os.Follows fs) :
    os.RealpathSound fs where
  short hok := (FileSystem.realpath_ok ((h.realpath _).symm.trans hok)).2.1
  canonical hok := by
    obtain ⟨hne, -, names, left, hresolve, htarget⟩ :=
      FileSystem.realpath_ok ((h.realpath _).symm.trans hok)
    exact ⟨names, FileSystem.resolves_of_resolve hne hresolve, htarget⟩

def AgreeBelow (root : List Bytes) (fs fs' : FileSystem) : Prop :=
  ∀ names, root <+: names → fs.node names = fs'.node names

def OnPath (root names : List Bytes) : Prop := root <+: names ∨ names <+: root

instance : Decidable (OnPath root names) := inferInstanceAs (Decidable (_ ∨ _))

/-- From the root on, a path that is followed at all looks up nothing beside the root. -/
def StaysOnPath (fs : FileSystem) (root : List Bytes) (left : Nat) (requestPath : Bytes) : Prop :=
  ∀ decoded, decodePath requestPath filePathMax = .ok decoded →
    containsDotDotSegment decoded = false →
    ∀ names ∈ (fs.trail left root (segments slash (relativePath decoded))).looked,
      OnPath root names

section TwoSystems

variable {fs fs' : FileSystem} {root segs : List Bytes} {left : Nat}

theorem AgreeBelow.isDirectory (h : AgreeBelow root fs fs') (hroot : root <+: names) :
    fs.IsDirectory names ↔ fs'.IsDirectory names := by
  rw [FileSystem.IsDirectory, FileSystem.IsDirectory, h names hroot]

theorem not_isDirectory_of_isLeaf (h : fs.IsLeaf names) : ¬ fs.IsDirectory names := by
  rintro (hnil | hdir)
  · exact h.1 hnil
  · rcases h.2 with hnode | hnode
    · cases hdir.symm.trans hnode
    · cases hdir.symm.trans hnode

theorem trail_agree (h : AgreeBelow root fs fs') (habove : fs.Above root) (habove' : fs'.Above root)
    (hstays : ∀ names ∈ (fs.trail left root segs).looked, OnPath root names) :
    fs.trail left root segs = fs'.trail left root segs := by
  apply FileSystem.trail_congr
  intro names hm
  rcases hstays names hm with hbelow | hupper
  · exact h names hbelow
  · have hne := FileSystem.looked_ne_nil hm
    exact ((habove names hupper).resolve_left hne).trans
      ((habove' names hupper).resolve_left hne).symm

theorem resolve_agree {docRoot rel : Bytes} (h : AgreeBelow root fs fs')
    (hcwd : fs.Above fs.workingDirectory) (hcwd' : fs'.Above fs'.workingDirectory)
    (hne : docRoot ≠ []) (hroot : fs.resolve docRoot = .ok (root, left))
    (hroot' : fs'.resolve docRoot = .ok (root, left))
    (hstays : ∀ names ∈ (fs.trail left root (segments slash rel)).looked, OnPath root names) :
    fs.resolve (docRoot ++ slash :: rel) = fs'.resolve (docRoot ++ slash :: rel) := by
  have hstart (fs : FileSystem) : fs.start (docRoot ++ slash :: rel) = fs.start docRoot := by
    rw [FileSystem.start, FileSystem.start, List.head?_append_of_ne_nil _ hne]
  have hmore : segments slash rel ≠ [] := List.splitOn_ne_nil _ _
  rw [FileSystem.resolve, FileSystem.resolve, hstart, hstart, segments_append_sep]
  rcases FileSystem.trail_append (FileSystem.start_above hcwd docRoot) hroot hmore with
    ⟨habove, hresult⟩ | ⟨hleaf, -, hresult⟩
  · rcases FileSystem.trail_append (FileSystem.start_above hcwd' docRoot) hroot' hmore with
      ⟨habove', hresult'⟩ | ⟨hleaf', -, -⟩
    · rw [hresult, hresult', trail_agree h habove habove' hstays]
    · have hdir := (h.isDirectory (List.prefix_refl root)).1 (habove root (List.prefix_refl root))
      exact absurd hdir (not_isDirectory_of_isLeaf hleaf')
  · rcases FileSystem.trail_append (FileSystem.start_above hcwd' docRoot) hroot' hmore with
      ⟨habove', -⟩ | ⟨-, -, hresult'⟩
    · have hdir := (h.isDirectory (List.prefix_refl root)).2 (habove' root (List.prefix_refl root))
      exact absurd hdir (not_isDirectory_of_isLeaf hleaf)
    · rw [hresult, hresult']

theorem realpath_agree {docRoot rel : Bytes} (h : AgreeBelow root fs fs')
    (hcwd : fs.Above fs.workingDirectory) (hcwd' : fs'.Above fs'.workingDirectory)
    (hne : docRoot ≠ []) (hroot : fs.resolve docRoot = .ok (root, left))
    (hroot' : fs'.resolve docRoot = .ok (root, left))
    (hstays : ∀ names ∈ (fs.trail left root (segments slash rel)).looked, OnPath root names) :
    fs.realpath (docRoot ++ slash :: rel) = fs'.realpath (docRoot ++ slash :: rel) := by
  rw [FileSystem.realpath, FileSystem.realpath,
    resolve_agree h hcwd hcwd' hne hroot hroot' hstays]

theorem mode_agree (h : AgreeBelow root fs fs') (hroot : root <+: names) :
    fs.mode names = fs'.mode names := by
  rw [FileSystem.mode, FileSystem.mode, h names hroot]

end TwoSystems

section FileStat

variable {os os' : Os} {fs fs' : FileSystem} {docRoot requestPath : Bytes} {root : List Bytes}
  {left : Nat}

/-- `file_resolve_path` asks the system about the document root and about the joined path. -/
theorem fileResolvePath_congr (hroot : os.realpath docRoot = os'.realpath docRoot)
    (htarget : ∀ decoded rootReal, decodePath requestPath filePathMax = .ok decoded →
      containsDotDotSegment decoded = false → os.realpath docRoot = .ok rootReal →
      (snprintf filePathMax (docRoot ++ slash :: relativePath decoded)).1 < filePathMax →
      os.realpath (snprintf filePathMax (docRoot ++ slash :: relativePath decoded)).2 =
        os'.realpath (snprintf filePathMax (docRoot ++ slash :: relativePath decoded)).2)
    (resolvedSize : Nat) :
    fileResolvePath os docRoot requestPath resolvedSize =
      fileResolvePath os' docRoot requestPath resolvedSize := by
  rw [fileResolvePath, fileResolvePath]
  split
  · rfl
  cases hd : decodePath requestPath filePathMax with
  | error e => rfl
  | ok decoded =>
    simp only
    split
    · rfl
    rename_i hdots
    split
    · rfl
    rename_i hfits
    rw [← hroot]
    cases hreal : os.realpath docRoot with
    | error e => rfl
    | ok rootReal =>
      rw [htarget decoded rootReal hd (Bool.eq_false_iff.2 hdots) hreal (Int.not_le.1 hfits)]

theorem fileResolvePath_agree (hos : os.Follows fs) (hos' : os'.Follows fs')
    (h : AgreeBelow root fs fs') (hroot : fs.resolve docRoot = .ok (root, left))
    (hroot' : fs'.resolve docRoot = .ok (root, left))
    (hstays : StaysOnPath fs root left requestPath) (resolvedSize : Nat) :
    fileResolvePath os docRoot requestPath resolvedSize =
      fileResolvePath os' docRoot requestPath resolvedSize := by
  apply fileResolvePath_congr
  · rw [hos.realpath, hos'.realpath, FileSystem.realpath, FileSystem.realpath, hroot, hroot']
  · intro decoded rootReal hd hdots hreal hfits
    obtain ⟨hne, hshort, -⟩ := FileSystem.realpath_ok ((hos.realpath _).symm.trans hreal)
    have hlen := ((decodePath_ok_iff (by decide)).1 hd).2
    rw [joined_fits hshort hlen hfits, hos.realpath, hos'.realpath]
    exact realpath_agree h hos.workingDirectory hos'.workingDirectory hne hroot hroot'
      (hstays decoded hd hdots)

theorem stat_agree (hos : os.Follows fs) (hos' : os'.Follows fs') (h : AgreeBelow root fs fs')
    (hroot : fs.resolve docRoot = .ok (root, left)) {resolved : Bytes}
    (hok : fileResolvePath os docRoot requestPath filePathMax = .ok resolved)
    (hok' : fileResolvePath os' docRoot requestPath filePathMax = .ok resolved) :
    ∃ mode size size', os.stat resolved = .ok ⟨mode, size⟩ ∧ os'.stat resolved = .ok ⟨mode, size'⟩ := by
  obtain ⟨decoded, rootReal, hd, -, -, hreal, htarget, hprefix, -⟩ := fileResolvePath_ok hok
  obtain ⟨decoded', rootReal', hd', -, -, -, htarget', -, -⟩ := fileResolvePath_ok hok'
  cases hd.symm.trans hd'
  rw [hos.realpath] at hreal htarget
  rw [hos'.realpath] at htarget'
  obtain ⟨hne, -, names, left', hresolve, rfl⟩ := FileSystem.realpath_ok htarget
  obtain ⟨hneRoot, -, rootNames, _, hresolveRoot, rfl⟩ := FileSystem.realpath_ok hreal
  cases hresolveRoot.symm.trans hroot
  have hcanonical := (FileSystem.resolves_of_resolve hne hresolve).canonical
  have hbelow : root <+: names := pathHasPrefix_prefix
    (FileSystem.resolves_of_resolve hneRoot hroot).components
    (fun n hn => (hcanonical n hn).component) hprefix
  obtain ⟨mode, hmode⟩ :=
    FileSystem.mode_of_trail (FileSystem.start_above hos.workingDirectory _) hresolve
  obtain ⟨size, hstat⟩ := hos.stat htarget hcanonical hmode
  obtain ⟨size', hstat'⟩ := hos'.stat htarget' hcanonical (mode_agree h hbelow ▸ hmode)
  exact ⟨mode, size, size', hstat, hstat'⟩

/-- A request whose path stays on the root and what is below it gets the same result in any two
file systems that agree there, whatever stands elsewhere. -/
theorem fileStatPath_agree (hos : os.Follows fs) (hos' : os'.Follows fs')
    (h : AgreeBelow root fs fs') (hroot : fs.resolve docRoot = .ok (root, left))
    (hroot' : fs'.resolve docRoot = .ok (root, left))
    (hstays : StaysOnPath fs root left requestPath) :
    (fileStatPath os docRoot requestPath).map (fun _ => ()) =
      (fileStatPath os' docRoot requestPath).map fun _ => () := by
  have hresolve := fileResolvePath_agree hos hos' h hroot hroot' hstays filePathMax
  rw [fileStatPath, fileStatPath, ← hresolve]
  cases hok : fileResolvePath os docRoot requestPath filePathMax with
  | error e => rfl
  | ok resolved =>
    obtain ⟨mode, size, size', hstat, hstat'⟩ :=
      stat_agree hos hos' h hroot hok (hresolve ▸ hok)
    simp only [hstat, hstat']
    cases mode <;> rfl

end FileStat

def FileSystem.os (fs : FileSystem) : Os where
  realpath := fs.realpath
  stat path :=
    match fs.mode ((segments slash path).filter (· ≠ [])) with
    | some mode => .ok ⟨mode, 0⟩
    | none => .error .noent
  fopen path :=
    match fs.mode ((segments slash path).filter (· ≠ [])) with
    | some .regular => some []
    | _ => none
  fseeko _ := true
  freads := []
  opendir _ := none
  allocations := []

theorem names_of_absolutePath {names : List Bytes} (h : ∀ n ∈ names, CanonicalName slash dot n) :
    (segments slash (absolutePath slash names)).filter (· ≠ []) = names := by
  cases names with
  | nil => decide
  | cons name names =>
    obtain ⟨hname, hnames⟩ := List.forall_mem_cons.1 h
    have hpath : absolutePath slash (name :: names) = slash :: (name ++ joined slash names) :=
      if_neg (List.cons_ne_nil name names)
    rw [hpath, segments_sep_cons,
      segments_append_joined slash hname.no_sep fun n hn => (hnames n hn).no_sep,
      List.filter_cons_of_neg (by decide), List.filter_eq_self]
    intro n hn
    exact decide_eq_true (h n hn).ne_nil

theorem FileSystem.os_follows {fs : FileSystem} (h : fs.Above fs.workingDirectory) :
    fs.os.Follows fs where
  workingDirectory := h
  realpath _ := rfl
  stat _ hcanonical hmode := by
    refine ⟨0, ?_⟩
    change (match fs.mode ((segments slash (absolutePath slash _)).filter (· ≠ [])) with
      | some mode => (Except.ok ⟨mode, 0⟩ : Except Errno Stat)
      | none => .error .noent) = _
    rw [names_of_absolutePath hcanonical, hmode]

theorem root_canonical : ∀ n ∈ ([] : List Bytes), CanonicalName slash dot n := List.forall_mem_nil _

def linkedFileSystem (secret : Option Node) : FileSystem where
  node names :=
    if names = [ascii "www"] then some .directory
    else if names = [ascii "www", ascii "page"] then some .file
    else if names = [ascii "www", ascii "link"] then some (.symlink (ascii "/secret"))
    else if names = [ascii "secret"] then secret
    else none
  workingDirectory := []
  workingDirectory_canonical := root_canonical

theorem linkedFileSystem_follows (secret : Option Node) :
    (linkedFileSystem secret).os.Follows (linkedFileSystem secret) :=
  FileSystem.os_follows .nil

theorem linkedFileSystem_agree (secret secret' : Option Node) :
    AgreeBelow [ascii "www"] (linkedFileSystem secret) (linkedFileSystem secret') := by
  rintro names ⟨rest, rfl⟩
  have hne : [ascii "www"] ++ rest ≠ [ascii "secret"] := fun h =>
    absurd (List.cons.inj h).1 (by decide)
  simp only [linkedFileSystem, if_neg hne]

theorem fileStatPath_agree_page :
    (fileStatPath (linkedFileSystem (some .file)).os (ascii "/www") (ascii "/page")).map
        (fun _ => ()) =
      (fileStatPath (linkedFileSystem none).os (ascii "/www") (ascii "/page")).map
        fun _ => () := by
  have hstays : StaysOnPath (linkedFileSystem (some .file)) [ascii "www"] 40 (ascii "/page") := by
    intro decoded hd _
    have hpage : decodePath (ascii "/page") filePathMax = .ok (ascii "/page") := by
      decide +kernel
    cases hpage.symm.trans hd
    decide +kernel
  exact fileStatPath_agree (linkedFileSystem_follows _) (linkedFileSystem_follows _)
    (linkedFileSystem_agree _ _) rfl rfl hstays

/-- What the link is answered with tells whether there is a secret outside of the root. -/
theorem outside_link_probed :
    (linkedFileSystem (some .file)).os.Follows (linkedFileSystem (some .file)) ∧
    (linkedFileSystem none).os.Follows (linkedFileSystem none) ∧
    AgreeBelow [ascii "www"] (linkedFileSystem (some .file)) (linkedFileSystem none) ∧
    (linkedFileSystem (some .file)).resolve (ascii "/www") = .ok ([ascii "www"], 40) ∧
    (linkedFileSystem none).resolve (ascii "/www") = .ok ([ascii "www"], 40) ∧
    fileStatPath (linkedFileSystem (some .file)).os (ascii "/www") (ascii "/link") =
      .error .forbidden ∧
    fileStatPath (linkedFileSystem none).os (ascii "/www") (ascii "/link") = .error .notFound :=
  ⟨linkedFileSystem_follows _, linkedFileSystem_follows _, linkedFileSystem_agree _ _, rfl, rfl,
    by decide +kernel, by decide +kernel⟩

def detourFileSystem (target : Bytes) : FileSystem where
  node names :=
    if names = [ascii "r"] then some (.symlink target)
    else if names = [ascii "a"] then some (.symlink (ascii "/"))
    else if names = [ascii "www"] then some .directory
    else if names = [ascii "www", ascii "page"] then some .file
    else if names = [ascii "www", ascii "link"] then some (.symlink (ascii "page"))
    else none
  workingDirectory := []
  workingDirectory_canonical := root_canonical

/-- How many links the document root takes has to agree as well: they count for what is below. -/
theorem links_counted :
    AgreeBelow [ascii "www"] (detourFileSystem (ascii "/www"))
      (detourFileSystem ((List.replicate 39 (ascii "/a")).flatten ++ ascii "/www")) ∧
    (detourFileSystem (ascii "/www")).resolve (ascii "/r") = .ok ([ascii "www"], 39) ∧
    (detourFileSystem ((List.replicate 39 (ascii "/a")).flatten ++ ascii "/www")).resolve
      (ascii "/r") = .ok ([ascii "www"], 0) ∧
    (fileStatPath (detourFileSystem (ascii "/www")).os (ascii "/r") (ascii "/link")).map
      (fun _ => ()) = .ok () ∧
    (fileStatPath (detourFileSystem ((List.replicate 39 (ascii "/a")).flatten ++ ascii "/www")).os
      (ascii "/r") (ascii "/link")).map (fun _ => ()) = .error .error := by
  refine ⟨?_, by decide +kernel, by decide +kernel, by decide +kernel, by decide +kernel⟩
  rintro names ⟨rest, rfl⟩
  have hne : [ascii "www"] ++ rest ≠ [ascii "r"] := fun h =>
    absurd (List.cons.inj h).1 (by decide)
  simp only [detourFileSystem, if_neg hne]

end Httpd
