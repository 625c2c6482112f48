import Httpd.OperatingSystem

namespace Httpd
open PathSegments
set_option autoImplicit true

/-- What stands below the root of a file system that has no links, written out. -/
structure PlainTree where
  nodes : List (List Bytes × FileMode)
  named : ∀ node ∈ nodes, node.1 ≠ []
  parents : ∀ node ∈ nodes,
    node.1.dropLast = [] ∨ nodes.lookup node.1.dropLast = some .directory
  shortNames : ∀ node ∈ nodes, ∀ name ∈ node.1, name.length ≤ nameMax
  shortPaths : ∀ node ∈ nodes, (absolutePath slash node.1).length < pathMax

def FileMode.node : FileMode → Node
  | regular => .file
  | directory => .directory
  | other => .other

namespace PlainTree

def mode (tree : PlainTree) (names : List Bytes) : Option FileMode :=
  if names = [] then some .directory else tree.nodes.lookup names

theorem canonical_nil : ∀ n ∈ ([] : List Bytes), CanonicalName slash dot n := List.forall_mem_nil _

def fileSystem (tree : PlainTree) : FileSystem where
  node names := (tree.nodes.lookup names).map FileMode.node
  workingDirectory := []
  workingDirectory_canonical := canonical_nil

def walk (tree : PlainTree) : List Bytes → List Bytes → Except Errno (List Bytes)
  | names, [] => .ok names
  | names, seg :: segs =>
    if seg = [] ∨ seg = [dot] then tree.walk names segs
    else if seg = dotDot dot then tree.walk names.dropLast segs
    else if nameMax < seg.length then .error .nametoolong
    else
      match tree.mode (names ++ [seg]) with
      | none => .error .noent
      | some .directory => tree.walk (names ++ [seg]) segs
      | some _ => if segs = [] then .ok (names ++ [seg]) else .error .notdir

def find (tree : PlainTree) (path : Bytes) : Except Errno (List Bytes) :=
  if path = [] then .error .noent
  else if pathMax ≤ path.length then .error .nametoolong
  else tree.walk [] (segments slash path)

def children (tree : PlainTree) (names : List Bytes) : List Bytes :=
  tree.nodes.filterMap fun node => if node.1.dropLast = names then node.1.getLast? else none

/-- The system calls on such a tree, all of its files being empty. -/
def os (tree : PlainTree) : Os where
  realpath path := (tree.find path).map (absolutePath slash)
  stat path := (tree.find path).bind fun names =>
    match tree.mode names with
    | some mode => .ok ⟨mode, 0⟩
    | none => .error .noent
  fopen path :=
    match tree.find path with
    | .ok names => if tree.mode names = some .regular then some [] else none
    | .error _ => none
  fseeko _ := true
  freads := []
  opendir path :=
    match tree.find path with
    | .ok names => if tree.mode names = some .directory then some (tree.children names) else none
    | .error _ => none
  allocations := []

variable {tree : PlainTree} {names : List Bytes} {name : Bytes} {mode : FileMode}

theorem mem_of_lookup {nodes : List (List Bytes × FileMode)} (h : nodes.lookup names = some mode) :
    (names, mode) ∈ nodes := by
  obtain ⟨before, after, hnodes, _⟩ := List.lookup_eq_some_iff.1 h
  rw [hnodes]
  exact List.mem_append_right _ List.mem_cons_self

theorem mode_snoc : tree.mode (names ++ [name]) = tree.nodes.lookup (names ++ [name]) :=
  if_neg (List.append_ne_nil_of_right_ne_nil _ (List.cons_ne_nil _ _))

theorem mode_parent (h : tree.mode (names ++ [name]) = some mode) :
    tree.mode names = some .directory := by
  rw [mode_snoc] at h
  have hparent := tree.parents _ (mem_of_lookup h)
  rw [List.dropLast_concat] at hparent
  rw [PlainTree.mode]
  split
  · rfl
  · rename_i hne
    exact hparent.resolve_left hne

theorem mode_shortName (h : tree.mode (names ++ [name]) = some mode) : name.length ≤ nameMax := by
  rw [mode_snoc] at h
  exact tree.shortNames _ (mem_of_lookup h) name (List.mem_append_right _ List.mem_cons_self)

theorem mode_above {below : List Bytes} (h : tree.mode (names ++ below) = some mode)
    (hne : below ≠ []) : tree.mode names = some .directory := by
  induction below using List.reverseRecOn generalizing mode with
  | nil => exact absurd rfl hne
  | append_singleton below name ih =>
    rw [← List.append_assoc] at h
    have hparent := mode_parent h
    by_cases hb : below = []
    · rw [hb, List.append_nil] at hparent
      exact hparent
    · exact ih hparent hb

theorem node_of_mode (h : tree.mode (names ++ [name]) = some mode) :
    tree.fileSystem.node (names ++ [name]) = some mode.node := by
  rw [mode_snoc] at h
  exact congrArg (Option.map FileMode.node) h

theorem mode_of_node {node : Node} (h : tree.fileSystem.node (names ++ [name]) = some node) :
    ∃ mode, tree.mode (names ++ [name]) = some mode ∧ mode.node = node := by
  obtain ⟨mode, hmode, he⟩ := Option.map_eq_some_iff.1 h
  exact ⟨mode, mode_snoc.trans hmode, he⟩

theorem walk_enter {seg : Bytes} {segs : List Bytes} (h₀ : seg ≠ []) (h₁ : seg ≠ [dot])
    (h₂ : seg ≠ dotDot dot) (hmode : tree.mode (names ++ [seg]) = some mode)
    (hlast : mode = .directory ∨ segs = []) :
    tree.walk names (seg :: segs) = tree.walk (names ++ [seg]) segs := by
  rw [walk, if_neg (not_or.2 ⟨h₀, h₁⟩), if_neg h₂, if_neg (Nat.not_lt.2 (mode_shortName hmode)),
    hmode]
  rcases hlast with rfl | rfl
  · rfl
  · cases mode <;> rfl

theorem walk_of_fileSystem {segs target : List Bytes} (h : tree.fileSystem.Walk names segs target) :
    tree.walk names segs = .ok target := by
  induction h with
  | done => rfl
  | stay hs _ ih => rw [walk, if_pos hs, ih]
  | parent _ ih =>
    have hne : ¬ (dotDot dot = [] ∨ dotDot dot = [dot]) := by decide
    rw [walk, if_neg hne, if_pos rfl, ih]
  | enter h₀ h₁ h₂ hnode _ ih =>
    rw [← ih]
    rcases hnode with hnode | ⟨rfl, hnode⟩
    · obtain ⟨mode, hmode, he⟩ := mode_of_node hnode
      have hdir : mode = .directory := by
        cases mode with
        | directory => rfl
        | regular => cases he
        | other => cases he
      exact walk_enter h₀ h₁ h₂ hmode (.inl hdir)
    · obtain ⟨node, hsome⟩ : ∃ node, tree.fileSystem.node _ = some node :=
        hnode.elim (fun h => ⟨_, h⟩) fun h => ⟨_, h⟩
      obtain ⟨mode, hmode, _⟩ := mode_of_node hsome
      exact walk_enter h₀ h₁ h₂ hmode (.inr rfl)
  | follow _ _ _ hnode _ _ =>
    obtain ⟨mode, _, he⟩ := mode_of_node hnode
    cases mode <;> cases he

/-- What following a path comes to: a place that a walk reaches, or a part of the path that is
missing, no directory, or too long. -/
def Outcome (tree : PlainTree) (names segs : List Bytes) : Except Errno (List Bytes) → Prop
  | .ok target => tree.fileSystem.Walk names segs target ∧ ∃ mode, tree.mode target = some mode
  | .error e => e = .noent ∨ e = .notdir ∨ e = .nametoolong ∧ ∃ seg ∈ segs, nameMax < seg.length

theorem Outcome.cons {names' segs : List Bytes} {seg : Bytes} {result : Except Errno (List Bytes)}
    (hwalk : ∀ {target}, tree.fileSystem.Walk names' segs target →
      tree.fileSystem.Walk names (seg :: segs) target)
    (h : Outcome tree names' segs result) : Outcome tree names (seg :: segs) result := by
  cases result with
  | ok target => exact ⟨hwalk h.1, h.2⟩
  | error e =>
    rcases h with he | he | ⟨he, long, hm, hlong⟩
    · exact .inl he
    · exact .inr (.inl he)
    · exact .inr (.inr ⟨he, long, List.mem_cons_of_mem _ hm, hlong⟩)

theorem mode_dropLast (h : tree.mode names = some mode) :
    ∃ mode, tree.mode names.dropLast = some mode := by
  cases names using List.reverseRecOn with
  | nil => exact ⟨mode, h⟩
  | append_singleton names name =>
    rw [List.dropLast_concat]
    exact ⟨_, mode_parent h⟩

theorem walk_outcome (segs : List Bytes) (h : tree.mode names = some mode) :
    Outcome tree names segs (tree.walk names segs) := by
  induction segs generalizing names mode with
  | nil => exact ⟨.done, mode, h⟩
  | cons seg segs ih =>
    rw [walk]
    by_cases hs : seg = [] ∨ seg = [dot]
    · rw [if_pos hs]
      exact (ih h).cons (.stay hs)
    rw [if_neg hs]
    obtain ⟨h₀, h₁⟩ := not_or.1 hs
    by_cases hd : seg = dotDot dot
    · obtain ⟨above, habove⟩ := mode_dropLast h
      subst hd
      rw [if_pos rfl]
      exact (ih habove).cons .parent
    rw [if_neg hd]
    by_cases hlong : nameMax < seg.length
    · rw [if_pos hlong]
      exact .inr (.inr ⟨rfl, seg, List.mem_cons_self, hlong⟩)
    rw [if_neg hlong]
    cases hmode : tree.mode (names ++ [seg]) with
    | none => exact .inl rfl
    | some found =>
      have hnode := node_of_mode hmode
      have hend (hf : tree.fileSystem.node (names ++ [seg]) = some .file ∨
          tree.fileSystem.node (names ++ [seg]) = some .other) :
          Outcome tree names (seg :: segs)
            (if segs = [] then .ok (names ++ [seg]) else .error .notdir) := by
        cases segs with
        | nil => exact ⟨.enter h₀ h₁ hd (.inr ⟨rfl, hf⟩) .done, found, hmode⟩
        | cons _ _ => exact .inr (.inl rfl)
      cases found with
      | directory => exact (ih hmode).cons (.enter h₀ h₁ hd (.inl hnode))
      | regular => exact hend (.inl hnode)
      | other => exact hend (.inr hnode)

theorem walk_self {below : List Bytes} (h : tree.mode (names ++ below) = some mode)
    (hn : ∀ n ∈ below, CanonicalName slash dot n) :
    tree.walk names below = .ok (names ++ below) := by
  induction below generalizing names with
  | nil => rw [walk, List.append_nil]
  | cons name below ih =>
    obtain ⟨hname, hbelow⟩ := List.forall_mem_cons.1 hn
    rw [List.append_cons] at h ⊢
    have hmode : ∃ mode, tree.mode (names ++ [name]) = some mode ∧
        (mode = .directory ∨ below = []) := by
      by_cases hb : below = []
      · rw [hb, List.append_nil] at h
        exact ⟨mode, h, .inr hb⟩
      · exact ⟨.directory, mode_above h hb, .inl rfl⟩
    obtain ⟨mode', hmode, hlast⟩ := hmode
    rw [walk_enter hname.ne_nil hname.ne_dot hname.ne_dotDot hmode hlast]
    exact ih h hbelow

theorem find_spec (tree : PlainTree) (path : Bytes) :
    match tree.find path with
    | .ok names => tree.fileSystem.Names path names ∧ ∃ mode, tree.mode names = some mode
    | .error e => e = .noent ∨ e = .notdir ∨
        e = .nametoolong ∧
          (pathMax ≤ path.length ∨ ∃ seg ∈ segments slash path, nameMax < seg.length) := by
  rw [find]
  by_cases hempty : path = []
  · rw [if_pos hempty]
    exact .inl rfl
  rw [if_neg hempty]
  by_cases hlong : pathMax ≤ path.length
  · rw [if_pos hlong]
    exact .inr (.inr ⟨rfl, .inl hlong⟩)
  rw [if_neg hlong]
  have hroot : tree.mode [] = some .directory := if_pos rfl
  have houtcome := walk_outcome (segments slash path) hroot
  have hstart : tree.fileSystem.start path = [] := by
    rw [FileSystem.start]
    split <;> rfl
  generalize tree.walk [] (segments slash path) = result at houtcome ⊢
  cases result with
  | ok names =>
    obtain ⟨hwalk, hmode⟩ := houtcome
    rw [← hstart] at hwalk
    exact ⟨⟨Nat.not_le.1 hlong, hempty, hwalk⟩, hmode⟩
  | error e => exact houtcome.imp_right fun he => he.imp_right fun ⟨he, hseg⟩ => ⟨he, .inr hseg⟩

theorem find_of_names {path : Bytes} (h : tree.fileSystem.Names path names) :
    tree.find path = .ok names := by
  have hstart : tree.fileSystem.start path = [] := by
    rw [FileSystem.start]
    split <;> rfl
  obtain ⟨hlen, hne, hwalk⟩ := h
  rw [hstart] at hwalk
  rw [find, if_neg hne, if_neg (Nat.not_le.2 hlen)]
  exact walk_of_fileSystem hwalk

theorem absolutePath_short (h : tree.mode names = some mode) :
    (absolutePath slash names).length < pathMax := by
  rw [PlainTree.mode] at h
  split at h
  · rename_i hnil
    rw [hnil]
    decide
  · exact tree.shortPaths _ (mem_of_lookup h)

theorem find_absolutePath (h : tree.mode names = some mode)
    (hn : ∀ n ∈ names, CanonicalName slash dot n) :
    tree.find (absolutePath slash names) = .ok names := by
  have hshort := absolutePath_short h
  cases names with
  | nil => rfl
  | cons name names =>
    have hne : absolutePath slash (name :: names) ≠ [] := List.cons_ne_nil _ _
    have hsegs : segments slash (absolutePath slash (name :: names)) = [] :: name :: names :=
      segments_append_joined slash List.not_mem_nil fun n hm => (hn n hm).no_sep
    rw [find, if_neg hne, if_neg (Nat.not_le.2 hshort), hsegs, walk, if_pos (.inl rfl)]
    exact walk_self h hn

theorem mode_node (h : tree.mode names = some mode) :
    (mode = .regular ↔ tree.fileSystem.node names = some .file) ∧
      (mode = .directory ↔ tree.fileSystem.IsDirectory names) := by
  rw [PlainTree.mode] at h
  split at h
  · rename_i hnil
    cases h
    have hlookup : tree.fileSystem.node names = none := by
      cases hnode : tree.nodes.lookup names with
      | none => exact congrArg (Option.map FileMode.node) hnode
      | some mode => exact absurd hnil (tree.named _ (mem_of_lookup hnode))
    rw [hlookup]
    exact ⟨⟨nofun, nofun⟩, fun _ => .inl hnil, fun _ => rfl⟩
  · rename_i hne
    have hnode : tree.fileSystem.node names = some mode.node := congrArg (Option.map FileMode.node) h
    rw [FileSystem.IsDirectory, hnode]
    cases mode with
    | regular => exact ⟨⟨fun _ => rfl, fun _ => rfl⟩, nofun, fun hd => nomatch hd.resolve_left hne⟩
    | directory => exact ⟨⟨nofun, nofun⟩, fun _ => .inr rfl, fun _ => rfl⟩
    | other => exact ⟨⟨nofun, nofun⟩, nofun, fun hd => nomatch hd.resolve_left hne⟩

theorem os_exact (tree : PlainTree) : tree.os.Exact tree.fileSystem := by
  have hmode {path : Bytes} {names : List Bytes} (h : tree.fileSystem.Names path names) :
      ∃ mode, tree.mode names = some mode := by
    have hspec := find_spec tree path
    rw [find_of_names h] at hspec
    exact hspec.2
  have herror {path : Bytes} {e : Errno} (h : tree.os.realpath path = .error e) :
      tree.find path = .error e := by
    cases hfind : tree.find path with
    | ok names =>
      simp only [os, hfind, Except.map] at h
      cases h
    | error e' =>
      simp only [os, hfind, Except.map] at h
      rw [Except.error.inj h]
  constructor
  · intro path names h
    obtain ⟨mode, hm⟩ := hmode h
    refine ⟨?_, absolutePath_short hm⟩
    simp only [os, find_of_names h, Except.map]
  · intro path hnone
    have hspec := find_spec tree path
    cases hfind : tree.find path with
    | ok names =>
      rw [hfind] at hspec
      exact absurd hspec.1 (hnone names)
    | error e => exact ⟨e, by simp only [os, hfind, Except.map]⟩
  · intro path e h
    have hspec := find_spec tree path
    rw [herror h] at hspec
    exact hspec.imp_right fun he => he.imp_right And.left
  · intro path h
    have hspec := find_spec tree path
    rw [herror h] at hspec
    rcases hspec with he | he | ⟨_, hlong⟩
    · cases he
    · cases he
    · exact hlong
  · intro path names h
    obtain ⟨mode, hm⟩ := hmode h
    refine ⟨⟨mode, 0⟩, ?_, mode_node hm⟩
    simp only [os, find_absolutePath hm h.2.canonical, Except.bind, hm]

end PlainTree

def srvWww : List Bytes := [ascii "srv", ascii "www"]

def docsTree : PlainTree where
  nodes := [([ascii "srv"], .directory), (srvWww, .directory),
    (srvWww ++ [ascii "index.html"], .regular), (srvWww ++ [ascii "docs"], .directory),
    (srvWww ++ [ascii "docs", ascii "user guide.txt"], .regular),
    (srvWww ++ [ascii "docs", ascii "old"], .directory)]
  named := by decide
  parents := by decide
  shortNames := by decide
  shortPaths := by decide

theorem docsTree_names {path : Bytes} {names : List Bytes} (h : docsTree.find path = .ok names) :
    docsTree.fileSystem.Names path names := by
  have hspec := docsTree.find_spec path
  rw [h] at hspec
  exact hspec.1

end Httpd
