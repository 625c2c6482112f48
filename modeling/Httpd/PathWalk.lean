import Httpd.OperatingSystem

namespace Httpd
open PathSegments
set_option autoImplicit true

/-- How many symbolic links `realpath` follows for one path. -/
def linksMax : Nat := 40

inductive WalkTurn where
  | enter (names : List Bytes)
  | reach (names : List Bytes)
  | follow (target : Bytes)
  | fail (errno : Errno)

/-- What a walk looks up on its way, and where it ends with how many links left. -/
structure Trail where
  looked : List (List Bytes)
  result : Except Errno (List Bytes × Nat)

def looks (dir : List Bytes) (seg : Bytes) : List (List Bytes) :=
  if seg = [] ∨ seg = [dot] ∨ seg = dotDot dot ∨ nameMax < seg.length then [] else [dir ++ [seg]]

namespace FileSystem

def turn (fs : FileSystem) (dir : List Bytes) (seg : Bytes) : WalkTurn :=
  if seg = [] ∨ seg = [dot] then .enter dir
  else if seg = dotDot dot then .enter dir.dropLast
  else if nameMax < seg.length then .fail .nametoolong
  else
    match fs.node (dir ++ [seg]) with
    | none => .fail .noent
    | some .directory => .enter (dir ++ [seg])
    | some .file => .reach (dir ++ [seg])
    | some .other => .reach (dir ++ [seg])
    | some (.symlink target) => .follow target

def trailFrom (fs : FileSystem) (links : Nat) (follow : List Bytes → List Bytes → Trail) :
    List Bytes → List Bytes → Trail
  | dir, [] => ⟨[], .ok (dir, links)⟩
  | dir, seg :: segs =>
    let rest : Trail :=
      match fs.turn dir seg with
      | .enter names => fs.trailFrom links follow names segs
      | .reach names => ⟨[], if segs = [] then .ok (names, links) else .error .notdir⟩
      | .follow target =>
        follow (if target.head? = some slash then [] else dir) (segments slash target ++ segs)
      | .fail errno => ⟨[], .error errno⟩
    ⟨looks dir seg ++ rest.looked, rest.result⟩

/-- The walk along a path that `realpath` takes, following no more than so many links. -/
def trail (fs : FileSystem) : Nat → List Bytes → List Bytes → Trail
  | 0 => fs.trailFrom 0 fun _ _ => ⟨[], .error .loop⟩
  | links + 1 => fs.trailFrom (links + 1) (fs.trail links)

def resolve (fs : FileSystem) (path : Bytes) : Except Errno (List Bytes × Nat) :=
  (fs.trail linksMax (fs.start path) (segments slash path)).result

def realpath (fs : FileSystem) (path : Bytes) : Except Errno Bytes :=
  if path = [] then .error .noent
  else if pathMax ≤ path.length then .error .nametoolong
  else
    match fs.resolve path with
    | .error errno => .error errno
    | .ok (names, _) =>
      if pathMax ≤ (absolutePath slash names).length then .error .nametoolong
      else .ok (absolutePath slash names)

def mode (fs : FileSystem) (names : List Bytes) : Option FileMode :=
  if names = [] then some .directory
  else
    match fs.node names with
    | some .file => some .regular
    | some .directory => some .directory
    | some .other => some .other
    | _ => none

section Trail

variable {fs fs' : FileSystem} {links left : Nat} {dir names segs : List Bytes} {seg : Bytes}

theorem trail_nil : fs.trail links dir [] = ⟨[], .ok (dir, links)⟩ := by cases links <;> rfl

def trailTail (fs : FileSystem) (links : Nat) (dir segs : List Bytes) : WalkTurn → Trail
  | .enter names => fs.trail links names segs
  | .reach names => ⟨[], if segs = [] then .ok (names, links) else .error .notdir⟩
  | .follow target =>
    match links with
    | 0 => ⟨[], .error .loop⟩
    | links + 1 => fs.trail links (if target.head? = some slash then [] else dir)
        (segments slash target ++ segs)
  | .fail errno => ⟨[], .error errno⟩

theorem trail_cons : fs.trail links dir (seg :: segs) =
    ⟨looks dir seg ++ (fs.trailTail links dir segs (fs.turn dir seg)).looked,
      (fs.trailTail links dir segs (fs.turn dir seg)).result⟩ := by
  cases links with
  | zero =>
    rw [trail, trailFrom]
    cases fs.turn dir seg <;> rfl
  | succ links =>
    rw [trail, trailFrom]
    cases fs.turn dir seg <;> rfl

theorem trail_induct {motive : Nat → List Bytes → List Bytes → Prop}
    (done : ∀ links dir, motive links dir [])
    (step : ∀ links dir seg segs, (∀ names, motive links names segs) →
      (∀ fewer < links, ∀ names segs', motive fewer names segs') → motive links dir (seg :: segs))
    (links : Nat) (dir segs : List Bytes) : motive links dir segs := by
  induction links using Nat.strong_induction_on generalizing dir segs with
  | _ links ihLinks =>
    induction segs generalizing dir with
    | nil => exact done links dir
    | cons seg segs ih => exact step links dir seg segs ih ihLinks

theorem turn_congr (h : ∀ p ∈ looks dir seg, fs.node p = fs'.node p) :
    fs.turn dir seg = fs'.turn dir seg := by
  rw [turn, turn]
  by_cases hstay : seg = [] ∨ seg = [dot]
  · rw [if_pos hstay, if_pos hstay]
  by_cases hparent : seg = dotDot dot
  · rw [if_neg hstay, if_neg hstay, if_pos hparent, if_pos hparent]
  by_cases hlong : nameMax < seg.length
  · rw [if_neg hstay, if_neg hstay, if_neg hparent, if_neg hparent, if_pos hlong, if_pos hlong]
  obtain ⟨hne, hdot⟩ := not_or.1 hstay
  have hlooks : looks dir seg = [dir ++ [seg]] := by
    apply if_neg
    simp only [hne, hdot, hparent, hlong, or_self, not_false_eq_true]
  rw [hlooks, List.forall_mem_singleton] at h
  rw [h]

/-- A walk depends on nothing but what it looks up. -/
theorem trail_congr (h : ∀ p ∈ (fs.trail links dir segs).looked, fs.node p = fs'.node p) :
    fs.trail links dir segs = fs'.trail links dir segs := by
  induction links, dir, segs using trail_induct with
  | done links dir => rw [trail_nil, trail_nil]
  | step links dir seg segs ih ihLinks =>
    rw [trail_cons] at h
    rw [trail_cons, trail_cons]
    obtain ⟨hhead, htail⟩ := List.forall_mem_append.1 h
    have hrest : fs.trailTail links dir segs (fs.turn dir seg) =
        fs'.trailTail links dir segs (fs.turn dir seg) := by
      cases hturn : fs.turn dir seg with
      | enter names =>
        rw [hturn] at htail
        exact ih names htail
      | reach names => rfl
      | follow target =>
        rw [hturn] at htail
        cases links with
        | zero => rfl
        | succ links => exact ihLinks links (Nat.lt_succ_self links) _ _ htail
      | fail errno => rfl
    rw [hrest, turn_congr hhead]

theorem turn_cases (fs : FileSystem) (dir : List Bytes) (seg : Bytes) :
    ((seg = [] ∨ seg = [dot]) ∧ fs.turn dir seg = .enter dir) ∨
    (seg = dotDot dot ∧ fs.turn dir seg = .enter dir.dropLast) ∨
    (∃ errno, fs.turn dir seg = .fail errno) ∨
    ((seg ≠ [] ∧ seg ≠ [dot] ∧ seg ≠ dotDot dot) ∧
      ((fs.node (dir ++ [seg]) = some .directory ∧ fs.turn dir seg = .enter (dir ++ [seg])) ∨
      ((fs.node (dir ++ [seg]) = some .file ∨ fs.node (dir ++ [seg]) = some .other) ∧
        fs.turn dir seg = .reach (dir ++ [seg])) ∨
      ∃ target, fs.node (dir ++ [seg]) = some (.symlink target) ∧
        fs.turn dir seg = .follow target)) := by
  rw [turn]
  by_cases hstay : seg = [] ∨ seg = [dot]
  · exact .inl ⟨hstay, if_pos hstay⟩
  by_cases hparent : seg = dotDot dot
  · exact .inr (.inl ⟨hparent, by rw [if_neg hstay, if_pos hparent]⟩)
  by_cases hlong : nameMax < seg.length
  · exact .inr (.inr (.inl ⟨_, by rw [if_neg hstay, if_neg hparent, if_pos hlong]⟩))
  obtain ⟨hne, hdot⟩ := not_or.1 hstay
  rw [if_neg hstay, if_neg hparent, if_neg hlong]
  refine .inr (.inr ?_)
  cases hnode : fs.node (dir ++ [seg]) with
  | none => exact .inl ⟨_, rfl⟩
  | some node =>
    refine .inr ⟨⟨hne, hdot, hparent⟩, ?_⟩
    cases node with
    | file => exact .inr (.inl ⟨.inl rfl, rfl⟩)
    | directory => exact .inl ⟨rfl, rfl⟩
    | other => exact .inr (.inl ⟨.inr rfl, rfl⟩)
    | symlink target => exact .inr (.inr ⟨target, rfl, rfl⟩)

theorem walk_of_trail (h : (fs.trail links dir segs).result = .ok (names, left)) :
    fs.Walk dir segs names := by
  induction links, dir, segs using trail_induct with
  | done links dir =>
    rw [trail_nil] at h
    cases h
    exact .done
  | step links dir seg segs ih ihLinks =>
    rw [trail_cons] at h
    rcases fs.turn_cases dir seg with ⟨hstay, hturn⟩ | ⟨rfl, hturn⟩ | ⟨errno, hturn⟩ |
      ⟨⟨hne, hdot, hparent⟩, ⟨hnode, hturn⟩ | ⟨hnode, hturn⟩ | ⟨target, hnode, hturn⟩⟩
    · rw [hturn] at h
      exact .stay hstay (ih _ h)
    · rw [hturn] at h
      exact .parent (ih _ h)
    · rw [hturn] at h
      cases h
    · rw [hturn] at h
      exact .enter hne hdot hparent (.inl hnode) (ih _ h)
    · rw [hturn] at h
      by_cases hend : segs = []
      · subst hend
        cases h
        exact .enter hne hdot hparent (.inr ⟨rfl, hnode⟩) .done
      · simp only [trailTail, if_neg hend] at h
        cases h
    · rw [hturn] at h
      cases links with
      | zero => cases h
      | succ links =>
        exact .follow hne hdot hparent hnode (ihLinks links (Nat.lt_succ_self links) _ _ h)

def Above (fs : FileSystem) (names : List Bytes) : Prop :=
  ∀ upper, upper <+: names → fs.IsDirectory upper

theorem Above.nil : fs.Above [] := fun _ h => .inl (List.prefix_nil.1 h)

theorem Above.dropLast (h : fs.Above dir) : fs.Above dir.dropLast :=
  fun upper hu => h upper (hu.trans (List.dropLast_prefix dir))

theorem Above.concat (h : fs.Above dir) (hnode : fs.node (dir ++ [seg]) = some .directory) :
    fs.Above (dir ++ [seg]) := by
  intro upper hu
  rcases List.prefix_concat_iff.1 hu with rfl | hu
  · exact .inr hnode
  · exact h upper hu

def IsLeaf (fs : FileSystem) (names : List Bytes) : Prop :=
  names ≠ [] ∧ (fs.node names = some .file ∨ fs.node names = some .other)

/-- Where a walk ends: in a directory, from which a longer path goes on, or at something else,
behind which there is nothing. -/
theorem trail_append (habove : fs.Above dir)
    (h : (fs.trail links dir segs).result = .ok (names, left)) {more : List Bytes}
    (hmore : more ≠ []) :
    (fs.Above names ∧
      (fs.trail links dir (segs ++ more)).result = (fs.trail left names more).result) ∨
    (fs.IsLeaf names ∧ fs.Above names.dropLast ∧
      (fs.trail links dir (segs ++ more)).result = .error .notdir) := by
  induction links, dir, segs using trail_induct with
  | done links dir =>
    rw [trail_nil] at h
    cases h
    exact .inl ⟨habove, rfl⟩
  | step links dir seg segs ih ihLinks =>
    rw [trail_cons] at h
    rw [List.cons_append, trail_cons]
    rcases fs.turn_cases dir seg with ⟨hstay, hturn⟩ | ⟨rfl, hturn⟩ | ⟨errno, hturn⟩ |
      ⟨-, ⟨hnode, hturn⟩ | ⟨hnode, hturn⟩ | ⟨target, hnode, hturn⟩⟩
    · rw [hturn] at h ⊢
      exact ih _ habove h
    · rw [hturn] at h ⊢
      exact ih _ habove.dropLast h
    · rw [hturn] at h
      cases h
    · rw [hturn] at h ⊢
      exact ih _ (habove.concat hnode) h
    · rw [hturn] at h ⊢
      by_cases hend : segs = []
      · subst hend
        cases h
        have hne : dir ++ [seg] ≠ [] := List.append_ne_nil_of_right_ne_nil _ (List.cons_ne_nil _ _)
        rw [List.dropLast_concat]
        exact .inr ⟨⟨hne, hnode⟩, habove, if_neg hmore⟩
      · simp only [trailTail, if_neg hend] at h
        cases h
    · rw [hturn] at h ⊢
      cases links with
      | zero => cases h
      | succ links =>
        have hbase : fs.Above (if target.head? = some slash then [] else dir) := by
          split
          · exact .nil
          · exact habove
        have hrest := ihLinks links (Nat.lt_succ_self links) _ _ hbase h
        rw [List.append_assoc] at hrest
        exact hrest

theorem mode_of_trail (habove : fs.Above dir)
    (h : (fs.trail links dir segs).result = .ok (names, left)) :
    ∃ mode, fs.mode names = some mode := by
  rw [FileSystem.mode]
  have hmore : [([] : Bytes)] ≠ [] := List.cons_ne_nil _ _
  rcases trail_append habove h hmore with ⟨hdir, -⟩ | ⟨⟨hne, hnode⟩, -⟩
  · rcases hdir names (List.prefix_refl names) with hnil | hnode
    · exact ⟨_, if_pos hnil⟩
    · rw [hnode]
      exact ⟨.directory, ite_self _⟩
  · rw [if_neg hne]
    rcases hnode with hnode | hnode
    · exact ⟨.regular, by rw [hnode]⟩
    · exact ⟨.other, by rw [hnode]⟩

theorem looks_ne_nil {p : List Bytes} (h : p ∈ looks dir seg) : p ≠ [] := by
  rw [looks] at h
  split at h
  · cases h
  · rw [List.mem_singleton.1 h]
    exact List.append_ne_nil_of_right_ne_nil _ (List.cons_ne_nil _ _)

theorem looked_ne_nil {p : List Bytes} (h : p ∈ (fs.trail links dir segs).looked) : p ≠ [] := by
  induction links, dir, segs using trail_induct with
  | done links dir =>
    rw [trail_nil] at h
    cases h
  | step links dir seg segs ih ihLinks =>
    rw [trail_cons] at h
    rcases List.mem_append.1 h with h | h
    · exact looks_ne_nil h
    cases hturn : fs.turn dir seg with
    | enter names =>
      rw [hturn] at h
      exact ih names h
    | reach names =>
      rw [hturn] at h
      cases h
    | follow target =>
      rw [hturn] at h
      cases links with
      | zero => cases h
      | succ links => exact ihLinks links (Nat.lt_succ_self links) _ _ h
    | fail errno =>
      rw [hturn] at h
      cases h

end Trail

end FileSystem

end Httpd
