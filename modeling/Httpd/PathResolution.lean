import Httpd.OperatingSystem
import Httpd.PathDecoding
import Mathlib.Data.List.DropRight

namespace Httpd
open PathSegments
set_option autoImplicit true

inductive FileKind where
  | regular
  | directory
  deriving DecidableEq

structure FileInfo where
  resolvedPath : Bytes
  kind : FileKind
  size : UInt64
  mimeType : Bytes
  deriving DecidableEq

def startsWithDotDot : Bytes → Bool
  | 46 :: 46 :: rest => rest = [] ∨ rest.head? = some slash
  | _ => false

/-- Every round passes a segment, so the length is fuel enough. -/
def containsDotDotLoop : Nat → Bytes → Bool
  | 0, _ => false
  | fuel + 1, path =>
    if path = [] then false
    else
      let p := path.dropWhile (· = slash)
      if startsWithDotDot p then true
      else containsDotDotLoop fuel (p.dropWhile (· ≠ slash))

def containsDotDotSegment (path : Bytes) : Bool := containsDotDotLoop path.length path

def pathHasPrefix (path pre : Bytes) : Bool :=
  pre <+: path ∧ (path.drop pre.length = [] ∨ (path.drop pre.length).head? = some slash)

def mimeTypes : List (String × String) :=
  [(".html", "text/html"), (".htm", "text/html"), (".txt", "text/plain"), (".css", "text/css"),
    (".csv", "text/csv"), (".xml", "application/xml"), (".yaml", "text/yaml"),
    (".yml", "text/yaml"), (".js", "application/javascript"),
    (".mjs", "application/javascript"), (".json", "application/json"), (".png", "image/png"),
    (".jpg", "image/jpeg"), (".jpeg", "image/jpeg"), (".gif", "image/gif"),
    (".svg", "image/svg+xml"), (".svgz", "image/svg+xml"), (".ico", "image/x-icon"),
    (".bmp", "image/bmp"), (".webp", "image/webp"), (".pdf", "application/pdf"),
    (".zip", "application/zip"), (".tar", "application/x-tar"), (".gz", "application/gzip"),
    (".7z", "application/x-7z-compressed"), (".woff", "font/woff"), (".woff2", "font/woff2"),
    (".ttf", "font/ttf"), (".otf", "font/otf"), (".eot", "application/vnd.ms-fontobject"),
    (".wasm", "application/wasm"), (".xslt", "application/xslt+xml"), (".mp4", "video/mp4"),
    (".webm", "video/webm"), (".ts", "video/mp2t"), (".mp3", "audio/mpeg"),
    (".ogg", "audio/ogg"), (".wav", "audio/wav"), (".doc", "application/msword"),
    (".docx", "application/vnd.openxmlformats-officedocument.wordprocessingml.document"),
    (".xls", "application/vnd.ms-excel"),
    (".xlsx", "application/vnd.openxmlformats-officedocument.spreadsheetml.sheet"),
    (".ppt", "application/vnd.ms-powerpoint"),
    (".pptx", "application/vnd.openxmlformats-officedocument.presentationml.presentation"),
    (".sh", "application/x-sh"), (".c", "text/x-c"), (".h", "text/x-chdr"),
    (".md", "text/markdown")]

/-- `strrchr (path, '.')`. -/
def lastExtension (path : Bytes) : Option Bytes :=
  if dot ∈ path then some (dot :: path.rtakeWhile (· ≠ dot)) else none

def fileMimeType (path : Bytes) : Bytes :=
  match lastExtension path with
  | none => ascii "application/octet-stream"
  | some extension =>
    match mimeTypes.find? fun entry => ascii entry.1 = extension with
    | none => ascii "application/octet-stream"
    | some entry => ascii entry.2

def relativePath (decoded : Bytes) : Bytes := decoded.dropWhile (· = slash)

def fileResolvePath (os : Os) (docRoot requestPath : Bytes) (resolvedSize : Nat) :
    Except FileFailure Bytes :=
  if resolvedSize = 0 then .error .error
  else
    match decodePath requestPath filePathMax with
    | .error e => .error e
    | .ok decoded =>
      if containsDotDotSegment decoded then .error .forbidden
      else
        let text := docRoot ++ slash :: relativePath decoded
        if (snprintf filePathMax text).1 ≥ filePathMax then .error .error
        else
          let joinedPath := (snprintf filePathMax text).2
          match os.realpath docRoot with
          | .error _ => .error .error
          | .ok rootReal =>
            match os.realpath joinedPath with
            | .error errno =>
              if errno = .noent ∨ errno = .notdir then .error .notFound else .error .error
            | .ok targetReal =>
              if !pathHasPrefix targetReal rootReal then .error .forbidden
              else if targetReal.length ≥ resolvedSize then .error .error
              else .ok targetReal

def fileStatPath (os : Os) (docRoot requestPath : Bytes) : Except FileFailure FileInfo :=
  match fileResolvePath os docRoot requestPath filePathMax with
  | .error e => .error e
  | .ok resolvedPath =>
    match os.stat resolvedPath with
    | .error errno =>
      if errno = .noent ∨ errno = .notdir then .error .notFound else .error .error
    | .ok st =>
      match st.mode with
      | .directory => .ok ⟨resolvedPath, .directory, 0, ascii "text/html"⟩
      | .regular => .ok ⟨resolvedPath, .regular, st.size, fileMimeType resolvedPath⟩
      | .other => .error .forbidden

theorem startsWithDotDot_iff (p : Bytes) :
    startsWithDotDot p = true ↔ p.takeWhile (· ≠ slash) = dotDot dot := by
  unfold startsWithDotDot
  split
  · rename_i rest
    cases rest with
    | nil => decide
    | cons c rest =>
      by_cases hc : c = slash
      · subst c
        simp [dotDot, dot, slash]
      · simp [dotDot, dot, slash, show ¬c = 47 from hc]
  · rename_i hne
    refine iff_of_false Bool.false_ne_true fun he => ?_
    obtain ⟨q, hq⟩ := (List.takeWhile_prefix (l := p) (· ≠ slash))
    rw [he] at hq
    exact hne q hq.symm

theorem afterSegment_length {path : Bytes} (h : path ≠ []) :
    ((path.dropWhile (· = slash)).dropWhile (· ≠ slash)).length < path.length := by
  obtain ⟨c, rest, rfl⟩ := List.exists_cons_of_ne_nil h
  by_cases hc : c = slash
  · rw [List.dropWhile_cons_of_pos (by simpa only [decide_eq_true_eq] using hc)]
    have h₁ := (List.dropWhile_suffix (l := rest.dropWhile (· = slash)) (· ≠ slash)).length_le
    have h₂ := (List.dropWhile_suffix (l := rest) (· = slash)).length_le
    exact Nat.lt_succ_of_le (Nat.le_trans h₁ h₂)
  · rw [List.dropWhile_cons_of_neg (by simpa only [decide_eq_true_eq] using hc),
      List.dropWhile_cons_of_pos (by simpa only [ne_eq, decide_eq_true_eq] using hc)]
    exact Nat.lt_succ_of_le (List.dropWhile_suffix _).length_le

theorem containsDotDotLoop_iff (hf : path.length ≤ fuel) :
    containsDotDotLoop fuel path = true ↔ dotDot dot ∈ segments slash path := by
  have hne : dotDot dot ≠ [] := by decide
  induction fuel generalizing path with
  | zero =>
    rw [List.length_eq_zero_iff.1 (Nat.le_zero.1 hf)]
    decide
  | succ fuel ih =>
    unfold containsDotDotLoop
    by_cases hp : path = []
    · rw [hp, if_pos rfl]
      decide
    rw [if_neg hp, ← mem_segments_dropWhile slash hne, mem_segments_split slash hne]
    by_cases hs : startsWithDotDot (path.dropWhile (· = slash)) = true
    · simp only [hs, ↓reduceIte, ((startsWithDotDot_iff _).1 hs).symm, true_or]
    · have hs' := fun h => hs ((startsWithDotDot_iff _).2 h)
      have hlt := afterSegment_length hp
      simp only [hs, Bool.false_eq_true, ↓reduceIte]
      refine (ih (by omega)).trans ?_
      exact ⟨.inr, fun h => h.resolve_left fun he => hs' he.symm⟩

theorem containsDotDotSegment_iff (path : Bytes) :
    containsDotDotSegment path = true ↔ dotDot dot ∈ segments slash path :=
  containsDotDotLoop_iff (Nat.le_refl _)

/-- Whatever a decoded path without parent segments is appended to, resolving it segment by
segment never climbs above that base. -/
theorem relativePath_stays_below {decoded : Bytes}
    (h : containsDotDotSegment decoded = false) (docRoot : Bytes) (k : Nat) :
    normalize dot (segments slash docRoot) <+:
      normalize dot (segments slash docRoot ++ (segments slash (relativePath decoded)).take k) := by
  apply normalize_append_prefix
  intro hm
  have hm' := List.mem_of_mem_take hm
  rw [relativePath, mem_segments_dropWhile slash (by decide),
    ← containsDotDotSegment_iff, h] at hm'
  cases hm'

theorem pathHasPrefix_prefix {root target : List Bytes} (hroot : ∀ n ∈ root, Component slash n)
    (htarget : ∀ n ∈ target, Component slash n)
    (h : pathHasPrefix (absolutePath slash target) (absolutePath slash root) = true) :
    root <+: target := by
  simp only [pathHasPrefix, Bool.decide_and, Bool.and_eq_true, decide_eq_true_eq] at h
  obtain ⟨⟨rest, hrest⟩, hend⟩ := h
  rw [← hrest, List.drop_left] at hend
  cases root with
  | nil => exact List.nil_prefix
  | cons r root =>
    have hr := (hroot r List.mem_cons_self).ne_nil
    cases target with
    | nil =>
      simp only [absolutePath, ↓reduceIte, reduceCtorEq, joined, List.flatMap_cons,
        List.cons_append, List.cons.injEq, true_and, List.append_eq_nil_iff] at hrest
      exact absurd hrest.1.1 hr
    | cons t target =>
      exact prefix_of_joined_append slash (fun n hn => (hroot n hn).no_sep)
        (fun n hn => (htarget n hn).no_sep) hend hrest

theorem joined_length {docRoot decoded : Bytes} (hr : docRoot.length < pathMax)
    (hd : decoded.length < filePathMax) :
    (docRoot ++ slash :: relativePath decoded).length ≤ intMax := by
  have hl : (relativePath decoded).length ≤ decoded.length :=
    (List.dropWhile_suffix _).length_le
  rw [List.length_append, List.length_cons]
  simp only [pathMax, filePathMax, intMax] at *
  omega

/-- The joined path is short enough for `snprintf` to store it and say so. -/
theorem joined_fits {docRoot decoded : Bytes} (hr : docRoot.length < pathMax)
    (hd : decoded.length < filePathMax)
    (h : (snprintf filePathMax (docRoot ++ slash :: relativePath decoded)).1 < filePathMax) :
    (snprintf filePathMax (docRoot ++ slash :: relativePath decoded)).2 =
      docRoot ++ slash :: relativePath decoded := by
  have hprinted : 0 ≤ (snprintf filePathMax (docRoot ++ slash :: relativePath decoded)).1 := by
    rw [snprintf, if_pos (joined_length hr hd)]
    exact Int.natCast_nonneg _
  exact (snprintf_fits hprinted h).1

theorem fileResolvePath_ok {os : Os} {docRoot requestPath resolved : Bytes} {resolvedSize : Nat}
    (h : fileResolvePath os docRoot requestPath resolvedSize = .ok resolved) :
    ∃ decoded rootReal, decodePath requestPath filePathMax = .ok decoded ∧
      containsDotDotSegment decoded = false ∧
      (snprintf filePathMax (docRoot ++ slash :: relativePath decoded)).1 < filePathMax ∧
      os.realpath docRoot = .ok rootReal ∧
      os.realpath (snprintf filePathMax (docRoot ++ slash :: relativePath decoded)).2 =
        .ok resolved ∧
      pathHasPrefix resolved rootReal = true ∧ resolved.length < resolvedSize := by
  unfold fileResolvePath at h
  split at h
  · cases h
  split at h
  · cases h
  rename_i decoded hd
  split at h
  · cases h
  rename_i hdots
  simp only at h
  split at h
  · cases h
  rename_i hfits
  split at h
  · cases h
  rename_i rootReal hroot
  split at h
  · split at h <;> cases h
  rename_i targetReal htarget
  split at h
  · cases h
  rename_i hprefix
  split at h
  · cases h
  rename_i hlen
  cases h
  refine ⟨decoded, rootReal, hd, Bool.eq_false_iff.2 hdots, Int.not_le.1 hfits, hroot, htarget,
    ?_, Nat.lt_of_not_le hlen⟩
  simpa using hprefix

theorem fileStatPath_ok {os : Os} {docRoot requestPath : Bytes} {info : FileInfo}
    (h : fileStatPath os docRoot requestPath = .ok info) :
    fileResolvePath os docRoot requestPath filePathMax = .ok info.resolvedPath ∧
      ∃ st, os.stat info.resolvedPath = .ok st ∧
        (st.mode = .directory ∧ info = ⟨info.resolvedPath, .directory, 0, ascii "text/html"⟩ ∨
          st.mode = .regular ∧
            info = ⟨info.resolvedPath, .regular, st.size, fileMimeType info.resolvedPath⟩) := by
  unfold fileStatPath at h
  split at h
  · cases h
  rename_i resolvedPath hresolve
  split at h
  · split at h <;> cases h
  rename_i st hstat
  split at h
  · rename_i hmode
    cases h
    exact ⟨hresolve, st, hstat, .inl ⟨hmode, rfl⟩⟩
  · rename_i hmode
    cases h
    exact ⟨hresolve, st, hstat, .inr ⟨hmode, rfl⟩⟩
  · cases h

/-- A path that is served is the whole canonical path of what the joined path names, and lies
at or below the document root; and without any help from the file system, no reading of the
joined path from left to right climbs above the document root. -/
theorem fileResolvePath_confined (fs : FileSystem) (os : Os) (hos : os.RealpathSound fs)
    (docRoot requestPath : Bytes) (resolvedSize : Nat) :
    (∀ resolved, fileResolvePath os docRoot requestPath resolvedSize = .ok resolved →
      ∃ decoded root target, decodePath requestPath filePathMax = .ok decoded ∧
        fs.Resolves docRoot root ∧
        fs.Resolves (docRoot ++ slash :: relativePath decoded) target ∧
        resolved = absolutePath slash target ∧
        (∀ n ∈ target, CanonicalName slash dot n) ∧ root <+: target) ∧
    (∀ decoded outputSize, decodePath requestPath outputSize = .ok decoded →
      containsDotDotSegment decoded = false →
      ∀ k, normalize dot (segments slash docRoot) <+:
        normalize dot ((segments slash (docRoot ++ slash :: relativePath decoded)).take
          ((segments slash docRoot).length + k))) := by
  constructor
  · intro resolved h
    obtain ⟨decoded, rootReal, hd, _, hfits, hroot, htarget, hprefix, _⟩ := fileResolvePath_ok h
    obtain ⟨root, hr, rfl⟩ := hos.canonical hroot
    obtain ⟨target, ht, rfl⟩ := hos.canonical htarget
    have hlen := ((decodePath_ok_iff (by decide)).1 hd).2
    rw [joined_fits (hos.short hroot) hlen hfits] at ht
    exact ⟨decoded, root, target, hd, hr, ht, rfl, ht.canonical,
      pathHasPrefix_prefix hr.components ht.components hprefix⟩
  · intro decoded _ _ hdots k
    rw [segments_append_sep, List.take_length_add_append]
    exact relativePath_stays_below hdots docRoot k

def pageFileSystem : FileSystem where
  node names :=
    if names = [ascii "srv"] ∨ names = [ascii "srv", ascii "www"] then some .directory
    else if names = [ascii "srv", ascii "www", ascii "index.html"] then some .file
    else none
  workingDirectory := []
  workingDirectory_canonical := fun _ h => by cases h

def pageOs : Os where
  realpath path :=
    if path = ascii "/srv/www" ∨ path = ascii "/srv/www/" then .ok (ascii "/srv/www")
    else if path = ascii "/srv/www/index.html" then .ok path
    else .error .noent
  stat path :=
    if path = ascii "/srv/www" then .ok ⟨.directory, 4096⟩
    else if path = ascii "/srv/www/index.html" then .ok ⟨.regular, 6⟩
    else .error .noent
  fopen path := if path = ascii "/srv/www/index.html" then some (ascii "static") else none
  fseeko _ := true
  freads := []
  opendir path := if path = ascii "/srv/www" then some [ascii "index.html"] else none
  allocations := []

theorem pageOs_sound : pageOs.RealpathSound pageFileSystem := by
  have hroot {segs r : List Bytes} (h : pageFileSystem.Walk [ascii "srv", ascii "www"] segs r) :
      pageFileSystem.Walk [] ([] :: ascii "srv" :: ascii "www" :: segs) r :=
    .stay (.inl rfl) (.enter (by decide) (by decide) (by decide) (.inl rfl)
      (.enter (by decide) (by decide) (by decide) (.inl rfl) h))
  constructor
  · intro path target h
    simp only [pageOs] at h
    split at h
    · rename_i hp
      rcases hp with rfl | rfl <;> decide
    · split at h
      · rename_i hp
        rw [hp]
        decide
      · cases h
  · intro path target h
    simp only [pageOs] at h
    split at h
    · rename_i hp
      cases h
      rcases hp with rfl | rfl
      · exact ⟨[ascii "srv", ascii "www"], ⟨by decide, hroot .done⟩, by decide⟩
      · exact ⟨[ascii "srv", ascii "www"], ⟨by decide, hroot (.stay (.inl rfl) .done)⟩, by decide⟩
    · split at h
      · rename_i hp
        cases h
        rw [hp]
        refine ⟨[ascii "srv", ascii "www", ascii "index.html"], ⟨by decide, hroot ?_⟩, by decide⟩
        exact .enter (by decide) (by decide) (by decide) (.inr ⟨rfl, .inl rfl⟩) .done
      · cases h

theorem fileResolvePath_confined_page : ∃ root target,
    pageFileSystem.Resolves (ascii "/srv/www") root ∧ root <+: target ∧
      ascii "/srv/www/index.html" = absolutePath slash target := by
  have hd : decodePath [47, 47, 105, 110, 100, 101, 120, 37, 50, 69, 104, 116, 109, 108]
      filePathMax = .ok [47, 47, 105, 110, 100, 101, 120, 46, 104, 116, 109, 108] := by decide
  have hok : fileResolvePath pageOs (ascii "/srv/www")
      [47, 47, 105, 110, 100, 101, 120, 37, 50, 69, 104, 116, 109, 108] filePathMax =
        .ok (ascii "/srv/www/index.html") := by
    unfold fileResolvePath
    rw [hd]
    decide
  obtain ⟨_, root, target, _, hr, _, he, _, hp⟩ :=
    (fileResolvePath_confined pageFileSystem pageOs pageOs_sound _ _ _).1 _ hok
  exact ⟨root, target, hr, hp, he⟩

end Httpd
