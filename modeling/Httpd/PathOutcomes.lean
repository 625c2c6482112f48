import Httpd.Answers
import Httpd.PlainTree

namespace Httpd
open PathSegments
set_option autoImplicit true

/-- The textual check accepts exactly what lies at or below the root, unless the root is `/`. -/
theorem pathHasPrefix_iff {root target : List Bytes} (hroot : ∀ n ∈ root, Component slash n)
    (htarget : ∀ n ∈ target, Component slash n) :
    pathHasPrefix (absolutePath slash target) (absolutePath slash root) = true ↔
      root <+: target ∧ (root = [] → target = []) := by
  constructor
  · intro h
    have hbelow := pathHasPrefix_prefix hroot htarget h
    refine ⟨hbelow, ?_⟩
    rintro rfl
    cases target with
    | nil => rfl
    | cons name target =>
      have hname := htarget name List.mem_cons_self
      obtain ⟨ch, later, rfl⟩ := List.exists_cons_of_ne_nil hname.ne_nil
      simp only [pathHasPrefix, Bool.decide_and, Bool.and_eq_true, decide_eq_true_eq] at h
      rcases h.2 with he | he
      · cases he
      · cases he
        exact absurd List.mem_cons_self hname.no_sep
  · rintro ⟨⟨below, rfl⟩, hnil⟩
    cases root with
    | nil =>
      rw [List.nil_append] at hnil ⊢
      rw [hnil rfl]
      decide
    | cons name root =>
      have htext : absolutePath slash (name :: root ++ below) =
          absolutePath slash (name :: root) ++ joined slash below := by
        simp only [absolutePath, List.cons_append, reduceCtorEq, ↓reduceIte, joined,
          List.flatMap_cons, List.flatMap_append, List.append_assoc]
      rw [htext]
      simp only [pathHasPrefix, Bool.decide_and, Bool.and_eq_true, decide_eq_true_eq, List.drop_left]
      exact ⟨List.prefix_append _ _, joined_head slash below⟩

def joinedPath (docRoot decoded : Bytes) : Bytes := docRoot ++ slash :: relativePath decoded

section Outcomes

variable {os : Os} {docRoot requestPath decoded rootReal : Bytes} {failure : FileFailure}

theorem fileStatPath_of_resolve_error
    (h : fileResolvePath os docRoot requestPath filePathMax = .error failure) :
    fileStatPath os docRoot requestPath = .error failure := by
  rw [fileStatPath, h]

theorem fileStatPath_undecoded (h : decodePath requestPath filePathMax = .error failure) :
    fileStatPath os docRoot requestPath = .error failure := by
  apply fileStatPath_of_resolve_error
  rw [fileResolvePath, h]
  rfl

theorem fileStatPath_dots (h : decodePath requestPath filePathMax = .ok decoded)
    (hdots : containsDotDotSegment decoded = true) :
    fileStatPath os docRoot requestPath = .error .forbidden := by
  apply fileStatPath_of_resolve_error
  simp only [fileResolvePath, h, hdots, if_true]
  rfl

theorem fileResolvePath_lookup (h : decodePath requestPath filePathMax = .ok decoded)
    (hdots : containsDotDotSegment decoded = false)
    (hlen : (joinedPath docRoot decoded).length ≤ intMax)
    (hroot : os.realpath docRoot = .ok rootReal) :
    fileResolvePath os docRoot requestPath filePathMax =
      if filePathMax ≤ (joinedPath docRoot decoded).length then .error .error
      else
        match os.realpath (joinedPath docRoot decoded) with
        | .error errno =>
          if errno = .noent ∨ errno = .notdir then .error .notFound else .error .error
        | .ok targetReal =>
          if !pathHasPrefix targetReal rootReal then .error .forbidden
          else if targetReal.length ≥ filePathMax then .error .error
          else .ok targetReal := by
  have hzero : ¬ filePathMax = 0 := by decide
  have hprint : (snprintf filePathMax (joinedPath docRoot decoded)).1 =
      (joinedPath docRoot decoded).length := if_pos hlen
  have hprinted : (joinedPath docRoot decoded) = docRoot ++ slash :: relativePath decoded := rfl
  rw [hprinted] at hlen hprint ⊢
  by_cases hlong : filePathMax ≤ (docRoot ++ slash :: relativePath decoded).length
  · simp only [fileResolvePath, if_neg hzero, h, hdots, Bool.false_eq_true, if_false, hprint,
      ge_iff_le, Nat.cast_le, if_pos hlong]
  · have hwhole : (snprintf filePathMax (docRoot ++ slash :: relativePath decoded)).2 =
        docRoot ++ slash :: relativePath decoded :=
      List.take_of_length_le (Nat.le_pred_of_lt (Nat.not_le.1 hlong))
    cases hfound : os.realpath (docRoot ++ slash :: relativePath decoded) <;>
      simp only [fileResolvePath, if_neg hzero, h, hdots, Bool.false_eq_true, if_false, hprint,
        hroot, ge_iff_le, Nat.cast_le, if_neg hlong, hwhole, hfound]

end Outcomes

/-- What is refused whatever it names: a malformed escape, a banned byte or a parent segment. -/
def Refusable (requestPath : Bytes) : Prop :=
  (∃ token ∈ pathBytes requestPath, Banned token) ∨
    ∃ decoded, DecodesTo requestPath decoded ∧ dotDot dot ∈ segments slash decoded

def AsksFor (docRoot requestPath path : Bytes) : Prop :=
  ∃ decoded, DecodesTo requestPath decoded ∧ dotDot dot ∉ segments slash decoded ∧
    path = joinedPath docRoot decoded

/-- What a request path is to be answered with. -/
structure PathAnswered (fs : FileSystem) (root : List Bytes) (docRoot requestPath : Bytes)
    (result : Except FileFailure FileInfo) : Prop where
  refused : Refusable requestPath → result = .error .forbidden
  missing : AsksFor docRoot requestPath path → (∀ names, ¬ fs.Names path names) →
    result = .error .notFound
  outside : AsksFor docRoot requestPath path → fs.Names path names → ¬ root <+: names →
    result = .error .forbidden
  regular : AsksFor docRoot requestPath path → fs.Names path names → root <+: names →
    fs.node names = some .file →
    ∃ info, result = .ok info ∧ info.kind = .regular ∧
      info.resolvedPath = absolutePath slash names
  directory : AsksFor docRoot requestPath path → fs.Names path names → root <+: names →
    fs.IsDirectory names →
    ∃ info, result = .ok info ∧ info.kind = .directory ∧
      info.resolvedPath = absolutePath slash names

def AsksForOther (fs : FileSystem) (root : List Bytes) (docRoot requestPath : Bytes) : Prop :=
  ∃ path names, AsksFor docRoot requestPath path ∧ fs.Names path names ∧ root <+: names ∧
    fs.node names ≠ some .file ∧ ¬ fs.IsDirectory names

/-- Nothing about the request is too long, and the root is not `/` when more than `/` is asked
for. -/
structure Handled (fs : FileSystem) (os : Os) (root : List Bytes) (docRoot requestPath : Bytes) :
    Prop where
  decoded_fits : (readable (pathBytes requestPath)).length < filePathMax
  path_fits : AsksFor docRoot requestPath path → path.length < filePathMax
  names_fit : AsksFor docRoot requestPath path → os.realpath path ≠ .error .nametoolong
  below_root : AsksFor docRoot requestPath path → fs.Names path names → names ≠ [] → root ≠ []

theorem AsksFor.not_refusable (h : AsksFor docRoot requestPath path) : ¬ Refusable requestPath := by
  obtain ⟨decoded, hd, hdots, _⟩ := h
  rintro (hbanned | ⟨decoded', hd', hdots'⟩)
  · exact decodesTo_iff.1 ⟨decoded, hd⟩ hbanned
  · rw [← hd'.readable, hd.readable] at hdots'
    exact hdots hdots'

theorem AsksFor.unique (h : AsksFor docRoot requestPath path)
    (h' : AsksFor docRoot requestPath path') : path = path' := by
  obtain ⟨decoded, hd, _, rfl⟩ := h
  obtain ⟨decoded', hd', _, rfl⟩ := h'
  rw [← hd.readable, hd'.readable]

def askedPath (docRoot requestPath : Bytes) : Bytes :=
  joinedPath docRoot (readable (pathBytes requestPath))

theorem AsksFor.eq (h : AsksFor docRoot requestPath path) :
    path = askedPath docRoot requestPath := by
  obtain ⟨decoded, hd, _, rfl⟩ := h
  rw [askedPath, hd.readable]

theorem asksFor_of_not_refusable (docRoot : Bytes) (h : ¬ Refusable requestPath) :
    ∃ path, AsksFor docRoot requestPath path := by
  rw [Refusable, not_or] at h
  obtain ⟨decoded, hd⟩ := decodesTo_iff.2 h.1
  exact ⟨_, decoded, hd, fun hdots => h.2 ⟨decoded, hd, hdots⟩, rfl⟩

theorem absolutePath_inj {names names' : List Bytes} (h : ∀ n ∈ names, Component slash n)
    (h' : ∀ n ∈ names', Component slash n)
    (he : absolutePath slash names = absolutePath slash names') : names = names' := by
  have hself : ∀ path : Bytes, pathHasPrefix path path = true := by
    intro path
    simp only [pathHasPrefix, List.prefix_rfl, List.drop_length, true_or, and_true, decide_true]
  have hle : names <+: names' := by
    apply pathHasPrefix_prefix h h'
    rw [he]
    exact hself _
  have hge : names' <+: names := by
    apply pathHasPrefix_prefix h' h
    rw [he]
    exact hself _
  exact hle.eq_of_length_le hge.length_le

section Lookup

variable {fs : FileSystem} {os : Os} {root names : List Bytes} {docRoot requestPath path : Bytes}
variable (hos : os.Exact fs) (hroot : fs.Names docRoot root)
include hos

theorem names_unique {names' : List Bytes} (h : fs.Names path names) (h' : fs.Names path names') :
    names = names' := by
  have he : (.ok (absolutePath slash names) : Except Errno Bytes) = .ok (absolutePath slash names') :=
    (hos.found h).1.symm.trans (hos.found h').1
  exact absolutePath_inj h.2.components h'.2.components (Except.ok.inj he)

include hroot

theorem fileResolvePath_asks (h : AsksFor docRoot requestPath path)
    (hd : (readable (pathBytes requestPath)).length < filePathMax) :
    fileResolvePath os docRoot requestPath filePathMax =
      if filePathMax ≤ path.length then .error .error
      else
        match os.realpath path with
        | .error errno =>
          if errno = .noent ∨ errno = .notdir then .error .notFound else .error .error
        | .ok targetReal =>
          if !pathHasPrefix targetReal (absolutePath slash root) then .error .forbidden
          else if targetReal.length ≥ filePathMax then .error .error
          else .ok targetReal := by
  obtain ⟨decoded, hdecodes, hdots, rfl⟩ := h
  rw [hdecodes.readable] at hd
  have hnone : containsDotDotSegment decoded = false := by
    rw [← Bool.not_eq_true, containsDotDotSegment_iff]
    exact hdots
  exact fileResolvePath_lookup (decodePath_decodesTo hdecodes hd) hnone
    (joined_length hroot.1 hd) (hos.found hroot).1

theorem fileStatPath_long (h : AsksFor docRoot requestPath path)
    (hd : (readable (pathBytes requestPath)).length < filePathMax)
    (hlong : filePathMax ≤ path.length) :
    fileStatPath os docRoot requestPath = .error .error := by
  apply fileStatPath_of_resolve_error
  rw [fileResolvePath_asks hos hroot h hd, if_pos hlong]

theorem fileStatPath_missing (h : AsksFor docRoot requestPath path)
    (hd : (readable (pathBytes requestPath)).length < filePathMax)
    (hlen : path.length < filePathMax) (hnone : ∀ names, ¬ fs.Names path names) :
    fileStatPath os docRoot requestPath =
      if os.realpath path = .error .nametoolong then .error .error else .error .notFound := by
  obtain ⟨errno, herrno⟩ := hos.missing hnone
  have hresolve := fileResolvePath_asks hos hroot h hd
  rw [if_neg (Nat.not_le.2 hlen), herrno] at hresolve
  rw [herrno]
  rcases hos.reasons herrno with rfl | rfl | rfl
  · exact fileStatPath_of_resolve_error hresolve
  · exact fileStatPath_of_resolve_error hresolve
  · exact fileStatPath_of_resolve_error hresolve

theorem fileResolvePath_found (h : AsksFor docRoot requestPath path)
    (hd : (readable (pathBytes requestPath)).length < filePathMax) (hnames : fs.Names path names) :
    fileResolvePath os docRoot requestPath filePathMax =
      if root <+: names ∧ (root = [] → names = []) then .ok (absolutePath slash names)
      else .error .forbidden := by
  obtain ⟨hfound, hshort⟩ := hos.found hnames
  have hlen : ¬ filePathMax ≤ path.length := Nat.not_le.2 hnames.1
  have hbelow := pathHasPrefix_iff hroot.2.components hnames.2.components
  rw [fileResolvePath_asks hos hroot h hd, if_neg hlen, hfound]
  by_cases hin : root <+: names ∧ (root = [] → names = [])
  · simp only [hbelow.2 hin, Bool.not_true, Bool.false_eq_true, if_false, if_pos hin]
    exact if_neg (Nat.not_le.2 hshort)
  · have hout : pathHasPrefix (absolutePath slash names) (absolutePath slash root) = false := by
      rw [← Bool.not_eq_true, hbelow]
      exact hin
    simp only [hout, Bool.not_false, if_true, if_neg hin]

theorem fileStatPath_outside (h : AsksFor docRoot requestPath path)
    (hd : (readable (pathBytes requestPath)).length < filePathMax) (hnames : fs.Names path names)
    (hout : ¬ (root <+: names ∧ (root = [] → names = []))) :
    fileStatPath os docRoot requestPath = .error .forbidden := by
  apply fileStatPath_of_resolve_error
  rw [fileResolvePath_found hos hroot h hd hnames, if_neg hout]

theorem fileStatPath_inside (h : AsksFor docRoot requestPath path)
    (hd : (readable (pathBytes requestPath)).length < filePathMax) (hnames : fs.Names path names)
    (hin : root <+: names ∧ (root = [] → names = [])) :
    (fs.node names = some .file → ∃ info, fileStatPath os docRoot requestPath = .ok info ∧
      info.kind = .regular ∧ info.resolvedPath = absolutePath slash names) ∧
    (fs.IsDirectory names → ∃ info, fileStatPath os docRoot requestPath = .ok info ∧
      info.kind = .directory ∧ info.resolvedPath = absolutePath slash names) := by
  obtain ⟨st, hstat, hregular, hdirectory⟩ := hos.stat hnames
  have hresolve := fileResolvePath_found hos hroot h hd hnames
  rw [if_pos hin] at hresolve
  constructor
  · intro hfile
    have hmode := hregular.2 hfile
    simp only [fileStatPath, hresolve, hstat, hmode]
    exact ⟨_, rfl, rfl, rfl⟩
  · intro hdir
    have hmode := hdirectory.2 hdir
    simp only [fileStatPath, hresolve, hstat, hmode]
    exact ⟨_, rfl, rfl, rfl⟩

end Lookup

theorem fileStatPath_undecodable (h : filePathMax ≤ (readable (pathBytes requestPath)).length)
    (os : Os) (docRoot : Bytes) : fileStatPath os docRoot requestPath = .error .error := by
  apply fileStatPath_undecoded
  rw [decodePath_eq requestPath (by decide), if_pos h]

theorem fileStatPath_refusable (h : Refusable requestPath)
    (hd : (readable (pathBytes requestPath)).length < filePathMax) (os : Os) (docRoot : Bytes) :
    fileStatPath os docRoot requestPath = .error .forbidden := by
  rcases h with hbanned | ⟨decoded, hdecodes, hdots⟩
  · apply fileStatPath_undecoded
    rw [decodePath_eq requestPath (by decide), if_neg (Nat.not_le.2 hd), if_pos hbanned]
  · rw [hdecodes.readable] at hd
    exact fileStatPath_dots (decodePath_decodesTo hdecodes hd)
      ((containsDotDotSegment_iff _).2 hdots)

section Answered

variable {fs : FileSystem} {os : Os} {root : List Bytes} {docRoot requestPath : Bytes}

theorem PathAnswered.of_error (h : PathAnswered fs root docRoot requestPath (.error .error)) :
    AsksForOther fs root docRoot requestPath := by
  have hasks : ¬ Refusable requestPath := fun hr => nomatch h.refused hr
  obtain ⟨path, hp⟩ := asksFor_of_not_refusable docRoot hasks
  have hnames : ∃ names, fs.Names path names := by
    by_contra hnone
    cases h.missing hp (not_exists.1 hnone)
  obtain ⟨names, hn⟩ := hnames
  have hbelow : root <+: names := by
    by_contra hout
    cases h.outside hp hn hout
  refine ⟨path, names, hp, hn, hbelow, ?_, ?_⟩
  · intro hfile
    obtain ⟨_, he, _⟩ := h.regular hp hn hbelow hfile
    cases he
  · intro hdir
    obtain ⟨_, he, _⟩ := h.directory hp hn hbelow hdir
    cases he

variable (hos : os.Exact fs) (hroot : fs.Names docRoot root)
include hos

theorem pathAnswered_of_other (h : AsksForOther fs root docRoot requestPath)
    (result : Except FileFailure FileInfo) : PathAnswered fs root docRoot requestPath result := by
  obtain ⟨path, names, hp, hn, hbelow, hfile, hdir⟩ := h
  constructor
  · exact fun hr => absurd hr hp.not_refusable
  · intro path' hp' hnone
    rw [hp'.unique hp] at hnone
    exact absurd hn (hnone names)
  · intro path' names' hp' hn' hout
    rw [hp'.unique hp] at hn'
    rw [names_unique hos hn' hn] at hout
    exact absurd hbelow hout
  · intro path' names' hp' hn' _ hfile'
    rw [hp'.unique hp] at hn'
    rw [names_unique hos hn' hn] at hfile'
    exact absurd hfile' hfile
  · intro path' names' hp' hn' _ hdir'
    rw [hp'.unique hp] at hn'
    rw [names_unique hos hn' hn] at hdir'
    exact absurd hdir' hdir

include hroot

theorem pathAnswered_of_handled (h : Handled fs os root docRoot requestPath) :
    PathAnswered fs root docRoot requestPath (fileStatPath os docRoot requestPath) := by
  have hd := h.decoded_fits
  constructor
  · exact fun hr => fileStatPath_refusable hr hd os docRoot
  · intro path hp hnone
    rw [fileStatPath_missing hos hroot hp hd (h.path_fits hp) hnone, if_neg (h.names_fit hp)]
  · intro path names hp hn hout
    exact fileStatPath_outside hos hroot hp hd hn fun hin => hout hin.1
  · intro path names hp hn hbelow
    have hslash : root = [] → names = [] := fun hr => by_contra fun hne => h.below_root hp hn hne hr
    exact (fileStatPath_inside hos hroot hp hd hn ⟨hbelow, hslash⟩).1
  · intro path names hp hn hbelow
    have hslash : root = [] → names = [] := fun hr => by_contra fun hne => h.below_root hp hn hne hr
    exact (fileStatPath_inside hos hroot hp hd hn ⟨hbelow, hslash⟩).2

theorem handled_of_pathAnswered (hother : ¬ AsksForOther fs root docRoot requestPath)
    (h : PathAnswered fs root docRoot requestPath (fileStatPath os docRoot requestPath)) :
    Handled fs os root docRoot requestPath := by
  have hne : fileStatPath os docRoot requestPath ≠ .error .error := by
    intro he
    rw [he] at h
    exact hother h.of_error
  have hd : (readable (pathBytes requestPath)).length < filePathMax := by
    by_contra hlong
    exact hne (fileStatPath_undecodable (Nat.not_lt.1 hlong) os docRoot)
  have hfits {path : Bytes} (hp : AsksFor docRoot requestPath path) : path.length < filePathMax := by
    by_contra hlong
    exact hne (fileStatPath_long hos hroot hp hd (Nat.not_lt.1 hlong))
  refine ⟨hd, hfits, ?_, ?_⟩
  · intro path hp htoolong
    have hnone : ∀ names, ¬ fs.Names path names := by
      intro names hn
      rw [(hos.found hn).1] at htoolong
      cases htoolong
    have hmissing := fileStatPath_missing hos hroot hp hd (hfits hp) hnone
    rw [if_pos htoolong] at hmissing
    exact hne hmissing
  · rintro path names hp hn hnames rfl
    have hforbidden := fileStatPath_outside hos hroot hp hd hn fun hin => hnames (hin.2 rfl)
    rw [hforbidden] at h
    apply hother
    refine ⟨path, names, hp, hn, List.nil_prefix, ?_, ?_⟩
    · intro hfile
      obtain ⟨_, he, _⟩ := h.regular hp hn List.nil_prefix hfile
      cases he
    · intro hdir
      obtain ⟨_, he, _⟩ := h.directory hp hn List.nil_prefix hdir
      cases he

end Answered

theorem handled_of_short {fs : FileSystem} {os : Os} (hos : os.Exact fs)
    {root : List Bytes} {docRoot requestPath : Bytes} (hne : root ≠ [])
    (hd : (readable (pathBytes requestPath)).length < filePathMax)
    (hp : (askedPath docRoot requestPath).length < filePathMax)
    (hn : ∀ name ∈ segments slash (askedPath docRoot requestPath), name.length ≤ nameMax) :
    Handled fs os root docRoot requestPath := by
  refine ⟨hd, ?_, ?_, fun _ _ _ => hne⟩
  · intro path hpath
    rw [hpath.eq]
    exact hp
  · intro path hpath hlong
    rw [hpath.eq] at hlong
    rcases hos.tooLong hlong with hlen | ⟨name, hm, hname⟩
    · exact Nat.not_le.2 hp hlen
    · exact Nat.not_lt.2 (hn name hm) hname

theorem answer_failure {os : Os} {docRoot : Bytes} {request : HttpRequest} {failure : FileFailure}
    (hm : request.method ≠ .unsupported)
    (h : fileStatPath os docRoot request.path.str = .error failure) (keepAlive : Bool) :
    (answer os docRoot request keepAlive).status = statusFromFileResult failure := by
  simp only [answer, if_neg hm, h]
  rfl

/-- A path gets the result that its kind calls for exactly if it is handled or asks for a node
that is neither a file nor a directory; and what is forbidden is answered with 403, what is not
found with 404. -/
theorem fileStatPath_answers (fs : FileSystem) (os : Os) (hos : os.Exact fs) (docRoot : Bytes)
    (root : List Bytes) (hroot : fs.Names docRoot root) (requestPath : Bytes) :
    (PathAnswered fs root docRoot requestPath (fileStatPath os docRoot requestPath) ↔
      Handled fs os root docRoot requestPath ∨ AsksForOther fs root docRoot requestPath) ∧
    ∀ (request : HttpRequest) (keepAlive : Bool), request.method ≠ .unsupported →
      request.path.str = requestPath →
      (fileStatPath os docRoot requestPath = .error .forbidden →
        (answer os docRoot request keepAlive).status = 403) ∧
      (fileStatPath os docRoot requestPath = .error .notFound →
        (answer os docRoot request keepAlive).status = 404) := by
  constructor
  · constructor
    · intro h
      by_cases hother : AsksForOther fs root docRoot requestPath
      · exact .inr hother
      · exact .inl (handled_of_pathAnswered hos hroot hother h)
    · rintro (h | h)
      · exact pathAnswered_of_handled hos hroot h
      · exact pathAnswered_of_other hos h _
  · rintro request keepAlive hm rfl
    exact ⟨fun h => answer_failure hm h keepAlive, fun h => answer_failure hm h keepAlive⟩

theorem fileStatPath_answers_docs : PathAnswered docsTree.fileSystem srvWww (ascii "/srv/www")
    (ascii "/docs//user%20guide.txt")
    (fileStatPath docsTree.os (ascii "/srv/www") (ascii "/docs//user%20guide.txt")) := by
  have hroot : docsTree.fileSystem.Names (ascii "/srv/www") srvWww :=
    docsTree_names (by decide +kernel)
  have hhandled : Handled docsTree.fileSystem docsTree.os srvWww (ascii "/srv/www")
      (ascii "/docs//user%20guide.txt") :=
    handled_of_short docsTree.os_exact (by decide) (by decide +kernel) (by decide +kernel)
      (by decide +kernel)
  exact (fileStatPath_answers docsTree.fileSystem docsTree.os docsTree.os_exact _ srvWww hroot _).1.2
    (.inl hhandled)

def longName : Bytes := slash :: List.replicate 256 97

/-- A request for a name that no file can have is answered with 500. -/
theorem longName_not_notFound :
    docsTree.os.Exact docsTree.fileSystem ∧
      docsTree.fileSystem.Names (ascii "/srv/www") srvWww ∧
      (∃ path, AsksFor (ascii "/srv/www") longName path ∧
        ∀ names, ¬ docsTree.fileSystem.Names path names) ∧
      fileStatPath docsTree.os (ascii "/srv/www") longName = .error .error ∧
      statusFromFileResult .error = 500 ∧
      ¬ PathAnswered docsTree.fileSystem srvWww (ascii "/srv/www") longName
        (fileStatPath docsTree.os (ascii "/srv/www") longName) := by
  have hroot : docsTree.fileSystem.Names (ascii "/srv/www") srvWww :=
    docsTree_names (by decide +kernel)
  have hresult : fileStatPath docsTree.os (ascii "/srv/www") longName = .error .error := by
    decide +kernel
  have hasks : AsksFor (ascii "/srv/www") longName (joinedPath (ascii "/srv/www") longName) :=
    ⟨longName, ⟨by decide +kernel, by decide +kernel, by decide +kernel⟩, by decide +kernel, rfl⟩
  have hnone : ∀ names,
      ¬ docsTree.fileSystem.Names (joinedPath (ascii "/srv/www") longName) names := by
    intro names h
    have hfind := PlainTree.find_of_names h
    have hlong : docsTree.find (joinedPath (ascii "/srv/www") longName) = .error .nametoolong := by
      decide +kernel
    rw [hlong] at hfind
    cases hfind
  refine ⟨docsTree.os_exact, hroot, ⟨_, hasks, hnone⟩, hresult, rfl, ?_⟩
  intro h
  have hmissing := h.missing hasks hnone
  rw [hresult] at hmissing
  cases hmissing

end Httpd
