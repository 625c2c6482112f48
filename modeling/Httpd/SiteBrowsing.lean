import Httpd.Fetching
import Httpd.ListingLinks
import Httpd.ListingReader

namespace Httpd
open PathSegments Markup
set_option autoImplicit true

/-- Whatever stands in a file system stands in a directory of it. -/
structure FileSystem.Rooted (fs : FileSystem) : Prop where
  parents : fs.node (names ++ [name]) ≠ none → fs.IsDirectory names
  working : fs.IsDirectory fs.workingDirectory

theorem FileSystem.Rooted.start {fs : FileSystem} (h : fs.Rooted) (path : Bytes) :
    fs.IsDirectory (fs.start path) := by
  rw [FileSystem.start]
  split
  · exact .inl rfl
  · exact h.working

theorem FileSystem.Rooted.above {fs : FileSystem} (h : fs.Rooted) (hd : fs.IsDirectory names) :
    fs.IsDirectory names.dropLast := by
  cases names using List.reverseRecOn with
  | nil => exact .inl rfl
  | append_singleton names name =>
    rw [List.dropLast_concat]
    apply @FileSystem.Rooted.parents _ h _ name
    rw [hd.resolve_left (List.append_ne_nil_of_right_ne_nil _ (List.cons_ne_nil _ _))]
    exact Option.some_ne_none _

theorem FileSystem.Rooted.walk {fs : FileSystem} (h : fs.Rooted) (hw : fs.Walk d segs r)
    (hd : fs.IsDirectory d) (hs : segs = [] ∨ segs.getLast? = some []) : fs.IsDirectory r := by
  have hlater : ∀ {seg : Bytes} {segs : List Bytes}, seg :: segs = [] ∨
      (seg :: segs).getLast? = some [] → (segs = [] ∧ seg = []) ∨ segs.getLast? = some [] := by
    intro seg segs hs
    have hlast := hs.resolve_left (List.cons_ne_nil _ _)
    cases segs with
    | nil => exact .inl ⟨rfl, Option.some.inj hlast⟩
    | cons other segs =>
      rw [List.getLast?_cons_cons] at hlast
      exact .inr hlast
  induction hw with
  | done => exact hd
  | stay _ _ ih => exact ih hd ((hlater hs).imp_left And.left)
  | parent _ ih => exact ih (h.above hd) ((hlater hs).imp_left And.left)
  | enter h₀ _ _ hnode _ ih =>
    obtain ⟨_, hseg⟩ | hlast := hlater hs
    · exact absurd hseg h₀
    · apply ih _ (.inr hlast)
      obtain hdir | ⟨rfl, _⟩ := hnode
      · exact .inr hdir
      · cases hlast
  | @follow _ _ target segs _ h₀ _ _ _ _ ih =>
    obtain ⟨_, hseg⟩ | hlast := hlater hs
    · exact absurd hseg h₀
    · apply ih
      · split
        · exact .inl rfl
        · exact hd
      · cases segs using List.reverseRecOn with
        | nil => cases hlast
        | append_singleton segs seg =>
          rw [List.getLast?_concat] at hlast
          rw [← List.append_assoc, List.getLast?_concat, hlast]
          exact .inr rfl

theorem FileSystem.Rooted.names_directory {fs : FileSystem} (h : fs.Rooted)
    (hn : fs.Names (front ++ [slash]) names) : fs.IsDirectory names := by
  obtain ⟨_, _, hwalk⟩ := hn
  rw [segments_append_sep] at hwalk
  exact h.walk hwalk (h.start _) (.inr List.getLast?_concat)

/-- The path of a directory below the root, from the names that lead to it, and what a client has
to ask for it with. -/
def dirText (names : List Bytes) : Bytes := slash :: names.flatMap fun name => name ++ [slash]

def dirTarget (names : List Bytes) : Bytes :=
  slash :: names.flatMap fun name => urlText name ++ [slash]

def linkHref (entry : Bytes × Bool) : Bytes :=
  urlText entry.1 ++ if entry.2 then [slash] else []

theorem dirText_concat (names : List Bytes) (name : Bytes) :
    dirText (names ++ [name]) = dirText names ++ (name ++ [slash]) := by
  rw [dirText, List.flatMap_append, List.flatMap_singleton]
  rfl

theorem dirTarget_concat (names : List Bytes) (name : Bytes) :
    dirTarget (names ++ [name]) = dirTarget names ++ linkHref (name, true) := by
  rw [dirTarget, List.flatMap_append, List.flatMap_singleton]
  rfl

theorem pathBytes_dirTarget (names : List Bytes) (later : Bytes) :
    pathBytes (dirTarget names ++ later) = (dirText names).map some ++ pathBytes later := by
  induction names using List.reverseRecOn generalizing later with
  | nil => exact pathBytes_plain (by decide) later
  | append_singleton names name ih =>
    have hslash : pathBytes (slash :: later) = some slash :: pathBytes later :=
      pathBytes_plain (by decide) later
    rw [dirTarget_concat, linkHref, List.append_assoc, ih, if_pos rfl, List.append_assoc,
      pathBytes_urlText, List.singleton_append, hslash, dirText_concat, List.map_append,
      List.map_append, List.append_assoc, List.append_assoc]
    rfl

theorem decodesTo_target {target text : Bytes} (h : pathBytes target = text.map some) :
    DecodesTo target decoded ↔ decoded = text ∧ 0 ∉ text ∧ 92 ∉ text := by
  rw [DecodesTo, h]
  constructor
  · rintro ⟨hmap, hclean⟩
    have hsame : text = decoded := List.map_injective_iff.2 (Option.some_injective _) hmap
    subst hsame
    exact ⟨rfl, hclean⟩
  · rintro ⟨rfl, hclean⟩
    exact ⟨rfl, hclean⟩

theorem dirText_front {names : List Bytes} (h : ∀ name ∈ names, slash ∉ name) :
    ∃ front, dirText names = front ++ [slash] ∧ segments slash front = [] :: names := by
  induction names using List.reverseRecOn with
  | nil => exact ⟨[], rfl, rfl⟩
  | append_singleton names name ih =>
    obtain ⟨hnames, hname⟩ := List.forall_mem_append.1 h
    obtain ⟨front, htext, hsegs⟩ := ih hnames
    refine ⟨front ++ slash :: name, ?_, ?_⟩
    · rw [dirText_concat, htext, List.append_assoc, List.append_assoc]
      rfl
    · rw [segments_append_sep, hsegs, segments_of_notMem slash (hname name List.mem_cons_self)]
      rfl

theorem joinedPath_slash (docRoot front : Bytes) :
    ∃ front', joinedPath docRoot (front ++ [slash]) = front' ++ [slash] := by
  rw [joinedPath, relativePath, List.dropWhile_append]
  split
  · exact ⟨docRoot, rfl⟩
  · refine ⟨docRoot ++ slash :: front.dropWhile (· = slash), ?_⟩
    rw [List.append_assoc, List.cons_append]

def pieceLink (piece : Piece UInt8) : Option Bytes :=
  match piece.parts with
  | [name, href, _] => if name = ascii "a href=" then some href else none
  | _ => none

def pageLinks (page : Bytes) : List Bytes :=
  match read htmlDelimiters (.text []) page with
  | none => []
  | some doc => doc.pieces.filterMap pieceLink

theorem pageLinks_plain {text : Bytes} (h : 60 ∉ text) : pageLinks text = [] := by
  have hread : read htmlDelimiters (.text []) text = some ⟨[], text⟩ := by
    have htext := read_text (d := htmlDelimiters) h [] []
    rw [List.append_nil, List.nil_append] at htext
    exact htext
  rw [pageLinks, hread]
  rfl

theorem pageLinks_listingPage (requestPath : Bytes) (entries : List DirectoryEntry) :
    pageLinks (listingPage requestPath entries) = entries.map DirectoryEntry.href := by
  have hitems : ∀ entry : DirectoryEntry,
      entry.itemPieces.filterMap pieceLink = [entry.href] := fun entry => rfl
  rw [pageLinks, read_listingPage, List.map_eq_flatMap]
  simp only [listingDocument, List.filterMap_append, List.filterMap_flatMap, hitems]
  exact List.append_nil _

structure Listable (name : Bytes) : Prop where
  entryName : EntryName name
  visible : name.head? ≠ some dot

/-- A document root in a file system, and what the system calls say of it while it is visited. -/
structure Site where
  fs : FileSystem
  os : Os
  docRoot : Bytes
  root : List Bytes
  rooted : fs.Rooted
  exact : os.Exact fs
  located : fs.Names docRoot root
  steady : os.FilesSteady
  entryNames : ∀ path held, os.opendir path = some held → ∀ name ∈ held, EntryName name

namespace Site

variable (site : Site)

def Inside (place : List Bytes) : Prop :=
  site.root <+: place ∧ (site.root = [] → place = [])

/-- The names lead to a directory that the server has a page for. -/
structure Servable (names place : List Bytes) : Prop where
  fits : (dirTarget names).length < httpPathMax
  no_backslash : ∀ name ∈ names, 92 ∉ name
  names : site.fs.Names (joinedPath site.docRoot (dirText names)) place
  inside : site.Inside place

def Shows (names place : List Bytes) (entry : Bytes × Bool) : Prop :=
  ∃ page held, (fileBuildDirectoryListing 64 site.os (dirTarget names)
      (absolutePath slash place)).1 = some page ∧
    site.os.opendir (absolutePath slash place) = some held ∧
    entry ∈ listed site.os (absolutePath slash place) held

/-- The names, each an entry on the page of those before it, lead to the page of a directory. -/
inductive Reached : List Bytes → List Bytes → Prop where
  | root : site.Servable [] place → Reached [] place
  | enter : Reached names place → site.Shows names place (name, true) →
      site.Servable (names ++ [name]) place' → Reached (names ++ [name]) place'

/-- A client starts at `/` and goes on to whatever the pages it gets link to. It asks for nothing
that does not end in a slash, and for nothing that the field for the path would cut short. -/
inductive Browses : Bytes → Prop where
  | home : Browses [slash]
  | follow : Browses target → target.getLast? = some slash → target.length < httpPathMax →
      Fetches site.os site.docRoot target message → messageBody message = some page →
      href ∈ pageLinks page → Browses (resolveReference target href)

variable {site}

theorem mem_dirText {ch : UInt8} (h : ch ≠ slash) (names : List Bytes) :
    ch ∈ dirText names ↔ ∃ name ∈ names, ch ∈ name := by
  simp only [dirText, List.mem_cons, h, false_or, List.mem_flatMap, List.mem_append,
    List.not_mem_nil, or_false]

theorem decodesTo_dirTarget {names : List Bytes} (hl : ∀ name ∈ names, Listable name) :
    DecodesTo (dirTarget names) decoded ↔
      decoded = dirText names ∧ ∀ name ∈ names, 92 ∉ name := by
  have hbytes := pathBytes_dirTarget names []
  have hend : pathBytes [] = [] := rfl
  rw [List.append_nil, hend, List.append_nil] at hbytes
  have hzero : 0 ∉ dirText names := by
    rw [mem_dirText (by decide)]
    intro h
    obtain ⟨name, hname, hmem⟩ := h
    exact (hl name hname).entryName.2.1 hmem
  have hback : 92 ∉ dirText names ↔ ∀ name ∈ names, 92 ∉ name := by
    rw [mem_dirText (by decide)]
    exact ⟨fun h name hname hmem => h ⟨name, hname, hmem⟩,
      fun h hex => hex.elim fun name hname => h name hname.1 hname.2⟩
  rw [decodesTo_target hbytes, ← hback]
  exact ⟨fun h => ⟨h.1, h.2.2⟩, fun h => ⟨h.1, hzero, h.2⟩⟩

theorem dotDot_notMem_dirText {names : List Bytes} (hl : ∀ name ∈ names, Listable name) :
    dotDot dot ∉ segments slash (dirText names) := by
  obtain ⟨front, htext, hsegs⟩ := dirText_front fun name hname => (hl name hname).entryName.2.2
  rw [htext, segments_append_sep, hsegs]
  intro hmem
  obtain hmem | hmem := List.mem_append.1 hmem
  · cases List.mem_cons.1 hmem with
    | inl he => cases he
    | inr hname => exact (hl _ hname).visible rfl
  · cases List.mem_singleton.1 hmem

theorem urlText_length (text : Bytes) : text.length ≤ (urlText text).length := by
  induction text with
  | nil => exact Nat.le_refl 0
  | cons ch text ih =>
    rw [urlText, List.flatMap_cons, List.length_append, List.length_cons, Nat.add_comm]
    apply Nat.add_le_add _ ih
    split <;> exact Nat.succ_le_succ (Nat.zero_le _)

theorem dirText_length (names : List Bytes) :
    (dirText names).length ≤ (dirTarget names).length := by
  induction names using List.reverseRecOn with
  | nil => exact Nat.le_refl 1
  | append_singleton names name ih =>
    have hname := urlText_length name
    rw [dirText_concat, dirTarget_concat, linkHref, List.length_append, List.length_append,
      List.length_append, List.length_append]
    change (dirText names).length + (name.length + 1) ≤
      (dirTarget names).length + ((urlText name).length + 1)
    omega

theorem directory_cases {names : List Bytes} (hl : ∀ name ∈ names, Listable name)
    (hfits : (dirTarget names).length < httpPathMax) :
    (∃ place info, site.Servable names place ∧
        fileStatPath site.os site.docRoot (dirTarget names) = .ok info ∧
        info.kind = .directory ∧ info.resolvedPath = absolutePath slash place) ∨
      (∀ place, ¬ site.Servable names place) ∧
        ∃ failure, fileStatPath site.os site.docRoot (dirTarget names) = .error failure := by
  have hshort : (dirText names).length < filePathMax := by
    apply Nat.lt_of_le_of_lt (dirText_length names)
    exact Nat.lt_trans hfits (by decide)
  cases hdecode : decodePath (dirTarget names) filePathMax with
  | error failure =>
    refine .inr ⟨fun place hs => ?_, failure, fileStatPath_undecoded hdecode⟩
    have hd := (decodesTo_dirTarget hl).2 ⟨rfl, hs.no_backslash⟩
    rw [decodePath_decodesTo hd hshort] at hdecode
    cases hdecode
  | ok decoded =>
    obtain ⟨hd, _⟩ := (decodePath_ok_iff (by decide)).1 hdecode
    obtain ⟨rfl, hback⟩ := (decodesTo_dirTarget hl).1 hd
    have hasks : AsksFor site.docRoot (dirTarget names)
        (joinedPath site.docRoot (dirText names)) := ⟨_, hd, dotDot_notMem_dirText hl, rfl⟩
    rw [← hd.readable] at hshort
    by_cases hplace : ∃ place, site.fs.Names (joinedPath site.docRoot (dirText names)) place
    · obtain ⟨place, hplace⟩ := hplace
      by_cases hin : site.Inside place
      · obtain ⟨front, htext, _⟩ :=
          dirText_front fun name hname => (hl name hname).entryName.2.2
        obtain ⟨front', hfront⟩ := joinedPath_slash site.docRoot front
        have hdir : site.fs.IsDirectory place := by
          rw [htext, hfront] at hplace
          exact site.rooted.names_directory hplace
        obtain ⟨info, hinfo, hkind, hresolved⟩ := (fileStatPath_inside site.exact site.located hasks
          hshort hplace hin).2 hdir
        exact .inl ⟨place, info, ⟨hfits, hback, hplace, hin⟩, hinfo, hkind, hresolved⟩
      · refine .inr ⟨fun place' hs => ?_, _,
          fileStatPath_outside site.exact site.located hasks hshort hplace hin⟩
        rw [names_unique site.exact hplace hs.names] at hin
        exact hin hs.inside
    · refine .inr ⟨fun place hs => hplace ⟨place, hs.names⟩, ?_⟩
      by_cases hlong : filePathMax ≤ (joinedPath site.docRoot (dirText names)).length
      · exact ⟨_, fileStatPath_long site.exact site.located hasks hshort hlong⟩
      · have hmissing := fileStatPath_missing site.exact site.located hasks hshort
          (Nat.not_le.1 hlong) (not_exists.1 hplace)
        rw [hmissing]
        split <;> exact ⟨_, rfl⟩

theorem linkHref_bytes {name : Bytes} {ch : UInt8} (h : ch ∈ linkHref (name, isDirectory)) :
    isUrlUnreserved ch = true ∨ ch = 37 ∨ ch = slash := by
  cases List.mem_append.1 h with
  | inl hm => exact (urlText_bytes hm).imp_right .inl
  | inr hm =>
    split at hm
    · exact .inr (.inr (List.mem_singleton.1 hm))
    · cases hm

theorem dirTarget_bytes {names : List Bytes} {ch : UInt8} (h : ch ∈ dirTarget names) :
    isUrlUnreserved ch = true ∨ ch = 37 ∨ ch = slash := by
  induction names using List.reverseRecOn with
  | nil => exact .inr (.inr (List.mem_singleton.1 h))
  | append_singleton names name ih =>
    rw [dirTarget_concat] at h
    exact (List.mem_append.1 h).elim ih linkHref_bytes

theorem plainTarget {target : Bytes} (hne : target ≠ [])
    (h : ∀ ch ∈ target, isUrlUnreserved ch = true ∨ ch = 37 ∨ ch = slash)
    (hfits : target.length < httpPathMax) : PlainTarget target := by
  constructor
  · exact hne
  · exact fun hm => absurd (h _ hm) (by decide)
  · exact fun hm => absurd (h _ hm) (by decide)
  · exact fun hm => absurd (h _ hm) (by decide)
  · exact fun hm => absurd (h _ hm) (by decide)
  · exact hfits

theorem messageBody_answer (os : Os) (docRoot : Bytes) (request : HttpRequest) (keepAlive : Bool) :
    messageBody ((answer os docRoot request keepAlive).text false) =
      some (answer os docRoot request keepAlive).body.bytes := by
  obtain ⟨_, _, _, ha⟩ := answer_sound os docRoot request keepAlive
  exact (ha.message _).2.1

/-- The page that comes back for a directory has the links of its entries; whatever else comes
back has none. -/
theorem page_links {names : List Bytes} (hl : ∀ name ∈ names, Listable name)
    (hfits : (dirTarget names).length < httpPathMax)
    (hf : Fetches site.os site.docRoot (dirTarget names) message)
    (hpage : messageBody message = some page) :
    href ∈ pageLinks page ↔ ∃ place entry, site.Servable names place ∧
      site.Shows names place entry ∧ href = linkHref entry := by
  have htarget : PlainTarget (dirTarget names) :=
    plainTarget (List.cons_ne_nil _ _) (fun ch => dirTarget_bytes) hfits
  obtain ⟨request, hmethod, hpath, _, rfl⟩ := hf.answered htarget site.steady
  rw [messageBody_answer, Option.some.injEq] at hpage
  subst hpage
  have hm : request.method ≠ .unsupported := by
    rw [hmethod]
    intro he
    cases he
  obtain ⟨place, info, hs, hinfo, hkind, hresolved⟩ | ⟨hnone, failure, hfailure⟩ :=
    directory_cases hl hfits
  · have honly : ∀ {place'}, site.Servable names place' → place' = place :=
      fun hs' => names_unique site.exact hs'.names hs.names
    simp only [answer, if_neg hm, hpath, hinfo, hkind, directoryAnswer]
    rw [hresolved]
    cases hbuilt : (fileBuildDirectoryListing 64 site.os (dirTarget names)
      (absolutePath slash place)).1 with
    | none =>
      change href ∈ pageLinks internalServerError ↔ _
      rw [pageLinks_plain (by decide)]
      refine iff_of_false List.not_mem_nil ?_
      intro h
      obtain ⟨place', entry, hs', ⟨page, held, hbuilt', _⟩, _⟩ := h
      rw [honly hs', hbuilt] at hbuilt'
      cases hbuilt'
    | some page =>
      obtain ⟨held, entries, hopen, htext, hperm⟩ := fileBuildDirectoryListing_page hbuilt
      simp only [Body.bytes, htext, pageLinks_listingPage]
      constructor
      · intro h
        obtain ⟨entry, hentry, rfl⟩ := List.mem_map.1 h
        have htold := hperm.mem_iff.1 (List.mem_map_of_mem hentry)
        exact ⟨place, entry.told, hs, ⟨page, held, hbuilt, hopen, htold⟩, rfl⟩
      · intro h
        obtain ⟨place', entry, hs', ⟨_, held', _, hopen', htold⟩, rfl⟩ := h
        rw [honly hs'] at hopen' htold
        rw [hopen] at hopen'
        cases hopen'
        obtain ⟨listedEntry, hentry, rfl⟩ := List.mem_map.1 (hperm.mem_iff.2 htold)
        exact List.mem_map.2 ⟨listedEntry, hentry, rfl⟩
  · simp only [answer, if_neg hm, hpath, hfailure]
    change href ∈ pageLinks (snprintf 128 (decimal (statusFromFileResult failure) ++
      32 :: httpStatusText (statusFromFileResult failure) ++ [lf])).2 ↔ _
    rw [pageLinks_plain (by cases failure <;> decide)]
    refine iff_of_false List.not_mem_nil ?_
    intro h
    obtain ⟨place, _, hs, _⟩ := h
    exact hnone place hs

theorem Shows.listable (h : site.Shows names place entry) : Listable entry.1 := by
  obtain ⟨_, held, _, hopen, hmem⟩ := h
  obtain ⟨name, hname, rfl⟩ := List.mem_map.1 hmem
  obtain ⟨hheld, hvisible⟩ := List.mem_filter.1 hname
  exact ⟨site.entryNames _ held hopen name hheld, of_decide_eq_true hvisible⟩

theorem Reached.listable (h : site.Reached names place) : ∀ name ∈ names, Listable name := by
  induction h with
  | root => exact List.forall_mem_nil _
  | enter _ hshows _ ih =>
    intro name hname
    cases List.mem_append.1 hname with
    | inl hm => exact ih name hm
    | inr hm =>
      rw [List.mem_singleton.1 hm]
      exact hshows.listable

theorem Reached.servable (h : site.Reached names place) : site.Servable names place := by
  cases h with
  | root hs => exact hs
  | enter _ _ hs => exact hs

theorem dirTarget_slash (names : List Bytes) : (dirTarget names).getLast? = some slash := by
  induction names using List.reverseRecOn with
  | nil => rfl
  | append_singleton names name ih =>
    rw [dirTarget_concat, linkHref, if_pos rfl, ← List.append_assoc]
    exact List.getLast?_concat

theorem resolveReference_dirTarget (names : List Bytes) (href : Bytes) :
    resolveReference (dirTarget names) href = dirTarget names ++ href := by
  have hbase : basePath (dirTarget names) = dirTarget names := by
    apply List.rdropWhile_eq_self_iff.2
    intro hne
    have hlast := dirTarget_slash names
    rw [List.getLast?_eq_some_getLast hne, Option.some.injEq] at hlast
    rw [hlast]
    decide
  rw [resolveReference, hbase]

theorem linkHref_slash (hl : EntryName name)
    (h : (dirTarget names ++ linkHref (name, isDirectory)).getLast? = some slash) :
    isDirectory = true := by
  cases isDirectory with
  | true => rfl
  | false =>
    have hne : urlText name ≠ [] := by
      intro he
      have hempty : urlText name = urlText [] := he
      exact hl.1 (urlText_injective hempty)
    have hhref : linkHref (name, false) = urlText name := List.append_nil _
    rw [hhref, List.getLast?_append_of_ne_nil _ hne] at h
    exact absurd (List.mem_of_getLast? h) (slash_notMem_urlText name)

theorem Reached.browses (h : site.Reached names place) : site.Browses (dirTarget names) ∧
    ∀ entry, site.Shows names place entry → site.Browses (dirTarget names ++ linkHref entry) := by
  have hlinks : ∀ {names place}, site.Reached names place → site.Browses (dirTarget names) →
      ∀ entry, site.Shows names place entry →
        site.Browses (dirTarget names ++ linkHref entry) := by
    intro names place h hb entry hshows
    have hs := h.servable
    have htarget : PlainTarget (dirTarget names) :=
      plainTarget (List.cons_ne_nil _ _) (fun ch => dirTarget_bytes) hs.fits
    obtain ⟨message, hf⟩ := exists_fetches site.os site.docRoot htarget
    obtain ⟨request, _, _, _, hmessage⟩ := hf.answered htarget site.steady
    have hbody := messageBody_answer site.os site.docRoot request (httpShouldKeepAlive request)
    rw [← hmessage] at hbody
    have hlink := (page_links h.listable hs.fits hf hbody).2 ⟨place, entry, hs, hshows, rfl⟩
    have hnext := hb.follow (dirTarget_slash names) hs.fits hf hbody hlink
    rw [resolveReference_dirTarget] at hnext
    exact hnext
  have hdirs : site.Browses (dirTarget names) := by
    induction h with
    | root => exact .home
    | enter h hshows _ ih =>
      rw [dirTarget_concat]
      exact hlinks h ih _ hshows
  exact ⟨hdirs, hlinks h hdirs⟩

/-- What a client is led to, one link at a time, from `/` is just what the pages show of the
directories that the names on them lead to, and that may be asked for. -/
theorem browses_iff (site : Site) (target : Bytes) : site.Browses target ↔
    target = [slash] ∨ ∃ names place entry, site.Reached names place ∧
      site.Shows names place entry ∧ target = dirTarget names ++ linkHref entry := by
  constructor
  · intro h
    induction h with
    | home => exact .inl rfl
    | @follow target message page href _ hslash hfits hf hbody hlink ih =>
      -- the page is one of a directory that names lead to, whose target ends in the slash
      obtain ⟨names, rfl, hl, henter⟩ : ∃ names, target = dirTarget names ∧
          (∀ name ∈ names, Listable name) ∧
          ∀ place, site.Servable names place → site.Reached names place := by
        obtain rfl | ⟨names, place, ⟨name, isDirectory⟩, hr, hshows, rfl⟩ := ih
        · exact ⟨[], rfl, List.forall_mem_nil _, fun place hs => .root hs⟩
        · have hname := hshows.listable
          obtain rfl := linkHref_slash hname.entryName hslash
          refine ⟨names ++ [name], (dirTarget_concat names name).symm, ?_, ?_⟩
          · intro name' hname'
            cases List.mem_append.1 hname' with
            | inl hm => exact hr.listable name' hm
            | inr hm =>
              rw [List.mem_singleton.1 hm]
              exact hname
          · exact fun place' hs => hr.enter hshows hs
      obtain ⟨place, entry, hs, hshows, rfl⟩ := (page_links hl hfits hf hbody).1 hlink
      exact .inr ⟨names, place, entry, henter place hs, hshows, resolveReference_dirTarget _ _⟩
  · intro h
    obtain rfl | ⟨names, place, entry, hr, hshows, rfl⟩ := h
    · exact .home
    · exact hr.browses.2 entry hshows

end Site

theorem PlainTree.rooted (tree : PlainTree) : tree.fileSystem.Rooted where
  parents := by
    intro names name hnode
    obtain ⟨node, hn⟩ := Option.ne_none_iff_exists'.1 hnode
    obtain ⟨mode, hmode, _⟩ := PlainTree.mode_of_node hn
    have hparent := PlainTree.mode_parent hmode
    exact (PlainTree.mode_node hparent).2.1 rfl
  working := .inl rfl

end Httpd
