import Httpd.ListingPage
import Httpd.PathOutcomes

namespace Httpd
open PathSegments Scan
set_option autoImplicit true

def basePath (requestPath : Bytes) : Bytes := requestPath.rdropWhile (· ≠ slash)

/-- How a browser reads a relative reference on the page of a path. -/
def resolveReference (requestPath href : Bytes) : Bytes := basePath requestPath ++ href

def FileSystem.NamesChild (fs : FileSystem) (path : Bytes) (directory : List Bytes) (name : Bytes) :
    Prop :=
  path.length < pathMax ∧ ∃ front tail, path = front ++ slash :: (name ++ tail) ∧
    (∀ c ∈ tail, c = slash) ∧ fs.Resolves (front ++ [slash]) directory

/-- The reference leads to the name in the directory. -/
def LinkLeads (fs : FileSystem) (docRoot requestPath href : Bytes) (directory : List Bytes)
    (name : Bytes) : Prop :=
  ∃ decoded, decodePath (resolveReference requestPath href) filePathMax = .ok decoded ∧
    fs.NamesChild (joinedPath docRoot decoded) directory name

def baseText (requestPath : Bytes) : Bytes := readable (pathBytes (basePath requestPath))

/-- The name can be asked for, nothing gets too long, and the part of the path up to its last
slash names the directory that the whole of it names. -/
structure LinkHolds (fs : FileSystem) (docRoot requestPath : Bytes) (directory : List Bytes)
    (entry : DirectoryEntry) : Prop where
  no_backslash : 92 ∉ entry.name
  decoded_fits : (baseText requestPath ++ (entry.name ++ entry.suffix)).length < filePathMax
  path_fits : (joinedPath docRoot (baseText requestPath ++ (entry.name ++ entry.suffix))).length <
    pathMax
  base : fs.Resolves (joinedPath docRoot (baseText requestPath)) directory

def EntryName (name : Bytes) : Prop := name ≠ [] ∧ 0 ∉ name ∧ slash ∉ name

theorem hexDigits_byte (ch : UInt8) :
    hexValue (hexDigit (ch >>> 4)) = some (ch >>> 4) ∧
      hexValue (hexDigit (ch &&& 15)) = some (ch &&& 15) ∧
      (ch >>> 4) <<< 4 ||| (ch &&& 15) = ch := by
  have hall : ∀ n : Fin 256, let ch := UInt8.ofNat n
      hexValue (hexDigit (ch >>> 4)) = some (ch >>> 4) ∧
        hexValue (hexDigit (ch &&& 15)) = some (ch &&& 15) ∧
        (ch >>> 4) <<< 4 ||| (ch &&& 15) = ch := by decide +kernel
  have hch := hall ⟨ch.toNat, ch.toNat_lt⟩
  rw [UInt8.ofNat_toNat] at hch
  exact hch

theorem isUrlUnreserved_plain {ch : UInt8} (h : isUrlUnreserved ch = true) : ch ≠ 37 ∧ ch ≠ 43 := by
  constructor
  · rintro rfl
    exact absurd h (by decide)
  · rintro rfl
    exact absurd h (by decide)

/-- What the listing escapes is decoded to what it was. -/
theorem pathBytes_urlText (text rest : Bytes) :
    pathBytes (urlText text ++ rest) = text.map some ++ pathBytes rest := by
  induction text with
  | nil => rfl
  | cons ch text ih =>
    rw [List.map_cons, List.cons_append, ← ih, urlText, List.flatMap_cons]
    by_cases hch : isUrlUnreserved ch = true
    · obtain ⟨hpercent, hplus⟩ := isUrlUnreserved_plain hch
      rw [if_pos hch, List.append_assoc, List.cons_append, List.nil_append,
        pathBytes_plain hpercent, if_neg hplus]
      rfl
    · obtain ⟨hhigh, hlow, hbyte⟩ := hexDigits_byte ch
      rw [if_neg hch, List.append_assoc]
      simp only [List.cons_append, List.nil_append, pathBytes, ↓reduceIte, hhigh, hlow, hbyte]
      rfl

theorem pathBytes_slash {front rest : Bytes} (h : none ∉ pathBytes (front ++ slash :: rest)) :
    ∃ tokens, ∀ later,
      pathBytes (front ++ slash :: later) = tokens ++ some slash :: pathBytes later := by
  induction front using pathBytes.induct with
  | case1 => exact ⟨[], pathBytes_plain (by decide)⟩
  | case2 next afterNext front high low hh hl ih =>
    simp only [List.cons_append, pathBytes, ↓reduceIte, hh, hl, List.mem_cons, not_or] at h ⊢
    obtain ⟨tokens, ht⟩ := ih h.2
    exact ⟨some (high <<< 4 ||| low) :: tokens, fun later => congrArg _ (ht later)⟩
  | case3 next afterNext front hx =>
    have hbad : pathBytes (37 :: next :: afterNext :: front ++ slash :: rest) = [none] := by
      simp only [List.cons_append, pathBytes, ↓reduceIte]
    rw [hbad] at h
    exact absurd List.mem_cons_self h
  | case4 front hx =>
    have hbad : pathBytes (37 :: front ++ slash :: rest) = [none] := by
      have hhex : hexValue slash = none := by decide
      cases front with
      | nil =>
        cases rest with
        | nil => rfl
        | cons ch rest => simp only [List.cons_append, List.nil_append, pathBytes, ↓reduceIte, hhex]
      | cons next front =>
        cases front with
        | nil =>
          simp only [List.cons_append, List.nil_append, pathBytes, ↓reduceIte, hhex]
          cases hexValue next <;> rfl
        | cons afterNext front => exact absurd rfl (hx next afterNext front)
    rw [hbad] at h
    exact absurd List.mem_cons_self h
  | case5 ch front hc ih =>
    rw [List.cons_append, pathBytes_plain hc, List.mem_cons, not_or] at h
    obtain ⟨tokens, ht⟩ := ih h.2
    refine ⟨some (if ch = 43 then 32 else ch) :: tokens, fun later => ?_⟩
    rw [List.cons_append, pathBytes_plain hc, ht later]
    rfl

theorem basePath_split (requestPath : Bytes) :
    basePath requestPath = [] ∨
      ∃ front tail, basePath requestPath = front ++ [slash] ∧
        requestPath = front ++ slash :: tail := by
  cases hbase : basePath requestPath using List.reverseRecOn with
  | nil => exact .inl rfl
  | append_singleton front ch =>
    have hne : requestPath.rdropWhile (· ≠ slash) ≠ [] := by
      change basePath requestPath ≠ []
      rw [hbase]
      exact List.append_ne_nil_of_right_ne_nil _ (List.cons_ne_nil _ _)
    have hlast := List.rdropWhile_last_not (· ≠ slash) requestPath hne
    have hch : ch = slash := by
      have hget : (requestPath.rdropWhile (· ≠ slash)).getLast hne = ch := by
        simp only [basePath] at hbase
        simp only [hbase, List.getLast_concat]
      rw [hget] at hlast
      simpa using hlast
    obtain ⟨tail, htail⟩ : basePath requestPath <+: requestPath := List.rdropWhile_prefix _ _
    rw [hch] at hbase ⊢
    rw [hbase, List.append_assoc] at htail
    exact .inr ⟨front, tail, rfl, htail.symm⟩

/-- What the part of a path up to its last slash stands for, whatever comes after it. -/
structure BaseText (requestPath : Bytes) : Prop where
  bytes : ∀ later, pathBytes (basePath requestPath ++ later) =
    (baseText requestPath).map some ++ pathBytes later
  no_null : 0 ∉ baseText requestPath
  no_backslash : 92 ∉ baseText requestPath
  ends : baseText requestPath = [] ∨ ∃ front, baseText requestPath = front ++ [slash]

theorem baseText_spec (h : DecodesTo requestPath decoded) : BaseText requestPath := by
  rcases basePath_split requestPath with hbase | ⟨front, tail, hbase, hpath⟩
  · have htext : baseText requestPath = [] := by
      rw [baseText, hbase]
      rfl
    constructor
    · intro later
      rw [hbase, htext]
      rfl
    · rw [htext]
      exact List.not_mem_nil
    · rw [htext]
      exact List.not_mem_nil
    · exact .inl htext
  · obtain ⟨hmap, h₀, hback⟩ := h
    have hnone : none ∉ pathBytes (front ++ slash :: tail) := by
      rw [← hpath, hmap]
      intro hm
      obtain ⟨_, _, he⟩ := List.mem_map.1 hm
      cases he
    obtain ⟨tokens, htokens⟩ := pathBytes_slash hnone
    have hwhole := htokens tail
    rw [← hpath, hmap] at hwhole
    obtain ⟨text, rest, rfl, rfl, _⟩ := List.map_eq_append_iff.1 hwhole
    rw [List.mem_append, not_or] at h₀ hback
    have hread : readable (pathBytes (front ++ [slash])) = text ++ [slash] := by
      have hclean₀ : 0 ∉ text ++ [slash] := List.not_mem_append h₀.1 (by decide)
      have hclean : 92 ∉ text ++ [slash] := List.not_mem_append hback.1 (by decide)
      have htext : pathBytes (front ++ [slash]) = (text ++ [slash]).map some := by
        rw [htokens [], List.map_append]
        rfl
      rw [htext, readable_map hclean₀ hclean]
    have hbaseText : baseText requestPath = text ++ [slash] := by
      rw [baseText, hbase, hread]
    constructor
    · intro later
      rw [hbase, hbaseText, List.append_assoc, List.map_append, List.append_assoc]
      exact htokens later
    · rw [hbaseText]
      exact List.not_mem_append h₀.1 (by decide)
    · rw [hbaseText]
      exact List.not_mem_append hback.1 (by decide)
    · exact .inr ⟨text, hbaseText⟩

theorem EntryName.head {name : Bytes} (h : EntryName name) :
    ∃ ch rest, name = ch :: rest ∧ ch ≠ slash := by
  obtain ⟨ch, rest, rfl⟩ := List.exists_cons_of_ne_nil h.1
  exact ⟨ch, rest, rfl, fun he => h.2.2 (he ▸ List.mem_cons_self)⟩

theorem EntryName.last {front name : Bytes} (h : EntryName name) :
    ∀ ch, (front ++ name).getLast? = some ch → decide (ch = slash) = false := by
  intro ch hlast
  rw [List.getLast?_append_of_ne_nil _ h.1] at hlast
  have hmem := List.mem_of_getLast? hlast
  exact decide_eq_false fun he => h.2.2 (he ▸ hmem)

theorem DirectoryEntry.suffix_slash (entry : DirectoryEntry) : ∀ ch ∈ entry.suffix, ch = slash := by
  intro ch hch
  rw [DirectoryEntry.suffix] at hch
  split at hch
  · exact List.mem_singleton.1 hch
  · cases hch

theorem joinedPath_append {name : Bytes} (h : EntryName name) (docRoot text rest : Bytes) :
    joinedPath docRoot (text ++ (name ++ rest)) = joinedPath docRoot text ++ (name ++ rest) := by
  obtain ⟨ch, later, rfl, hch⟩ := h.head
  have hrelative : relativePath (text ++ (ch :: later ++ rest)) =
      relativePath text ++ (ch :: later ++ rest) := by
    rw [relativePath, List.dropWhile_append]
    split
    · rename_i hempty
      rw [relativePath, List.isEmpty_iff.1 hempty, List.nil_append, List.cons_append]
      exact List.dropWhile_cons_of_neg (by simpa only [decide_eq_true_eq] using hch)
    · rfl
  rw [joinedPath, hrelative, joinedPath]
  simp only [List.append_assoc, List.cons_append]

theorem BaseText.joined (h : BaseText requestPath) (docRoot : Bytes) :
    ∃ front, joinedPath docRoot (baseText requestPath) = front ++ [slash] := by
  cases hrelative : relativePath (baseText requestPath) using List.reverseRecOn with
  | nil => exact ⟨docRoot, by rw [joinedPath, hrelative]⟩
  | append_singleton text ch =>
    obtain ⟨dropped, hdropped⟩ : relativePath (baseText requestPath) <:+ baseText requestPath :=
      List.dropWhile_suffix _
    rw [hrelative, ← List.append_assoc] at hdropped
    have hch : ch = slash := by
      rcases h.ends with hnil | ⟨front, hfront⟩
      · rw [hnil] at hdropped
        exact absurd hdropped (List.append_ne_nil_of_right_ne_nil _ (List.cons_ne_nil _ _))
      · rw [hfront] at hdropped
        exact List.singleton_inj.1 (List.append_inj' hdropped rfl).2
    refine ⟨docRoot ++ slash :: text, ?_⟩
    rw [joinedPath, hrelative, hch, List.append_assoc, List.cons_append]

theorem namesChild_iff (fs : FileSystem) (front : Bytes) {name tail : Bytes}
    (hn : EntryName name) (ht : ∀ ch ∈ tail, ch = slash) (directory : List Bytes) :
    fs.NamesChild (front ++ slash :: (name ++ tail)) directory name ↔
      (front ++ slash :: (name ++ tail)).length < pathMax ∧
        fs.Resolves (front ++ [slash]) directory := by
  have hstrip {front tail : Bytes} (ht : ∀ ch ∈ tail, ch = slash) :
      (front ++ slash :: (name ++ tail)).rdropWhile (· = slash) = front ++ [slash] ++ name := by
    have hassoc : front ++ slash :: (name ++ tail) = front ++ [slash] ++ name ++ tail := by
      simp only [List.append_assoc, List.cons_append, List.nil_append]
    rw [hassoc]
    exact rdropWhile_append (fun ch hch => decide_eq_true (ht ch hch)) hn.last
  constructor
  · rintro ⟨hlen, front', tail', hpath, ht', hdir⟩
    have hnames := (hstrip ht).symm.trans ((congrArg _ hpath).trans (hstrip ht'))
    rw [List.append_cancel_right hnames]
    exact ⟨hlen, hdir⟩
  · rintro ⟨hlen, hdir⟩
    exact ⟨hlen, front, tail, rfl, ht, hdir⟩

section Link

variable {requestPath : Bytes} {entry : DirectoryEntry}

def linkText (requestPath : Bytes) (entry : DirectoryEntry) : Bytes :=
  baseText requestPath ++ (entry.name ++ entry.suffix)

theorem pathBytes_link (h : BaseText requestPath) (entry : DirectoryEntry) :
    pathBytes (resolveReference requestPath entry.href) =
      (linkText requestPath entry).map some := by
  have hsuffix : pathBytes entry.suffix = entry.suffix.map some := by
    rw [DirectoryEntry.suffix]
    split <;> rfl
  rw [resolveReference, h.bytes, DirectoryEntry.href, pathBytes_urlText, hsuffix, linkText,
    List.map_append, List.map_append]

theorem decodePath_link (h : BaseText requestPath) (hn : EntryName entry.name) :
    decodePath (resolveReference requestPath entry.href) filePathMax = .ok decoded ↔
      decoded = linkText requestPath entry ∧ 92 ∉ entry.name ∧
        (linkText requestPath entry).length < filePathMax := by
  have hsuffix {ch : UInt8} (hch : ch ≠ slash) : ch ∉ entry.suffix := fun hm =>
    hch (entry.suffix_slash ch hm)
  rw [decodePath_ok_iff (by decide), DecodesTo, pathBytes_link h]
  constructor
  · rintro ⟨⟨hmap, _, hback⟩, hlen⟩
    have htext : linkText requestPath entry = decoded :=
      List.map_injective_iff.2 (Option.some_injective _) hmap
    subst htext
    refine ⟨rfl, fun hm => hback ?_, hlen⟩
    exact List.mem_append_right _ (List.mem_append_left _ hm)
  · rintro ⟨rfl, hback, hlen⟩
    refine ⟨⟨rfl, ?_, ?_⟩, hlen⟩
    · exact List.not_mem_append h.no_null (List.not_mem_append hn.2.1 (hsuffix (by decide)))
    · exact List.not_mem_append h.no_backslash (List.not_mem_append hback (hsuffix (by decide)))

theorem linkLeads_iff {fs : FileSystem} (h : BaseText requestPath) (hn : EntryName entry.name)
    (docRoot : Bytes) (directory : List Bytes) :
    LinkLeads fs docRoot requestPath entry.href directory entry.name ↔
      LinkHolds fs docRoot requestPath directory entry := by
  obtain ⟨front, hfront⟩ := h.joined docRoot
  have hjoined : joinedPath docRoot (linkText requestPath entry) =
      front ++ slash :: (entry.name ++ entry.suffix) := by
    rw [linkText, joinedPath_append hn, hfront, List.append_assoc]
    rfl
  have hchild := namesChild_iff fs front hn entry.suffix_slash directory
  rw [← hjoined, ← hfront] at hchild
  constructor
  · rintro ⟨decoded, hdecode, hnames⟩
    obtain ⟨rfl, hback, hlen⟩ := (decodePath_link h hn).1 hdecode
    obtain ⟨hfits, hdir⟩ := hchild.1 hnames
    exact ⟨hback, hlen, hfits, hdir⟩
  · intro hl
    exact ⟨linkText requestPath entry,
      (decodePath_link h hn).2 ⟨rfl, hl.no_backslash, hl.decoded_fits⟩,
      hchild.2 ⟨hl.path_fits, hl.base⟩⟩

end Link

theorem entryName_of_listed {os : Os} {resolvedPath : Bytes} {names : List Bytes}
    {entries : List DirectoryEntry}
    (hperm : (entries.map DirectoryEntry.told).Perm (listed os resolvedPath names))
    (hnames : ∀ name ∈ names, EntryName name) : ∀ entry ∈ entries, EntryName entry.name := by
  intro entry hentry
  have htold := hperm.mem_iff.1 (List.mem_map_of_mem hentry)
  obtain ⟨name, hname, he⟩ := List.mem_map.1 htold
  have hsame : name = entry.name := congrArg Prod.fst he
  rw [← hsame]
  exact hnames name (List.mem_filter.1 hname).1

/-- The listing of a directory is the page of its entries, and each link leads to its entry
exactly if the name and the path it is shown on allow it; that the part of the path up to the last
slash names the directory is the case where the path ends there. -/
theorem directoryListing_links (fs : FileSystem) (os : Os) (hos : os.RealpathSound fs)
    (docRoot requestPath : Bytes) (info : FileInfo) (w : Nat) (page : Bytes)
    (hinfo : fileStatPath os docRoot requestPath = .ok info)
    (hnames : ∀ names, os.opendir info.resolvedPath = some names → ∀ name ∈ names, EntryName name)
    (hpage : (fileBuildDirectoryListing w os requestPath info.resolvedPath).1 = some page) :
    ∃ directory names entries, fs.Resolves (askedPath docRoot requestPath) directory ∧
      info.resolvedPath = absolutePath slash directory ∧
      os.opendir info.resolvedPath = some names ∧ page = listingPage requestPath entries ∧
      (entries.map DirectoryEntry.told).Perm (listed os info.resolvedPath names) ∧
      (∀ entry ∈ entries, LinkLeads fs docRoot requestPath entry.href directory entry.name ↔
        LinkHolds fs docRoot requestPath directory entry) ∧
      (requestPath.getLast? = some slash →
        fs.Resolves (joinedPath docRoot (baseText requestPath)) directory) := by
  obtain ⟨decoded, rootReal, hdecode, _, hfits, hroot, htarget, _, _⟩ :=
    fileResolvePath_ok (fileStatPath_ok hinfo).1
  obtain ⟨hd, hlen⟩ := (decodePath_ok_iff (by decide)).1 hdecode
  obtain ⟨directory, hdir, hresolved⟩ := hos.canonical htarget
  rw [joined_fits (hos.short hroot) hlen hfits] at hdir
  have hasked : askedPath docRoot requestPath = docRoot ++ slash :: relativePath decoded := by
    rw [askedPath, hd.readable, joinedPath]
  rw [← hasked] at hdir
  obtain ⟨names, entries, hopen, htext, hperm⟩ := fileBuildDirectoryListing_page hpage
  have hentries := entryName_of_listed hperm (hnames names hopen)
  refine ⟨directory, names, entries, hdir, hresolved, hopen, htext, hperm, ?_, ?_⟩
  · intro entry hentry
    exact linkLeads_iff (baseText_spec hd) (hentries entry hentry) docRoot directory
  · intro hlast
    have hbase : basePath requestPath = requestPath := by
      apply List.rdropWhile_eq_self_iff.2
      intro hne
      rw [List.getLast?_eq_getLast_of_ne_nil hne, Option.some.injEq] at hlast
      rw [hlast]
      decide
    rw [baseText, hbase]
    exact hdir

theorem Os.Exact.sound {os : Os} {fs : FileSystem} (h : os.Exact fs) : os.RealpathSound fs := by
  have hnames {path target : Bytes} (hr : os.realpath path = .ok target) :
      ∃ names, fs.Names path names ∧ target = absolutePath slash names := by
    by_cases hnone : ∀ names, ¬ fs.Names path names
    · obtain ⟨e, he⟩ := h.missing hnone
      rw [he] at hr
      cases hr
    · obtain ⟨names, hn⟩ := not_forall_not.1 hnone
      rw [(h.found hn).1] at hr
      exact ⟨names, hn, (Except.ok.inj hr).symm⟩
  constructor
  · intro path target hr
    obtain ⟨names, hn, _⟩ := hnames hr
    exact hn.1
  · intro path target hr
    obtain ⟨names, hn, he⟩ := hnames hr
    exact ⟨names, hn.2, he⟩

def docsInfo : FileInfo := ⟨ascii "/srv/www/docs", .directory, 0, ascii "text/html"⟩

def docsDirectory : List Bytes := srvWww ++ [ascii "docs"]

theorem docsTree_listed {names : List Bytes}
    (hopen : docsTree.os.opendir docsInfo.resolvedPath = some names) :
    names = [ascii "user guide.txt", ascii "old"] ∧
      listed docsTree.os docsInfo.resolvedPath names =
        [(ascii "user guide.txt", false), (ascii "old", true)] := by
  have hdocs : docsTree.os.opendir docsInfo.resolvedPath =
      some [ascii "user guide.txt", ascii "old"] := by decide +kernel
  rw [hdocs] at hopen
  cases hopen
  exact ⟨rfl, by decide +kernel⟩

theorem docsTree_entryNames {names : List Bytes}
    (hopen : docsTree.os.opendir docsInfo.resolvedPath = some names) :
    ∀ name ∈ names, EntryName name := by
  rw [(docsTree_listed hopen).1]
  intro name hname
  rcases List.mem_cons.1 hname with rfl | hname
  · exact ⟨by decide, by decide, by decide⟩
  · rw [List.mem_singleton.1 hname]
    exact ⟨by decide, by decide, by decide⟩

theorem docsTree_resolves {path : Bytes} {names directory : List Bytes}
    (hlen : path.length < pathMax) (hfind : docsTree.find path = .ok names)
    (h : docsTree.fileSystem.Resolves path directory) :
    directory = names := by
  have hfound := PlainTree.find_of_names ⟨hlen, h⟩
  rw [hfind] at hfound
  exact (Except.ok.inj hfound).symm

theorem linkHolds_of {fs : FileSystem} {docRoot requestPath name suffix : Bytes}
    {directory : List Bytes} {entry : DirectoryEntry} (hname : entry.name = name)
    (hsuffix : entry.suffix = suffix) (hback : 92 ∉ name)
    (hd : (baseText requestPath ++ (name ++ suffix)).length < filePathMax)
    (hp : (joinedPath docRoot (baseText requestPath ++ (name ++ suffix))).length < pathMax)
    (hbase : fs.Resolves (joinedPath docRoot (baseText requestPath)) directory) :
    LinkHolds fs docRoot requestPath directory entry := by
  subst hname hsuffix
  exact ⟨hback, hd, hp, hbase⟩

/-- The two links on the page of `/docs/`. -/
theorem directoryListing_links_docs : ∃ page entries,
    (fileBuildDirectoryListing 64 docsTree.os (ascii "/docs/") docsInfo.resolvedPath).1 = some page ∧
      page = listingPage (ascii "/docs/") entries ∧
      (entries.map DirectoryEntry.told).Perm [(ascii "user guide.txt", false), (ascii "old", true)] ∧
      ∀ entry ∈ entries, LinkLeads docsTree.fileSystem (ascii "/srv/www") (ascii "/docs/") entry.href
        docsDirectory entry.name := by
  have hinfo : fileStatPath docsTree.os (ascii "/srv/www") (ascii "/docs/") = .ok docsInfo := by
    decide +kernel
  have hbuilt : (fileBuildDirectoryListing 64 docsTree.os (ascii "/docs/")
      docsInfo.resolvedPath).1.isSome = true := by decide +kernel
  obtain ⟨page, hpage⟩ := Option.isSome_iff_exists.1 hbuilt
  obtain ⟨directory, names, entries, hdir, _, hopen, htext, hperm, hlinks, hslash⟩ :=
    directoryListing_links docsTree.fileSystem docsTree.os docsTree.os_exact.sound (ascii "/srv/www")
      (ascii "/docs/") docsInfo 64 page hinfo (fun _ => docsTree_entryNames) hpage
  have hdocs : directory = docsDirectory :=
    docsTree_resolves (by decide +kernel) (by decide +kernel) hdir
  subst hdocs
  rw [(docsTree_listed hopen).2] at hperm
  refine ⟨page, entries, hpage, htext, hperm, ?_⟩
  intro entry hentry
  apply (hlinks entry hentry).2
  have htold := hperm.mem_iff.1 (List.mem_map_of_mem hentry)
  have hends : entry.name = ascii "user guide.txt" ∧ entry.suffix = [] ∨
      entry.name = ascii "old" ∧ entry.suffix = [slash] := by
    rcases List.mem_cons.1 htold with he | he
    · exact .inl ⟨congrArg Prod.fst he, if_neg (ne_true_of_eq_false (congrArg Prod.snd he))⟩
    · have he := List.mem_singleton.1 he
      exact .inr ⟨congrArg Prod.fst he, if_pos (congrArg Prod.snd he)⟩
  have hbase := hslash (by decide)
  rcases hends with ⟨hname, hsuffix⟩ | ⟨hname, hsuffix⟩
  · exact linkHolds_of hname hsuffix (by decide) (by decide +kernel) (by decide +kernel) hbase
  · exact linkHolds_of hname hsuffix (by decide) (by decide +kernel) (by decide +kernel) hbase

/-- On the page of `/docs`, which has the same entries, no link leads to its entry. -/
theorem docsLinks_lost :
    fileStatPath docsTree.os (ascii "/srv/www") (ascii "/docs") = .ok docsInfo ∧
      ∃ page entries,
        (fileBuildDirectoryListing 64 docsTree.os (ascii "/docs") docsInfo.resolvedPath).1 =
          some page ∧
        page = listingPage (ascii "/docs") entries ∧
        (entries.map DirectoryEntry.told).Perm [(ascii "user guide.txt", false), (ascii "old", true)] ∧
        ∀ entry ∈ entries, ¬ LinkLeads docsTree.fileSystem (ascii "/srv/www") (ascii "/docs")
          entry.href docsDirectory entry.name := by
  have hbuilt : (fileBuildDirectoryListing 64 docsTree.os (ascii "/docs")
      docsInfo.resolvedPath).1.isSome = true := by decide +kernel
  obtain ⟨page, hpage⟩ := Option.isSome_iff_exists.1 hbuilt
  obtain ⟨names, entries, hopen, htext, hperm⟩ := fileBuildDirectoryListing_page hpage
  have hd : DecodesTo (ascii "/docs") (ascii "/docs") := ⟨by decide, by decide, by decide⟩
  have hlisted := docsTree_listed hopen
  refine ⟨by decide +kernel, page, entries, hpage, htext, hlisted.2 ▸ hperm, ?_⟩
  intro entry hentry hleads
  have hentryName := entryName_of_listed hperm (docsTree_entryNames hopen) entry hentry
  have hholds :=
    (linkLeads_iff (baseText_spec hd) hentryName (ascii "/srv/www") docsDirectory).1 hleads
  have hroot : docsTree.find (joinedPath (ascii "/srv/www") (baseText (ascii "/docs"))) =
      .ok srvWww := by decide +kernel
  have hsame := docsTree_resolves (by decide +kernel) hroot hholds.base
  exact absurd hsame (by decide)

end Httpd
