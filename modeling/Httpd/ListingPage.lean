import Httpd.DirectoryListing

namespace Httpd
set_option autoImplicit true

def htmlText (text : Bytes) : Bytes :=
  text.flatMap fun ch =>
    if ch = 38 then ascii "&amp;"
    else if ch = 60 then ascii "&lt;"
    else if ch = 62 then ascii "&gt;"
    else if ch = 34 then ascii "&quot;"
    else [ch]

def urlText (text : Bytes) : Bytes :=
  text.flatMap fun ch =>
    if isUrlUnreserved ch then [ch] else [37, hexDigit (ch >>> 4), hexDigit (ch &&& 15)]

theorem hexDigits_unreserved (ch : UInt8) :
    isUrlUnreserved (hexDigit (ch >>> 4)) = true ∧ isUrlUnreserved (hexDigit (ch &&& 15)) = true := by
  have hall : ∀ n : Fin 256, let ch := UInt8.ofNat n
      isUrlUnreserved (hexDigit (ch >>> 4)) = true ∧
        isUrlUnreserved (hexDigit (ch &&& 15)) = true := by decide +kernel
  have hch := hall ⟨ch.toNat, ch.toNat_lt⟩
  rw [UInt8.ofNat_toNat] at hch
  exact hch

namespace DirectoryEntry

def suffix (entry : DirectoryEntry) : Bytes := if entry.isDirectory then [slash] else []

def href (entry : DirectoryEntry) : Bytes := urlText entry.name ++ entry.suffix

def itemText (entry : DirectoryEntry) : Bytes :=
  ascii "<li><a href=\"" ++ (entry.href ++ (ascii "\">" ++
    (htmlText entry.name ++ (entry.suffix ++ ascii "</a></li>"))))

end DirectoryEntry

def headingText (requestPath : Bytes) : Bytes :=
  ascii ("<!doctype html><html><head><meta charset=\"utf-8\">" ++ "<title>Index of ") ++
    (htmlText requestPath ++ (ascii "</title></head><body><h1>Index of " ++
      (htmlText requestPath ++ ascii "</h1><ul>")))

def listingPage (requestPath : Bytes) (entries : List DirectoryEntry) : Bytes :=
  headingText requestPath ++ entries.flatMap DirectoryEntry.itemText ++
    ascii "</ul></body></html>"

/-- An append that, where it succeeds, puts this text behind what is there. -/
def Append.Writes (append : Append w) (piece : Bytes) : Prop :=
  ∀ builder heap, (append (builder, heap)).1 = true →
    (append (builder, heap)).2.1.text = builder.text ++ piece

theorem builderReserve_text (additional : BitVec w) (builder : StringBuilder w) (heap : Heap) :
    (builderReserve additional (builder, heap)).2.1.text = builder.text := by
  simp only [builderReserve]
  split
  · rfl
  · split
    · rfl
    · split <;> rfl

theorem builderAppendText_writes (text : Bytes) :
    (builderAppendText text : Append w).Writes text := by
  intro builder heap h
  have hkeeps := builderReserve_text (BitVec.ofNat w text.length) builder heap
  simp only [builderAppendText] at h ⊢
  generalize builderReserve (BitVec.ofNat w text.length) (builder, heap) = result at hkeeps h ⊢
  obtain ⟨ok, builder', heap'⟩ := result
  cases ok with
  | false => cases h
  | true => exact congrArg (· ++ text) hkeeps

theorem builderAppendChar_writes (ch : UInt8) : (builderAppendChar ch : Append w).Writes [ch] := by
  intro builder heap h
  have hkeeps := builderReserve_text (1 : BitVec w) builder heap
  simp only [builderAppendChar] at h ⊢
  generalize builderReserve (1 : BitVec w) (builder, heap) = result at hkeeps h ⊢
  obtain ⟨ok, builder', heap'⟩ := result
  cases ok with
  | false => cases h
  | true => exact congrArg (· ++ [ch]) hkeeps

theorem Append.writes_nothing : (Append.nothing : Append w).Writes [] := fun builder _ _ =>
  (List.append_nil builder.text).symm

theorem Append.Writes.andThen {first second : Append w} (h : first.Writes text)
    (h' : second.Writes text') : (first.andThen second).Writes (text ++ text') := by
  intro builder heap hok
  have hfirst := h builder heap
  simp only [Append.andThen] at hok ⊢
  generalize first (builder, heap) = result at hfirst hok ⊢
  obtain ⟨ok, builder', heap'⟩ := result
  cases ok with
  | false => cases hok
  | true =>
    have hsecond := h' builder' heap' hok
    simp only at hsecond ⊢
    rw [hsecond, hfirst rfl, List.append_assoc]

theorem appendAll_writes {step : α → Append w} {text : α → Bytes}
    (h : ∀ x, (step x).Writes (text x)) (xs : List α) :
    (appendAll step xs).Writes (xs.flatMap text) := by
  induction xs with
  | nil => exact Append.writes_nothing
  | cons x xs ih => exact (h x).andThen ih

theorem Append.Writes.ite {append append' : Append w} {p : Prop} [Decidable p]
    (h : append.Writes text) (h' : append'.Writes text') :
    (if p then append else append').Writes (if p then text else text') := by
  split
  · exact h
  · exact h'

theorem builderAppendHtmlEscaped_writes (text : Bytes) :
    (builderAppendHtmlEscaped text : Append w).Writes (htmlText text) := by
  apply appendAll_writes
  intro ch
  exact (builderAppendText_writes _).ite <| (builderAppendText_writes _).ite <|
    (builderAppendText_writes _).ite <| (builderAppendText_writes _).ite <|
    builderAppendChar_writes ch

theorem builderAppendUrlEscaped_writes (text : Bytes) :
    (builderAppendUrlEscaped text : Append w).Writes (urlText text) := by
  apply appendAll_writes
  intro ch
  exact (builderAppendChar_writes ch).ite (builderAppendText_writes _)

theorem appendHeading_writes (requestPath : Bytes) :
    (appendHeading requestPath : Append w).Writes (headingText requestPath) :=
  (builderAppendText_writes _).andThen <| (builderAppendHtmlEscaped_writes requestPath).andThen <|
    (builderAppendText_writes _).andThen <| (builderAppendHtmlEscaped_writes requestPath).andThen <|
    builderAppendText_writes _

theorem appendItem_writes (entry : DirectoryEntry) :
    (appendItem entry : Append w).Writes entry.itemText := by
  have hsuffix : (if entry.isDirectory then builderAppendChar slash else .nothing :
      Append w).Writes entry.suffix := (builderAppendChar_writes slash).ite Append.writes_nothing
  have hitem := (builderAppendText_writes (ascii "<li><a href=\"")).andThen <|
    (builderAppendUrlEscaped_writes (w := w) entry.name).andThen <| hsuffix.andThen <|
    (builderAppendText_writes (ascii "\">")).andThen <|
    (builderAppendHtmlEscaped_writes entry.name).andThen <| hsuffix.andThen <|
    builderAppendText_writes (ascii "</a></li>")
  rw [DirectoryEntry.itemText, DirectoryEntry.href, List.append_assoc (urlText entry.name)]
  exact hitem

def DirectoryEntry.told (entry : DirectoryEntry) : Bytes × Bool := (entry.name, entry.isDirectory)

def listed (os : Os) (resolvedPath : Bytes) (names : List Bytes) : List (Bytes × Bool) :=
  (names.filter fun name => name.head? ≠ some dot).map fun name =>
    (name, isDirectoryEntry os resolvedPath name)

theorem appendDirectoryEntry_told {entries entries' : DirectoryEntries w} {heap heap' : Heap}
    (h : appendDirectoryEntry entries name isDirectory heap = (true, entries', heap')) :
    entries'.entries.map DirectoryEntry.told =
      entries.entries.map DirectoryEntry.told ++ [(name, isDirectory)] := by
  by_cases hfull : BitVec.ofNat w entries.entries.length = entries.entryCapacity
  · simp only [appendDirectoryEntry, if_pos hfull] at h
    generalize (if entries.entryCapacity = 0 then 16 else entries.entryCapacity * 2) =
      newCapacity at h
    split at h
    · cases h
    split at h
    · cases h
    split at h
    · cases h
    · cases h
      exact List.map_append
  · simp only [appendDirectoryEntry, if_neg hfull] at h
    split at h
    · cases h
    · cases h
      exact List.map_append

theorem readEntries_told {entries entries' : DirectoryEntries w} {heap heap' : Heap}
    {names : List Bytes}
    (h : readEntries os resolvedPath entries heap names = (true, entries', heap')) :
    entries'.entries.map DirectoryEntry.told =
      entries.entries.map DirectoryEntry.told ++ listed os resolvedPath names := by
  induction names generalizing entries heap with
  | nil =>
    cases h
    exact (List.append_nil _).symm
  | cons name names ih =>
    rw [readEntries] at h
    by_cases hdot : name.head? = some dot
    · rw [if_pos hdot] at h
      rw [ih h, listed, listed, List.filter_cons_of_neg (by simp only [hdot, ne_eq,
        not_true_eq_false, decide_false, Bool.false_eq_true, not_false_eq_true])]
    · rw [if_neg hdot] at h
      split at h
      · cases h
      · rename_i happend
        rw [ih h, appendDirectoryEntry_told happend, listed, listed,
          List.filter_cons_of_pos (by simp only [hdot, ne_eq, not_false_eq_true, decide_true]),
          List.map_cons, List.append_assoc]
        rfl

/-- `file_build_directory_listing` up to what it returns, for any function that sorts. -/
def buildListing (w : Nat) (qsort : List DirectoryEntry → List DirectoryEntry) (os : Os)
    (requestPath resolvedPath : Bytes) : Option (StringBuilder w) × Heap :=
  let heap : Heap := ⟨os.allocations, 0, []⟩
  match os.opendir resolvedPath with
  | none => (none, heap)
  | some names =>
    match readEntries os resolvedPath (.empty w) (heap.record .directoryOpened) names with
    | (false, entries, heap) =>
      (none, freeDirectoryEntries (heap.record .directoryClosed) entries)
    | (true, entries, heap) =>
      let heap := heap.record .directoryClosed
      let entries := { entries with entries := qsort entries.entries }
      match (appendHeading requestPath).andThen (appendAll appendItem entries.entries)
          (.empty w, heap) with
      | (false, builder, heap) => (none, builderDestroy (freeDirectoryEntries heap entries) builder)
      | (true, builder, heap) =>
        let heap := freeDirectoryEntries heap entries
        match builderAppendText (ascii "</ul></body></html>") (builder, heap) with
        | (false, builder, heap) => (none, builderDestroy heap builder)
        | (true, builder, heap) => (some builder, heap)

theorem fileBuildDirectoryListing_build (w : Nat) (os : Os) (requestPath resolvedPath : Bytes) :
    fileBuildDirectoryListing w os requestPath resolvedPath =
      ((buildListing w (List.insertionSort compareDirectoryEntries) os requestPath
          resolvedPath).1.map StringBuilder.text,
        (buildListing w (List.insertionSort compareDirectoryEntries) os requestPath
          resolvedPath).2) := by
  simp only [fileBuildDirectoryListing, buildListing]
  cases os.opendir resolvedPath with
  | none => rfl
  | some names =>
    simp only
    generalize readEntries os resolvedPath (.empty w) _ names = result
    obtain ⟨_ | _, entries, heap⟩ := result
    · rfl
    simp only
    generalize (appendHeading requestPath).andThen _ _ = result
    obtain ⟨_ | _, builder, heap'⟩ := result
    · rfl
    simp only
    generalize builderAppendText (ascii "</ul></body></html>") _ = result
    obtain ⟨_ | _, builder', heap''⟩ := result
    · rfl
    · rfl

theorem buildListing_page {qsort : List DirectoryEntry → List DirectoryEntry}
    {builder : StringBuilder w}
    (h : (buildListing w qsort os requestPath resolvedPath).1 = some builder) :
    ∃ names entries, os.opendir resolvedPath = some names ∧
      builder.text = listingPage requestPath (qsort entries) ∧
      entries.map DirectoryEntry.told = listed os resolvedPath names := by
  simp only [buildListing] at h
  cases hopen : os.opendir resolvedPath with
  | none =>
    rw [hopen] at h
    cases h
  | some names =>
    simp only [hopen] at h
    split at h
    · cases h
    rename_i entries heap hread
    split at h
    · cases h
    rename_i builder₁ heap' hpage
    split at h
    · cases h
    rename_i builder₂ heap'' hlast
    have hwritten := ((appendHeading_writes requestPath).andThen
      (appendAll_writes appendItem_writes _)) _ _ (congrArg Prod.fst hpage)
    rw [hpage] at hwritten
    have hfinal := builderAppendText_writes _ _ _ (congrArg Prod.fst hlast)
    rw [hlast] at hfinal
    cases h
    exact ⟨names, entries.entries, rfl, hfinal.trans (congrArg (· ++ _) hwritten),
      readEntries_told hread⟩

/-- A listing that is built lists every name of the directory that does not start with a dot. -/
theorem fileBuildDirectoryListing_page
    (h : (fileBuildDirectoryListing w os requestPath resolvedPath).1 = some page) :
    ∃ names entries, os.opendir resolvedPath = some names ∧ page = listingPage requestPath entries ∧
      (entries.map DirectoryEntry.told).Perm (listed os resolvedPath names) := by
  rw [fileBuildDirectoryListing_build] at h
  obtain ⟨builder, hbuilt, rfl⟩ := Option.map_eq_some_iff.1 h
  obtain ⟨names, entries, hopen, htext, htold⟩ := buildListing_page hbuilt
  have hsorted := (List.perm_insertionSort compareDirectoryEntries entries).map DirectoryEntry.told
  rw [htold] at hsorted
  exact ⟨names, _, hopen, htext, hsorted⟩

end Httpd
