import Httpd.EntryArray
import Httpd.ListingPage

namespace Httpd
set_option autoImplicit true

def Heap.Later (heap heap' : Heap) : Prop :=
  ∃ events, heap'.trace = heap.trace ++ events ∧
    ∀ event ∈ events, event ≠ .directoryOpened ∧ event ≠ .directoryClosed

namespace Heap

variable {heap heap' : Heap}

theorem Later.refl (heap : Heap) : heap.Later heap :=
  ⟨[], (List.append_nil _).symm, fun _ h => absurd h List.not_mem_nil⟩

theorem Later.trans (h : heap.Later heap') (h' : heap'.Later heap'') : heap.Later heap'' := by
  obtain ⟨events, htrace, hevents⟩ := h
  obtain ⟨events', htrace', hevents'⟩ := h'
  refine ⟨events ++ events', ?_, List.forall_mem_append.2 ⟨hevents, hevents'⟩⟩
  rw [htrace', htrace, List.append_assoc]

theorem later_malloc (hm : heap.malloc size = (result, heap')) : heap.Later heap' := by
  cases result with
  | none =>
    rw [Later, (malloc_none hm).1]
    exact Later.refl heap
  | some block => exact ⟨_, (malloc_some hm).2.2, List.forall_mem_singleton.2 ⟨nofun, nofun⟩⟩

theorem later_free (heap : Heap) (old : Option Nat) : heap.Later (heap.free old) := by
  refine ⟨_, free_trace heap old, fun event h => ?_⟩
  obtain ⟨block, -, rfl⟩ := List.mem_map.1 h
  exact ⟨nofun, nofun⟩

theorem later_realloc (hm : heap.realloc old size = (result, heap')) : heap.Later heap' := by
  cases result with
  | none => exact later_malloc (realloc_none hm)
  | some block =>
    obtain ⟨grown, hmalloc, rfl⟩ := realloc_some hm
    exact (later_malloc hmalloc).trans (later_free grown old)

end Heap

def DirectoryEntries.blocks (entries : DirectoryEntries w) : List Nat :=
  entries.block.toList ++ entries.entries.map DirectoryEntry.nameBlock

def DirectoryEntries.NullEmpty (entries : DirectoryEntries w) : Prop :=
  entries.block = none → entries.entries = [] ∧ entries.entryCapacity = 0

section Entries

variable {entries entries' : DirectoryEntries w} {heap heap' : Heap}

theorem later_storeEntry
    (hs : storeEntry name isDirectory entries heap = (ok, entries', heap')) :
    heap.Later heap' := by
  rcases storeEntry_cases hs with ⟨-, -, hm⟩ | ⟨nameBlock, -, -, hm⟩
  · exact Heap.later_malloc hm
  · exact Heap.later_malloc hm

theorem later_appendDirectoryEntry
    (ha : appendDirectoryEntry entries name isDirectory heap = (ok, entries', heap')) :
    heap.Later heap' := by
  rcases appendDirectoryEntry_cases ha with ⟨-, hs⟩ | ⟨-, -, -, rfl | ⟨size, hm⟩⟩ |
    ⟨-, -, block, heap₁, hm, hs⟩
  · exact later_storeEntry hs
  · exact Heap.Later.refl _
  · exact Heap.later_realloc hm
  · exact (Heap.later_realloc hm).trans (later_storeEntry hs)

theorem later_readEntries {names : List Bytes}
    (hr : readEntries os resolvedPath entries heap names = (ok, entries', heap')) :
    heap.Later heap' := by
  induction names generalizing entries heap with
  | nil =>
    cases hr
    exact Heap.Later.refl _
  | cons name names ih =>
    rw [readEntries] at hr
    split at hr
    · exact ih hr
    split at hr
    · rename_i ha
      cases hr
      exact later_appendDirectoryEntry ha
    · rename_i ha
      exact (later_appendDirectoryEntry ha).trans (ih hr)

theorem storeEntry_holds (h : heap.Holds entries.blocks)
    (hs : storeEntry name isDirectory entries heap = (ok, entries', heap')) :
    heap'.Holds entries'.blocks ∧ entries'.block = entries.block := by
  rcases storeEntry_cases hs with ⟨-, rfl, hm⟩ | ⟨nameBlock, -, rfl, hm⟩
  · exact ⟨h.malloc_none hm, rfl⟩
  · refine ⟨(h.malloc_some hm).perm ?_, rfl⟩
    have hblocks : (entries.push ⟨name, nameBlock, isDirectory⟩).blocks =
        entries.blocks ++ [nameBlock] := by
      rw [DirectoryEntries.blocks, DirectoryEntries.push, List.map_append, ← List.append_assoc]
      rfl
    rw [hblocks]
    exact List.perm_append_singleton _ _

theorem appendDirectoryEntry_holds (h : heap.Holds entries.blocks) (hn : entries.NullEmpty)
    (ha : appendDirectoryEntry entries name isDirectory heap = (ok, entries', heap')) :
    heap'.Holds entries'.blocks ∧ entries'.NullEmpty := by
  rcases appendDirectoryEntry_cases ha with ⟨hroom, hs⟩ | ⟨-, -, rfl, rfl | ⟨size, hm⟩⟩ |
    ⟨-, -, block, heap₁, hm, hs⟩
  · obtain ⟨hholds, hblock⟩ := storeEntry_holds h hs
    refine ⟨hholds, fun hnone => ?_⟩
    obtain ⟨hentries, hcapacity⟩ := hn (hblock.symm.trans hnone)
    apply absurd _ hroom
    rw [DirectoryEntries.Full, hentries, hcapacity]
    rfl
  · exact ⟨h, hn⟩
  · exact ⟨h.realloc_none hm, hn⟩
  · obtain ⟨hholds, hblock⟩ := storeEntry_holds (h.realloc_some hm) hs
    refine ⟨hholds, fun hnone => ?_⟩
    cases hblock.symm.trans hnone

theorem readEntries_holds {names : List Bytes} (h : heap.Holds entries.blocks)
    (hn : entries.NullEmpty)
    (hr : readEntries os resolvedPath entries heap names = (ok, entries', heap')) :
    heap'.Holds entries'.blocks ∧ entries'.NullEmpty := by
  induction names generalizing entries heap with
  | nil =>
    cases hr
    exact ⟨h, hn⟩
  | cons name names ih =>
    rw [readEntries] at hr
    split at hr
    · exact ih h hn hr
    split at hr
    · rename_i ha
      cases hr
      exact appendDirectoryEntry_holds h hn ha
    · rename_i ha
      obtain ⟨h₁, hn₁⟩ := appendDirectoryEntry_holds h hn ha
      exact ih h₁ hn₁ hr

theorem freeNames_holds {list : List DirectoryEntry} {blocks : List Nat}
    (h : heap.Holds (list.map DirectoryEntry.nameBlock ++ blocks)) :
    (list.foldl (fun heap entry => heap.free (some entry.nameBlock)) heap).Holds blocks := by
  induction list generalizing heap with
  | nil => exact h
  | cons entry list ih => exact ih (Heap.Holds.free (some entry.nameBlock) h)

theorem freeDirectoryEntries_holds {blocks : List Nat} (h : heap.Holds (entries.blocks ++ blocks))
    (hn : entries.NullEmpty) : (freeDirectoryEntries heap entries).Holds blocks := by
  rw [freeDirectoryEntries]
  cases hblock : entries.block with
  | none =>
    rw [DirectoryEntries.blocks, hblock, (hn hblock).1] at h
    exact h
  | some block =>
    rw [DirectoryEntries.blocks, hblock] at h
    have hnames : heap.Holds (entries.entries.map DirectoryEntry.nameBlock ++ block :: blocks) :=
      h.perm List.perm_middle
    exact Heap.Holds.free (some block) (freeNames_holds hnames)

theorem later_freeDirectoryEntries (heap : Heap) (entries : DirectoryEntries w) :
    heap.Later (freeDirectoryEntries heap entries) := by
  have hnames (list : List DirectoryEntry) (heap : Heap) :
      heap.Later (list.foldl (fun heap entry => heap.free (some entry.nameBlock)) heap) := by
    induction list generalizing heap with
    | nil => exact Heap.Later.refl heap
    | cons entry list ih => exact (Heap.later_free heap _).trans (ih _)
  rw [freeDirectoryEntries]
  split
  · exact Heap.Later.refl heap
  · exact (hnames _ heap).trans (Heap.later_free _ _)

end Entries

/-- An append goes on with one block for the builder, and leaves the others alone. -/
def Append.Keeps (append : Append w) : Prop :=
  ∀ builder heap, heap.Later (append (builder, heap)).2.2 ∧
    ∀ blocks, heap.Holds (builder.data.toList ++ blocks) →
      (append (builder, heap)).2.2.Holds ((append (builder, heap)).2.1.data.toList ++ blocks)

section Append

theorem builderReserve_keeps (additional : BitVec w) : (builderReserve additional).Keeps := by
  intro builder heap
  simp only [builderReserve]
  split
  · exact ⟨Heap.Later.refl heap, fun _ h => h⟩
  split
  · exact ⟨Heap.Later.refl heap, fun _ h => h⟩
  split
  · rename_i hm
    exact ⟨Heap.later_realloc hm, fun _ h => h.realloc_none hm⟩
  · rename_i hm
    exact ⟨Heap.later_realloc hm, fun _ h => h.realloc_some hm⟩

theorem builderAppendText_keeps (text : Bytes) : (builderAppendText text : Append w).Keeps := by
  intro builder heap
  have hkeeps := builderReserve_keeps (BitVec.ofNat w text.length) builder heap
  rw [builderAppendText]
  generalize builderReserve _ (builder, heap) = result at hkeeps ⊢
  obtain ⟨_ | _, builder', heap'⟩ := result
  · exact hkeeps
  · exact hkeeps

theorem builderAppendChar_keeps (ch : UInt8) : (builderAppendChar ch : Append w).Keeps := by
  intro builder heap
  have hkeeps := builderReserve_keeps (1 : BitVec w) builder heap
  rw [builderAppendChar]
  generalize builderReserve _ (builder, heap) = result at hkeeps ⊢
  obtain ⟨_ | _, builder', heap'⟩ := result
  · exact hkeeps
  · exact hkeeps

theorem Append.keeps_nothing : (Append.nothing : Append w).Keeps :=
  fun _ heap => ⟨Heap.Later.refl heap, fun _ h => h⟩

theorem Append.Keeps.andThen {first second : Append w} (h : first.Keeps) (h' : second.Keeps) :
    (first.andThen second).Keeps := by
  intro builder heap
  obtain ⟨hlater, hholds⟩ := h builder heap
  rw [Append.andThen]
  generalize first (builder, heap) = result at hlater hholds ⊢
  obtain ⟨_ | _, builder', heap'⟩ := result
  · exact ⟨hlater, hholds⟩
  · obtain ⟨hlater', hholds'⟩ := h' builder' heap'
    exact ⟨hlater.trans hlater', fun blocks hb => hholds' blocks (hholds blocks hb)⟩

theorem Append.Short.keeps {append : Append w} (h : append.Short) : append.Keeps := by
  induction h with
  | nothing => exact Append.keeps_nothing
  | text _ => exact builderAppendText_keeps _
  | char ch => exact builderAppendChar_keeps ch
  | andThen _ _ ih ih' => exact ih.andThen ih'

theorem page_keeps (requestPath : Bytes) (entries : List DirectoryEntry) :
    ((appendHeading requestPath).andThen (appendAll appendItem entries) : Append w).Keeps :=
  ((appendHeading_short requestPath).andThen (appendAll_short appendItem_short entries)).keeps

end Append

structure Heap.StreamCounts (heap : Heap) (opened closed : Nat) : Prop where
  opened : heap.trace.count .directoryOpened = opened
  closed : heap.trace.count .directoryClosed = closed

theorem Heap.Later.streamCounts {heap heap' : Heap} (h : heap.Later heap')
    (hs : heap.StreamCounts opened closed) : heap'.StreamCounts opened closed := by
  obtain ⟨events, htrace, hevents⟩ := h
  have hopened : .directoryOpened ∉ events := fun hmem => (hevents _ hmem).1 rfl
  have hclosed : .directoryClosed ∉ events := fun hmem => (hevents _ hmem).2 rfl
  constructor
  · rw [htrace, List.count_append, List.count_eq_zero_of_not_mem hopened]
    exact hs.opened
  · rw [htrace, List.count_append, List.count_eq_zero_of_not_mem hclosed]
    exact hs.closed

theorem Heap.StreamCounts.recordClosed {heap : Heap} (h : heap.StreamCounts n m) :
    (heap.record .directoryClosed).StreamCounts n (m + 1) := by
  constructor
  · rw [Heap.record, List.count_append, h.opened]
    rfl
  · rw [Heap.record, List.count_append, h.closed]
    rfl

theorem builderDestroy_holds {builder : StringBuilder w} {heap : Heap}
    (h : heap.Holds builder.data.toList) : (builderDestroy heap builder).Holds [] :=
  Heap.Holds.free builder.data ((List.append_nil _).symm ▸ h)

section Build

variable {qsort : List DirectoryEntry → List DirectoryEntry}
  (hq : ∀ entries, (qsort entries).Perm entries)
include hq

theorem sorted_holds {entries : DirectoryEntries w} {heap : Heap} (h : heap.Holds entries.blocks)
    (hn : entries.NullEmpty) :
    heap.Holds { entries with entries := qsort entries.entries : DirectoryEntries w }.blocks ∧
      { entries with entries := qsort entries.entries : DirectoryEntries w }.NullEmpty := by
  constructor
  · exact h.perm (((hq entries.entries).map _).append_left _)
  · intro hnone
    obtain ⟨hempty, hcapacity⟩ := hn hnone
    have hperm := hq entries.entries
    rw [hempty] at hperm
    refine ⟨?_, hcapacity⟩
    simp only [hempty]
    exact hperm.eq_nil

omit hq in
/-- Once the names are read, the stream is closed and is not touched any more. -/
theorem buildListing_later {os : Os} {entries : DirectoryEntries w} {heap : Heap}
    (requestPath : Bytes) (hopen : os.opendir resolvedPath = some names)
    (hread : readEntries os resolvedPath (.empty w)
      ((⟨os.allocations, 0, []⟩ : Heap).record .directoryOpened) names = (ok, entries, heap)) :
    (heap.record .directoryClosed).Later
      (buildListing w qsort os requestPath resolvedPath).2 := by
  simp only [buildListing, hopen, hread]
  cases ok with
  | false => exact later_freeDirectoryEntries _ _
  | true =>
    obtain ⟨hlater, -⟩ := page_keeps requestPath (qsort entries.entries) (.empty w)
      (heap.record .directoryClosed)
    simp only
    generalize (appendHeading requestPath).andThen _ (StringBuilder.empty w, _) = result
      at hlater ⊢
    obtain ⟨ok, builder, heap₁⟩ := result
    have hfreed := hlater.trans
      (later_freeDirectoryEntries heap₁ { entries with entries := qsort entries.entries })
    cases ok with
    | false => exact hfreed.trans (Heap.later_free _ _)
    | true =>
      obtain ⟨hlater', -⟩ := builderAppendText_keeps (ascii "</ul></body></html>") builder
        (freeDirectoryEntries heap₁ { entries with entries := qsort entries.entries })
      simp only
      generalize builderAppendText _ (builder, _) = result at hlater' ⊢
      obtain ⟨ok, builder', heap₂⟩ := result
      cases ok with
      | false => exact (hfreed.trans hlater').trans (Heap.later_free _ _)
      | true => exact hfreed.trans hlater'

omit hq in
theorem buildListing_stream (w : Nat) (os : Os) (requestPath resolvedPath : Bytes) :
    (buildListing w qsort os requestPath resolvedPath).2.StreamCounts
      (if (os.opendir resolvedPath).isSome then 1 else 0)
      (if (os.opendir resolvedPath).isSome then 1 else 0) := by
  cases hopen : os.opendir resolvedPath with
  | none =>
    simp only [buildListing, hopen]
    exact ⟨rfl, rfl⟩
  | some names =>
    have hstream : ((⟨os.allocations, 0, []⟩ : Heap).record .directoryOpened).StreamCounts 1 0 :=
      ⟨rfl, rfl⟩
    generalize hread : readEntries os resolvedPath (.empty w)
      ((⟨os.allocations, 0, []⟩ : Heap).record .directoryOpened) names = result
    obtain ⟨ok, entries, heap⟩ := result
    exact (buildListing_later requestPath hopen hread).streamCounts
      ((later_readEntries hread).streamCounts hstream).recordClosed

/-- What a call leaves of its blocks is the one of the page, if there is a page. -/
theorem buildListing_holds (w : Nat) (os : Os) (requestPath resolvedPath : Bytes) :
    (buildListing w qsort os requestPath resolvedPath).2.Holds
      ((buildListing w qsort os requestPath resolvedPath).1.elim []
        fun builder => builder.data.toList) := by
  simp only [buildListing]
  cases os.opendir resolvedPath with
  | none => exact Heap.holds_empty _
  | some names =>
    have hopened : ((⟨os.allocations, 0, []⟩ : Heap).record .directoryOpened).Holds
        (DirectoryEntries.empty w).blocks := (Heap.holds_empty os.allocations).record rfl rfl
    simp only
    generalize hread : readEntries os resolvedPath (.empty w) _ names = result
    obtain ⟨ok, entries, heap⟩ := result
    obtain ⟨hentries, hnull⟩ := readEntries_holds hopened (fun _ => ⟨rfl, rfl⟩) hread
    have hheld : (heap.record .directoryClosed).Holds entries.blocks := hentries.record rfl rfl
    cases ok with
    | false =>
      rw [← List.append_nil entries.blocks] at hheld
      exact freeDirectoryEntries_holds hheld hnull
    | true =>
      obtain ⟨hsorted, hnull'⟩ := sorted_holds hq hheld hnull
      simp only
      generalize qsort entries.entries = sorted at hsorted hnull' ⊢
      obtain ⟨-, hholds⟩ := page_keeps requestPath sorted (.empty w) (heap.record .directoryClosed)
      have hpage := hholds _ hsorted
      generalize (appendHeading requestPath).andThen _ (StringBuilder.empty w, _) = result
        at hpage ⊢
      obtain ⟨ok, builder, heap₁⟩ := result
      have hfreed := freeDirectoryEntries_holds (hpage.perm List.perm_append_comm) hnull'
      cases ok with
      | false => exact builderDestroy_holds hfreed
      | true =>
        simp only
        obtain ⟨-, hholds'⟩ := builderAppendText_keeps (ascii "</ul></body></html>") builder
          (freeDirectoryEntries heap₁ { entries with entries := sorted })
        have hlast := hholds' [] ((List.append_nil _).symm ▸ hfreed)
        rw [List.append_nil] at hlast
        generalize builderAppendText _ (builder, _) = result at hlast ⊢
        obtain ⟨ok, builder', heap₂⟩ := result
        cases ok with
        | false => exact builderDestroy_holds hlast
        | true => exact hlast

end Build

end Httpd
