import Httpd.ListingMemory

namespace Httpd
open CheckedMemory
set_option autoImplicit true

section Outcome

variable {w : Nat} (hw : 16 ≤ w) (junk : Nat → Nat → UInt8)
  {qsort : List DirectoryEntry → List DirectoryEntry}
  (hq : ∀ entries, (qsort entries).Perm entries) {os : Os} {requestPath resolvedPath : Bytes}
  (hpath : 0 ∉ requestPath)
  (hnames : ∀ names, os.opendir resolvedPath = some names → ∀ name ∈ names, 0 ∉ name)
  (hlimit : (buildListing w qsort os requestPath resolvedPath).2.Limited w)
include hw hq hpath hnames hlimit

/-- A call returns the whole page with its terminator and its length, or an error and nothing.
Either way the stream is closed as often as it was opened, and every block has been released
once, except for the one of a page that is returned. -/
theorem fileBuildDirectoryListingChecked_outcome :
    ∃ result heap,
      fileBuildDirectoryListingChecked w junk qsort os (cstring requestPath) resolvedPath =
        .ok (result, heap) ∧
      (result = .error ∨ ∃ names entries block rest, os.opendir resolvedPath = some names ∧
        (entries.map DirectoryEntry.told).Perm (listed os resolvedPath names) ∧
        result = ⟨true, some (block, listingPage requestPath entries ++ 0 :: rest),
          (listingPage requestPath entries).length⟩) ∧
      heap.StreamCounts (if (os.opendir resolvedPath).isSome then 1 else 0)
        (if (os.opendir resolvedPath).isSome then 1 else 0) ∧
      ∀ block, heap.freed.count block =
        if block ∈ heap.acquired ∧ result.body.map Prod.fst ≠ some block then 1 else 0 := by
  obtain ⟨result, hchecked, hresult⟩ :=
    fileBuildDirectoryListingChecked_refines hw junk hq hpath hnames hlimit
  have hholds := buildListing_holds hq w os requestPath resolvedPath
  have hstream : (buildListing w qsort os requestPath resolvedPath).2.StreamCounts _ _ :=
    buildListing_stream w os requestPath resolvedPath
  cases hbuilt : (buildListing w qsort os requestPath resolvedPath).1 with
  | none =>
    rw [hbuilt] at hresult hholds
    cases hresult
    refine ⟨_, _, hchecked, .inl rfl, hstream, fun block => ?_⟩
    have hcount := hholds.count_freed block
    simp only [Option.elim_none, List.not_mem_nil, not_false_eq_true, and_true] at hcount
    simp only [ListingResult.error, Option.map_none, ne_eq, reduceCtorEq, not_false_eq_true,
      and_true]
    exact hcount
  | some builder =>
    rw [hbuilt] at hresult hholds
    obtain ⟨page, rest, hdata, rfl⟩ := hresult
    obtain ⟨names, entries, hopen, htext, htold⟩ := buildListing_page hbuilt
    have hsorted := (hq entries).map DirectoryEntry.told
    rw [htold] at hsorted
    refine ⟨_, _, hchecked, .inr ⟨names, qsort entries, page, rest, hopen, hsorted, ?_⟩, hstream,
      fun block => ?_⟩
    · rw [htext]
    · have hcount := hholds.count_freed block
      simp only [Option.elim_some, hdata, Option.toList_some, List.mem_singleton] at hcount
      simp only [Option.map_some, ne_eq, Option.some.injEq, eq_comm (a := page)]
      exact hcount

end Outcome

def directoryOs (names : List Bytes) (allocations : List Bool) : Os :=
  { pageOs with opendir := fun _ => some names, allocations := allocations }

/-- The third allocation, of the second name, fails. -/
theorem fileBuildDirectoryListingChecked_outcome_full :
    ∃ result heap, fileBuildDirectoryListingChecked 64 (fun _ _ => 0)
        (List.insertionSort compareDirectoryEntries)
        (directoryOs [ascii "b", ascii "a"] [true, true, false]) (cstring (ascii "/"))
        (ascii "/srv/www") = .ok (result, heap) ∧ heap.StreamCounts 1 1 := by
  have hnames : ∀ names, some [ascii "b", ascii "a"] = some names → ∀ name ∈ names, 0 ∉ name := by
    intro names h
    cases h
    decide
  have hlimit : (buildListing 64 (List.insertionSort compareDirectoryEntries)
      (directoryOs [ascii "b", ascii "a"] [true, true, false]) (ascii "/")
      (ascii "/srv/www")).2.Limited 64 := by decide +kernel
  obtain ⟨result, heap, hchecked, -, hstream, -⟩ := fileBuildDirectoryListingChecked_outcome
    (by decide) (fun _ _ => 0) (List.perm_insertionSort _) (by decide) hnames hlimit
  exact ⟨result, heap, hchecked, hstream⟩

structure StringBuilder.Recorded (builder : StringBuilder w) (heap : Heap) : Prop where
  counted : builder.Counted
  room : (builder.capacity = 0 ∧ builder.length = 0) ∨
    builder.length.toNat < builder.capacity.toNat ∧
      ∃ block, .allocated block builder.capacity.toNat ∈ heap.trace

def Append.Succeeds (append : Append w) : Prop :=
  ∀ builder heap, builder.Recorded heap → heap.Granting → (append (builder, heap)).2.2.Limited w →
    (append (builder, heap)).1 = true ∧
      (append (builder, heap)).2.1.Recorded (append (builder, heap)).2.2 ∧
      (append (builder, heap)).2.2.Granting

section Success

variable {w : Nat} (hw : 16 ≤ w)
include hw

theorem builderReserve_granted {builder : StringBuilder w} {heap : Heap} {additional : BitVec w}
    (hr : builder.Recorded heap) (hg : heap.Granting) (hl : heap.Limited w)
    (hsmall : additional.toNat < 2 ^ 8) :
    ∃ builder' heap', builderReserve additional (builder, heap) = (true, builder', heap') ∧
      builder'.text = builder.text ∧ builder'.length = builder.length ∧ heap'.Granting ∧
      builder.length.toNat + additional.toNat < builder'.capacity.toNat ∧
      ∃ block, .allocated block builder'.capacity.toNat ∈ heap'.trace := by
  have hpow : 2 ^ w = 2 ^ (w - 1) * 2 := by
    rw [← Nat.pow_succ, Nat.succ_eq_add_one, Nat.sub_add_cancel (by omega)]
  have hlarge : 2 ^ 15 ≤ 2 ^ (w - 1) := Nat.pow_le_pow_right (by decide) (by omega)
  have hlength : builder.length.toNat ≤ ptrdiffMax w := by
    rcases hr.room with ⟨-, hzero⟩ | ⟨hless, block, hmem⟩
    · rw [hzero, show (0 : BitVec w).toNat = 0 from BitVec.toNat_zero]
      exact Nat.zero_le _
    · exact Nat.le_trans (Nat.le_of_lt hless) (hl _ hmem)
  rw [ptrdiffMax] at hlength
  have hroom : builder.length.toNat + 1 < 2 ^ w := by omega
  have hguard : ¬ additional > BitVec.allOnes w - builder.length - 1 := by
    intro hlt
    have hlt' := BitVec.lt_def.1 hlt
    rw [sizeLeft_toNat hroom] at hlt'
    omega
  have hrequired := required_toNat hw (reserve_bound hroom hguard)
  simp only [builderReserve, if_neg hguard]
  by_cases hfits : builder.length + additional + 1 ≤ builder.capacity
  · have hle := BitVec.le_def.1 hfits
    rw [hrequired] at hle
    rw [if_pos hfits]
    rcases hr.room with ⟨hzero, -⟩ | ⟨-, hblock⟩
    · rw [hzero, show (0 : BitVec w).toNat = 0 from BitVec.toNat_zero] at hle
      exact absurd hle (Nat.not_succ_le_zero _)
    · exact ⟨builder, heap, rfl, rfl, rfl, hg, hle, hblock⟩
  · obtain ⟨-, henough⟩ := growCapacityChecked_ok hw (builder.length + additional + 1)
      (Nat.le_mul_of_pos_right (2 ^ w) (start_pos hw builder.capacity))
    rw [hrequired] at henough
    rw [if_neg hfits]
    generalize growCapacity (builder.length + additional + 1) w _ = newCapacity at henough ⊢
    obtain ⟨heap', hm, hg'⟩ := hg.realloc builder.data newCapacity.toNat
    obtain ⟨grown, hmalloc, rfl⟩ := Heap.realloc_some hm
    refine ⟨{ builder with data := some heap.nextBlock, capacity := newCapacity }, _, by rw [hm], rfl,
      rfl, hg', henough, heap.nextBlock, ?_⟩
    rw [Heap.free_trace, (Heap.malloc_some hmalloc).2.2]
    exact List.mem_append_left _ (List.mem_append_right _ List.mem_cons_self)

theorem succeeds_of_reserve {append : Append w} {piece : Bytes} {length : BitVec w}
    (hsmall : length.toNat < 2 ^ 8) (hshort : append.Short)
    (h : ∀ state, append state = match builderReserve length state with
      | (false, state) => (false, state)
      | (true, builder, heap) => (true, { builder with
          text := builder.text ++ piece, length := builder.length + length }, heap)) :
    append.Succeeds := by
  intro builder heap hr hg hl
  have hnow : heap.Limited w := hl.earlier (hshort.keeps builder heap).1.subset
  have hbig : 128 ≤ 2 ^ w := Nat.le_trans (show 128 ≤ 2 ^ 16 by decide)
    (Nat.pow_le_pow_right (by decide) hw)
  have hcounted := hshort.counts hbig builder heap hr.counted
  obtain ⟨builder', heap', hreserve, -, hlength, hg', hroom, hblock⟩ :=
    builderReserve_granted hw hr hg hnow hsmall
  rw [h, hreserve] at hcounted ⊢
  refine ⟨rfl, ⟨hcounted, .inr ⟨?_, hblock⟩⟩, hg'⟩
  simp only [hlength, BitVec.toNat_add]
  exact Nat.lt_of_le_of_lt (Nat.mod_le _ _) hroom

omit hw in
theorem Append.Succeeds.andThen {first second : Append w} (h : first.Succeeds) (hk : second.Keeps)
    (h' : second.Succeeds) : (first.andThen second).Succeeds := by
  intro builder heap hr hg hl
  have hfirst := h builder heap hr hg
  rw [Append.andThen] at hl ⊢
  generalize first (builder, heap) = result at hfirst hl ⊢
  obtain ⟨_ | _, builder₁, heap₁⟩ := result
  · exact absurd (hfirst hl).1 Bool.false_ne_true
  · obtain ⟨-, hr₁, hg₁⟩ := hfirst (hl.earlier (hk builder₁ heap₁).1.subset)
    exact h' builder₁ heap₁ hr₁ hg₁ hl

theorem Append.Short.succeeds {append : Append w} (h : append.Short) : append.Succeeds := by
  induction h with
  | nothing => exact fun _ _ hr hg _ => ⟨rfl, hr, hg⟩
  | @text text hlen =>
    have hsmall : (BitVec.ofNat w text.length).toNat < 2 ^ 8 := by
      rw [ofNat_toNat_small (Nat.le_trans (show 7 ≤ 16 by decide) hw) hlen]
      exact Nat.lt_trans hlen (by decide)
    exact succeeds_of_reserve hw hsmall (.text hlen) fun _ => rfl
  | char ch =>
    have hsmall : (1 : BitVec w).toNat < 2 ^ 8 := by
      rw [show (1 : BitVec w).toNat = 1 from ofNat_toNat_small hw (by decide)]
      decide
    exact succeeds_of_reserve hw hsmall (.char ch) fun _ => rfl
  | andThen _ hsecond ih ih' => exact ih.andThen hsecond.keeps ih'

end Success

theorem StringBuilder.Recorded.later {builder : StringBuilder w} {heap heap' : Heap}
    (h : builder.Recorded heap) (hl : heap.Later heap') : builder.Recorded heap' := by
  refine ⟨h.counted, ?_⟩
  rcases h.room with hempty | ⟨hless, block, hmem⟩
  · exact .inl hempty
  · exact .inr ⟨hless, block, hl.subset hmem⟩

theorem granting_freeDirectoryEntries {heap : Heap} (h : heap.Granting)
    (entries : DirectoryEntries w) : (freeDirectoryEntries heap entries).Granting := by
  have hnames (list : List DirectoryEntry) (heap : Heap) (h : heap.Granting) :
      (list.foldl (fun heap entry => heap.free (some entry.nameBlock)) heap).Granting := by
    induction list generalizing heap with
    | nil => exact h
    | cons entry list ih => exact ih _ (h.free _)
  rw [freeDirectoryEntries]
  split
  · exact h
  · exact (hnames _ heap h).free _

section Reading

variable {w : Nat} (hw : 16 ≤ w) {entries : DirectoryEntries w} {heap : Heap}
include hw

theorem appendDirectoryEntry_granted (hb : entries.Backed heap) (hg : heap.Granting)
    (hd : entries.DoubleFits) (name : Bytes) (isDirectory : Bool) :
    ∃ entries' heap', appendDirectoryEntry entries name isDirectory heap =
        (true, entries', heap') ∧ heap'.Granting := by
  by_cases hfull : entries.Full
  · have hsize := (entrySize_toNat (w := w) (Nat.le_trans (by decide) hw)).1
    have hdouble : entries.entries.length * 2 < 2 ^ w := by
      have hbytes := hd hfull
      have hle : entries.entries.length ≤
          entries.entries.length * (directoryEntrySize w).toNat :=
        Nat.le_mul_of_pos_right _ (by omega)
      omega
    have hguard := guard_passes (Nat.le_trans (by decide) hw) hb.count hfull hdouble
    obtain ⟨t, ha, hg', -⟩ := append_grows (s := (entries, heap)) ⟨name, isDirectory, true⟩ rfl hfull
      hguard hg
    exact ⟨t.1, t.2, ha, hg'⟩
  · obtain ⟨t, ha, hg', -⟩ := append_granted (s := (entries, heap)) ⟨name, isDirectory, true⟩ rfl
      hfull hg
    exact ⟨t.1, t.2, ha, hg'⟩

theorem readEntries_granted (os : Os) (resolvedPath : Bytes) (names : List Bytes)
    (hb : entries.Backed heap) (hg : heap.Granting)
    (hl : (readEntries os resolvedPath entries heap names).2.2.Limited w) :
    ∃ entries' heap', readEntries os resolvedPath entries heap names = (true, entries', heap') ∧
      heap'.Granting := by
  induction names generalizing entries heap with
  | nil => exact ⟨entries, heap, rfl, hg⟩
  | cons name names ih =>
    rw [readEntries] at hl ⊢
    by_cases hdot : name.head? = some dot
    · rw [if_pos hdot] at hl ⊢
      exact ih hb hg hl
    · rw [if_neg hdot] at hl ⊢
      have happends := fun hd => appendDirectoryEntry_granted hw hb hg hd name
        (isDirectoryEntry os resolvedPath name)
      generalize happend : appendDirectoryEntry entries name
        (isDirectoryEntry os resolvedPath name) heap = result at hl happends ⊢
      obtain ⟨ok, entries₁, heap₁⟩ := result
      have hlater := later_appendDirectoryEntry happend
      have hnow : heap.Limited w := by
        cases ok with
        | false => exact hl.earlier hlater.subset
        | true => exact hl.earlier (hlater.trans (later_readEntries rfl)).subset
      have hd := hb.doubleFits hw hnow
      obtain ⟨entries', heap', he, hg'⟩ := happends hd
      cases he
      exact ih (hb.append (Nat.le_trans (by decide) hw) hd happend).1 hg' hl

theorem buildListing_granted {qsort : List DirectoryEntry → List DirectoryEntry} {os : Os}
    {requestPath resolvedPath : Bytes} (hopen : os.opendir resolvedPath = some names)
    (hg : ∀ outcome ∈ os.allocations, outcome = true)
    (hl : (buildListing w qsort os requestPath resolvedPath).2.Limited w) :
    ∃ builder, (buildListing w qsort os requestPath resolvedPath).1 = some builder := by
  generalize hread : readEntries os resolvedPath (.empty w)
    ((⟨os.allocations, 0, []⟩ : Heap).record .directoryOpened) names = result
  obtain ⟨ok, entries, heap⟩ := result
  have hnow : heap.Limited w := hl.earlier (List.Subset.trans (List.subset_append_left _ _)
    (buildListing_later requestPath hopen hread).subset)
  obtain ⟨entries', heap', he, hg'⟩ := readEntries_granted hw os resolvedPath names
    (start_backed w os.allocations) hg (by rw [hread]; exact hnow)
  rw [hread] at he
  cases he
  simp only [buildListing, hopen, hread] at hl ⊢
  have hpage := ((appendHeading_short requestPath).andThen
    (appendAll_short appendItem_short (qsort entries.entries))).succeeds hw (.empty w)
    (heap.record .directoryClosed) ⟨(BuilderMemory.holds_empty hw).counted, .inl ⟨rfl, rfl⟩⟩ hg'
  generalize (appendHeading requestPath).andThen _ (StringBuilder.empty w, _) = result at hpage hl ⊢
  obtain ⟨ok, builder, heap₁⟩ := result
  have hfreed := later_freeDirectoryEntries heap₁ { entries with entries := qsort entries.entries }
  cases ok with
  | false =>
    have hpast : heap₁.Limited w := hl.earlier (hfreed.trans (Heap.later_free _ _)).subset
    exact absurd (hpage hpast).1 Bool.false_ne_true
  | true =>
    simp only at hl ⊢
    have hshort : (builderAppendText (ascii "</ul></body></html>") : Append w).Short :=
      .text (by decide)
    have hlast := hshort.succeeds hw builder
      (freeDirectoryEntries heap₁ { entries with entries := qsort entries.entries })
    have hkeeps := builderAppendText_keeps (ascii "</ul></body></html>") builder
      (freeDirectoryEntries heap₁ { entries with entries := qsort entries.entries })
    generalize builderAppendText _ (builder, _) = result at hlast hkeeps hl ⊢
    obtain ⟨ok, builder', heap₂⟩ := result
    have hnow₂ : heap₂.Limited w := by
      cases ok with
      | false => exact hl.earlier (Heap.later_free _ _).subset
      | true => exact hl
    obtain ⟨-, hr, hg₁⟩ := hpage (hnow₂.earlier (hfreed.trans hkeeps.1).subset)
    obtain ⟨hok, -⟩ := hlast (hr.later hfreed) (granting_freeDirectoryEntries hg₁ _) hnow₂
    cases hok
    exact ⟨builder', rfl⟩

end Reading

/-- What is asked of `qsort` with `compare_directory_entries`. -/
structure SortsEntries (qsort : List DirectoryEntry → List DirectoryEntry) : Prop where
  perm : ∀ entries, (qsort entries).Perm entries
  sorted : ∀ entries, (qsort entries).Pairwise compareDirectoryEntries

def strcmpLt (left right : Bytes) : Prop := strcmpLe left right = true ∧ strcmpLe right left = false

section Order

theorem strcmpLe_antisymm {left right : Bytes} (h : strcmpLe left right = true)
    (h' : strcmpLe right left = true) : left = right := by
  induction left generalizing right with
  | nil =>
    cases right with
    | nil => rfl
    | cons r right => cases h'
  | cons l left ih =>
    cases right with
    | nil => cases h
    | cons r right =>
      simp only [strcmpLe, Bool.or_eq_true, Bool.and_eq_true, decide_eq_true_eq] at h h'
      rcases h with hlt | ⟨rfl, hrest⟩
      · rcases h' with hgt | ⟨rfl, -⟩
        · exact absurd hlt (UInt8.lt_asymm hgt)
        · exact absurd hlt (UInt8.lt_irrefl _)
      · rcases h' with hgt | ⟨-, hrest'⟩
        · exact absurd hgt (UInt8.lt_irrefl _)
        · rw [ih hrest hrest']

theorem strcmpLe_total (left right : Bytes) :
    strcmpLe left right = true ∨ strcmpLe right left = true := by
  induction left generalizing right with
  | nil => exact .inl rfl
  | cons l left ih =>
    cases right with
    | nil => exact .inr rfl
    | cons r right =>
      simp only [strcmpLe, Bool.or_eq_true, Bool.and_eq_true, decide_eq_true_eq]
      by_cases he : l = r
      · rcases ih right with hle | hle
        · exact .inl (.inr ⟨he, hle⟩)
        · exact .inr (.inr ⟨he.symm, hle⟩)
      · rcases UInt8.lt_or_lt_of_ne he with hlt | hgt
        · exact .inl (.inl hlt)
        · exact .inr (.inl hgt)

theorem strcmpLe_trans {left middle right : Bytes} (h : strcmpLe left middle = true)
    (h' : strcmpLe middle right = true) : strcmpLe left right = true := by
  induction left generalizing middle right with
  | nil => rfl
  | cons l left ih =>
    cases middle with
    | nil => cases h
    | cons m middle =>
      cases right with
      | nil => cases h'
      | cons r right =>
        simp only [strcmpLe, Bool.or_eq_true, Bool.and_eq_true, decide_eq_true_eq] at h h' ⊢
        rcases h with hlt | ⟨rfl, hrest⟩
        · rcases h' with hlt' | ⟨rfl, -⟩
          · exact .inl (UInt8.lt_trans hlt hlt')
          · exact .inl hlt
        · rcases h' with hlt' | ⟨rfl, hrest'⟩
          · exact .inl hlt'
          · exact .inr ⟨rfl, ih hrest hrest'⟩

theorem insertionSort_sorts : SortsEntries (List.insertionSort compareDirectoryEntries) where
  perm := List.perm_insertionSort _
  sorted := by
    have htotal : Std.Total compareDirectoryEntries :=
      ⟨fun left right => strcmpLe_total left.name right.name⟩
    have htrans : IsTrans DirectoryEntry compareDirectoryEntries := ⟨fun _ _ _ => strcmpLe_trans⟩
    exact List.pairwise_insertionSort _

theorem listingPage_told {requestPath : Bytes} {entries entries' : List DirectoryEntry}
    (h : entries.map DirectoryEntry.told = entries'.map DirectoryEntry.told) :
    listingPage requestPath entries = listingPage requestPath entries' := by
  have hitems (entries : List DirectoryEntry) : entries.flatMap DirectoryEntry.itemText =
      (entries.map DirectoryEntry.told).flatMap fun told =>
        DirectoryEntry.itemText ⟨told.1, 0, told.2⟩ := by
    rw [List.flatMap_map]
    rfl
  rw [listingPage, listingPage, hitems, hitems, h]

variable {names : List Bytes} {entries entries' : List DirectoryEntry}

/-- Sorted lists that tell the same in some order tell it in the same order. -/
theorem told_unique {os : Os} {resolvedPath : Bytes}
    (h : (entries.map DirectoryEntry.told).Perm (listed os resolvedPath names))
    (h' : (entries'.map DirectoryEntry.told).Perm (listed os resolvedPath names))
    (hs : entries.Pairwise compareDirectoryEntries)
    (hs' : entries'.Pairwise compareDirectoryEntries) :
    entries.map DirectoryEntry.told = entries'.map DirectoryEntry.told := by
  have hflag : ∀ told ∈ listed os resolvedPath names,
      told.2 = isDirectoryEntry os resolvedPath told.1 := by
    intro told hmem
    obtain ⟨name, -, rfl⟩ := List.mem_map.1 hmem
    rfl
  have hanti : ∀ told told', told ∈ entries.map DirectoryEntry.told →
      told' ∈ entries'.map DirectoryEntry.told → strcmpLe told.1 told'.1 = true →
      strcmpLe told'.1 told.1 = true → told = told' := by
    intro told told' hmem hmem' hle hle'
    have hname := strcmpLe_antisymm hle hle'
    apply Prod.ext hname
    rw [hflag told (h.mem_iff.1 hmem), hflag told' (h'.mem_iff.1 hmem'), hname]
  exact List.Perm.eq_of_pairwise hanti (List.pairwise_map.2 hs) (List.pairwise_map.2 hs')
    (h.trans h'.symm)

theorem sorted_increasing {os : Os} {resolvedPath : Bytes} (hnodup : names.Nodup)
    (h : (entries.map DirectoryEntry.told).Perm (listed os resolvedPath names))
    (hs : entries.Pairwise compareDirectoryEntries) :
    entries.Pairwise fun left right => strcmpLt left.name right.name := by
  have hlisted : (listed os resolvedPath names).map Prod.fst =
      names.filter fun name => name.head? ≠ some dot := by
    rw [listed, List.map_map]
    exact List.map_id _
  have hnames : (entries.map DirectoryEntry.name).Nodup := by
    have hperm := h.map Prod.fst
    rw [hlisted, List.map_map] at hperm
    exact hperm.nodup_iff.2 (hnodup.filter _)
  have hdistinct : entries.Pairwise fun left right => left.name ≠ right.name :=
    List.pairwise_map.1 hnames
  apply hs.imp₂ _ hdistinct
  intro left right hle hne
  refine ⟨hle, Bool.eq_false_iff.2 fun hge => hne (strcmpLe_antisymm hle hge)⟩

end Order

/-- A run that finds these names in the directory, in this order, and for which there is memory
enough. -/
structure Finds (w : Nat) (qsort : List DirectoryEntry → List DirectoryEntry) (os : Os)
    (requestPath resolvedPath : Bytes) (names : List Bytes) : Prop where
  opened : os.opendir resolvedPath = some names
  granted : ∀ outcome ∈ os.allocations, outcome = true
  limited : (buildListing w qsort os requestPath resolvedPath).2.Limited w

def ReturnsPage (w : Nat) (junk : Nat → Nat → UInt8)
    (qsort : List DirectoryEntry → List DirectoryEntry) (os : Os) (requestPath resolvedPath : Bytes)
    (entries : List DirectoryEntry) : Prop :=
  ∃ block rest heap,
    fileBuildDirectoryListingChecked w junk qsort os (cstring requestPath) resolvedPath =
      .ok (⟨true, some (block, listingPage requestPath entries ++ 0 :: rest),
        (listingPage requestPath entries).length⟩, heap)

section Runs

variable {w : Nat} (hw : 16 ≤ w) (junk : Nat → Nat → UInt8)
  {qsort : List DirectoryEntry → List DirectoryEntry} (hq : SortsEntries qsort)
  {requestPath resolvedPath : Bytes} (hpath : 0 ∉ requestPath)
include hw hq hpath

theorem Finds.returnsPage {os : Os} {names : List Bytes}
    (h : Finds w qsort os requestPath resolvedPath names) (hnul : ∀ name ∈ names, 0 ∉ name) :
    ∃ entries, (entries.map DirectoryEntry.told).Perm (listed os resolvedPath names) ∧
      entries.Pairwise compareDirectoryEntries ∧
      ReturnsPage w junk qsort os requestPath resolvedPath entries := by
  have hnames : ∀ names', os.opendir resolvedPath = some names' → ∀ name ∈ names', 0 ∉ name := by
    intro names' hopen
    cases h.opened.symm.trans hopen
    exact hnul
  obtain ⟨result, hchecked, hresult⟩ :=
    fileBuildDirectoryListingChecked_refines hw junk hq.perm hpath hnames h.limited
  obtain ⟨builder, hbuilt⟩ := buildListing_granted hw h.opened h.granted h.limited
  rw [hbuilt] at hresult
  obtain ⟨block, rest, -, rfl⟩ := hresult
  obtain ⟨names', entries, hopen, htext, htold⟩ := buildListing_page hbuilt
  cases h.opened.symm.trans hopen
  rw [htext] at hchecked
  exact ⟨qsort entries, htold ▸ (hq.perm entries).map _, hq.sorted entries, block, rest, _, hchecked⟩

/-- In whatever order the names are read, the page is the same: each name that does not start with
a dot is on it once, with its kind, and the names increase. -/
theorem fileBuildDirectoryListingChecked_order {os os' : Os} {names names' : List Bytes}
    (h : Finds w qsort os requestPath resolvedPath names)
    (h' : Finds w qsort os' requestPath resolvedPath names') (hperm : names'.Perm names)
    (hnodup : names.Nodup) (hnul : ∀ name ∈ names, 0 ∉ name) (hstat : os'.stat = os.stat) :
    ∃ entries, (entries.map DirectoryEntry.told).Perm (listed os resolvedPath names) ∧
      (entries.Pairwise fun left right => strcmpLt left.name right.name) ∧
      ReturnsPage w junk qsort os requestPath resolvedPath entries ∧
      ReturnsPage w junk qsort os' requestPath resolvedPath entries := by
  obtain ⟨entries, htold, hsorted, hreturns⟩ := h.returnsPage hw junk hq hpath hnul
  obtain ⟨entries', htold', hsorted', hreturns'⟩ :=
    h'.returnsPage hw junk hq hpath fun name hname => hnul name (hperm.mem_iff.1 hname)
  have hlisted : (listed os' resolvedPath names').Perm (listed os resolvedPath names) := by
    have hkind : isDirectoryEntry os' resolvedPath = isDirectoryEntry os resolvedPath := by
      funext name
      rw [isDirectoryEntry, isDirectoryEntry, hstat]
    rw [listed, listed, hkind]
    exact (hperm.filter _).map _
  have hsame := told_unique htold (htold'.trans hlisted) hsorted hsorted'
  refine ⟨entries, htold, sorted_increasing hnodup htold hsorted, hreturns, ?_⟩
  rw [ReturnsPage, listingPage_told hsame]
  exact hreturns'

end Runs

theorem fileBuildDirectoryListingChecked_order_two :
    ∃ entries, ReturnsPage 64 (fun _ _ => 0) (List.insertionSort compareDirectoryEntries)
        (directoryOs [ascii "b", ascii "a"] []) (ascii "/") (ascii "/srv/www") entries ∧
      ReturnsPage 64 (fun _ _ => 0) (List.insertionSort compareDirectoryEntries)
        (directoryOs [ascii "a", ascii "b"] []) (ascii "/") (ascii "/srv/www") entries := by
  have hfinds : Finds 64 (List.insertionSort compareDirectoryEntries)
      (directoryOs [ascii "b", ascii "a"] []) (ascii "/") (ascii "/srv/www")
      [ascii "b", ascii "a"] := ⟨rfl, fun _ h => absurd h List.not_mem_nil, by decide +kernel⟩
  have hfinds' : Finds 64 (List.insertionSort compareDirectoryEntries)
      (directoryOs [ascii "a", ascii "b"] []) (ascii "/") (ascii "/srv/www")
      [ascii "a", ascii "b"] := ⟨rfl, fun _ h => absurd h List.not_mem_nil, by decide +kernel⟩
  obtain ⟨entries, -, -, hreturns, hreturns'⟩ := fileBuildDirectoryListingChecked_order (by decide)
    (fun _ _ => 0) insertionSort_sorts (by decide) hfinds hfinds' (by decide) (by decide) (by decide) rfl
  exact ⟨entries, hreturns, hreturns'⟩

end Httpd
