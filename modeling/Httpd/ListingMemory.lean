import Httpd.BuilderMemory
import Httpd.ListingHeap

namespace Httpd
open CheckedMemory
set_option autoImplicit true

def cstring (text : Bytes) : Bytes := text ++ [0]

theorem length_lt_cstring (text : Bytes) : text.length < (cstring text).length := by
  rw [cstring, List.length_append]
  exact Nat.lt_succ_self _

def CheckedAppend.nothing : CheckedAppend := fun state => .ok (true, state)

def CheckedAppend.andThen (first second : CheckedAppend) : CheckedAppend := fun state => do
  let (ok, state) ← first state
  if ok then second state else .ok (false, state)

section Page

variable (w : Nat) (junk : Nat → Nat → UInt8)

/-- The loop over the characters of a string, from a pointer into it on. -/
def appendEscapedChecked (step : UInt8 → CheckedAppend) (text : Bytes) :
    Nat → Nat → CheckedAppend
  | 0, _ => fun _ => .error .endless
  | fuel + 1, p => fun state => do
    let ch ← read text p
    if ch = 0 then .ok (true, state)
    else (step ch).andThen (appendEscapedChecked step text fuel (p + 1)) state

def htmlEscapeChecked (ch : UInt8) : CheckedAppend :=
  if ch = 38 then builderAppendTextChecked w junk (cstring (ascii "&amp;"))
  else if ch = 60 then builderAppendTextChecked w junk (cstring (ascii "&lt;"))
  else if ch = 62 then builderAppendTextChecked w junk (cstring (ascii "&gt;"))
  else if ch = 34 then builderAppendTextChecked w junk (cstring (ascii "&quot;"))
  else builderAppendCharChecked w junk ch

def builderAppendHtmlEscapedChecked (text : Bytes) : CheckedAppend :=
  appendEscapedChecked (htmlEscapeChecked w junk) text text.length 0

/-- The escape of a byte is put together in the array `encoded`. -/
def urlEscapeChecked (ch : UInt8) : CheckedAppend :=
  if isUrlUnreserved ch then builderAppendCharChecked w junk ch
  else builderAppendTextChecked w junk
    (cstring [37, hexDigit (ch >>> 4), hexDigit (ch &&& 15)])

def builderAppendUrlEscapedChecked (text : Bytes) : CheckedAppend :=
  appendEscapedChecked (urlEscapeChecked w junk) text text.length 0

def appendHeadingChecked (requestPath : Bytes) : CheckedAppend :=
  (builderAppendTextChecked w junk (cstring (ascii
      ("<!doctype html><html><head><meta charset=\"utf-8\">" ++ "<title>Index of ")))).andThen <|
    (builderAppendHtmlEscapedChecked w junk requestPath).andThen <|
    (builderAppendTextChecked w junk
      (cstring (ascii "</title></head><body><h1>Index of "))).andThen <|
    (builderAppendHtmlEscapedChecked w junk requestPath).andThen <|
    builderAppendTextChecked w junk (cstring (ascii "</h1><ul>"))

def appendItemChecked (entry : DirectoryEntry) : CheckedAppend :=
  let suffix : CheckedAppend :=
    if entry.isDirectory then builderAppendCharChecked w junk slash else .nothing
  (builderAppendTextChecked w junk (cstring (ascii "<li><a href=\""))).andThen <|
    (builderAppendUrlEscapedChecked w junk (cstring entry.name)).andThen <|
    suffix.andThen <|
    (builderAppendTextChecked w junk (cstring (ascii "\">"))).andThen <|
    (builderAppendHtmlEscapedChecked w junk (cstring entry.name)).andThen <|
    suffix.andThen <|
    builderAppendTextChecked w junk (cstring (ascii "</a></li>"))

end Page

structure EntryMemory (w : Nat) where
  block : Option Nat
  slots : List (Option DirectoryEntry)
  entryCount : BitVec w
  entryCapacity : BitVec w

def EntryMemory.empty (w : Nat) : EntryMemory w := ⟨none, [], 0, 0⟩

def entryAt (slots : List (Option DirectoryEntry)) (i : Nat) : Checked DirectoryEntry := do
  let slot ← read slots i
  match slot with
  | some entry => .ok entry
  | none => .error (.read i)

/-- The name is duplicated into the next slot, which gets a null pointer if that fails. -/
def storeEntryChecked (name : Bytes) (isDirectory : Bool) (entries : EntryMemory w) (heap : Heap) :
    Checked (Bool × EntryMemory w × Heap) :=
  match heap.malloc (name.length + 1) with
  | (none, heap) => do
    let slots ← write entries.slots entries.entryCount.toNat none
    .ok (false, { entries with slots := slots }, heap)
  | (some nameBlock, heap) => do
    let slots ← write entries.slots entries.entryCount.toNat (some ⟨name, nameBlock, isDirectory⟩)
    .ok (true, { entries with slots := slots, entryCount := entries.entryCount + 1 }, heap)

/-- `append_directory_entry` on an array with as many slots as `realloc` has been asked for. -/
def appendDirectoryEntryChecked (entries : EntryMemory w) (name : Bytes) (isDirectory : Bool)
    (heap : Heap) : Checked (Bool × EntryMemory w × Heap) :=
  if entries.entryCount = entries.entryCapacity then
    let newCapacity := grownCapacity entries.entryCapacity
    if newCapacity < entries.entryCapacity then .ok (false, entries, heap)
    else
      let size := (newCapacity * directoryEntrySize w).toNat
      match heap.realloc entries.block size with
      | (none, heap) => .ok (false, entries, heap)
      | (some grown, heap) =>
        let slots := resize (fun _ => none) entries.slots (size / (directoryEntrySize w).toNat)
        storeEntryChecked name isDirectory
          { entries with block := some grown, slots := slots, entryCapacity := newCapacity } heap
  else storeEntryChecked name isDirectory entries heap

def readEntriesChecked (os : Os) (resolvedPath : Bytes) (entries : EntryMemory w) (heap : Heap) :
    List Bytes → Checked (Bool × EntryMemory w × Heap)
  | [] => .ok (true, entries, heap)
  | name :: names =>
    if name.head? = some dot then readEntriesChecked os resolvedPath entries heap names
    else do
      let (ok, entries, heap) ← appendDirectoryEntryChecked entries name
        (isDirectoryEntry os resolvedPath name) heap
      if ok then readEntriesChecked os resolvedPath entries heap names
      else .ok (false, entries, heap)

def loadEntries (slots : List (Option DirectoryEntry)) : Nat → Nat → Checked (List DirectoryEntry)
  | 0, _ => .ok []
  | n + 1, i => do
    let entry ← entryAt slots i
    let entries ← loadEntries slots n (i + 1)
    .ok (entry :: entries)

def qsortChecked (qsort : List DirectoryEntry → List DirectoryEntry) (entries : EntryMemory w) :
    Checked (EntryMemory w) := do
  let stored ← loadEntries entries.slots entries.entryCount.toNat 0
  .ok { entries with
    slots := (qsort stored).map some ++ entries.slots.drop entries.entryCount.toNat }

def freeNamesChecked (slots : List (Option DirectoryEntry)) : Nat → Nat → Heap → Checked Heap
  | 0, _, heap => .ok heap
  | n + 1, i, heap => do
    let entry ← entryAt slots i
    freeNamesChecked slots n (i + 1) (heap.free (some entry.nameBlock))

def freeDirectoryEntriesChecked (heap : Heap) (entries : EntryMemory w) : Checked Heap :=
  match entries.block with
  | none => .ok heap
  | some block => do
    let heap ← freeNamesChecked entries.slots entries.entryCount.toNat 0 heap
    .ok (heap.free (some block))

def appendItemsChecked (w : Nat) (junk : Nat → Nat → UInt8)
    (slots : List (Option DirectoryEntry)) : Nat → Nat → CheckedAppend
  | 0, _ => .nothing
  | n + 1, i => fun state => do
    let entry ← entryAt slots i
    (appendItemChecked w junk entry).andThen (appendItemsChecked w junk slots n (i + 1)) state

structure ListingResult where
  ok : Bool
  body : Option (Nat × Bytes)
  bodyLen : Nat
  deriving DecidableEq

def ListingResult.error : ListingResult := ⟨false, none, 0⟩

def fileBuildDirectoryListingChecked (w : Nat) (junk : Nat → Nat → UInt8)
    (qsort : List DirectoryEntry → List DirectoryEntry) (os : Os)
    (requestPath resolvedPath : Bytes) : Checked (ListingResult × Heap) :=
  let heap : Heap := ⟨os.allocations, 0, []⟩
  match os.opendir resolvedPath with
  | none => .ok (.error, heap)
  | some names => do
    let (ok, entries, heap) ← readEntriesChecked os resolvedPath (.empty w)
      (heap.record .directoryOpened) names
    let heap := heap.record .directoryClosed
    if !ok then do
      let heap ← freeDirectoryEntriesChecked heap entries
      .ok (.error, heap)
    else do
      let entries ← qsortChecked qsort entries
      let (ok, builder, heap) ← (appendHeadingChecked w junk requestPath).andThen
        (appendItemsChecked w junk entries.slots entries.entryCount.toNat 0) (.empty, heap)
      let heap ← freeDirectoryEntriesChecked heap entries
      if !ok then .ok (.error, heap.free builder.data)
      else do
        let (ok, builder, heap) ← builderAppendTextChecked w junk
          (cstring (ascii "</ul></body></html>")) (builder, heap)
        if !ok then .ok (.error, heap.free builder.data)
        else .ok (⟨true, builder.data.map fun block => (block, builder.bytes), builder.length⟩, heap)

/-- A checked append that does what an append on the builder does. -/
def CheckedAppend.Refines (checked : CheckedAppend) (append : Append w) : Prop :=
  ∀ memory builder heap, memory.Holds builder →
    ∃ memory', checked (memory, heap) =
        .ok ((append (builder, heap)).1, memory', (append (builder, heap)).2.2) ∧
      memory'.Holds (append (builder, heap)).2.1

section Refinement

variable {w : Nat} {checked checked' : CheckedAppend} {append append' : Append w}

theorem CheckedAppend.Stores.refines (h : checked.Stores append piece) : checked.Refines append := by
  intro memory builder heap hb
  rcases h memory builder heap hb with ⟨heap', happend, hchecked⟩ |
    ⟨builder', memory', heap', happend, hchecked, hb', -⟩
  · rw [happend]
    exact ⟨memory, hchecked, hb⟩
  · rw [happend]
    exact ⟨memory', hchecked, hb'⟩

theorem CheckedAppend.refines_nothing : CheckedAppend.nothing.Refines (Append.nothing : Append w) :=
  fun memory _ _ hb => ⟨memory, rfl, hb⟩

theorem CheckedAppend.Refines.andThen (h : checked.Refines append) (h' : checked'.Refines append') :
    (checked.andThen checked').Refines (append.andThen append') := by
  intro memory builder heap hb
  obtain ⟨memory₁, hchecked, hb₁⟩ := h memory builder heap hb
  rw [CheckedAppend.andThen, Append.andThen, hchecked]
  generalize append (builder, heap) = result at hb₁ ⊢
  obtain ⟨_ | _, builder₁, heap₁⟩ := result
  · exact ⟨memory₁, rfl, hb₁⟩
  · exact h' memory₁ builder₁ heap₁ hb₁

theorem CheckedAppend.Refines.ite {p : Prop} [Decidable p] (h : checked.Refines append)
    (h' : checked'.Refines append') :
    (if p then checked else checked').Refines (if p then append else append') := by
  split
  · exact h
  · exact h'

theorem appendEscapedChecked_cons (step : UInt8 → CheckedAppend) (front : Bytes) {ch : UInt8}
    (hch : ch ≠ 0) (later : Bytes) (fuel : Nat) :
    appendEscapedChecked step (front ++ ch :: later) (fuel + 1) front.length =
      (step ch).andThen
        (appendEscapedChecked step (front ++ ch :: later) fuel (front.length + 1)) := by
  funext state
  simp only [appendEscapedChecked, read_next, ok_bind, if_neg hch]

theorem appendEscapedChecked_refines {step : UInt8 → CheckedAppend} {step' : UInt8 → Append w}
    (h : ∀ ch ≠ 0, (step ch).Refines (step' ch)) (front : Bytes) {text : Bytes} (h₀ : 0 ∉ text)
    {fuel : Nat} (hfuel : text.length < fuel) :
    (appendEscapedChecked step (front ++ cstring text) fuel front.length).Refines
      (appendAll step' text) := by
  induction text generalizing front fuel with
  | nil =>
    obtain ⟨fuel, rfl⟩ := Nat.exists_eq_succ_of_ne_zero (Nat.ne_zero_of_lt hfuel)
    intro memory builder heap hb
    rw [appendEscapedChecked]
    refine ⟨memory, ?_, hb⟩
    rw [show front ++ cstring [] = front ++ 0 :: [] from rfl, read_next]
    rfl
  | cons ch text ih =>
    obtain ⟨fuel, rfl⟩ := Nat.exists_eq_succ_of_ne_zero (Nat.ne_zero_of_lt hfuel)
    rw [List.mem_cons, not_or] at h₀
    have hrest := ih (front ++ [ch]) h₀.2 (Nat.lt_of_succ_lt_succ hfuel)
    rw [List.length_append, List.append_assoc] at hrest
    have hcons : front ++ cstring (ch :: text) = front ++ ch :: cstring text := rfl
    rw [hcons, appendEscapedChecked_cons step front (Ne.symm h₀.1)]
    exact (h ch (Ne.symm h₀.1)).andThen hrest

end Refinement

section Texts

variable {w : Nat} (hw : 16 ≤ w) (junk : Nat → Nat → UInt8)
include hw

theorem literal_refines {text : Bytes} (h₀ : 0 ∉ text) (hlen : text.length < 2 ^ 16) :
    CheckedAppend.Refines (builderAppendTextChecked w junk (cstring text))
      (builderAppendText text : Append w) :=
  (builderAppendTextChecked_stores hw junk h₀
    (Nat.lt_of_lt_of_le hlen (Nat.pow_le_pow_right (by decide) hw))).refines

theorem char_refines (ch : UInt8) :
    CheckedAppend.Refines (builderAppendCharChecked w junk ch) (builderAppendChar ch : Append w) :=
  (builderAppendCharChecked_stores hw junk ch).refines

theorem htmlEscaped_refines {text : Bytes} (h₀ : 0 ∉ text) :
    CheckedAppend.Refines (builderAppendHtmlEscapedChecked w junk (cstring text))
      (builderAppendHtmlEscaped text : Append w) := by
  have hstep (ch : UInt8) : (htmlEscapeChecked w junk ch).Refines (htmlEscape ch : Append w) :=
    (literal_refines hw junk (by decide) (by decide)).ite <|
      (literal_refines hw junk (by decide) (by decide)).ite <|
      (literal_refines hw junk (by decide) (by decide)).ite <|
      (literal_refines hw junk (by decide) (by decide)).ite <| char_refines hw junk ch
  exact appendEscapedChecked_refines (fun ch _ => hstep ch) [] h₀ (length_lt_cstring text)

theorem urlEscaped_refines {text : Bytes} (h₀ : 0 ∉ text) :
    CheckedAppend.Refines (builderAppendUrlEscapedChecked w junk (cstring text))
      (builderAppendUrlEscaped text : Append w) := by
  have hstep (ch : UInt8) : (urlEscapeChecked w junk ch).Refines (urlEscape ch : Append w) := by
    have hdigits : 0 ∉ [37, hexDigit (ch >>> 4), hexDigit (ch &&& 15)] := by
      obtain ⟨hhigh, hlow⟩ := hexDigits_unreserved ch
      intro hmem
      simp only [List.mem_cons, List.not_mem_nil, or_false] at hmem
      rcases hmem with he | he | he
      · exact absurd he (by decide)
      · rw [← he] at hhigh
        exact absurd hhigh (by decide)
      · rw [← he] at hlow
        exact absurd hlow (by decide)
    exact (char_refines hw junk ch).ite (literal_refines hw junk hdigits (show 3 < 2 ^ 16 by decide))
  exact appendEscapedChecked_refines (fun ch _ => hstep ch) [] h₀ (length_lt_cstring text)

theorem appendHeading_refines {requestPath : Bytes} (h₀ : 0 ∉ requestPath) :
    CheckedAppend.Refines (appendHeadingChecked w junk (cstring requestPath))
      (appendHeading requestPath : Append w) :=
  (literal_refines hw junk (by decide) (by decide)).andThen <|
    (htmlEscaped_refines hw junk h₀).andThen <|
    (literal_refines hw junk (by decide) (by decide)).andThen <|
    (htmlEscaped_refines hw junk h₀).andThen <| literal_refines hw junk (by decide) (by decide)

theorem appendItem_refines {entry : DirectoryEntry} (h₀ : 0 ∉ entry.name) :
    CheckedAppend.Refines (appendItemChecked w junk entry) (appendItem entry : Append w) := by
  have hsuffix : CheckedAppend.Refines
      (if entry.isDirectory then builderAppendCharChecked w junk slash else .nothing)
      (if entry.isDirectory then builderAppendChar slash else .nothing : Append w) :=
    (char_refines hw junk slash).ite CheckedAppend.refines_nothing
  exact (literal_refines hw junk (by decide) (by decide)).andThen <|
    (urlEscaped_refines hw junk h₀).andThen <| hsuffix.andThen <|
    (literal_refines hw junk (by decide) (by decide)).andThen <|
    (htmlEscaped_refines hw junk h₀).andThen <| hsuffix.andThen <|
    literal_refines hw junk (by decide) (by decide)

end Texts

def HeapEvent.asked : HeapEvent → Nat
  | .allocated _ size => size
  | _ => 0

def ptrdiffMax (w : Nat) : Nat := 2 ^ (w - 1) - 1

/-- `malloc` and `realloc` refuse what is larger than `PTRDIFF_MAX`. -/
def Heap.Limited (w : Nat) (heap : Heap) : Prop :=
  ∀ event ∈ heap.trace, event.asked ≤ ptrdiffMax w

instance (heap : Heap) : Decidable (heap.Limited w) :=
  inferInstanceAs (Decidable (∀ event ∈ heap.trace, event.asked ≤ ptrdiffMax w))

theorem Heap.Later.subset {heap heap' : Heap} (h : heap.Later heap') : heap.trace ⊆ heap'.trace := by
  obtain ⟨events, htrace, -⟩ := h
  rw [htrace]
  exact List.subset_append_left _ _

theorem Heap.Limited.earlier {heap heap' : Heap} (h : heap'.Limited w)
    (hs : heap.trace ⊆ heap'.trace) : heap.Limited w := fun event hmem => h event (hs hmem)

structure EntryMemory.Holds (memory : EntryMemory w) (entries : DirectoryEntries w) : Prop where
  block : memory.block = entries.block
  capacity : memory.entryCapacity = entries.entryCapacity
  count : memory.entryCount.toNat = entries.entries.length
  slots : ∃ rest, memory.slots = entries.entries.map some ++ rest
  size : memory.slots.length = entries.entryCapacity.toNat

section Entries

variable {w : Nat} (hw : 16 ≤ w)
include hw

/-- An array that the allocator has given can be doubled. -/
theorem DirectoryEntries.Backed.doubleFits {entries : DirectoryEntries w} {heap : Heap}
    (h : entries.Backed heap) (hlimit : heap.Limited w) : entries.DoubleFits := by
  intro hfull
  have hlen := (full_iff h.count).1 hfull
  rcases h.array with ⟨-, hzero⟩ | ⟨block, -, hsize⟩
  · rw [hlen, hzero, show (0 : BitVec w).toNat = 0 from BitVec.toNat_zero, Nat.zero_mul,
      Nat.zero_mul]
    exact Nat.two_pow_pos w
  · have hle : entries.entryCapacity.toNat * (directoryEntrySize w).toNat ≤ ptrdiffMax w :=
      hlimit _ (Heap.mem_of_blockSize hsize)
    have hpow : 2 ^ w = 2 ^ (w - 1) * 2 := by
      rw [← Nat.pow_succ, Nat.succ_eq_add_one, Nat.sub_add_cancel (by omega)]
    have hpos := Nat.two_pow_pos (w - 1)
    rw [ptrdiffMax] at hle
    rw [hlen, hpow]
    omega

theorem EntryMemory.Holds.store {memory : EntryMemory w} {entries : DirectoryEntries w}
    (h : memory.Holds entries) (hroom : entries.entries.length < entries.entryCapacity.toNat)
    (name : Bytes) (isDirectory : Bool) (heap : Heap) :
    ∃ memory', storeEntryChecked name isDirectory memory heap =
        .ok ((storeEntry name isDirectory entries heap).1, memory',
          (storeEntry name isDirectory entries heap).2.2) ∧
      memory'.Holds (storeEntry name isDirectory entries heap).2.1 := by
  obtain ⟨rest, hslots⟩ := h.slots
  have hsize := h.size
  rw [hslots, List.length_append, List.length_map] at hsize
  obtain ⟨slot, rest, rfl⟩ : ∃ slot later, rest = slot :: later :=
    List.exists_cons_of_length_pos (by omega)
  have hcount : memory.entryCount.toNat = (entries.entries.map some).length := by
    rw [List.length_map]
    exact h.count
  rw [storeEntryChecked, storeEntry, hslots, hcount]
  rcases hm : heap.malloc (name.length + 1) with ⟨_ | nameBlock, heap'⟩
  · simp only [write_append, ok_bind]
    refine ⟨_, rfl, h.block, h.capacity, h.count, ⟨none :: rest, rfl⟩, ?_⟩
    simp only [List.length_append, List.length_cons, List.length_map] at hsize ⊢
    exact hsize
  · simp only [write_append, ok_bind]
    have hone : (1 : BitVec w).toNat = 1 := ofNat_toNat_small hw (by decide)
    have hlt := entries.entryCapacity.isLt
    refine ⟨_, rfl, h.block, h.capacity, ?_, ⟨rest, ?_⟩, ?_⟩
    · rw [BitVec.toNat_add, h.count, hone, DirectoryEntries.push_length, Nat.mod_eq_of_lt (by omega)]
    · rw [DirectoryEntries.push, List.map_append, List.append_assoc]
      rfl
    · simp only [List.length_append, List.length_cons, List.length_map] at hsize ⊢
      exact hsize

omit hw in
theorem EntryMemory.Holds.grow {memory : EntryMemory w} {entries : DirectoryEntries w}
    (h : memory.Holds entries) (block : Nat)
    (hless : entries.entryCapacity.toNat ≤ (grownCapacity entries.entryCapacity).toNat) :
    EntryMemory.Holds { memory with
        block := some block
        slots := resize (fun _ => none) memory.slots (grownCapacity entries.entryCapacity).toNat
        entryCapacity := grownCapacity entries.entryCapacity } (entries.grow block) := by
  obtain ⟨rest, hslots⟩ := h.slots
  obtain ⟨later, hresize⟩ := resize_grown (fun _ => none) (h.size.trans_le hless)
  refine ⟨rfl, rfl, h.count, ⟨rest ++ later, hresize.trans ?_⟩, resize_length _ _ _⟩
  rw [hslots, List.append_assoc]
  rfl

theorem appendDirectoryEntryChecked_ok {memory : EntryMemory w} {entries : DirectoryEntries w}
    {heap : Heap} (h : memory.Holds entries) (hb : entries.Backed heap) (hd : entries.DoubleFits)
    (name : Bytes) (isDirectory : Bool) :
    ∃ memory', appendDirectoryEntryChecked memory name isDirectory heap =
        .ok ((appendDirectoryEntry entries name isDirectory heap).1, memory',
          (appendDirectoryEntry entries name isDirectory heap).2.2) ∧
      memory'.Holds (appendDirectoryEntry entries name isDirectory heap).2.1 := by
  have hfull_iff : memory.entryCount = memory.entryCapacity ↔ entries.Full := by
    rw [full_iff hb.count, ← h.count, h.capacity]
    exact BitVec.toNat_inj.symm
  rw [appendDirectoryEntryChecked]
  by_cases hfull : entries.Full
  · rw [if_pos (hfull_iff.2 hfull), appendDirectoryEntry_full hfull, h.capacity, h.block]
    by_cases hwraps : grownCapacity entries.entryCapacity < entries.entryCapacity
    · simp only [if_pos hwraps]
      exact ⟨memory, rfl, h⟩
    · have hsize := (grownSize_iff (Nat.le_trans (by decide) hw) hb.count hfull hwraps).2 hd
      have hentry := (entrySize_toNat (w := w) (Nat.le_trans (by decide) hw)).1
      have hslots : (grownCapacity entries.entryCapacity * directoryEntrySize w).toNat /
          (directoryEntrySize w).toNat = (grownCapacity entries.entryCapacity).toNat := by
        rw [hsize]
        exact Nat.mul_div_cancel _ (by omega)
      simp only [if_neg hwraps]
      rcases hm : heap.realloc entries.block
        (grownCapacity entries.entryCapacity * directoryEntrySize w).toNat with ⟨_ | grown, heap₁⟩
      · exact ⟨memory, rfl, h⟩
      · obtain ⟨hgrown, hroom⟩ := hb.grow (Nat.le_trans (by decide) hw) hfull hwraps hd hm
        simp only [hslots]
        have hless : entries.entryCapacity.toNat ≤ (grownCapacity entries.entryCapacity).toNat :=
          Nat.le_of_not_lt fun hlt => hwraps (BitVec.lt_def.2 hlt)
        exact (h.grow grown hless).store hw hroom name isDirectory heap₁
  · have hne : entries.entries.length ≠ entries.entryCapacity.toNat :=
      fun he => hfull ((full_iff hb.count).2 he)
    rw [if_neg fun he => hfull (hfull_iff.1 he), appendDirectoryEntry_room hfull]
    exact h.store hw (Nat.lt_of_le_of_ne hb.count hne) name isDirectory heap

theorem readEntriesChecked_ok {memory : EntryMemory w} {entries : DirectoryEntries w} {heap : Heap}
    (os : Os) (resolvedPath : Bytes) (names : List Bytes) (h : memory.Holds entries)
    (hb : entries.Backed heap)
    (hlimit : (readEntries os resolvedPath entries heap names).2.2.Limited w) :
    ∃ memory', readEntriesChecked os resolvedPath memory heap names =
        .ok ((readEntries os resolvedPath entries heap names).1, memory',
          (readEntries os resolvedPath entries heap names).2.2) ∧
      memory'.Holds (readEntries os resolvedPath entries heap names).2.1 := by
  induction names generalizing memory entries heap with
  | nil => exact ⟨memory, rfl, h⟩
  | cons name names ih =>
    rw [readEntriesChecked]
    rw [readEntries] at hlimit ⊢
    by_cases hdot : name.head? = some dot
    · rw [if_pos hdot] at hlimit ⊢
      rw [if_pos hdot]
      exact ih h hb hlimit
    · rw [if_neg hdot] at hlimit ⊢
      rw [if_neg hdot]
      have hchecked := fun hd => appendDirectoryEntryChecked_ok hw h hb hd name
        (isDirectoryEntry os resolvedPath name)
      generalize happend : appendDirectoryEntry entries name
        (isDirectoryEntry os resolvedPath name) heap = result at hlimit hchecked ⊢
      obtain ⟨ok, entries₁, heap₁⟩ := result
      have hlater := later_appendDirectoryEntry happend
      cases ok with
      | false =>
        obtain ⟨memory₁, hstored, h₁⟩ := hchecked (hb.doubleFits hw (hlimit.earlier hlater.subset))
        rw [hstored]
        exact ⟨memory₁, rfl, h₁⟩
      | true =>
        have hd : entries.DoubleFits := hb.doubleFits hw
          (hlimit.earlier (hlater.trans (later_readEntries rfl)).subset)
        obtain ⟨memory₁, hstored, h₁⟩ := hchecked hd
        rw [hstored]
        exact ih h₁ (hb.append (Nat.le_trans (by decide) hw) hd happend).1 hlimit

end Entries

section Slots

variable {w : Nat} {heap : Heap} {memory : EntryMemory w} {entries : DirectoryEntries w}

theorem entryAt_next (front : List DirectoryEntry) (entry : DirectoryEntry)
    (list : List DirectoryEntry) (rest : List (Option DirectoryEntry)) :
    entryAt ((front ++ entry :: list).map some ++ rest) front.length = .ok entry := by
  have hread := read_next (front.map some) (some entry) (list.map some ++ rest)
  rw [List.length_map] at hread
  rw [entryAt, List.map_append, List.map_cons, List.append_assoc, List.cons_append, hread]
  rfl

theorem loadEntries_ok (front list : List DirectoryEntry) (rest : List (Option DirectoryEntry)) :
    loadEntries ((front ++ list).map some ++ rest) list.length front.length = .ok list := by
  induction list generalizing front with
  | nil => rfl
  | cons entry list ih =>
    have hlater := ih (front ++ [entry])
    rw [List.append_assoc, List.length_append] at hlater
    rw [List.length_cons, loadEntries, entryAt_next, ok_bind]
    exact bind_of_ok hlater _

theorem freeNamesChecked_ok (front list : List DirectoryEntry)
    (rest : List (Option DirectoryEntry)) (heap : Heap) :
    freeNamesChecked ((front ++ list).map some ++ rest) list.length front.length heap =
      .ok (list.foldl (fun heap entry => heap.free (some entry.nameBlock)) heap) := by
  induction list generalizing front heap with
  | nil => rfl
  | cons entry list ih =>
    have hlater := ih (front ++ [entry]) (heap.free (some entry.nameBlock))
    rw [List.append_assoc, List.length_append] at hlater
    rw [List.length_cons, freeNamesChecked, entryAt_next, ok_bind]
    exact hlater

theorem EntryMemory.Holds.free (h : memory.Holds entries) (heap : Heap) :
    freeDirectoryEntriesChecked heap memory = .ok (freeDirectoryEntries heap entries) := by
  obtain ⟨rest, hslots⟩ := h.slots
  rw [freeDirectoryEntriesChecked, freeDirectoryEntries, h.block, hslots, h.count]
  cases entries.block with
  | none => rfl
  | some block => exact bind_of_ok (freeNamesChecked_ok [] entries.entries rest heap) _

theorem EntryMemory.Holds.sort {qsort : List DirectoryEntry → List DirectoryEntry}
    (hq : ∀ entries, (qsort entries).Perm entries) (h : memory.Holds entries) :
    ∃ memory', qsortChecked qsort memory = .ok memory' ∧
      memory'.Holds { entries with entries := qsort entries.entries } := by
  obtain ⟨rest, hslots⟩ := h.slots
  have hload : loadEntries memory.slots memory.entryCount.toNat 0 = .ok entries.entries := by
    rw [hslots, h.count]
    exact loadEntries_ok [] entries.entries rest
  have hrest : memory.slots.drop memory.entryCount.toNat = rest := by
    rw [hslots, h.count, ← List.length_map some, List.drop_left]
  have hsize := h.size
  have hlen := (hq entries.entries).length_eq
  refine ⟨_, bind_of_ok hload _, h.block, h.capacity, h.count.trans hlen.symm, ⟨rest, ?_⟩, ?_⟩
  · rw [hrest]
  · rw [hrest, List.length_append, List.length_map, hlen]
    rw [hslots, List.length_append, List.length_map] at hsize
    exact hsize

theorem appendItemsChecked_refines (hw : 16 ≤ w) (junk : Nat → Nat → UInt8)
    (front : List DirectoryEntry) {list : List DirectoryEntry}
    (h₀ : ∀ entry ∈ list, 0 ∉ entry.name) (rest : List (Option DirectoryEntry)) :
    (appendItemsChecked w junk ((front ++ list).map some ++ rest) list.length front.length).Refines
      (appendAll appendItem list : Append w) := by
  induction list generalizing front with
  | nil => exact CheckedAppend.refines_nothing
  | cons entry list ih =>
    obtain ⟨hentry, hlist⟩ := List.forall_mem_cons.1 h₀
    have hlater := ih (front ++ [entry]) hlist
    rw [List.append_assoc, List.length_append] at hlater
    intro memory builder heap hb
    simp only [List.length_cons, appendItemsChecked, entryAt_next, ok_bind]
    exact (appendItem_refines hw junk hentry).andThen hlater memory builder heap hb

end Slots

def ListingResult.Returns (result : ListingResult) : Option (StringBuilder w) → Prop
  | none => result = .error
  | some builder => ∃ block rest, builder.data = some block ∧
      result = ⟨true, some (block, builder.text ++ 0 :: rest), builder.text.length⟩

theorem readEntries_names {entries : DirectoryEntries w} {heap heap' : Heap}
    (h : readEntries os resolvedPath (.empty w) heap names = (true, entries, heap'))
    (hentry : entry ∈ entries.entries) : entry.name ∈ names := by
  have hmem := List.mem_map_of_mem (f := DirectoryEntry.told) hentry
  rw [readEntries_told h] at hmem
  obtain ⟨name, hname, htold⟩ := List.mem_map.1 hmem
  rw [← show name = entry.name from congrArg Prod.fst htold]
  exact List.mem_of_mem_filter hname

theorem start_backed (w : Nat) (outcomes : List Bool) :
    (DirectoryEntries.empty w).Backed ((⟨outcomes, 0, []⟩ : Heap).record .directoryOpened) :=
  ⟨rfl, Nat.zero_le _, .inl ⟨rfl, rfl⟩⟩

theorem EntryMemory.holds_empty (w : Nat) :
    (EntryMemory.empty w).Holds (DirectoryEntries.empty w) :=
  ⟨rfl, rfl, BitVec.toNat_zero, ⟨[], rfl⟩, BitVec.toNat_zero.symm⟩

section Listing

variable {w : Nat} (hw : 16 ≤ w) (junk : Nat → Nat → UInt8)
  {qsort : List DirectoryEntry → List DirectoryEntry}
  (hq : ∀ entries, (qsort entries).Perm entries) {os : Os} {requestPath resolvedPath : Bytes}
  (hpath : 0 ∉ requestPath)
  (hnames : ∀ names, os.opendir resolvedPath = some names → ∀ name ∈ names, 0 ∉ name)
include hw hq hpath hnames

/-- In memory, a call does what the model of it does, and it does not fault. -/
theorem fileBuildDirectoryListingChecked_refines
    (hlimit : (buildListing w qsort os requestPath resolvedPath).2.Limited w) :
    ∃ result, fileBuildDirectoryListingChecked w junk qsort os (cstring requestPath) resolvedPath =
        .ok (result, (buildListing w qsort os requestPath resolvedPath).2) ∧
      result.Returns (buildListing w qsort os requestPath resolvedPath).1 := by
  cases hopen : os.opendir resolvedPath with
  | none =>
    simp only [fileBuildDirectoryListingChecked, buildListing, hopen]
    exact ⟨_, rfl, rfl⟩
  | some names =>
    generalize hread : readEntries os resolvedPath (.empty w)
      ((⟨os.allocations, 0, []⟩ : Heap).record .directoryOpened) names = result
    obtain ⟨ok, entries, heap⟩ := result
    have hnow : heap.Limited w := hlimit.earlier
      (List.Subset.trans (List.subset_append_left _ _)
        (buildListing_later requestPath hopen hread).subset)
    obtain ⟨memory, hchecked, h⟩ := readEntriesChecked_ok hw os resolvedPath names
      (EntryMemory.holds_empty w) (start_backed w os.allocations) (by rw [hread]; exact hnow)
    rw [hread] at hchecked h
    simp only [fileBuildDirectoryListingChecked, buildListing, hopen, hread, hchecked, ok_bind]
    cases ok with
    | false =>
      simp only [Bool.not_false, if_true, h.free, ok_bind]
      exact ⟨_, rfl, rfl⟩
    | true =>
      obtain ⟨sorted, hsort, hs⟩ := h.sort hq
      obtain ⟨rest, hslots⟩ := hs.slots
      have hsorted : ∀ entry ∈ qsort entries.entries, 0 ∉ entry.name := fun entry hentry =>
        hnames names hopen _ (readEntries_names hread ((hq _).mem_iff.1 hentry))
      have hitems : (appendItemsChecked w junk ((qsort entries.entries).map some ++ rest)
          (qsort entries.entries).length 0).Refines (appendAll appendItem (qsort entries.entries)) :=
        appendItemsChecked_refines hw junk [] hsorted rest
      obtain ⟨memory₁, hpage, h₁⟩ := (appendHeading_refines hw junk hpath).andThen hitems
        BuilderMemory.empty (StringBuilder.empty w) (heap.record .directoryClosed)
        (BuilderMemory.holds_empty hw)
      simp only [Bool.not_true, Bool.false_eq_true, if_false, hsort, ok_bind, hs.count, hslots]
      generalize (appendHeading requestPath).andThen _ (StringBuilder.empty w, _) = result
        at hpage h₁ ⊢
      obtain ⟨ok, builder, heap₁⟩ := result
      rw [bind_of_ok hpage, bind_of_ok (hs.free heap₁)]
      cases ok with
      | false =>
        simp only [Bool.not_false, if_true, h₁.data]
        exact ⟨_, rfl, rfl⟩
      | true =>
        simp only [Bool.not_true, Bool.false_eq_true, if_false]
        have hnul : 0 ∉ ascii "</ul></body></html>" := by decide
        have hend := builderAppendTextChecked_stores hw junk hnul
          (Nat.lt_of_lt_of_le (show 19 < 2 ^ 16 by decide)
            (Nat.pow_le_pow_right (by decide) hw)) memory₁ builder
          (freeDirectoryEntries heap₁ { entries with entries := qsort entries.entries }) h₁
        rcases hend with ⟨heap₂, happend, hlast⟩ |
          ⟨builder', memory', heap₂, happend, hlast, h', hdata, -⟩
        · rw [happend, cstring, hlast]
          simp only [ok_bind, Bool.not_false, if_true, h₁.data]
          exact ⟨_, rfl, rfl⟩
        · rw [happend, cstring, hlast]
          simp only [ok_bind, Bool.not_true, Bool.false_eq_true, if_false]
          refine ⟨_, rfl, ?_⟩
          obtain ⟨block, hblock⟩ := Option.ne_none_iff_exists'.1 hdata
          obtain ⟨later, hbytes⟩ := h'.terminated hdata
          refine ⟨block, later, hblock, ?_⟩
          rw [h'.data, hblock, hbytes, h'.textLength]
          rfl

end Listing

end Httpd
