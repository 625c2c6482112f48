import Httpd.PathResolution
import Mathlib.Data.List.Sort

namespace Httpd
set_option autoImplicit true

/-- What happens to the memory blocks and the directory stream of one call. -/
inductive HeapEvent where
  | allocated (block size : Nat)
  | released (block : Nat)
  | directoryOpened
  | directoryClosed
  deriving DecidableEq

structure Heap where
  /-- Whether the next allocations succeed; those after the list do. -/
  outcomes : List Bool
  nextBlock : Nat
  trace : List HeapEvent
  deriving DecidableEq

namespace Heap

def record (heap : Heap) (event : HeapEvent) : Heap :=
  { heap with trace := heap.trace ++ [event] }

def malloc (heap : Heap) (size : Nat) : Option Nat × Heap :=
  if heap.outcomes.headD true then
    (some heap.nextBlock, { heap with
      outcomes := heap.outcomes.tail
      nextBlock := heap.nextBlock + 1
      trace := heap.trace ++ [.allocated heap.nextBlock size] })
  else (none, { heap with outcomes := heap.outcomes.tail })

def free (heap : Heap) : Option Nat → Heap
  | none => heap
  | some block => heap.record (.released block)

def realloc (heap : Heap) (old : Option Nat) (size : Nat) : Option Nat × Heap :=
  match heap.malloc size with
  | (none, heap) => (none, heap)
  | (some block, heap) => (some block, heap.free old)

end Heap

/-- A `string_builder_t` on a machine with `w`-bit sizes. -/
structure StringBuilder (w : Nat) where
  data : Option Nat
  text : Bytes
  length : BitVec w
  capacity : BitVec w
  deriving DecidableEq

def StringBuilder.empty (w : Nat) : StringBuilder w := ⟨none, [], 0, 0⟩

def builderDestroy (heap : Heap) (builder : StringBuilder w) : Heap := heap.free builder.data

/-- The doubling loop; a capacity that is not zero doubles less than `w` times. -/
def growCapacity (required : BitVec w) : Nat → BitVec w → BitVec w
  | 0, newCapacity => newCapacity
  | fuel + 1, newCapacity =>
    if newCapacity < required then
      if newCapacity > BitVec.allOnes w / 2 then required
      else growCapacity required fuel (newCapacity * 2)
    else newCapacity

/-- An append returns false, leaving the builder as it was, when memory runs out. -/
abbrev Append (w : Nat) := StringBuilder w × Heap → Bool × StringBuilder w × Heap

def builderReserve (additional : BitVec w) : Append w := fun (builder, heap) =>
  if additional > BitVec.allOnes w - builder.length - 1 then (false, builder, heap)
  else
    let required := builder.length + additional + 1
    if required ≤ builder.capacity then (true, builder, heap)
    else
      let newCapacity := growCapacity required w
        (if builder.capacity = 0 then 1024 else builder.capacity)
      match heap.realloc builder.data newCapacity.toNat with
      | (none, heap) => (false, builder, heap)
      | (some grown, heap) =>
        (true, { builder with data := some grown, capacity := newCapacity }, heap)

def builderAppendText (text : Bytes) : Append w := fun state =>
  let length := BitVec.ofNat w text.length
  match builderReserve length state with
  | (false, state) => (false, state)
  | (true, builder, heap) =>
    (true, { builder with text := builder.text ++ text, length := builder.length + length }, heap)

def builderAppendChar (ch : UInt8) : Append w := fun state =>
  match builderReserve 1 state with
  | (false, state) => (false, state)
  | (true, builder, heap) =>
    (true, { builder with text := builder.text ++ [ch], length := builder.length + 1 }, heap)

/-- The `||` of two negated appends: the second runs when the first succeeds. -/
def Append.andThen (first second : Append w) : Append w := fun state =>
  match first state with
  | (false, state) => (false, state)
  | (true, state) => second state

def Append.nothing : Append w := fun state => (true, state)

def appendAll (step : α → Append w) : List α → Append w
  | [] => .nothing
  | x :: xs => (step x).andThen (appendAll step xs)

def htmlEscape (ch : UInt8) : Append w :=
  if ch = 38 then builderAppendText (ascii "&amp;")
  else if ch = 60 then builderAppendText (ascii "&lt;")
  else if ch = 62 then builderAppendText (ascii "&gt;")
  else if ch = 34 then builderAppendText (ascii "&quot;")
  else builderAppendChar ch

def builderAppendHtmlEscaped (text : Bytes) : Append w := appendAll htmlEscape text

def isUrlUnreserved (ch : UInt8) : Bool :=
  isDigit ch ∨ (65 ≤ ch ∧ ch ≤ 90) ∨ (97 ≤ ch ∧ ch ≤ 122) ∨
    ch = 45 ∨ ch = 46 ∨ ch = 95 ∨ ch = 126

def hexDigit (nibble : UInt8) : UInt8 := (ascii "0123456789ABCDEF").getD nibble.toNat 0

def urlEscape (ch : UInt8) : Append w :=
  if isUrlUnreserved ch then builderAppendChar ch
  else builderAppendText [37, hexDigit (ch >>> 4), hexDigit (ch &&& 15)]

def builderAppendUrlEscaped (text : Bytes) : Append w := appendAll urlEscape text

structure DirectoryEntry where
  name : Bytes
  nameBlock : Nat
  isDirectory : Bool
  deriving DecidableEq

structure DirectoryEntries (w : Nat) where
  block : Option Nat
  entries : List DirectoryEntry
  entryCapacity : BitVec w
  deriving DecidableEq

def DirectoryEntries.empty (w : Nat) : DirectoryEntries w := ⟨none, [], 0⟩

/-- `sizeof(directory_entry_t)`: a pointer and an `int` padded to one. -/
def directoryEntrySize (w : Nat) : BitVec w := BitVec.ofNat w (w / 8 * 2)

def freeDirectoryEntries (heap : Heap) (entries : DirectoryEntries w) : Heap :=
  match entries.block with
  | none => heap
  | some block =>
    (entries.entries.foldl (fun heap entry => heap.free (some entry.nameBlock)) heap).free
      (some block)

def appendDirectoryEntry (entries : DirectoryEntries w) (name : Bytes) (isDirectory : Bool)
    (heap : Heap) : Bool × DirectoryEntries w × Heap :=
  let store (entries : DirectoryEntries w) (heap : Heap) :=
    match heap.malloc (name.length + 1) with
    | (none, heap) => (false, entries, heap)
    | (some nameBlock, heap) =>
      (true, { entries with entries := entries.entries ++ [⟨name, nameBlock, isDirectory⟩] }, heap)
  if BitVec.ofNat w entries.entries.length = entries.entryCapacity then
    let newCapacity := if entries.entryCapacity = 0 then 16 else entries.entryCapacity * 2
    if newCapacity < entries.entryCapacity then (false, entries, heap)
    else
      match heap.realloc entries.block (newCapacity * directoryEntrySize w).toNat with
      | (none, heap) => (false, entries, heap)
      | (some grown, heap) =>
        store { entries with block := some grown, entryCapacity := newCapacity } heap
  else store entries heap

def isDirectoryEntry (os : Os) (resolvedPath name : Bytes) : Bool :=
  let (length, childPath) := snprintf filePathMax (resolvedPath ++ slash :: name)
  decide (length < filePathMax) &&
    match os.stat childPath with
    | .ok st => st.mode = .directory
    | .error _ => false

/-- The `readdir` loop, over the names the stream still holds. -/
def readEntries (os : Os) (resolvedPath : Bytes) (entries : DirectoryEntries w) (heap : Heap) :
    List Bytes → Bool × DirectoryEntries w × Heap
  | [] => (true, entries, heap)
  | name :: names =>
    if name.head? = some dot then readEntries os resolvedPath entries heap names
    else
      match appendDirectoryEntry entries name (isDirectoryEntry os resolvedPath name) heap with
      | (false, entries, heap) => (false, entries, heap)
      | (true, entries, heap) => readEntries os resolvedPath entries heap names

def strcmpLe : Bytes → Bytes → Bool
  | [], _ => true
  | _ :: _, [] => false
  | l :: left, r :: right => l < r || (l = r && strcmpLe left right)

def compareDirectoryEntries (left right : DirectoryEntry) : Prop :=
  strcmpLe left.name right.name = true

instance : DecidableRel compareDirectoryEntries := fun _ _ => inferInstanceAs (Decidable (_ = _))

def appendHeading (requestPath : Bytes) : Append w :=
  (builderAppendText (ascii ("<!doctype html><html><head><meta charset=\"utf-8\">" ++
      "<title>Index of "))).andThen <|
    (builderAppendHtmlEscaped requestPath).andThen <|
    (builderAppendText (ascii "</title></head><body><h1>Index of ")).andThen <|
    (builderAppendHtmlEscaped requestPath).andThen <|
    builderAppendText (ascii "</h1><ul>")

def appendItem (entry : DirectoryEntry) : Append w :=
  let suffix : Append w := if entry.isDirectory then builderAppendChar slash else .nothing
  (builderAppendText (ascii "<li><a href=\"")).andThen <|
    (builderAppendUrlEscaped entry.name).andThen <|
    suffix.andThen <|
    (builderAppendText (ascii "\">")).andThen <|
    (builderAppendHtmlEscaped entry.name).andThen <|
    suffix.andThen <|
    builderAppendText (ascii "</a></li>")

/-- The page, or nothing for `FILE_RESULT_ERROR`, with the heap the call leaves. -/
def fileBuildDirectoryListing (w : Nat) (os : Os) (requestPath resolvedPath : Bytes) :
    Option Bytes × Heap :=
  let heap : Heap := ⟨os.allocations, 0, []⟩
  match os.opendir resolvedPath with
  | none => (none, heap)
  | some names =>
    match readEntries os resolvedPath (.empty w) (heap.record .directoryOpened) names with
    | (false, entries, heap) =>
      (none, freeDirectoryEntries (heap.record .directoryClosed) entries)
    | (true, entries, heap) =>
      let heap := heap.record .directoryClosed
      let entries := { entries with
        entries := entries.entries.insertionSort compareDirectoryEntries }
      match (appendHeading requestPath).andThen (appendAll appendItem entries.entries)
          (.empty w, heap) with
      | (false, builder, heap) => (none, builderDestroy (freeDirectoryEntries heap entries) builder)
      | (true, builder, heap) =>
        let heap := freeDirectoryEntries heap entries
        match builderAppendText (ascii "</ul></body></html>") (builder, heap) with
        | (false, builder, heap) => (none, builderDestroy heap builder)
        | (true, builder, heap) => (some builder.text, heap)

structure StringBuilder.Counted (builder : StringBuilder w) : Prop where
  length_eq : builder.text.length = builder.length.toNat
  room : builder.text.length + 1 < 2 ^ w

def Append.Counts (append : Append w) : Prop :=
  ∀ builder heap, builder.Counted → (append (builder, heap)).2.1.Counted

theorem Append.Counts.andThen {first second : Append w} (h : first.Counts) (h' : second.Counts) :
    (first.andThen second).Counts := by
  intro builder heap hb
  have hf := h builder heap hb
  rw [Append.andThen]
  generalize first (builder, heap) = result at hf ⊢
  obtain ⟨ok, builder', heap'⟩ := result
  cases ok with
  | false => exact hf
  | true => exact h' builder' heap' hf

theorem Append.Counts.result {append : Append w} {builder builder' : StringBuilder w}
    (h : append.Counts) (hb : builder.Counted)
    (hr : append (builder, heap) = (ok, builder', heap')) : builder'.Counted := by
  have := h builder heap hb
  rwa [hr] at this

theorem Append.counts_nothing : (Append.nothing : Append w).Counts := fun _ _ hb => hb

theorem ofNat_toNat_small {n k : Nat} (hk : k ≤ w) (h : n < 2 ^ k) :
    (BitVec.ofNat w n).toNat = n := by
  rw [BitVec.toNat_ofNat,
    Nat.mod_eq_of_lt (Nat.lt_of_lt_of_le h (Nat.pow_le_pow_right (by decide) hk))]

theorem toNat_one (h : 1 < 2 ^ w) : (1 : BitVec w).toNat = 1 := by
  change (BitVec.ofNat w 1).toNat = 1
  rw [BitVec.toNat_ofNat, Nat.mod_eq_of_lt h]

/-- The subtraction in the guard does not wrap: there is always room for the terminator. -/
theorem sizeLeft_toNat {length : BitVec w} (hl : length.toNat + 1 < 2 ^ w) :
    (BitVec.allOnes w - length - 1).toNat = 2 ^ w - 1 - length.toNat - 1 := by
  have hone : (1 : BitVec w).toNat = 1 := toNat_one (by omega)
  have hones : (BitVec.allOnes w).toNat = 2 ^ w - 1 := BitVec.toNat_allOnes
  have hsub : (BitVec.allOnes w - length).toNat = 2 ^ w - 1 - length.toNat := by
    rw [BitVec.toNat_sub_of_le (by rw [BitVec.le_def, hones]; omega), hones]
  rw [BitVec.toNat_sub_of_le (by rw [BitVec.le_def, hsub, hone]; omega), hsub, hone]

theorem reserve_bound {additional length : BitVec w} (hl : length.toNat + 1 < 2 ^ w)
    (h : ¬ additional > BitVec.allOnes w - length - 1) :
    additional.toNat + length.toNat + 1 < 2 ^ w := by
  have hle : additional.toNat ≤ (BitVec.allOnes w - length - 1).toNat :=
    Nat.le_of_not_lt fun hlt => h (BitVec.lt_def.2 hlt)
  rw [sizeLeft_toNat hl] at hle
  omega

theorem builderReserve_spec (additional : BitVec w) {builder : StringBuilder w}
    (hb : builder.Counted) (heap : Heap) :
    (builderReserve additional (builder, heap)).2.1.text = builder.text ∧
      (builderReserve additional (builder, heap)).2.1.length = builder.length ∧
      ((builderReserve additional (builder, heap)).1 = true →
        additional.toNat + builder.length.toNat + 1 < 2 ^ w) := by
  have hroom := hb.room
  rw [hb.length_eq] at hroom
  simp only [builderReserve]
  by_cases hfull : additional > BitVec.allOnes w - builder.length - 1
  · rw [if_pos hfull]
    exact ⟨rfl, rfl, nofun⟩
  · rw [if_neg hfull]
    have hlt := reserve_bound hroom hfull
    split
    · exact ⟨rfl, rfl, fun _ => hlt⟩
    · split
      · exact ⟨rfl, rfl, nofun⟩
      · exact ⟨rfl, rfl, fun _ => hlt⟩

theorem counts_of_reserve {append : Append w} {piece : Bytes} {length : BitVec w}
    (hlen : length.toNat = piece.length)
    (h : ∀ state, append state = match builderReserve length state with
      | (false, state) => (false, state)
      | (true, builder, heap) => (true, { builder with
          text := builder.text ++ piece, length := builder.length + length }, heap)) :
    append.Counts := by
  intro builder heap hb
  obtain ⟨htext, hlength, hroom⟩ := builderReserve_spec length hb heap
  rw [h]
  generalize builderReserve length (builder, heap) = result at htext hlength hroom ⊢
  obtain ⟨ok, builder', heap'⟩ := result
  simp only at htext hlength hroom ⊢
  cases ok with
  | false => exact ⟨by rw [htext, hlength]; exact hb.length_eq, by rw [htext]; exact hb.room⟩
  | true =>
    have hr := hroom rfl
    have he := hb.length_eq
    constructor
    · simp only [htext, hlength, List.length_append, BitVec.toNat_add]
      rw [Nat.mod_eq_of_lt (by omega)]
      omega
    · simp only [htext, List.length_append]
      omega

theorem builderAppendText_counts {text : Bytes} (h : text.length < 2 ^ w) :
    (builderAppendText text : Append w).Counts :=
  counts_of_reserve (by rw [BitVec.toNat_ofNat, Nat.mod_eq_of_lt h]) fun _ => rfl

theorem builderAppendChar_counts (h : 1 < 2 ^ w) (ch : UInt8) :
    (builderAppendChar ch : Append w).Counts :=
  have hlen : (1 : BitVec w).toNat = [ch].length := toNat_one h
  counts_of_reserve hlen fun _ => rfl

theorem Append.Counts.finish {append : Append w} {builder : StringBuilder w}
    (h : append.Counts) (hb : builder.Counted)
    (hr : (match append (builder, heap) with
      | (false, builder, heap) => (none, builderDestroy heap builder)
      | (true, builder, heap) => (some builder.text, heap)).1 = some body) :
    body.length < 2 ^ w := by
  split at hr
  · cases hr
  · rename_i hlast
    cases hr
    exact Nat.lt_of_succ_lt (h.result hb hlast).room

inductive Append.Short : Append w → Prop where
  | nothing : Short Append.nothing
  | text : text.length < 128 → Short (builderAppendText text)
  | char (ch : UInt8) : Short (builderAppendChar ch)
  | andThen : Short first → Short second → Short (first.andThen second)

section Short

theorem Append.Short.ite {append append' : Append w} {p : Prop} [Decidable p] (h : append.Short)
    (h' : append'.Short) : (if p then append else append').Short := by
  split
  · exact h
  · exact h'

theorem appendAll_short {step : α → Append w} (h : ∀ x, (step x).Short) (xs : List α) :
    (appendAll step xs).Short := by
  induction xs with
  | nil => exact .nothing
  | cons x xs ih => exact (h x).andThen ih

theorem builderAppendHtmlEscaped_short (text : Bytes) :
    (builderAppendHtmlEscaped text : Append w).Short := by
  apply appendAll_short
  intro ch
  exact (Append.Short.text (by decide)).ite <| (Append.Short.text (by decide)).ite <|
    (Append.Short.text (by decide)).ite <| (Append.Short.text (by decide)).ite <| .char ch

theorem builderAppendUrlEscaped_short (text : Bytes) :
    (builderAppendUrlEscaped text : Append w).Short := by
  apply appendAll_short
  intro ch
  exact (Append.Short.char ch).ite (.text (show 3 < 128 by decide))

theorem appendHeading_short (requestPath : Bytes) : (appendHeading requestPath : Append w).Short :=
  .andThen (.text (by decide)) <| .andThen (builderAppendHtmlEscaped_short requestPath) <|
    .andThen (.text (by decide)) <| .andThen (builderAppendHtmlEscaped_short requestPath) <|
    .text (by decide)

theorem appendItem_short (entry : DirectoryEntry) : (appendItem entry : Append w).Short := by
  have hsuffix : (if entry.isDirectory then builderAppendChar slash else .nothing :
      Append w).Short := (Append.Short.char slash).ite .nothing
  exact .andThen (.text (by decide)) <| .andThen (builderAppendUrlEscaped_short entry.name) <|
    .andThen hsuffix <| .andThen (.text (by decide)) <|
    .andThen (builderAppendHtmlEscaped_short entry.name) <| .andThen hsuffix <| .text (by decide)

theorem Append.Short.counts {append : Append w} (h : append.Short) (hw : 128 ≤ 2 ^ w) :
    append.Counts := by
  induction h with
  | nothing => exact Append.counts_nothing
  | text hlen => exact builderAppendText_counts (Nat.lt_of_lt_of_le hlen hw)
  | char ch => exact builderAppendChar_counts (Nat.lt_of_lt_of_le (by decide) hw) ch
  | andThen _ _ ih ih' => exact ih.andThen ih'

end Short

theorem fileBuildDirectoryListing_length (hw : 128 ≤ 2 ^ w)
    (h : (fileBuildDirectoryListing w os requestPath resolvedPath).1 = some body) :
    body.length < 2 ^ w := by
  simp only [fileBuildDirectoryListing] at h
  cases hopen : os.opendir resolvedPath with
  | none =>
    rw [hopen] at h
    cases h
  | some names =>
    simp only [hopen] at h
    split at h
    · cases h
    split at h
    · cases h
    rename_i builder heap hpage
    have hempty : (StringBuilder.empty w).Counted :=
      ⟨BitVec.toNat_zero.symm, Nat.lt_of_lt_of_le (show 0 + 1 < 128 by decide) hw⟩
    have hcounted := (((appendHeading_short requestPath).andThen
      (appendAll_short appendItem_short _)).counts hw).result hempty hpage
    exact ((Append.Short.text (by decide)).counts hw).finish hcounted h

end Httpd
