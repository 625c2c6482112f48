import Httpd.Lib.Markup
import Httpd.ListingLinks

namespace Httpd
open Markup
set_option autoImplicit true

theorem urlText_injective : Function.Injective urlText := by
  intro name name' h
  have hbytes := pathBytes_urlText name []
  rw [List.append_nil, h] at hbytes
  have hbytes' := pathBytes_urlText name' []
  rw [List.append_nil, hbytes] at hbytes'
  exact List.map_injective_iff.2 (Option.some_injective _) (List.append_cancel_right hbytes')

def htmlDelimiters : Delimiters UInt8 := ⟨60, 62, 34, by decide⟩

def plainTag (before : Bytes) (name : String) : Piece UInt8 := ⟨before, [ascii name]⟩

def headingPieces (requestPath : Bytes) : List (Piece UInt8) :=
  let text := ascii "Index of " ++ htmlText requestPath
  [plainTag [] "!doctype html", plainTag [] "html", plainTag [] "head",
    ⟨[], [ascii "meta charset=", ascii "utf-8", []]⟩, plainTag [] "title", plainTag text "/title",
    plainTag [] "/head", plainTag [] "body", plainTag [] "h1", plainTag text "/h1",
    plainTag [] "ul"]

def DirectoryEntry.itemPieces (entry : DirectoryEntry) : List (Piece UInt8) :=
  [plainTag [] "li", ⟨[], [ascii "a href=", entry.href, []]⟩,
    plainTag (htmlText entry.name ++ entry.suffix) "/a", plainTag [] "/li"]

def listingDocument (requestPath : Bytes) (entries : List DirectoryEntry) : Document UInt8 where
  pieces := headingPieces requestPath ++ entries.flatMap DirectoryEntry.itemPieces ++
    [plainTag [] "/ul", plainTag [] "/body", plainTag [] "/html"]
  after := []

/-- No tag and no value can begin or end in it. -/
def PlainText (text : Bytes) : Prop := 60 ∉ text ∧ 62 ∉ text ∧ 34 ∉ text

instance : DecidablePred PlainText := fun _ => inferInstanceAs (Decidable (_ ∧ _))

section Escapes

theorem htmlText_cons (ch : UInt8) (text : Bytes) :
    htmlText (ch :: text) = htmlText [ch] ++ htmlText text := by
  rw [htmlText, List.flatMap_cons, htmlText, List.flatMap_cons, List.flatMap_nil, List.append_nil]
  rfl

theorem htmlText_single (ch : UInt8) :
    (ch = 38 ∧ htmlText [ch] = ascii "&amp;") ∨ (ch = 60 ∧ htmlText [ch] = ascii "&lt;") ∨
      (ch = 62 ∧ htmlText [ch] = ascii "&gt;") ∨ (ch = 34 ∧ htmlText [ch] = ascii "&quot;") ∨
      ((ch ≠ 38 ∧ ch ≠ 60 ∧ ch ≠ 62 ∧ ch ≠ 34) ∧ htmlText [ch] = [ch]) := by
  by_cases hamp : ch = 38
  · exact .inl ⟨hamp, hamp ▸ rfl⟩
  by_cases hlt : ch = 60
  · exact .inr (.inl ⟨hlt, hlt ▸ rfl⟩)
  by_cases hgt : ch = 62
  · exact .inr (.inr (.inl ⟨hgt, hgt ▸ rfl⟩))
  by_cases hquot : ch = 34
  · exact .inr (.inr (.inr (.inl ⟨hquot, hquot ▸ rfl⟩)))
  refine .inr (.inr (.inr (.inr ⟨⟨hamp, hlt, hgt, hquot⟩, ?_⟩)))
  rw [htmlText, List.flatMap_cons, List.flatMap_nil, List.append_nil, if_neg hamp, if_neg hlt,
    if_neg hgt, if_neg hquot]

theorem htmlText_plain (text : Bytes) : PlainText (htmlText text) := by
  induction text with
  | nil => exact ⟨List.not_mem_nil, List.not_mem_nil, List.not_mem_nil⟩
  | cons ch text ih =>
    have hch : PlainText (htmlText [ch]) := by
      rcases htmlText_single ch with ⟨-, he⟩ | ⟨-, he⟩ | ⟨-, he⟩ | ⟨-, he⟩ | ⟨⟨-, hlt, hgt, hquot⟩, he⟩
      · rw [he]
        decide
      · rw [he]
        decide
      · rw [he]
        decide
      · rw [he]
        decide
      · rw [he]
        simp only [PlainText, List.mem_singleton]
        exact ⟨Ne.symm hlt, Ne.symm hgt, Ne.symm hquot⟩
    rw [htmlText_cons]
    exact ⟨List.not_mem_append hch.1 ih.1, List.not_mem_append hch.2.1 ih.2.1,
      List.not_mem_append hch.2.2 ih.2.2⟩

end Escapes

section Document

theorem headingText_pieces (requestPath : Bytes) :
    headingText requestPath =
      (headingPieces requestPath).flatMap (writePiece htmlDelimiters) := by
  simp only [headingPieces, headingText, plainTag, writePiece, List.flatMap_cons,
    List.flatMap_nil, List.append_assoc]
  rfl

theorem itemText_pieces (entry : DirectoryEntry) :
    entry.itemText = entry.itemPieces.flatMap (writePiece htmlDelimiters) := by
  have hlink : writeTag htmlDelimiters [ascii "a href=", entry.href, []] =
      ascii "<a href=\"" ++ (entry.href ++ ascii "\">") := by
    rw [writeTag, List.intercalate_cons_cons, List.intercalate_cons_cons, List.intercalate_singleton]
    simp only [List.append_assoc]
    rfl
  simp only [DirectoryEntry.itemPieces, DirectoryEntry.itemText, plainTag, writePiece,
    List.flatMap_cons, List.flatMap_nil, List.append_assoc, hlink]
  rfl

theorem listingPage_write (requestPath : Bytes) (entries : List DirectoryEntry) :
    listingPage requestPath entries =
      write htmlDelimiters (listingDocument requestPath entries) := by
  have hitems : entries.flatMap DirectoryEntry.itemText =
      (entries.flatMap DirectoryEntry.itemPieces).flatMap (writePiece htmlDelimiters) := by
    rw [List.flatMap_assoc]
    exact congrArg (entries.flatMap ·) (funext itemText_pieces)
  rw [listingPage, write, listingDocument, headingText_pieces, hitems, List.flatMap_append,
    List.flatMap_append, List.append_nil]
  rfl

theorem PlainText.append {text text' : Bytes} (h : PlainText text) (h' : PlainText text') :
    PlainText (text ++ text') :=
  ⟨List.not_mem_append h.1 h'.1, List.not_mem_append h.2.1 h'.2.1,
    List.not_mem_append h.2.2 h'.2.2⟩

theorem suffix_plain (entry : DirectoryEntry) : PlainText entry.suffix := by
  rw [DirectoryEntry.suffix]
  split <;> decide

theorem urlText_bytes {text : Bytes} {ch : UInt8} (h : ch ∈ urlText text) :
    isUrlUnreserved ch = true ∨ ch = 37 := by
  obtain ⟨c, -, hc⟩ := List.mem_flatMap.1 h
  obtain ⟨hhigh, hlow⟩ := hexDigits_unreserved c
  split at hc
  · rename_i hplain
    exact .inl (List.mem_singleton.1 hc ▸ hplain)
  · simp only [List.mem_cons, List.not_mem_nil, or_false] at hc
    rcases hc with rfl | rfl | rfl
    · exact .inr rfl
    · exact .inl hhigh
    · exact .inl hlow

theorem urlText_plain (text : Bytes) : PlainText (urlText text) := by
  refine ⟨fun h => ?_, fun h => ?_, fun h => ?_⟩ <;>
    exact absurd (urlText_bytes h) (by decide)

theorem slash_notMem_urlText (text : Bytes) : slash ∉ urlText text :=
  fun h => absurd (urlText_bytes h) (by decide)

theorem href_plain (entry : DirectoryEntry) : PlainText entry.href :=
  (urlText_plain entry.name).append (suffix_plain entry)

def ReadsBack (piece : Piece UInt8) : Prop :=
  PlainText piece.before ∧ Separable htmlDelimiters piece.parts

theorem plainTag_readsBack {before : Bytes} {name : String} (h : PlainText before)
    (hname : PlainText (ascii name)) : ReadsBack (plainTag before name) :=
  ⟨h, hname.2.1, hname.2.2⟩

theorem plainText_nil : PlainText [] :=
  ⟨List.not_mem_nil, List.not_mem_nil, List.not_mem_nil⟩

theorem valueTag_readsBack {name : String} {value : Bytes} (hname : PlainText (ascii name))
    (hvalue : PlainText value) : ReadsBack ⟨[], [ascii name, value, []]⟩ :=
  ⟨plainText_nil, hname.2, hvalue.2.2, List.not_mem_nil, List.not_mem_nil⟩

theorem headingPieces_readsBack (requestPath : Bytes) :
    ∀ piece ∈ headingPieces requestPath, ReadsBack piece := by
  have htag {name : String} (hname : PlainText (ascii name)) : ReadsBack (plainTag [] name) :=
    plainTag_readsBack plainText_nil hname
  have htext : PlainText (ascii "Index of " ++ htmlText requestPath) :=
    PlainText.append (by decide) (htmlText_plain requestPath)
  simp only [headingPieces, List.forall_mem_cons]
  exact ⟨htag (by decide), htag (by decide), htag (by decide),
    valueTag_readsBack (by decide) (by decide), htag (by decide),
    plainTag_readsBack htext (by decide), htag (by decide), htag (by decide), htag (by decide),
    plainTag_readsBack htext (by decide), htag (by decide), List.forall_mem_nil _⟩

theorem itemPieces_readsBack (entry : DirectoryEntry) :
    ∀ piece ∈ entry.itemPieces, ReadsBack piece := by
  have htext := (htmlText_plain entry.name).append (suffix_plain entry)
  simp only [DirectoryEntry.itemPieces, List.forall_mem_cons]
  exact ⟨plainTag_readsBack (by decide) (by decide),
    valueTag_readsBack (by decide) (href_plain entry), plainTag_readsBack htext (by decide),
    plainTag_readsBack (by decide) (by decide), List.forall_mem_nil _⟩

theorem listingDocument_readsBack (requestPath : Bytes) (entries : List DirectoryEntry) :
    ∀ piece ∈ (listingDocument requestPath entries).pieces, ReadsBack piece := by
  have hitems : ∀ piece ∈ entries.flatMap DirectoryEntry.itemPieces, ReadsBack piece := by
    intro piece h
    obtain ⟨entry, -, hentry⟩ := List.mem_flatMap.1 h
    exact itemPieces_readsBack entry piece hentry
  have hend : ∀ piece ∈ [plainTag [] "/ul", plainTag [] "/body", plainTag [] "/html"],
      ReadsBack piece := by
    simp only [List.forall_mem_cons]
    exact ⟨plainTag_readsBack (by decide) (by decide), plainTag_readsBack (by decide) (by decide),
      plainTag_readsBack (by decide) (by decide), List.forall_mem_nil _⟩
  exact List.forall_mem_append.2
    ⟨List.forall_mem_append.2 ⟨headingPieces_readsBack requestPath, hitems⟩, hend⟩

/-- A listing is read as the document that it was written from. -/
theorem read_listingPage (requestPath : Bytes) (entries : List DirectoryEntry) :
    read htmlDelimiters (.text []) (listingPage requestPath entries) =
      some (listingDocument requestPath entries) := by
  have hpieces := listingDocument_readsBack requestPath entries
  rw [listingPage_write]
  exact read_write ⟨fun piece h => (hpieces piece h).1.1, fun piece h => (hpieces piece h).2,
    List.not_mem_nil⟩

end Document

end Httpd
