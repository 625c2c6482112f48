import Mathlib.Data.List.Basic

namespace Httpd.Markup
set_option autoImplicit true

structure Delimiters (α : Type) where
  opening : α
  closing : α
  quote : α
  closing_ne_quote : closing ≠ quote

/-- A tag with the text before it. Between its quotes it has parts, the first outside of quotes,
the second a value, and so on in turn. -/
structure Piece (α : Type) where
  before : List α
  parts : List (List α)
  deriving DecidableEq

structure Document (α : Type) where
  pieces : List (Piece α)
  after : List α
  deriving DecidableEq

variable {α : Type} [DecidableEq α] (d : Delimiters α)

def writeTag (parts : List (List α)) : List α :=
  d.opening :: ([d.quote].intercalate parts ++ [d.closing])

def writePiece (piece : Piece α) : List α := piece.before ++ writeTag d piece.parts

def write (doc : Document α) : List α := doc.pieces.flatMap (writePiece d) ++ doc.after

inductive Place (α : Type) where
  | text (before : List α)
  | tag (before : List α) (parts : List (List α)) (part : List α)
  | value (before : List α) (parts : List (List α)) (part : List α)

/-- Reading from a place on; a tag that does not end is refused. -/
def read : Place α → List α → Option (Document α)
  | .text before, [] => some ⟨[], before⟩
  | .tag .., [] => none
  | .value .., [] => none
  | .text before, c :: rest =>
    if c = d.opening then read (.tag before [] []) rest else read (.text (before ++ [c])) rest
  | .tag before parts part, c :: rest =>
    if c = d.closing then
      (read (.text []) rest).map fun doc =>
        { doc with pieces := ⟨before, parts ++ [part]⟩ :: doc.pieces }
    else if c = d.quote then read (.value before (parts ++ [part]) []) rest
    else read (.tag before parts (part ++ [c])) rest
  | .value before parts part, c :: rest =>
    if c = d.quote then read (.tag before (parts ++ [part]) []) rest
    else read (.value before parts (part ++ [c])) rest

def Separable : List (List α) → Prop
  | [] => False
  | [part] => d.closing ∉ part ∧ d.quote ∉ part
  | part :: value :: parts =>
    (d.closing ∉ part ∧ d.quote ∉ part) ∧ d.quote ∉ value ∧ Separable parts

structure Document.WellFormed (doc : Document α) : Prop where
  texts : ∀ piece ∈ doc.pieces, d.opening ∉ piece.before
  tags : ∀ piece ∈ doc.pieces, Separable d piece.parts
  after : d.opening ∉ doc.after

variable {d} {text part rest : List α}

theorem read_text (h : d.opening ∉ text) (before rest : List α) :
    read d (.text before) (text ++ rest) = read d (.text (before ++ text)) rest := by
  induction text generalizing before with
  | nil => rw [List.nil_append, List.append_nil]
  | cons c text ih =>
    rw [List.mem_cons, not_or] at h
    rw [List.cons_append, read, if_neg (Ne.symm h.1), ih h.2, List.append_assoc]
    rfl

theorem read_part (hc : d.closing ∉ part) (hq : d.quote ∉ part) (before : List α)
    (parts : List (List α)) (start rest : List α) :
    read d (.tag before parts start) (part ++ rest) =
      read d (.tag before parts (start ++ part)) rest := by
  induction part generalizing start with
  | nil => rw [List.nil_append, List.append_nil]
  | cons c part ih =>
    rw [List.mem_cons, not_or] at hc hq
    rw [List.cons_append, read, if_neg (Ne.symm hc.1), if_neg (Ne.symm hq.1), ih hc.2 hq.2,
      List.append_assoc]
    rfl

theorem read_value (hq : d.quote ∉ part) (before : List α) (parts : List (List α))
    (start rest : List α) :
    read d (.value before parts start) (part ++ rest) =
      read d (.value before parts (start ++ part)) rest := by
  induction part generalizing start with
  | nil => rw [List.nil_append, List.append_nil]
  | cons c part ih =>
    rw [List.mem_cons, not_or] at hq
    rw [List.cons_append, read, if_neg (Ne.symm hq.1), ih hq.2, List.append_assoc]
    rfl

theorem read_parts {parts : List (List α)} (h : Separable d parts) (before : List α)
    (done : List (List α)) (rest : List α) :
    read d (.tag before done []) ([d.quote].intercalate parts ++ d.closing :: rest) =
      (read d (.text []) rest).map fun doc =>
        { doc with pieces := ⟨before, done ++ parts⟩ :: doc.pieces } := by
  induction parts using Separable.induct generalizing done with
  | case1 => cases h
  | case2 part =>
    rw [List.intercalate_singleton, read_part h.1 h.2, List.nil_append, read, if_pos rfl]
  | case3 part value parts ih =>
    obtain ⟨⟨hc, hq⟩, hvalue, hparts⟩ := h
    have hne : parts ≠ [] := by
      rintro rfl
      exact hparts
    have htext : [d.quote].intercalate (part :: value :: parts) ++ d.closing :: rest =
        part ++ d.quote ::
          (value ++ d.quote :: ([d.quote].intercalate parts ++ d.closing :: rest)) := by
      rw [List.intercalate_cons_cons, List.intercalate_cons_of_ne_nil hne]
      simp only [List.append_assoc, List.cons_append, List.nil_append]
    rw [htext, read_part hc hq, List.nil_append, read, if_neg d.closing_ne_quote.symm, if_pos rfl,
      read_value hvalue, List.nil_append, read, if_pos rfl, ih hparts]
    simp only [List.append_assoc, List.cons_append, List.nil_append]

theorem read_writeTag {parts : List (List α)} (h : Separable d parts) (before rest : List α) :
    read d (.text before) (writeTag d parts ++ rest) =
      (read d (.text []) rest).map fun doc =>
        { doc with pieces := ⟨before, parts⟩ :: doc.pieces } := by
  have htext : writeTag d parts ++ rest =
      d.opening :: ([d.quote].intercalate parts ++ d.closing :: rest) := by
    rw [writeTag, List.cons_append, List.append_assoc]
    rfl
  rw [htext, read, if_pos rfl, read_parts h]
  rfl

/-- A document is read back from what is written of it. -/
theorem read_write {doc : Document α} (h : doc.WellFormed d) :
    read d (.text []) (write d doc) = some doc := by
  obtain ⟨pieces, after⟩ := doc
  obtain ⟨htexts, htags, hafter⟩ := h
  induction pieces with
  | nil =>
    have hread := read_text hafter [] []
    rw [List.append_nil] at hread
    exact hread
  | cons piece pieces ih =>
    obtain ⟨htext, htexts⟩ := List.forall_mem_cons.1 htexts
    obtain ⟨htag, htags⟩ := List.forall_mem_cons.1 htags
    have hsplit : write d ⟨piece :: pieces, after⟩ =
        piece.before ++ (writeTag d piece.parts ++ write d ⟨pieces, after⟩) := by
      simp only [write, writePiece, List.flatMap_cons, List.append_assoc]
    rw [hsplit, read_text htext, List.nil_append, read_writeTag htag, ih htexts htags hafter]
    rfl

end Httpd.Markup
