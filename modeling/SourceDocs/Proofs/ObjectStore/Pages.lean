import SourceDocs.Proofs.Json.Decode
import SourceDocs.Proofs.ObjectStore.Listing
import SourceDocs.Proofs.Time.Text
import SourceDocs.Proofs.Xml.Document

set_option autoImplicit false

/-! # Pages of a listing: read as they were written, blanks at edges apart

An object store writes a page as a document with one element for each object, in which texts are
escaped. Reading it gives every object with its size and its instant, and the key of each and the
token of the page as they were, but without the blanks at their edges (`parse?_text`). So a key that
starts or ends with a blank is read as another key (`parse?_padded`). -/

namespace SourceDocs

open Xml

/-! ## Documents of pages -/

/-- An object in a page, with the text that says when it was modified. -/
structure ListedObject where
  object : StoredObject
  modified : List Char
  size_lt : object.size < Nat.pow 2 64
  /-- The text is a strict form of the instant, with no more than blanks around it. -/
  read_modified :
    Instant.parseStrict? (String.ofList (trimmed modified)) = some object.lastModified

namespace ListedObject

/-- The fields of an object in a page. -/
def fields (l : ListedObject) : List (List Char × List Char) :=
  [("Key".toList, l.object.key.toList), ("LastModified".toList, l.modified),
    ("Size".toList, (toString l.object.size).toList)]

end ListedObject

/-- A page as an object store writes it. -/
structure ListingDocument where
  listed : List ListedObject
  isTruncated : Bool
  nextToken : Option String
  /-- The blanks between two tags of which neither begins or ends a text. -/
  gap : List Char
  isGap : IsGap gap

namespace ListingDocument

/-- The fields of the page itself. -/
def fields (d : ListingDocument) : List (List Char × List Char) :=
  ("IsTruncated".toList, (toString d.isTruncated).toList) ::
    d.nextToken.toList.map fun token => ("NextContinuationToken".toList, token.toList)

/-- A field as the document has it. -/
def fieldText (d : ListingDocument) (field : List Char × List Char) : List Char :=
  d.gap ++ elementText field.1 [] (escape field.2)

/-- An object as the document has it. -/
def objectText (d : ListingDocument) (l : ListedObject) : List Char :=
  d.gap ++ elementText "Contents".toList [] (l.fields.flatMap d.fieldText ++ d.gap)

/-- The declaration before the first tag. -/
def declaration : List Char := "xml version=\"1.0\" encoding=\"UTF-8\"".toList

/-- The attributes of the first tag. -/
def attributes : List Char := " xmlns=\"http://s3.amazonaws.com/doc/2006-03-01/\"".toList

/-- The document. -/
def text (d : ListingDocument) : String :=
  String.ofList ('<' :: '?' :: (declaration ++ '?' :: '>' :: (d.gap ++
    elementText "ListBucketResult".toList attributes
      (d.fields.flatMap d.fieldText ++ d.listed.flatMap d.objectText ++ d.gap))))

end ListingDocument

/-! ## Documents as trees -/

/-- A field as a part of an element. -/
def fieldNode (field : List Char × List Char) : Node :=
  .element field.1 [] (written field.2)

/-- An object as a part of an element. -/
def ListedObject.node (l : ListedObject) : Node :=
  .element "Contents".toList [] (l.fields.map fieldNode)

namespace ListingDocument

variable {d : ListingDocument}

theorem makes_fields {fields : List (List Char × List Char)}
    (h : ∀ field ∈ fields, IsName field.1) :
    Makes (fields.flatMap d.fieldText) (fields.map fieldNode) :=
  .flatMap fun field hfield =>
    makes_element d.isGap (h field hfield) (by decide) (fills_escape field.2)

theorem makes_object (l : ListedObject) : Makes (d.objectText l) [l.node] := by
  have hnames : ∀ field ∈ l.fields, IsName field.1 := by
    simp only [ListedObject.fields, List.forall_mem_cons]
    exact ⟨by decide, by decide, by decide, fun _ h => absurd h List.not_mem_nil⟩
  exact makes_element d.isGap (by decide) (by decide) ((makes_fields hnames).fills d.isGap)

/-- The document as a tree. -/
theorem ofDocument?_text (d : ListingDocument) : Node.ofDocument? d.text =
    some (.element "ListBucketResult".toList attributes
      (d.fields.map fieldNode ++ d.listed.map ListedObject.node)) := by
  have hnames : ∀ field ∈ d.fields, IsName field.1 := by
    simp only [fields, List.forall_mem_cons, List.forall_mem_map]
    exact ⟨by decide, fun _ _ => by decide⟩
  have hbody : Fills (d.fields.flatMap d.fieldText ++ d.listed.flatMap d.objectText ++ d.gap)
      (d.fields.map fieldNode ++ d.listed.map ListedObject.node) :=
    ((makes_fields hnames).append (.flatMap fun l _ => makes_object l)).fills d.isGap
  have hdeclaration : ∀ rest, Token.markup? ('?' :: (declaration ++ '?' :: '>' :: rest)) =
      some ([], rest) :=
    markup?_declaration (by decide) (by decide)
  have htext : withoutMark d.text.toList = d.text.toList := by
    rw [text, String.toList_ofList]
    rfl
  rw [Node.ofDocument?, htext, text, String.toList_ofList, lex_markup (hdeclaration _),
    List.nil_append, build_document d.isGap (by decide) (by decide) hbody]

end ListingDocument

/-! ## Trees as pages -/

namespace Xml

variable {field name cs : List Char} {before contents : List Node} {c : Char} {n : Nat}

/-- A text that neither starts nor ends with a blank. -/
theorem trimmed_of_edges (hhead : ∀ c ∈ cs.head?, isBlank c = false)
    (hlast : ∀ c ∈ cs.getLast?, isBlank c = false) : trimmed cs = cs := by
  have hdrop : ∀ xs : List Char, (∀ c ∈ xs.head?, isBlank c = false) →
      xs.dropWhile isBlank = xs := by
    intro xs hxs
    cases xs with
    | nil => rfl
    | cons x xs => exact List.dropWhile_cons_of_neg (by simp [hxs x rfl])
  rw [trimmed, hdrop cs hhead, trimEnd, hdrop _ (by rwa [List.head?_reverse]),
    List.reverse_reverse]

theorem isDigit_of_mem_toString (h : c ∈ (toString n).toList) : Instant.isDigit c = true := by
  rw [Nat.toString_eq_repr, Nat.toList_repr] at h
  exact Instant.isDigit_of_mem_toDigits h

theorem isBlank_of_isDigit (h : Instant.isDigit c = true) : isBlank c = false := by
  rw [Instant.isDigit_eq] at h
  exact isBlank_of_isAlphanum (by rw [Char.isAlphanum, h, Bool.or_true])

theorem digitValue?_of_isDigit (h : Instant.isDigit c = true) :
    digitValue? 10 c = some (c.toNat - 48) := by
  have hdigit : ('0' ≤ c && c ≤ '9') = true := h
  have hlt : c.toNat - 48 < 10 := by
    have hle : c.toNat ≤ 57 := by
      rw [Bool.and_eq_true, decide_eq_true_eq, decide_eq_true_eq] at hdigit
      simpa [Char.le_def, UInt32.le_iff_toNat_le] using hdigit.2
    omega
  rw [digitValue?, Text.hexValue?, if_pos hdigit, Option.filter_some, if_pos (by simpa using hlt)]

theorem number?_toString (n : Nat) : number? 10 (toString n).toList = some n := by
  have hvalues : (toString n).toList.mapM (digitValue? 10) =
      some ((toString n).toList.map fun c => c.toNat - 48) := by
    have hmap := Json.mapM_map_of_forall (f := digitValue? 10) (g := id)
      fun c hc => digitValue?_of_isDigit (isDigit_of_mem_toString (n := n) hc)
    rwa [List.map_id] at hmap
  have hvalue : Instant.valueOf (toString n).toList = n := by
    rw [Instant.valueOf_eq, Nat.toString_eq_repr, Nat.toList_repr, Nat.ofDigitChars_ten_toDigits]
  have hempty : ¬(toString n).toList.isEmpty = true := by
    rw [Nat.toString_eq_repr, Nat.toList_repr, List.isEmpty_iff]
    exact Nat.toDigits_ne_nil
  rw [number?, if_neg hempty, hvalues, Option.map_some, List.foldl_map]
  exact congrArg some hvalue

/-- A number that fits is read as it is written. -/
theorem size?_toString (h : n < Nat.pow 2 64) : size? (toString n) = some n := by
  have hplus : ∀ digits, (toString n).toList ≠ '+' :: digits := by
    intro digits heq
    exact absurd (isDigit_of_mem_toString (n := n) (heq ▸ List.mem_cons_self)) (by decide)
  unfold size?
  split
  · rename_i heq
    exact absurd heq (hplus _)
  · dsimp only
    rw [number?_toString, Option.bind_some, if_pos h]

theorem areAttributes_nil : areAttributes [] [] = true := by
  rw [areAttributes]
  rfl

theorem trimmed_toString (n : Nat) : trimmed (toString n).toList = (toString n).toList :=
  trimmed_of_edges
    (fun _ hc => isBlank_of_isDigit (isDigit_of_mem_toString (List.mem_of_head? hc)))
    fun _ hc => isBlank_of_isDigit (isDigit_of_mem_toString (List.mem_of_getLast? hc))

/-- No blank stands at an edge of the written form of an instant. -/
theorem trimmed_toString_instant {t : Instant} (hlow : 0 ≤ t.date.year)
    (hhigh : t.date.year ≤ 9999) : trimmed (toString t).toList = (toString t).toList := by
  obtain ⟨d, ds, heq, hd⟩ := Instant.exists_padded 4 t.date.year.toNat
  rw [Instant.toList_toString, Instant.yearText_eq_padded hlow hhigh, heq]
  refine trimmed_of_edges (fun c hc => ?_) fun c hc => ?_
  · rw [← Option.some.inj hc]
    exact isBlank_of_isDigit hd
  · have hlast : c = 'Z' := by
      simpa [List.getLast?_append, List.getLast?_cons] using hc.symm
    rw [hlast]
    rfl

/-- A repeated field at the end of a record, given that all elements of it have one name. -/
theorem repeatedField?_append (hlocal : localName name = field)
    (hbefore : ∀ part ∈ before, isField field part = false)
    (hcontents : ∀ part ∈ contents, isNamed name part = true) :
    repeatedField? field (before ++ contents) = some contents := by
  have hdrop : (before ++ contents).dropWhile (!isField field ·) = contents := by
    rw [List.dropWhile_append_of_pos fun part hpart => by rw [hbefore part hpart]; rfl]
    cases contents with
    | nil => rfl
    | cons first more =>
      have hfirst := isField_of_isNamed hlocal (hcontents first List.mem_cons_self)
      exact List.dropWhile_cons_of_neg (by simp [hfirst])
  rw [repeatedField?, hdrop]
  cases contents with
  | nil => rfl
  | cons first more =>
    obtain ⟨hfirst, hmore⟩ := List.forall_mem_cons.1 hcontents
    cases first with
    | text content => cases hfirst
    | element name' attributes children =>
      rw [isNamed, decide_eq_true_eq] at hfirst
      subst hfirst
      have hrest : more.dropWhile (isNamed name') = [] := List.dropWhile_eq_nil_iff.2 hmore
      have htake : more.takeWhile (isNamed name') = more := List.takeWhile_eq_self_iff.2 hmore
      simp only [hrest, htake, List.any_nil, Bool.false_eq_true, if_false]

end Xml

/-- The size of an object fits, and its instant can be written: the year has four digits, and a leap
second is that of the last second of a minute. -/
structure StoredObject.IsListable (o : StoredObject) : Prop where
  size_lt : o.size < Nat.pow 2 64
  year_nonneg : 0 ≤ o.lastModified.date.year
  year_le : o.lastModified.date.year ≤ 9999
  isRegular : o.lastModified.IsRegular

/-- An object in a page, with the written form of its instant. -/
def ListedObject.ofObject (o : StoredObject) (h : o.IsListable) : ListedObject where
  object := o
  modified := (toString o.lastModified).toList
  size_lt := h.size_lt
  read_modified := by
    rw [trimmed_toString_instant h.year_nonneg h.year_le, String.ofList_toList,
      Instant.parseStrict?_toString _ h.year_nonneg h.year_le,
      Instant.readBack_eq_self_iff.2 h.isRegular]

/-- An object as it is read: its key has no blanks at its edges. -/
def StoredObject.readBack (o : StoredObject) : StoredObject :=
  { o with key := String.ofList (trimmed o.key.toList) }

/-- An object is read from its part of a page. -/
theorem ListedObject.ofNode?_node (l : ListedObject) :
    StoredObject.ofNode? l.node = some l.object.readBack := by
  have hkey : optionalText? "Key".toList (l.fields.map fieldNode) =
      some (some (String.ofList (trimmed l.object.key.toList))) :=
    congrArg (Option.map some) (textIn?_written _)
  have hmodified : optionalText? "LastModified".toList (l.fields.map fieldNode) =
      some (some (String.ofList (trimmed l.modified))) :=
    congrArg (Option.map some) (textIn?_written _)
  have hsize : optionalText? "Size".toList (l.fields.map fieldNode) =
      some (some (toString l.object.size)) := by
    have htext := congrArg (Option.map some) (textIn?_written (toString l.object.size).toList)
    rw [trimmed_toString, String.ofList_toList] at htext
    exact htext
  have hvalue : optionalField? "Size".toList size? (l.fields.map fieldNode) =
      some (some l.object.size) := by
    rw [optionalField?, hsize]
    dsimp only
    rw [size?_toString l.size_lt, Option.map_some]
  have hguard : (areAttributes [] [] &&
      areReadable StoredObject.fields (l.fields.map fieldNode)) = true := by
    rw [areAttributes_nil]
    rfl
  rw [node, StoredObject.ofNode?, hguard, hkey, hmodified, hvalue]
  simp only [guard, if_true, Option.bind_eq_bind, Option.bind_some, l.read_modified,
    Option.getD_some]
  rfl

namespace ListingDocument

variable {d : ListingDocument}

/-- The fields of the page itself are those of the document, whatever objects it has. -/
theorem optionalText?_of_ne {field : List Char} (h : "Contents".toList ≠ field) :
    optionalText? field (d.fields.map fieldNode ++ d.listed.map ListedObject.node) =
      optionalText? field (d.fields.map fieldNode) := by
  have hobjects : fieldsNamed field (d.listed.map ListedObject.node) = [] := by
    rw [fieldsNamed, List.filterMap_eq_nil_iff, List.forall_mem_map]
    exact fun l _ => if_neg h
  rw [optionalText?, optionalText?, fieldsNamed, List.filterMap_append, ← fieldsNamed,
    ← fieldsNamed, hobjects, List.append_nil]

theorem isTruncated?_fields (d : ListingDocument) :
    optionalField? "IsTruncated".toList truth?
        (d.fields.map fieldNode ++ d.listed.map ListedObject.node) =
      some (some d.isTruncated) := by
  have htext : optionalText? "IsTruncated".toList (d.fields.map fieldNode) =
      some (some (toString d.isTruncated)) := by
    rw [fields]
    cases d.nextToken <;> cases d.isTruncated <;> rfl
  rw [optionalField?, optionalText?_of_ne (by decide), htext]
  dsimp only
  cases d.isTruncated <;> rfl

theorem nextToken?_fields (d : ListingDocument) :
    optionalText? "NextContinuationToken".toList
        (d.fields.map fieldNode ++ d.listed.map ListedObject.node) =
      some (d.nextToken.map fun token => String.ofList (trimmed token.toList)) := by
  rw [optionalText?_of_ne (by decide), fields]
  cases d.nextToken with
  | none => rfl
  | some token => exact congrArg (Option.map some) (textIn?_written token.toList)

theorem areReadable_nodes (d : ListingDocument) : areReadable ListingPage.fields
    (d.fields.map fieldNode ++ d.listed.map ListedObject.node) = true := by
  rw [areReadable, List.all_append, Bool.and_eq_true, List.all_eq_true, List.all_eq_true,
    List.forall_mem_map, List.forall_mem_map]
  refine ⟨?_, fun l _ => rfl⟩
  simp only [fields, List.forall_mem_cons, List.forall_mem_map]
  exact ⟨rfl, fun _ _ => rfl⟩

theorem contents?_nodes (d : ListingDocument) : repeatedField? "Contents".toList
    (d.fields.map fieldNode ++ d.listed.map ListedObject.node) =
      some (d.listed.map ListedObject.node) := by
  have hlocal : localName "Contents".toList = "Contents".toList := rfl
  refine repeatedField?_append hlocal ?_ ?_
  · simp only [fields, List.forall_mem_map, List.forall_mem_cons]
    exact ⟨rfl, fun _ _ => rfl⟩
  · simp only [List.forall_mem_map]
    exact fun _ _ => rfl

/-- A page is read as it was written, blanks at the edges of keys and tokens apart. -/
theorem parse?_text (d : ListingDocument) : ListingPage.parse? d.text = some
    { entries := d.listed.map fun l => l.object.readBack
      isTruncated := d.isTruncated
      nextToken := d.nextToken.map fun token => String.ofList (trimmed token.toList) } := by
  have hguard : (areAttributes [] attributes && areReadable ListingPage.fields
      (d.fields.map fieldNode ++ d.listed.map ListedObject.node)) = true := by
    rw [areReadable_nodes, Bool.and_true]
    decide +kernel
  have hentries : (d.listed.map ListedObject.node).mapM StoredObject.ofNode? =
      some (d.listed.map fun l => l.object.readBack) :=
    Json.mapM_map_of_forall fun l _ => l.ofNode?_node
  rw [ListingPage.parse?, ofDocument?_text, Option.bind_some, ListingPage.ofNode?, hguard,
    contents?_nodes, isTruncated?_fields, nextToken?_fields]
  simp only [guard, if_true, Option.bind_eq_bind, Option.bind_some, hentries, Option.getD_some]
  rfl

/-- What of some objects does not stand for a folder. -/
def named (objects : List StoredObject) : List StoredObject :=
  objects.filter fun o => o.key ≠ "" ∧ o.key.toList.getLast? ≠ some '/'

theorem objects_eq_named (page : ListingPage) : page.objects = named page.entries := by
  refine List.filter_congr fun o _ => ?_
  simp only [← StoredObject.isPlaceholder_eq_false, Bool.decide_eq_false]

/-- **A page is verbatim unless a key or its token has a blank at an edge.** Objects whose sizes and
instants fit can be in a page, and every page with them is read: with its flag, and with all of them
in order but those that stand for folders. -/
theorem verbatim_unless_padded (objects : List StoredObject)
    (hobjects : ∀ o ∈ objects, o.IsListable) (isTruncated : Bool) (nextToken : Option String) :
    (∃ d : ListingDocument, d.listed.map ListedObject.object = objects ∧
      d.isTruncated = isTruncated ∧ d.nextToken = nextToken) ∧
    ∀ d : ListingDocument, d.listed.map ListedObject.object = objects →
      d.isTruncated = isTruncated → d.nextToken = nextToken →
      ∃ page, ListingPage.parse? d.text = some page ∧
        page.isTruncated = isTruncated ∧
        page.nextToken = nextToken.map (fun token => String.ofList (trimmed token.toList)) ∧
        page.objects = named (objects.map StoredObject.readBack) ∧
        ((∀ o ∈ objects, trimmed o.key.toList = o.key.toList) → page.objects = named objects) ∧
        ((∀ token ∈ nextToken, trimmed token.toList = token.toList) →
          page.nextToken = nextToken) := by
  constructor
  · refine ⟨{ listed := objects.pmap ListedObject.ofObject hobjects, isTruncated, nextToken,
              gap := [], isGap := fun _ h => absurd h List.not_mem_nil }, ?_, rfl, rfl⟩
    rw [List.map_pmap]
    exact (List.pmap_eq_map hobjects).trans (List.map_id objects)
  · rintro d rfl rfl rfl
    refine ⟨_, parse?_text d, rfl, rfl, ?_, fun hkeys => ?_, fun htoken => ?_⟩
    · rw [objects_eq_named, List.map_map]
      rfl
    · rw [objects_eq_named]
      refine congrArg named (List.map_congr_left fun l hl => ?_)
      rw [StoredObject.readBack, hkeys _ (List.mem_map_of_mem hl), String.ofList_toList]
    · cases hnext : d.nextToken with
      | none => rfl
      | some token =>
        rw [Option.map_some, htoken token hnext, String.ofList_toList]

/-- A page in which every text has to be escaped. -/
theorem verbatim_unless_padded_escaped :
    ∃ d : ListingDocument, d.listed.map ListedObject.object = [⟨"<\ta&b\">'\n.py", 1, .epoch⟩] ∧
      ∃ page, ListingPage.parse? d.text = some page ∧
        page.objects = [⟨"<\ta&b\">'\n.py", 1, .epoch⟩] ∧ page.isTruncated = true ∧
        page.nextToken = some "a&b" := by
  have hlistable : ∀ o ∈ [(⟨"<\ta&b\">'\n.py", 1, .epoch⟩ : StoredObject)], o.IsListable := by
    intro o ho
    rw [List.mem_singleton.1 ho]
    exact ⟨by decide, by decide, by decide, by decide⟩
  obtain ⟨⟨d, hlisted, htruncated, hnext⟩, hread⟩ :=
    verbatim_unless_padded _ hlistable true (some "a&b")
  obtain ⟨page, hparse, hflag, -, -, hobjects, htoken⟩ := hread d hlisted htruncated hnext
  refine ⟨d, hlisted, page, hparse, ?_, hflag, htoken fun token h => ?_⟩
  · rw [hobjects]
    · decide
    · intro o ho
      rw [List.mem_singleton.1 ho]
      decide
  · cases h
    decide

theorem parseStrict?_epoch : Instant.parseStrict?
    (String.ofList (trimmed "1970-01-01T00:00:00.000Z".toList)) = some .epoch := by
  decide +kernel

/-- A page with one object of one byte, which is as old as the epoch. -/
def ofKey (key : String) : ListingDocument where
  listed := [{ object := ⟨key, 1, .epoch⟩, modified := _,
               size_lt := show 1 < Nat.pow 2 64 by decide, read_modified := parseStrict?_epoch }]
  isTruncated := false
  nextToken := none
  gap := []
  isGap := by decide

/-- A key that ends with a blank is read as another key. -/
theorem parse?_padded :
    (ofKey "a ").listed.map ListedObject.object = [⟨"a ", 1, .epoch⟩] ∧
    ∃ page, ListingPage.parse? (ofKey "a ").text = some page ∧
      page.objects = [⟨"a", 1, .epoch⟩] := by
  refine ⟨rfl, _, parse?_text _, ?_⟩
  decide

end ListingDocument

end SourceDocs
