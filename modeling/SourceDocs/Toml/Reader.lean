import SourceDocs.Toml.Scalar

set_option autoImplicit false

/-! # Reading TOML documents

A document is a list of lines: fields, and headers that say which table the fields after them belong
to. `Toml.parse?` gives the table that a document stands for. No field may be given twice, and a
table may be given once by a header, or piece by piece through dotted names, but not both ways. -/

namespace SourceDocs.Toml

/-- What a name stands for while a document is being read. -/
inductive Item where
  | value (v : Value)
  /-- A table. It is `implied` as long as it was only named on the way to something below it, and
  `dotted` if that was in a dotted name of a field. -/
  | table (implied dotted : Bool) (entries : List (String × Item))
  /-- A list of tables, each given by a header. -/
  | tables (elements : List (List (String × Item)))

/-- The entries of a table. -/
abbrev Entries := List (String × Item)

namespace Item

mutual

/-- The value of an item. -/
def toValue : Item → Value
  | value v => v
  | table _ _ entries => .table (fieldsOf entries)
  | tables elements => .array (valuesOf elements)

/-- The fields of entries. -/
def fieldsOf : Entries → List (String × Value)
  | [] => []
  | (name, item) :: rest => (name, toValue item) :: fieldsOf rest

/-- The tables with given entries. -/
def valuesOf : List Entries → List Value
  | [] => []
  | e :: rest => .table (fieldsOf e) :: valuesOf rest

end

end Item

/-- Puts an item under a name, in place of what was there. -/
def replaceEntry (name : String) (item : Item) : Entries → Entries
  | [] => [(name, item)]
  | e :: rest => if e.1 = name then (name, item) :: rest else e :: replaceEntry name item rest

/-- Changes the entries of the table that a path leads to; tables on the way are made where they are
missing. `byDots` tells a path within the dotted name of a field, which may not lead into a table
that a header gave. The change is told whether the table is dotted. -/
def changeAt? (byDots : Bool) (change : Bool → Entries → Option Entries) (dotted : Bool) :
    List String → Entries → Option Entries
  | [], entries => change dotted entries
  | name :: path, entries =>
    match entries.lookup name with
    | none => do
      let inner ← changeAt? byDots change byDots path []
      return entries ++ [(name, .table true byDots inner)]
    | some (.value _) => none
    | some (.table implied dotted inner) =>
      if byDots && !implied then none
      else do
        let inner ← changeAt? byDots change dotted path inner
        return replaceEntry name (.table implied dotted inner) entries
    | some (.tables elements) =>
      match elements.getLast? with
      | none => none
      | some last => do
        let last ← changeAt? byDots change false path last
        return replaceEntry name (.tables (elements.dropLast ++ [last])) entries

/-- The entries with one more field, whose name may be dotted. -/
def addField? (entries : Entries) (name : List String) (v : Value) : Option Entries := do
  let last ← name.getLast?
  let path := name.dropLast
  let add (dotted : Bool) (entries : Entries) : Option Entries :=
    if dotted == path.isEmpty || (entries.lookup last).isSome then none
    else some (entries ++ [(last, .value v)])
  changeAt? true add false path entries

/-! ## Names and values -/

/-- The largest number of parts of a name, and of nested values. -/
def maxDepth : Nat := 79

/-- Whether `c` may stand in a name without quotes. -/
def isNameChar (c : Char) : Bool := c.isAlphanum || c = '_' || c = '-'

/-- One part of a name. -/
def part? (cs : List Char) : Option (String × List Char) :=
  match cs with
  | '"' :: rest => (quoted? (cs.length + 1) rest).map fun r => (String.ofList r.1, r.2)
  | '\'' :: rest => (literal? rest).map fun r => (String.ofList r.1, r.2)
  | _ =>
    match cs.takeWhile isNameChar with
    | [] => none
    | name => some (String.ofList name, cs.drop name.length)

/-- A name: parts with dots between them and blanks around them. The first argument bounds the
number of parts. -/
def name? : Nat → List Char → Option (List String × List Char)
  | 0, _ => none
  | fuel + 1, cs => do
    let (part, cs) ← part? (skipGap cs)
    match skipGap cs with
    | '.' :: rest =>
      let (parts, rest) ← name? fuel rest
      return (part :: parts, rest)
    | cs => return ([part], cs)

mutual

/-- A value. The first argument bounds the work, the second the nesting. -/
def value? : Nat → Nat → List Char → Option (Value × List Char)
  | 0, _, _ => none
  | fuel + 1, depth, cs =>
    match cs with
    | '[' :: rest =>
      match depth with
      | 0 => none
      | depth + 1 => (items? fuel depth rest).map fun r => (.array r.1, r.2)
    | '{' :: rest =>
      match depth with
      | 0 => none
      | depth + 1 =>
        match skipGap rest with
        | '}' :: rest => some (.table [], rest)
        | rest => (pairs? fuel depth [] rest).map fun r => (.table (Item.fieldsOf r.1), r.2)
    | 't' :: 'r' :: 'u' :: 'e' :: rest => some (.boolean true, rest)
    | 'f' :: 'a' :: 'l' :: 's' :: 'e' :: rest => some (.boolean false, rest)
    | '"' :: _ => (string? cs).map fun r => (.string r.1, r.2)
    | '\'' :: _ => (string? cs).map fun r => (.string r.1, r.2)
    | _ => number? cs

/-- The items of an array up to its closing bracket. -/
def items? : Nat → Nat → List Char → Option (List Value × List Char)
  | 0, _, _ => none
  | fuel + 1, depth, cs => do
    match ← skipLines? (cs.length + 1) cs with
    | ']' :: rest => return ([], rest)
    | cs =>
      let (v, rest) ← value? fuel depth cs
      match ← skipLines? (rest.length + 1) rest with
      | ']' :: rest => return ([v], rest)
      | ',' :: rest =>
        let (vs, rest) ← items? fuel depth rest
        return (v :: vs, rest)
      | _ => none

/-- The fields of a table within a line up to its closing brace, on top of those read already. -/
def pairs? : Nat → Nat → Entries → List Char → Option (Entries × List Char)
  | 0, _, _, _ => none
  | fuel + 1, depth, entries, cs => do
    let (name, rest) ← name? maxDepth cs
    match rest with
    | '=' :: rest =>
      let (v, rest) ← value? fuel depth (skipGap rest)
      let entries ← addField? entries name v
      match skipGap rest with
      | '}' :: rest => return (entries, rest)
      | ',' :: rest => pairs? fuel depth entries rest
      | _ => none
    | _ => none

end

/-! ## Documents -/

/-- A document while it is being read: what came before the last header, and the table that the last
header named. -/
structure Draft where
  root : Entries := []
  current : Entries := []
  /-- Where the table belongs; nothing before the first header. -/
  path : List String := []
  /-- Whether the table is one of a list. -/
  isElement : Bool := false

namespace Draft

/-- What the document stands for with its last table put into place. -/
def close? (d : Draft) : Option Entries :=
  match d.path.getLast? with
  | none => some d.current
  | some name =>
    let place (_ : Bool) (entries : Entries) : Option Entries :=
      if d.isElement then
        match entries.lookup name with
        | none => some (entries ++ [(name, .tables [d.current])])
        | some (.tables elements) =>
          some (replaceEntry name (.tables (elements ++ [d.current])) entries)
        | some _ => none
      else
        match entries.lookup name with
        | none => some (entries ++ [(name, .table false false d.current)])
        | some (.table true _ _) =>
          some (replaceEntry name (.table false false d.current) entries)
        | some _ => none
    changeAt? false place false d.path.dropLast d.root

/-- The entries that a header finds already in its table. -/
def entriesAt? (root : Entries) : List String → Option Item
  | [] => none
  | [name] => root.lookup name
  | name :: rest =>
    match root.lookup name with
    | some (.table _ _ inner) => entriesAt? inner rest
    | some (.tables elements) => elements.getLast?.bind fun last => entriesAt? last rest
    | _ => none

/-- The draft after the header of a table. -/
def openTable? (d : Draft) (path : List String) : Option Draft := do
  let root ← d.close?
  let name ← path.getLast?
  let clear (_ : Bool) (entries : Entries) : Option Entries :=
    match entries.lookup name with
    | none => some entries
    | some (.table true false _) => some (entries.filter fun e => e.1 ≠ name)
    | some _ => none
  let cleared ← changeAt? false clear false path.dropLast root
  let current :=
    match entriesAt? root path with
    | some (.table _ _ inner) => inner
    | _ => []
  return { root := cleared, current, path }

/-- The draft after the header of one table of a list. -/
def openElement? (d : Draft) (path : List String) : Option Draft := do
  let root ← d.close?
  let name ← path.getLast?
  let prepare (_ : Bool) (entries : Entries) : Option Entries :=
    match entries.lookup name with
    | none => some (entries ++ [(name, .tables [])])
    | some (.tables _) => some entries
    | some _ => none
  let root ← changeAt? false prepare false path.dropLast root
  return { root, path, isElement := true }

/-- The draft after one more field. -/
def addField? (d : Draft) (name : List String) (v : Value) : Option Draft :=
  (Toml.addField? d.current name v).map fun current => { d with current }

end Draft

/-- The draft after the lines left. The first argument bounds their number. -/
def lines? : Nat → Draft → List Char → Option Draft
  | 0, _, _ => none
  | fuel + 1, d, cs =>
    match skipGap cs with
    | [] => some d
    | '#' :: rest => (lineEnd? ('#' :: rest)).bind (lines? fuel d)
    | '\n' :: rest => lines? fuel d rest
    | '\r' :: rest => (newline? ('\r' :: rest)).bind (lines? fuel d)
    | '[' :: '[' :: rest => do
      let (path, rest) ← name? maxDepth rest
      match rest with
      | ']' :: ']' :: rest => lines? fuel (← d.openElement? path) (← lineEnd? rest)
      | _ => none
    | '[' :: rest => do
      let (path, rest) ← name? maxDepth rest
      match rest with
      | ']' :: rest => lines? fuel (← d.openTable? path) (← lineEnd? rest)
      | _ => none
    | cs => do
      let (name, rest) ← name? maxDepth cs
      match rest with
      | '=' :: rest =>
        let (v, rest) ← value? (rest.length + 1) maxDepth (skipGap rest)
        lines? fuel (← d.addField? name v) (← lineEnd? rest)
      | _ => none

/-- The fields that a document stands for. A byte order mark may stand before it. -/
def parse? (s : String) : Option (List (String × Value)) := do
  let cs :=
    match s.toList with
    | '\uFEFF' :: rest => rest
    | cs => cs
  let d ← lines? (cs.length + 1) {} cs
  return Item.fieldsOf (← d.close?)

/-! ## Decoding -/

namespace Value

/-- A text. -/
def text? : Value → Option String
  | string s => some s
  | _ => none

/-- A truth value. -/
def flag? : Value → Option Bool
  | boolean b => some b
  | _ => none

/-- A natural number up to `bound`. -/
def natUpTo? (bound : Nat) : Value → Option Nat
  | integer n => if 0 ≤ n && n ≤ bound then some n.toNat else none
  | _ => none

/-- A list of texts. -/
def texts? : Value → Option (List String)
  | array items => items.mapM text?
  | _ => none

/-- The values of the fields of a record, in the order of `names`: by name from a table, by position
from an array. A date or a time is read as a record without fields. -/
def record? (names : List String) : Value → Option (List (Option Value))
  | table fields => some (names.map fun name => fields.lookup name)
  | array items => some ((List.range names.length).map fun i => items[i]?)
  | moment => some (names.map fun _ => none)
  | _ => none

/-- The value of a field, or a default if there is none. -/
def orDefault? {α : Type} (read : Value → Option α) (dflt : α) : Option Value → Option α
  | none => some dflt
  | some v => read v

end Value

end SourceDocs.Toml
