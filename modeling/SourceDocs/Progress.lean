import SourceDocs.Json

set_option autoImplicit false

/-! # Progress: what a run tells while it goes on -/

namespace SourceDocs

/-- One message about the state of a run. -/
inductive ProgressEvent where
  /-- A source is about to be read. -/
  | discovering (source : String)
  /-- Of the `total` requests of a stage, `n` are done. -/
  | generating (stage : String) (n total : Nat)
  deriving DecidableEq

/-- How progress is shown. -/
inductive ProgressMode where
  | off
  | human
  | json
  deriving DecidableEq

namespace ProgressMode

/-- The mode a word stands for. -/
def ofName? (s : String) : Option ProgressMode :=
  if s = "off" || s = "none" then some off
  else if s = "human" then some human
  else if s = "json" then some json
  else none

end ProgressMode

/-- A digit that `place` digits stand after, behind the comma that it needs when read backwards. -/
def placedDigit (place : Nat) (digit : Char) : List Char :=
  if 0 < place && place % 3 = 0 then [',', digit] else [digit]

/-- Digits, last digit first, with a comma after every third that has a digit after it. -/
def groupThousands (digits : List Char) : List Char :=
  digits.zipIdx.flatMap fun (digit, place) => placedDigit place digit

/-- A number in decimal digits, in groups of three set apart by commas. -/
def formatNumber (n : Nat) : String :=
  String.ofList (groupThousands (toString n).toList.reverse).reverse

namespace ProgressEvent

/-- The event as a line for people. -/
def humanLine : ProgressEvent → String
  | discovering source => "scan " ++ source ++ "  discovering..."
  | generating stage n total =>
    "document  " ++ stage ++ "  " ++ formatNumber n ++ " / " ++ formatNumber total ++ " jobs"

/-- The event as JSON, with its fields in name order. -/
def toJson : ProgressEvent → Json
  | discovering source =>
    .object [("event", .string "progress"), ("phase", .string "discovering"),
      ("source", .string source)]
  | generating stage n total =>
    .object [("event", .string "progress"), ("n", .nat n), ("phase", .string "generating"),
      ("stage", .string stage), ("total", .nat total)]

/-- The line that shows an event, if the mode shows any. -/
def line? (mode : ProgressMode) (e : ProgressEvent) : Option String :=
  match mode with
  | .off => none
  | .human => some e.humanLine
  | .json => some e.toJson.compactText

end ProgressEvent

end SourceDocs
