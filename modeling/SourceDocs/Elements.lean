import SourceDocs.Language
import SourceDocs.Pattern
import SourceDocs.Text.Blank

set_option autoImplicit false

/-! # Structural elements: functions, classes, comments, docstrings

Seven languages have an `Extractor`: a handful of patterns whose matches, left to right, are the
elements of a file. The patterns are heuristics, not parsers; a signature split over lines or a
comment marker inside a string literal is missed or misread. A kind of element that a language has
no pattern for is absent from the result, which differs from a pattern that found nothing. -/

namespace SourceDocs

/-- The elements recognised in one file. -/
structure ElementSet where
  functions : List String
  classes : Option (List String) := none
  comments : List String
  docstrings : Option (List String) := none
  deriving DecidableEq

/-- How the elements of one language are recognised. -/
structure Extractor where
  /-- Names a function. -/
  functions : Pattern
  /-- Names that the function pattern takes for functions but are none. -/
  keywords : List String := []
  /-- Names a class, if the language has them. -/
  classes : Option Pattern := none
  /-- A whole comment. -/
  comments : Pattern
  /-- A whole docstring, if the language has them. -/
  docstrings : Option Pattern := none

namespace Elements

open Pattern Text

/-! ## Character classes -/

/-- One of the characters of `s`. -/
def among (s : String) (c : Char) : Bool :=
  s.toList.contains c

/-- None of the characters of `s`. -/
def notAmong (s : String) (c : Char) : Bool :=
  !among s c

/-- A space or a tab. -/
def isGap : Char → Bool := among " \t"

/-- Any number of blanks. -/
def blanks : Pattern := most isBlank

/-- At least one blank. -/
def blanks1 : Pattern := most1 isBlank

/-- An identifier, remembered as the match's name. -/
def identifier : Pattern := named (most1 isWord)

/-! ## Comments and docstrings -/

/-- A comment from a hash sign to the end of the line. -/
def hashComment : Pattern :=
  lit "#" ++ most (notAmong "\n")

/-- A comment from two slashes to the end of the line, or one between a slash with a star and the
next star with a slash. -/
def slashComment : Pattern :=
  firstOf (lit "//" ++ most (notAmong "\n"))
    [lit "/*" ++ fewest (fun _ => true) ++ lit "*/"]

/-- A stretch between two triple quotes of one kind. -/
def tripleQuoted : Pattern :=
  firstOf (lit "\"\"\"" ++ fewest (fun _ => true) ++ lit "\"\"\"")
    [lit "'''" ++ fewest (fun _ => true) ++ lit "'''"]

/-! ## The languages -/

/-- A definition `def name(…) -> …:`, its parameter list on one line. -/
def pythonFunction : Pattern :=
  wordEdge ++ lit "def" ++ blanks1 ++ identifier ++ blanks ++
    lit "(" ++ most (notAmong "\n") ++ lit ")" ++
    optional (blanks ++ lit "->" ++ blanks ++ most1 (notAmong ":\n")) ++ blanks ++ lit ":"

/-- A definition `class Name(…):`. -/
def pythonClass : Pattern :=
  wordEdge ++ lit "class" ++ blanks1 ++ identifier ++ blanks ++
    optional (lit "(" ++ most (notAmong "\n") ++ lit ")") ++ blanks ++ lit ":"

/-- A method with an access modifier, a result type and a body. -/
def javaFunction : Pattern :=
  wordEdge ++ firstOf (lit "public") [lit "protected", lit "private"] ++ blanks1 ++
    loop (firstOf (lit "static") [lit "final", lit "abstract", lit "synchronized", lit "native"] ++
      blanks1) ++
    most1 (fun c => isWord c || among "<>[],.?" c) ++ blanks1 ++ identifier ++ blanks ++
    lit "(" ++ most (notAmong ")") ++ lit ")" ++ blanks ++
    optional (lit "throws" ++ blanks1 ++ most1 (fun c => isWord c || isBlank c || among ".," c)) ++
    lit "\x7b"

/-- A class, interface or enumeration with a body. -/
def javaClass : Pattern :=
  wordEdge ++ firstOf (lit "class") [lit "interface", lit "enum"] ++ blanks1 ++ identifier ++
    most (notAmong "\x7b;") ++ lit "\x7b"

/-- A function definition that starts its line. -/
def cFunction : Pattern :=
  lineStart ++ most isGap ++
    loop1 (most1 (fun c => isWord c || among ":<>,*&~" c) ++ most1 isGap) ++
    optional (one (among "*&")) ++
    named (loop (most1 isWord ++ lit "::") ++ optional (lit "~") ++ most1 isWord) ++ most isGap ++
    lit "(" ++ most (notAmong ";\x7b\x7d()") ++ lit ")" ++ most isGap ++
    optional (lit "const" ++ most isGap) ++ optional (lit "noexcept" ++ most isGap) ++
    optional (lit "override" ++ most isGap) ++ lit "\x7b"

/-- A class or structure with a body. -/
def cppClass : Pattern :=
  wordEdge ++ firstOf (lit "class") [lit "struct"] ++ blanks1 ++ identifier ++
    most (notAmong ";\x7b()") ++ lit "\x7b"

/-- Words that head a block as a function does. -/
def cKeywords : List String :=
  ["if", "for", "while", "switch", "return", "else", "do", "catch", "sizeof", "new", "delete"]

/-- A function, with or without receiver and type parameters. -/
def goFunction : Pattern :=
  wordEdge ++ lit "func" ++ blanks1 ++
    optional (lit "(" ++ most (notAmong ")") ++ lit ")" ++ blanks) ++ identifier ++ blanks ++
    optional (lit "[" ++ most (notAmong "]") ++ lit "]" ++ blanks) ++ lit "("

/-- A function declaration, or a variable bound to a function. -/
def javaScriptFunction : Pattern :=
  firstOf
    (wordEdge ++ lit "function" ++ wordEdge ++ blanks ++ optional (lit "*") ++ blanks ++
      identifier ++ blanks ++ lit "(")
    [wordEdge ++ firstOf (lit "const") [lit "let", lit "var"] ++ blanks1 ++ identifier ++ blanks ++
      lit "=" ++ blanks ++ optional (lit "async" ++ blanks1) ++
      firstOf (lit "function" ++ wordEdge)
        [lit "(" ++ most (notAmong ")") ++ lit ")" ++ blanks ++ lit "=>",
          most1 isWord ++ blanks ++ lit "=>"]]

/-- A class. -/
def javaScriptClass : Pattern :=
  wordEdge ++ lit "class" ++ blanks1 ++ identifier

/-- A function. -/
def rustFunction : Pattern :=
  wordEdge ++ lit "fn" ++ blanks1 ++ identifier

/-- A structure, enumeration or trait. -/
def rustType : Pattern :=
  wordEdge ++ firstOf (lit "struct") [lit "enum", lit "trait"] ++ blanks1 ++ identifier

end Elements

namespace Extractor

open Elements

/-- The extractors and the names of the languages they are for. -/
def all : List (String × Extractor) :=
  [("Python",
      { functions := pythonFunction, classes := some pythonClass, comments := hashComment,
        docstrings := some tripleQuoted }),
    ("Java", { functions := javaFunction, classes := some javaClass, comments := slashComment }),
    ("C++",
      { functions := cFunction, keywords := cKeywords, classes := some cppClass,
        comments := slashComment }),
    ("C", { functions := cFunction, keywords := cKeywords, comments := slashComment }),
    ("Go", { functions := goFunction, comments := slashComment }),
    ("JavaScript",
      { functions := javaScriptFunction, classes := some javaScriptClass,
        comments := slashComment }),
    ("Rust", { functions := rustFunction, classes := some rustType, comments := slashComment })]

/-- The extractor for a language; only known languages have one. -/
def for? : Language → Option Extractor
  | .known name => all.lookup name
  | .unknown => none

/-- The elements of a text. -/
def extract (e : Extractor) (content : String) : ElementSet :=
  let text := content.toList.toArray
  { functions := (e.functions.names text).filter fun name => !e.keywords.contains name
    classes := e.classes.map fun p => p.names text
    comments := e.comments.texts text
    docstrings := e.docstrings.map fun p => p.texts text }

end Extractor

/-- The elements of a file of the given language, if that language has an extractor. -/
def extractElements? (language : Language) (content : String) : Option ElementSet :=
  (Extractor.for? language).map fun e => e.extract content

/-- What is reported where a language has no extractor. -/
def noExtractorMessage (language : Language) : String :=
  "no extractor available for language: " ++ language.name

end SourceDocs
