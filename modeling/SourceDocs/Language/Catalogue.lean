import SourceDocs.Elements

set_option autoImplicit false

/-! # The catalogue of languages: extensions and first lines

Each entry of the catalogue names a language, the file extensions (or whole file names) it goes by
and, for some, a pattern found in the first line of such files. Where two entries claim one
extension or one line the later entry is meant. -/

namespace SourceDocs.Language

/-- What is known about the files of one language. -/
structure Entry where
  name : String
  extensions : List String
  firstLine? : Option Pattern

open Pattern Elements Text

/-! ## First lines -/

/-- Any characters of the line. -/
def anything : Pattern := most (notAmong "\n")

/-- At least one character of the line. -/
def anything1 : Pattern := most1 (notAmong "\n")

/-- The two characters that start an interpreter line. -/
def hashBang : Pattern := textStart ++ lit "#!"

/-- An interpreter line that names `osascript`. -/
def osascriptLine : Pattern := hashBang ++ anything ++ lit "osascript"

/-- An editor mode line for C++. -/
def cppModeLine : Pattern := lit "-*- C++ -*-"

/-- An editor mode line for C. -/
def cModeLine : Pattern := lit "-*-" ++ optional (lit " Mode:") ++ lit " C -*-"

/-- An editor mode line for Go. -/
def goModeLine : Pattern := lit "-*-" ++ optional (lit " Mode:") ++ lit " Go -*-"

/-- An interpreter line that names `dmd` or `gdmd`, with something after it. -/
def dLine : Pattern :=
  hashBang ++ anything ++ wordEdge ++ optional (lit "g") ++ lit "dmd" ++ wordEdge ++
    one (notAmong "\n")

/-- A list of line numbers as in `12,15`. -/
def lineNumbers : Pattern := most1 isDigit ++ loop (lit "," ++ most1 isDigit)

/-- The first line of a set of differences in one of seven formats. -/
def diffLine : Pattern :=
  textStart ++
    firstOf (lit "=== modified file")
      [lit "====" ++ blanks ++ lit "//" ++ anything1 ++ one isBlank ++ lit "-" ++ one isBlank ++
          anything1 ++ blanks1 ++ lit "====",
        lit "Index: ",
        lit "--- " ++ one (notAmong "%"),
        lit "***" ++ anything ++ one isDigit ++ one isDigit ++ one isDigit ++ one isDigit ++
          blanks ++ textEnd,
        lineNumbers ++ one (among "adc") ++ lineNumbers ++ textEnd,
        lit "diff --git "]

/-- An opening `html` tag or document type. -/
def htmlLine : Pattern :=
  lit "<" ++ optional (litAnyCase "!DOCTYPE" ++ blanks) ++ litAnyCase "html"

/-- An interpreter line with a path and the word `node` or `js`. -/
def javaScriptLine : Pattern :=
  hashBang ++ blanks ++ lit "/" ++ anything ++ wordEdge ++ firstOf (lit "node") [lit "js"] ++
    wordEdge

/-- The banner of a typesetting log. -/
def latexLogLine : Pattern :=
  lit "This is " ++ optional (firstOf (lit "pdf") [lit "pdfe"]) ++ lit "TeX" ++
    optional (lit "k") ++ lit ", Version "

/-- An interpreter line that names `/usr/bin/make`. -/
def makeLine : Pattern := hashBang ++ blanks ++ lit "/usr/bin/make" ++ wordEdge

/-- The format declaration of a complete document. -/
def multiMarkdownLine : Pattern :=
  textStart ++ litAnyCase "format:" ++ blanks ++ litAnyCase "complete" ++ blanks ++ textEnd

/-- An interpreter line that names `php`, or an opening `<?php`. -/
def phpLine : Pattern :=
  textStart ++
    firstOf (lit "#!" ++ anything ++ one (notAmong "-") ++ lit "php" ++
        optional (one (among "0123456789")))
      [lit "<?php"] ++
    wordEdge

/-- An interpreter line with the word `perl`. -/
def perlLine : Pattern := hashBang ++ anything ++ wordEdge ++ lit "perl" ++ wordEdge

/-- An interpreter line with a path and the word `python`, with or without a version. -/
def pythonLine : Pattern :=
  hashBang ++ blanks ++ lit "/" ++ anything ++ wordEdge ++ lit "python" ++
    optional (one isDigit ++ optional (lit "." ++ one isDigit)) ++ wordEdge

/-- An interpreter line with a path and the word `ruby` or `jruby`. -/
def rubyLine : Pattern :=
  hashBang ++ blanks ++ lit "/" ++ anything ++ wordEdge ++ optional (lit "j") ++ lit "ruby" ++
    wordEdge

/-- An interpreter line that names a shell, or an editor mode line for shell scripts. -/
def shellLine : Pattern :=
  firstOf
    (hashBang ++ anything ++ wordEdge ++
      firstOf (lit "bash") [lit "zsh", lit "sh", lit "tcsh"] ++ wordEdge)
    [textStart ++ lit "#" ++ blanks ++ lit "-*-" ++ most (notAmong "*") ++ lit "mode:" ++ blanks ++
      lit "shell-script" ++ most (notAmong "*") ++ lit "-*-"]

/-- The name of the format. -/
def textileLine : Pattern := lit "textile"

/-- An XML declaration, or the opening tag of a SOAP envelope that binds its own prefix. -/
def xmlLine : Pattern :=
  textStart ++
    firstOf (lit "<?xml" ++ one isBlank)
      [blanks ++ lit "<" ++ named (most1 fun c => isWord c || c == '-') ++ lit ":Envelope" ++
        blanks1 ++ lit "xmlns:" ++ again ++ blanks ++ lit "=" ++ blanks ++
        lit "\"http://schemas" ++ one (notAmong "\n") ++ lit "xmlsoap" ++ one (notAmong "\n") ++
        lit "org/soap/envelope/\"" ++ blanks ++ lit ">"]

/-- A version directive. -/
def yamlLine : Pattern :=
  textStart ++ lit "%YAML" ++
    optional (optional (lit " ") ++ lit "1" ++ one (notAmong "\n") ++ most1 isDigit)

/-! ## The catalogue -/

/-- The name of the entry that stands for text of no particular language. -/
def plainText : String := "Plain Text"

/-- All entries, least preferred first. -/
def catalogue : List Entry :=
  [⟨"Plain Text", ["txt"], none⟩,
    ⟨"ASP", ["asa"], none⟩,
    ⟨"HTML (ASP)", ["asp"], none⟩,
    ⟨"ActionScript", ["as"], none⟩,
    ⟨"AppleScript", ["applescript", "script editor"], some osascriptLine⟩,
    ⟨"Batch File", ["bat", "cmd"], none⟩,
    ⟨"NAnt Build File", ["build"], none⟩,
    ⟨"C#", ["cs", "csx"], none⟩,
    ⟨"C++", ["cpp", "cc", "cp", "cxx", "c++", "C", "h", "hh", "hpp", "hxx", "h++", "inl", "ipp"],
      some cppModeLine⟩,
    ⟨"C", ["c", "h"], some cModeLine⟩,
    ⟨"CSS", ["css", "css.erb", "css.liquid"], none⟩,
    ⟨"Clojure", ["clj"], none⟩,
    ⟨"D", ["d", "di"], some dLine⟩,
    ⟨"Diff", ["diff", "patch"], some diffLine⟩,
    ⟨"Erlang", ["erl", "hrl", "Emakefile", "emakefile"], none⟩,
    ⟨"HTML (Erlang)", ["yaws"], none⟩,
    ⟨"Go", ["go"], some goModeLine⟩,
    ⟨"Graphviz (DOT)", ["dot", "DOT", "gv"], none⟩,
    ⟨"Groovy", ["groovy", "gvy", "gradle"], none⟩,
    ⟨"HTML", ["html", "htm", "shtml", "xhtml", "inc", "tmpl", "tpl"], some htmlLine⟩,
    ⟨"Haskell", ["hs"], none⟩,
    ⟨"Literate Haskell", ["lhs"], none⟩,
    ⟨"Java Server Page (JSP)", ["jsp"], none⟩,
    ⟨"Java", ["java", "bsh"], none⟩,
    ⟨"JavaDoc", [], none⟩,
    ⟨"Java Properties", ["properties"], none⟩,
    ⟨"JSON", ["json", "sublime-settings", "sublime-menu", "sublime-keymap", "sublime-mousemap",
      "sublime-theme", "sublime-build", "sublime-project", "sublime-completions",
      "sublime-commands", "sublime-macro", "sublime-color-scheme"], none⟩,
    ⟨"JavaScript", ["js", "htc"], some javaScriptLine⟩,
    ⟨"Regular Expressions (Javascript)", [], none⟩,
    ⟨"BibTeX", ["bib"], none⟩,
    ⟨"LaTeX Log", [], some latexLogLine⟩,
    ⟨"LaTeX", ["tex", "ltx"], none⟩,
    ⟨"TeX", ["sty", "cls"], none⟩,
    ⟨"Lisp", ["lisp", "cl", "clisp", "l", "mud", "el", "scm", "ss", "lsp", "fasl"], none⟩,
    ⟨"Lua", ["lua"], none⟩,
    ⟨"Make Output", [], none⟩,
    ⟨"Makefile", ["make", "GNUmakefile", "makefile", "Makefile", "OCamlMakefile", "mak", "mk"],
      some makeLine⟩,
    ⟨"Markdown", ["md", "mdown", "markdown", "markdn"], none⟩,
    ⟨"MultiMarkdown", [], some multiMarkdownLine⟩,
    ⟨"MATLAB", ["matlab"], none⟩,
    ⟨"OCaml", ["ml", "mli"], none⟩,
    ⟨"OCamllex", ["mll"], none⟩,
    ⟨"OCamlyacc", ["mly"], none⟩,
    ⟨"camlp4", [], none⟩,
    ⟨"Objective-C++", ["mm", "M", "h"], none⟩,
    ⟨"Objective-C", ["m", "h"], none⟩,
    ⟨"PHP Source", [], none⟩,
    ⟨"PHP", ["php", "php3", "php4", "php5", "php7", "phps", "phpt", "phtml"], some phpLine⟩,
    ⟨"Pascal", ["pas", "p", "dpr"], none⟩,
    ⟨"Perl", ["pl", "pm", "pod", "t", "PL"], some perlLine⟩,
    ⟨"Python", ["py", "py3", "pyw", "pyi", "pyx", "pyx.in", "pxd", "pxd.in", "pxi", "pxi.in",
      "rpy", "cpy", "SConstruct", "Sconstruct", "sconstruct", "SConscript", "gyp", "gypi",
      "Snakefile", "wscript"], some pythonLine⟩,
    ⟨"Regular Expressions (Python)", [], none⟩,
    ⟨"R Console", [], none⟩,
    ⟨"R", ["R", "r", "s", "S", "Rprofile"], none⟩,
    ⟨"Rd (R Documentation)", ["rd"], none⟩,
    ⟨"HTML (Rails)", ["rails", "rhtml", "erb", "html.erb"], none⟩,
    ⟨"JavaScript (Rails)", ["js.erb"], none⟩,
    ⟨"Ruby Haml", ["haml", "sass"], none⟩,
    ⟨"Ruby on Rails", ["rxml", "builder"], none⟩,
    ⟨"SQL (Rails)", ["erbsql", "sql.erb"], none⟩,
    ⟨"Regular Expression", ["re"], none⟩,
    ⟨"reStructuredText", ["rst", "rest"], none⟩,
    ⟨"Ruby", ["rb", "Appfile", "Appraisals", "Berksfile", "Brewfile", "capfile", "cgi",
      "Cheffile", "config.ru", "Deliverfile", "Fastfile", "fcgi", "Gemfile", "gemspec",
      "Guardfile", "irbrc", "jbuilder", "podspec", "prawn", "rabl", "rake", "Rakefile",
      "Rantfile", "rbx", "rjs", "ruby.rail", "Scanfile", "simplecov", "Snapfile", "thor",
      "Thorfile", "Vagrantfile"], some rubyLine⟩,
    ⟨"Cargo Build Results", [], none⟩,
    ⟨"Rust", ["rs"], none⟩,
    ⟨"SQL", ["sql", "ddl", "dml"], none⟩,
    ⟨"Scala", ["scala", "sbt"], none⟩,
    ⟨"Bourne Again Shell (bash)", ["sh", "bash", "zsh", "fish", ".bash_aliases",
      ".bash_completions", ".bash_functions", ".bash_login", ".bash_logout", ".bash_profile",
      ".bash_variables", ".bashrc", ".profile", ".textmate_init"], some shellLine⟩,
    ⟨"Shell-Unix-Generic", [], none⟩,
    ⟨"commands-builtin-shell-bash", [], none⟩,
    ⟨"HTML (Tcl)", ["adp"], none⟩,
    ⟨"Tcl", ["tcl"], none⟩,
    ⟨"Textile", ["textile"], some textileLine⟩,
    ⟨"XML", ["xml", "xsd", "xslt", "tld", "dtml", "rss", "opml", "svg"], some xmlLine⟩,
    ⟨"YAML", ["yaml", "yml", "sublime-syntax"], some yamlLine⟩]

/-- The preferred entry that goes by an extension or file name, ASCII letters in either case. -/
def byExtension? (ext : String) : Option Entry :=
  catalogue.reverse.find? fun e => e.extensions.any fun x => x.toLower == ext.toLower

/-- The preferred entry whose pattern is found in a first line; a byte order mark is no part of
the line. -/
def byFirstLine? (line : List Char) : Option Entry :=
  let text := (if line.head? = some '\uFEFF' then line.tail else line).toArray
  catalogue.reverse.find? fun e => e.firstLine?.any fun p => p.occursIn text

end SourceDocs.Language
