import SourceDocs.Files.System
import SourceDocs.Path

set_option autoImplicit false

/-! # Changes to a file system: what was there stays, and what is written is found

Putting a node where nothing was, or a file where a file was, leaves everything else as it is
(`FileSystem.Grows`). Paths that led somewhere lead there still (`resolveFrom?_mono`), so making
directories or writing a file a second time changes nothing, and a path that was written to leads to
what was written (`write?_again`). A walk that does not follow links shows what is in its directory
and nothing else (`walk?_eq_shownIn`). -/

namespace SourceDocs

namespace FileNode

variable {a b : FileNode} {entries : List (FileName × FileNode)} {name : FileName}
  {node node' : FileNode} {names place : List FileName}

/-- Two nodes are of one kind; links also lead to one target. -/
inductive Alike : FileNode → FileNode → Prop
  | file {c c' : ByteArray} {t t' : Instant} : Alike (file c t) (file c' t')
  | directory {es es' : List (FileName × FileNode)} : Alike (directory es) (directory es')
  | link {target : String} : Alike (link target) (link target)

theorem Alike.refl (a : FileNode) : a.Alike a := by
  cases a with
  | file c t => exact .file
  | directory es => exact .directory
  | link target => exact .link

theorem Alike.trans {c : FileNode} (h : a.Alike b) (h' : b.Alike c) : a.Alike c := by
  cases h with
  | file => cases h'; exact .file
  | directory => cases h'; exact .directory
  | link => exact h'

/-- Whatever is below one node is below the other, too, and of the same kind. -/
def Grows (a b : FileNode) : Prop :=
  ∀ names node, at? names a = some node → ∃ node', at? names b = some node' ∧ node.Alike node'

theorem Grows.refl (a : FileNode) : a.Grows a :=
  fun _ node h => ⟨node, h, .refl node⟩

theorem Grows.trans {c : FileNode} (h : a.Grows b) (h' : b.Grows c) : a.Grows c := by
  intro names node hat
  obtain ⟨node', hat', halike⟩ := h names node hat
  obtain ⟨node'', hat'', halike'⟩ := h' names node' hat'
  exact ⟨node'', hat'', halike.trans halike'⟩

theorem grows_file {c c' : ByteArray} {t t' : Instant} : (file c t).Grows (file c' t') := by
  intro names node hat
  cases names with
  | nil =>
    cases hat
    exact ⟨_, rfl, .file⟩
  | cons name rest => cases hat

/-! ## Looking up below a directory -/

theorem at?_cons (name : FileName) (rest : List FileName) (entries : List (FileName × FileNode)) :
    at? (name :: rest) (directory entries) = (entries.lookup name).bind (at? rest) := by
  rw [at?]

theorem at?_append (names more : List FileName) (a : FileNode) :
    at? (names ++ more) a = (at? names a).bind (at? more) := by
  induction names generalizing a with
  | nil => rfl
  | cons name rest ih =>
    cases a with
    | directory entries =>
      rw [List.cons_append, at?_cons, at?_cons, Option.bind_assoc]
      exact congrArg _ (funext fun b => ih b)
    | file c t => rfl
    | link target => rfl

theorem lookup_put (name' name : FileName) (node : FileNode)
    (entries : List (FileName × FileNode)) : (put name node entries).lookup name' =
      if name' = name then some node else entries.lookup name' := by
  induction entries with
  | nil =>
    by_cases h : name' = name
    · simp [put, h]
    · simp [put, h, List.lookup_cons, beq_false_of_ne h]
  | cons e rest ih =>
    obtain ⟨n, a⟩ := e
    rw [put]
    by_cases hn : n = name
    · subst hn
      by_cases h : name' = n
      · simp [h]
      · simp [h, List.lookup_cons, beq_false_of_ne h]
    · rw [if_neg hn, List.lookup_cons, List.lookup_cons, ih]
      by_cases h : name' = n
      · subst h
        simp [hn]
      · simp [beq_false_of_ne h]

theorem put_put (name : FileName) (a b : FileNode) (entries : List (FileName × FileNode)) :
    put name b (put name a entries) = put name b entries := by
  induction entries with
  | nil => simp [put]
  | cons e rest ih =>
    by_cases hn : e.1 = name
    · simp [put, hn]
    · simp [put, hn, ih]

theorem directories_le_of_mem {e : FileName × FileNode} (he : e ∈ entries) :
    directories e.2 ≤ directoriesIn entries := by
  induction entries with
  | nil => cases he
  | cons f rest ih =>
    obtain ⟨name, node⟩ := f
    rw [directoriesIn]
    rcases List.mem_cons.1 he with rfl | he
    · exact Nat.le_add_right _ _
    · exact Nat.le_trans (ih he) (Nat.le_add_left _ _)

theorem directories_at?_le (h : at? names a = some b) : b.directories ≤ a.directories := by
  induction names generalizing a with
  | nil =>
    cases h
    exact Nat.le_refl _
  | cons name rest ih =>
    cases a with
    | directory entries =>
      rw [at?_cons] at h
      obtain ⟨c, hlookup, hbelow⟩ := Option.bind_eq_some_iff.1 h
      have hmem : (name, c) ∈ entries := by
        obtain ⟨before, after, rfl, -⟩ := List.lookup_eq_some_iff.1 hlookup
        simp
      rw [directories]
      exact Nat.le_trans (ih hbelow) (Nat.le_succ_of_le (directories_le_of_mem hmem))
    | file c t => cases h
    | link target => cases h

/-! ## Putting a node somewhere -/

theorem putAt_cons (node : FileNode) (entries : List (FileName × FileNode)) (name : FileName)
    {rest : List FileName} (hrest : rest ≠ []) : putAt node entries (name :: rest) =
      match entries.lookup name with
      | some (directory inner) => put name (directory (putAt node inner rest)) entries
      | _ => entries := by
  cases rest with
  | nil => exact absurd rfl hrest
  | cons second more => rfl

theorem grows_put (h : ∀ a, entries.lookup name = some a → a.Grows node) :
    (directory entries).Grows (directory (put name node entries)) := by
  intro names b hat
  cases names with
  | nil =>
    cases hat
    exact ⟨_, rfl, .directory⟩
  | cons name' rest =>
    rw [at?_cons] at hat ⊢
    obtain ⟨a, hlookup, hbelow⟩ := Option.bind_eq_some_iff.1 hat
    rw [lookup_put]
    by_cases hname : name' = name
    · subst hname
      rw [if_pos rfl, Option.bind_some]
      exact h a hlookup rest b hbelow
    · rw [if_neg hname, hlookup, Option.bind_some]
      exact ⟨b, hbelow, .refl b⟩

/-- A node may be put where nothing is, or where it has all that is there. -/
theorem grows_putAt (h : ∀ a, at? place (directory entries) = some a → a.Grows node) :
    (directory entries).Grows (directory (putAt node entries place)) := by
  induction place generalizing entries with
  | nil => exact .refl _
  | cons name rest ih =>
    by_cases hrest : rest = []
    · subst hrest
      rw [putAt]
      refine grows_put fun a hlookup => h a ?_
      rw [at?_cons, hlookup, Option.bind_some, at?]
    · rw [putAt_cons node entries name hrest]
      split
      · rename_i inner hlookup
        refine grows_put fun a ha => ?_
        rw [hlookup, Option.some.injEq] at ha
        subst ha
        refine ih fun a hat => h a ?_
        rw [at?_cons, hlookup, Option.bind_some, hat]
      · exact .refl _

/-- What is put into a directory that is there is found. -/
theorem at?_putAt {above : List FileName} {inner : List (FileName × FileNode)} {name : FileName}
    (h : at? above (directory entries) = some (directory inner)) :
    at? (above ++ [name]) (directory (putAt node entries (above ++ [name]))) = some node := by
  induction above generalizing entries with
  | nil => rw [List.nil_append, putAt, at?_cons, lookup_put, if_pos rfl, Option.bind_some, at?]
  | cons first rest ih =>
    rw [at?_cons] at h
    obtain ⟨a, hlookup, hbelow⟩ := Option.bind_eq_some_iff.1 h
    cases a with
    | directory es =>
      have hne : rest ++ [name] ≠ [] := by simp
      rw [List.cons_append, putAt_cons _ _ _ hne, hlookup]
      show at? (first :: (rest ++ [name])) (directory (put first _ entries)) = _
      rw [at?_cons, lookup_put, if_pos rfl, Option.bind_some, ih hbelow]
    | file c t =>
      cases rest with
      | nil => cases hbelow
      | cons second more => cases hbelow
    | link target =>
      cases rest with
      | nil => cases hbelow
      | cons second more => cases hbelow

theorem putAt_putAt (node : FileNode) (entries : List (FileName × FileNode))
    (place : List FileName) :
    putAt node (putAt node entries place) place = putAt node entries place := by
  induction place generalizing entries with
  | nil => rw [putAt, putAt]
  | cons name rest ih =>
    by_cases hrest : rest = []
    · subst hrest
      rw [putAt, putAt, put_put]
    · rw [putAt_cons node entries name hrest]
      split
      · rw [putAt_cons _ _ _ hrest, lookup_put, if_pos rfl]
        show put name (directory (putAt node (putAt node _ rest) rest)) _ = _
        rw [ih, put_put]
      · rename_i hnot
        rw [putAt_cons node entries name hrest]
        split
        · rename_i inner hlookup
          exact absurd hlookup (hnot inner)
        · rfl

/-! ## Nodes as a walk shows them -/

mutual

/-- A node as a walk shows it that does not follow links. -/
def shown : FileNode → WalkNode
  | file content modified => .file content modified
  | directory entries => .directory (shownIn entries)
  | link _ => .other

/-- The entries of a directory as such a walk shows them. -/
def shownIn : List (FileName × FileNode) → WalkTree
  | [] => []
  | (name, node) :: rest => (name, shown node) :: shownIn rest

end

theorem shownIn_eq_map (entries : List (FileName × FileNode)) :
    shownIn entries = entries.map fun e => (e.1, shown e.2) := by
  induction entries with
  | nil => rfl
  | cons e rest ih =>
    obtain ⟨name, node⟩ := e
    rw [shownIn, ih, List.map_cons]

end FileNode

namespace FileSystem

open FileNode (Alike)

variable {fs fs' fs'' : FileSystem} {links : Nat} {here segments place there : List FileName}
  {node : FileNode} {path : String} {content : ByteArray} {modified : Instant}

/-- Whatever is in one file system is in the other, too, and of the same kind. -/
def Grows (fs fs' : FileSystem) : Prop :=
  (FileNode.directory fs.entries).Grows (.directory fs'.entries)

/-- There is a directory at the end of a list of names. -/
def HasDirectory (fs : FileSystem) (names : List FileName) : Prop :=
  ∃ entries, fs.at? names = some (.directory entries)

/-- There is a file at the end of a list of names. -/
def HasFile (fs : FileSystem) (names : List FileName) : Prop :=
  ∃ content modified, fs.at? names = some (.file content modified)

theorem Grows.refl (fs : FileSystem) : fs.Grows fs :=
  FileNode.Grows.refl _

theorem Grows.trans (h : fs.Grows fs') (h' : fs'.Grows fs'') : fs.Grows fs'' :=
  FileNode.Grows.trans h h'

theorem Grows.hasDirectory (h : fs.Grows fs') {names : List FileName}
    (hat : fs.HasDirectory names) : fs'.HasDirectory names := by
  obtain ⟨entries, hat⟩ := hat
  obtain ⟨node', hat', halike⟩ := h names _ hat
  cases halike
  exact ⟨_, hat'⟩

theorem Grows.hasFile (h : fs.Grows fs') {names : List FileName} (hat : fs.HasFile names) :
    fs'.HasFile names := by
  obtain ⟨content, modified, hat⟩ := hat
  obtain ⟨node', hat', halike⟩ := h names _ hat
  cases halike
  exact ⟨_, _, hat'⟩

theorem Grows.link (h : fs.Grows fs') {names : List FileName} {target : String}
    (hat : fs.at? names = some (.link target)) : fs'.at? names = some (.link target) := by
  obtain ⟨node', hat', halike⟩ := h names _ hat
  cases halike
  exact hat'

/-- The working directory is one. -/
theorem hasDirectory_nil (fs : FileSystem) : fs.HasDirectory [] :=
  ⟨fs.entries, rfl⟩

/-- Above anything there is a directory. -/
theorem hasDirectory_dropLast {names : List FileName} (h : fs.HasDirectory names) :
    fs.HasDirectory names.dropLast := by
  rcases List.eq_nil_or_concat names with rfl | ⟨above, name, rfl⟩
  · exact h
  · obtain ⟨entries, hat⟩ := h
    rw [List.concat_eq_append] at hat ⊢
    rw [List.dropLast_concat]
    rw [at?, FileNode.at?_append] at hat
    obtain ⟨a, habove, hbelow⟩ := Option.bind_eq_some_iff.1 hat
    cases a with
    | directory inner => exact ⟨inner, habove⟩
    | file c t => cases hbelow
    | link target => cases hbelow

/-! ## Following paths -/

/-- One name that leads on from a directory. -/
theorem resolveFrom?_cons_directory {name : FileName} {rest : List FileName}
    (hempty : name ≠ .text "") (hhere : name ≠ .text ".") (hup : name ≠ .text "..")
    (h : fs.HasDirectory (here ++ [name])) :
    fs.resolveFrom? links here (name :: rest) = fs.resolveFrom? links (here ++ [name]) rest := by
  obtain ⟨entries, hat⟩ := h
  rw [resolveFrom?.eq_5 _ _ _ _ _ hempty hhere hup, hat]

theorem resolveFrom?_cons_file {name : FileName} (hempty : name ≠ .text "")
    (hhere : name ≠ .text ".") (hup : name ≠ .text "..") (h : fs.HasFile (here ++ [name])) :
    fs.resolveFrom? links here [name] = some (here ++ [name]) := by
  obtain ⟨content, modified, hat⟩ := h
  rw [resolveFrom?.eq_5 _ _ _ _ _ hempty hhere hup, hat]
  rfl

theorem resolveFrom?_cons_link {name : FileName} {rest : List FileName} {target : String}
    (hempty : name ≠ .text "") (hhere : name ≠ .text ".") (hup : name ≠ .text "..")
    (h : fs.at? (here ++ [name]) = some (.link target)) (hrelative : isRelative target = true) :
    fs.resolveFrom? (links + 1) here (name :: rest) =
      fs.resolveFrom? links here (FileName.segments target ++ rest) := by
  rw [resolveFrom?.eq_5 _ _ _ _ _ hempty hhere hup, h]
  exact if_pos hrelative

/-- A path that leads somewhere leads there still. -/
theorem resolveFrom?_mono (hgrows : fs.Grows fs')
    (h : fs.resolveFrom? links here segments = some place) :
    fs'.resolveFrom? links here segments = some place := by
  fun_induction resolveFrom? fs links here segments with
  | case1 links here => rwa [resolveFrom?]
  | case2 links here rest ih =>
    rw [resolveFrom?]
    exact ih h
  | case3 links here rest ih =>
    rw [resolveFrom?]
    exact ih h
  | case4 => cases h
  | case5 links here rest hsome ih =>
    rw [resolveFrom?, if_neg hsome]
    exact ih h
  | case6 => cases h
  | case7 links here name rest hempty hhere hup entries hat ih =>
    rw [resolveFrom?_cons_directory hempty hhere hup (hgrows.hasDirectory ⟨_, hat⟩)]
    exact ih h
  | case8 links here name rest hempty hhere hup content modified hat hlast =>
    rw [List.isEmpty_iff.1 hlast,
      resolveFrom?_cons_file hempty hhere hup (hgrows.hasFile ⟨_, _, hat⟩)]
    exact h
  | case9 => cases h
  | case10 => cases h
  | case11 here name rest hempty hhere hup target hat links hrelative ih =>
    rw [resolveFrom?_cons_link hempty hhere hup (hgrows.link hat) hrelative]
    exact ih h
  | case12 => cases h

/-! ## Making directories -/

/-- A node may be put where nothing is. -/
theorem grows_putAt_of_none (h : fs.at? place = none) : fs.Grows (fs.putAt place node) :=
  FileNode.grows_putAt fun a hat => by
    rw [at?, hat] at h
    cases h

/-- A file may also be put in place of another. -/
theorem grows_putAt (h : fs.at? place = none ∨ fs.HasFile place) :
    fs.Grows (fs.putAt place (.file content modified)) := by
  rcases h with h | ⟨content', modified', h⟩
  · exact grows_putAt_of_none h
  · refine FileNode.grows_putAt fun a hat => ?_
    rw [at?, hat] at h
    cases h
    exact FileNode.grows_file

theorem putAt_putAt (fs : FileSystem) (place : List FileName) (node : FileNode) :
    (fs.putAt place node).putAt place node = fs.putAt place node :=
  congrArg FileSystem.mk (FileNode.putAt_putAt node fs.entries place)

theorem hasDirectory_putAt {name : FileName} {entries : List (FileName × FileNode)}
    (h : fs.HasDirectory here) :
    (fs.putAt (here ++ [name]) (.directory entries)).HasDirectory (here ++ [name]) := by
  obtain ⟨inner, hat⟩ := h
  exact ⟨entries, FileNode.at?_putAt hat⟩

/-- A segment that leads to a directory is gone along. -/
theorem makeDirectoriesFrom?_cons {segment : FileName} {rest : List FileName}
    (hresolve : fs.resolveFrom? maxLinks here [segment] = some there)
    (hthere : fs.HasDirectory there) :
    fs.makeDirectoriesFrom? here (segment :: rest) = fs.makeDirectoriesFrom? there rest := by
  obtain ⟨entries, hat⟩ := hthere
  conv => lhs; unfold makeDirectoriesFrom?
  simp only [hresolve, hat]

/-- Where a segment leads to, there has to be a directory. -/
theorem of_makeDirectoriesFrom?_some {name : FileName} {rest above : List FileName}
    (hresolve : fs.resolveFrom? maxLinks here [name] = some above)
    (h : fs.makeDirectoriesFrom? here (name :: rest) = some (fs', there)) :
    fs.HasDirectory above := by
  unfold makeDirectoriesFrom? at h
  rw [hresolve] at h
  dsimp only at h
  split at h
  · rename_i entries hat
    exact ⟨entries, hat⟩
  · cases h

/-- A directory is made under a name that leads nowhere. -/
theorem of_makeDirectoriesFrom?_none {name : FileName} {rest : List FileName}
    (hnowhere : fs.resolveFrom? maxLinks here [name] = none)
    (h : fs.makeDirectoriesFrom? here (name :: rest) = some (fs', there)) :
    (name ≠ .text "" ∧ name ≠ .text "." ∧ name ≠ .text "..") ∧ fs.at? (here ++ [name]) = none ∧
      (fs.putAt (here ++ [name]) (.directory [])).makeDirectoriesFrom? (here ++ [name]) rest =
        some (fs', there) := by
  have hempty : name ≠ .text "" := by
    rintro rfl
    rw [resolveFrom?, resolveFrom?] at hnowhere
    cases hnowhere
  have hsame : name ≠ .text "." := by
    rintro rfl
    rw [resolveFrom?, resolveFrom?] at hnowhere
    cases hnowhere
  unfold makeDirectoriesFrom? at h
  rw [hnowhere] at h
  dsimp only at h
  split at h
  · cases h
  · cases h
  · rename_i hup hat
    exact ⟨⟨hempty, hsame, hup⟩, hat, h⟩

/-- Directories that were made are there, and need not be made again. -/
theorem makeDirectoriesFrom?_again (hhere : fs.HasDirectory here)
    (h : fs.makeDirectoriesFrom? here segments = some (fs', there)) :
    fs.Grows fs' ∧ fs'.HasDirectory there ∧
      ∀ fs'', fs'.Grows fs'' → fs''.makeDirectoriesFrom? here segments = some (fs'', there) := by
  induction segments generalizing fs here with
  | nil =>
    rw [makeDirectoriesFrom?] at h
    cases h
    exact ⟨.refl _, hhere, fun fs'' _ => by rw [makeDirectoriesFrom?]⟩
  | cons segment rest ih =>
    cases hresolve : fs.resolveFrom? maxLinks here [segment] with
    | some above =>
      have habove := of_makeDirectoriesFrom?_some hresolve h
      rw [makeDirectoriesFrom?_cons hresolve habove] at h
      obtain ⟨hgrows, hthere, hagain⟩ := ih habove h
      refine ⟨hgrows, hthere, fun fs'' hgrows' => ?_⟩
      have hgrown := hgrows.trans hgrows'
      rw [makeDirectoriesFrom?_cons (resolveFrom?_mono hgrown hresolve) (hgrown.hasDirectory habove)]
      exact hagain fs'' hgrows'
    | none =>
      obtain ⟨⟨hempty, hsame, hup⟩, hat, h⟩ := of_makeDirectoriesFrom?_none hresolve h
      have hmade : (fs.putAt (here ++ [segment]) (.directory [])).HasDirectory (here ++ [segment]) :=
        hasDirectory_putAt hhere
      obtain ⟨hgrows, hthere, hagain⟩ := ih hmade h
      refine ⟨(grows_putAt_of_none hat).trans hgrows, hthere, fun fs'' hgrows' => ?_⟩
      have hthere'' : fs''.HasDirectory (here ++ [segment]) :=
        (hgrows.trans hgrows').hasDirectory hmade
      have hresolve' : fs''.resolveFrom? maxLinks here [segment] = some (here ++ [segment]) := by
        rw [resolveFrom?_cons_directory hempty hsame hup hthere'', resolveFrom?]
      rw [makeDirectoriesFrom?_cons hresolve' hthere'']
      exact hagain fs'' hgrows'

theorem makeDirectories?_again (h : fs.makeDirectories? path = some fs') :
    fs.Grows fs' ∧ ∀ fs'', fs'.Grows fs'' → fs''.makeDirectories? path = some fs'' := by
  unfold makeDirectories? at h ⊢
  split at h
  · cases h
    rename_i hpath
    exact ⟨.refl fs, fun fs'' _ => if_pos hpath⟩
  · rename_i hpath
    split at h
    · rename_i hrelative
      obtain ⟨⟨fs₁, there⟩, hmade, rfl⟩ := Option.map_eq_some_iff.1 h
      obtain ⟨hgrows, -, hagain⟩ := makeDirectoriesFrom?_again fs.hasDirectory_nil hmade
      refine ⟨hgrows, fun fs'' hgrows' => ?_⟩
      rw [if_neg hpath, if_pos hrelative, hagain fs'' hgrows', Option.map_some]
    · cases h

/-! ## Writing files -/

/-- A file is put into a directory that is there, and in place of nothing but a file. -/
theorem placeFrom?_eq_some (hhere : fs.HasDirectory here)
    (h : fs.placeFrom? links here segments = some place) :
    (∃ above name, place = above ++ [name] ∧ fs.HasDirectory above) ∧
      (fs.at? place = none ∨ fs.HasFile place) := by
  fun_induction placeFrom? fs links here segments with
  | case1 => cases h
  | case2 links here rest ih => exact ih hhere h
  | case3 links here rest ih => exact ih hhere h
  | case4 => cases h
  | case5 links here rest hsome ih => exact ih (hasDirectory_dropLast hhere) h
  | case6 links here name rest hempty hsame hup entries hat ih => exact ih ⟨_, hat⟩ h
  | case7 => cases h
  | case8 here name rest hempty hsame hup target hat links hrelative ih => exact ih hhere h
  | case9 => cases h
  | case10 links here name rest hempty hsame hup hlast hdirectory hlink =>
    cases h
    refine ⟨⟨here, name, rfl, hhere⟩, ?_⟩
    cases hat : fs.at? (here ++ [name]) with
    | none => exact Or.inl rfl
    | some node =>
      cases node with
      | file content modified => exact Or.inr ⟨content, modified, hat⟩
      | directory entries => exact absurd hat (hdirectory entries)
      | link target => exact absurd hat (hlink target)
  | case11 => cases h

/-- A path along which a file was put leads to it, and along it a file is put in its place. -/
theorem placeFrom?_again (hgrows : fs.Grows fs') (hfile : fs'.HasFile place)
    (h : fs.placeFrom? links here segments = some place) :
    fs'.placeFrom? links here segments = some place ∧
      fs'.resolveFrom? links here segments = some place := by
  fun_induction placeFrom? fs links here segments with
  | case1 => cases h
  | case2 links here rest ih =>
    rw [placeFrom?, resolveFrom?]
    exact ih h
  | case3 links here rest ih =>
    rw [placeFrom?, resolveFrom?]
    exact ih h
  | case4 => cases h
  | case5 links here rest hsome ih =>
    rw [placeFrom?, resolveFrom?, if_neg hsome, if_neg hsome]
    exact ih h
  | case6 links here name rest hempty hsame hup entries hat ih =>
    obtain ⟨entries', hat'⟩ := hgrows.hasDirectory ⟨entries, hat⟩
    rw [placeFrom?.eq_5 _ _ _ _ _ hempty hsame hup, hat',
      resolveFrom?_cons_directory hempty hsame hup ⟨entries', hat'⟩]
    exact ih h
  | case7 => cases h
  | case8 here name rest hempty hsame hup target hat links hrelative ih =>
    rw [placeFrom?.eq_5 _ _ _ _ _ hempty hsame hup, hgrows.link hat,
      resolveFrom?_cons_link hempty hsame hup (hgrows.link hat) hrelative]
    dsimp only
    rw [if_pos hrelative]
    exact ih h
  | case9 => cases h
  | case10 links here name rest hempty hsame hup hlast hdirectory hlink =>
    cases h
    obtain rfl := List.isEmpty_iff.1 hlast
    refine ⟨?_, resolveFrom?_cons_file hempty hsame hup hfile⟩
    obtain ⟨content, modified, hat⟩ := hfile
    rw [placeFrom?.eq_5 _ _ _ _ _ hempty hsame hup, hat]
    rfl
  | case11 => cases h

/-- **What is written is found**, and writing it again changes nothing. -/
theorem write?_again (h : fs.write? path content modified = some fs') :
    fs.Grows fs' ∧ fs'.write? path content modified = some fs' ∧ fs'.read? path = some content := by
  unfold write? at h
  split at h
  · rename_i hrelative
    obtain ⟨place, hplace, rfl⟩ := Option.map_eq_some_iff.1 h
    obtain ⟨⟨above, name, rfl, entries, habove⟩, hfree⟩ := placeFrom?_eq_some fs.hasDirectory_nil hplace
    have hat : (fs.putAt (above ++ [name]) (.file content modified)).at? (above ++ [name]) =
        some (.file content modified) := FileNode.at?_putAt habove
    have hgrows : fs.Grows (fs.putAt (above ++ [name]) (.file content modified)) :=
      grows_putAt hfree
    obtain ⟨hplace', hresolve⟩ := placeFrom?_again hgrows ⟨content, modified, hat⟩ hplace
    refine ⟨hgrows, ?_, ?_⟩
    · rw [write?, if_pos hrelative, writeFrom?, hplace', Option.map_some, putAt_putAt]
    · rw [read?, find?, resolve?, if_pos hrelative, hresolve, Option.bind_some, hat]
  · cases h

/-- The file system after a file is written in a directory that is made if there is none. -/
def save? (fs : FileSystem) (path : String) (content : ByteArray) (modified : Instant) :
    Option FileSystem :=
  (fs.makeDirectories? ((Path.parent? path).getD "")).bind fun fs => fs.write? path content modified

/-- **What is saved is found**, and saving it again changes nothing. -/
theorem save?_again (h : fs.save? path content modified = some fs') :
    fs'.save? path content modified = some fs' ∧ fs'.read? path = some content := by
  obtain ⟨fs₁, hmade, hwritten⟩ := Option.bind_eq_some_iff.1 h
  obtain ⟨-, hagain⟩ := makeDirectories?_again hmade
  obtain ⟨hgrows, hwritten', hread⟩ := write?_again hwritten
  refine ⟨?_, hread⟩
  rw [save?, hagain fs' hgrows, Option.bind_some, hwritten']

/-! ## Walks -/

/-- A walk that may go deep enough shows all there is. -/
theorem walkNode_eq_shown (fs : FileSystem) {depth : Nat} (above : List (List FileName))
    (here : List FileName) {node : FileNode} (hdepth : node.directories < depth) :
    fs.walkNode false depth above here node = node.shown := by
  induction depth generalizing above here node with
  | zero => omega
  | succ depth ih =>
    cases node with
    | file content modified => rw [walkNode, FileNode.shown]
    | link target =>
      rw [walkNode, FileNode.shown]
      rfl
    | directory entries =>
      rw [FileNode.directories] at hdepth
      rw [walkNode, FileNode.shown, FileNode.shownIn_eq_map]
      refine congrArg WalkNode.directory (List.map_congr_left fun e he => ?_)
      have hle := FileNode.directories_le_of_mem he
      rw [ih _ _ (by omega)]

/-- **A walk that does not follow links shows what is in the directory**, and nothing else. -/
theorem walk?_eq_shownIn (fs : FileSystem) (path : String) :
    fs.walk? false path =
      match fs.find? path with
      | some (.directory entries) => some (FileNode.shownIn entries)
      | _ => none := by
  unfold walk? find?
  cases fs.resolve? path with
  | none => rfl
  | some here =>
    rw [Option.bind_eq_bind, Option.bind_some, Option.bind_some]
    cases hat : fs.at? here with
    | none => rfl
    | some node =>
      cases node with
      | file content modified => rfl
      | link target => rfl
      | directory entries =>
        have hle := FileNode.directories_at?_le hat
        rw [FileNode.directories, FileNode.directories] at hle
        have hbound : FileNode.directoriesIn fs.entries < fs.depthBound :=
          Nat.lt_of_lt_of_le (Nat.lt_add_of_pos_right Nat.two_pos) (Nat.le_mul_self _)
        have hshown : (entries.map fun e =>
            (e.1, fs.walkNode false fs.depthBound [here] (here ++ [e.1]) e.2)) =
              FileNode.shownIn entries := by
          rw [FileNode.shownIn_eq_map]
          refine List.map_congr_left fun e he => ?_
          have hmem := FileNode.directories_le_of_mem he
          rw [walkNode_eq_shown fs _ _ (by omega)]
        exact congrArg some hshown

end FileSystem

end SourceDocs
