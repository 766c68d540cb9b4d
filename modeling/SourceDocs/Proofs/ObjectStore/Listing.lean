import Mathlib.Data.List.Forall2
import Mathlib.Data.List.TakeWhile
import Mathlib.Data.Nat.Find
import Mathlib.Data.Option.Basic
import SourceDocs.Proofs.ObjectStore.Requests

set_option autoImplicit false

/-! # Listings of a bucket: every page counts, in its place

A listing is a loop that knows the token of the page it is to ask for and the objects of the pages
before. Whatever a store replies, what the loop knows and what it has asked for follow from the
replies so far (`list_eq_of_followed`). So a listing ends at the first reply that gives no token for
another page: with the objects of all pages if that reply is a page, otherwise with a fault
(`list_pages`). What it has sent are the requests for the pages that it has asked for. -/

namespace SourceDocs

/-! ## Programs that may end with a fault -/

namespace Hosted

variable {σ α β : Type}

theorem run_bind (x : Hosted (StateM σ) α) (f : α → Hosted (StateM σ) β) (s : σ) :
    (x >>= f).run.run s =
      match x.run.run s with
      | (.ok a, s') => (f a).run.run s'
      | (.error fault, s') => (.error fault, s') := by
  rw [ExceptT.run_bind, StateT.run_bind]
  show (match x.run.run s with | (a, s') => _) = _
  rcases x.run.run s with ⟨_ | _, _⟩ <;> rfl

theorem run_liftM (x : StateM σ α) (s : σ) :
    (liftM x : Hosted (StateM σ) α).run.run s = (.ok (x.run s).1, (x.run s).2) :=
  rfl

theorem run_ofExcept (e : Except Fault α) (s : σ) :
    (liftM e : Hosted (StateM σ) α).run.run s = (e, s) := by
  cases e <;> rfl

/-- One round of a loop. -/
theorem run_repeatM [Nonempty σ] [Nonempty β] (f : α → Hosted (StateM σ) (α ⊕ β)) (a : α) (s : σ) :
    (repeatM f a).run.run s =
      match (f a).run.run s with
      | (.ok (.inl a'), s') => (repeatM f a').run.run s'
      | (.ok (.inr b), s') => (.ok b, s')
      | (.error fault, s') => (.error fault, s') := by
  -- `repeatM` is a fixed point; this equation opens it once, whether or not the loop ends
  rw [repeatM_eq_of_monadTail, repeatM.body, run_bind]
  rcases (f a).run.run s with ⟨_ | a' | b, s'⟩ <;> rfl

end Hosted

/-! ## Stores as a client sees them -/

/-- What comes back for the requests of a client, in the order in which they are sent, and the times
at which they are. -/
structure ReplySequence where
  reply : Nat → HttpReply
  time : Nat → Instant
  /-- The environment of the client. -/
  environment : String → Option String

namespace ReplySequence

/-- The host of a client. Its state are the requests that have been sent. -/
def host (r : ReplySequence) : Host (StateM (List HttpRequest)) where
  readText _ := return none
  writeText _ _ := return false
  makeDirectories _ := return false
  isFile _ := return false
  pathExists _ := return false
  walk _ _ := return none
  git _ _ := return none
  send request sent := (r.reply sent.length, sent ++ [request])
  environment name := return r.environment name
  now sent := (r.time sent.length, sent)
  sleep _ := return ()
  print _ := return ()
  printProgress _ := return ()

variable (r : ReplySequence) (s : BucketSource)

/-- The page in the reply with a number. -/
def page (i : Nat) : Except Fault ListingPage :=
  ListingPage.ofReply s (r.reply i)

/-- The token that the reply with a number gives for another page. -/
def following? (i : Nat) : Option String :=
  match r.page s i with
  | .ok page => page.following?
  | .error _ => none

/-- The token with which the page with a number is asked for. -/
def token : Nat → Option String
  | 0 => none
  | i + 1 => r.following? s i

/-- What the reply with a number lists. -/
def entries (i : Nat) : List StoredObject :=
  match r.page s i with
  | .ok page => page.entries
  | .error _ => []

/-- The objects of the first replies: all that they list but what has no name below the last slash
of its key. -/
def objects (n : Nat) : List StoredObject :=
  ((List.range n).flatMap (r.entries s)).filter fun o =>
    o.key ≠ "" ∧ o.key.toList.getLast? ≠ some '/'

/-- The first requests for pages. -/
def pageRequests (c : BucketClient) (n : Nat) : List HttpRequest :=
  (List.range n).map fun i => c.requestFor (.page (r.token c.source i)) (r.time i)

end ReplySequence

/-! ## Pages -/

namespace Xml

theorem isField_of_isNamed {name field : List Char} {part : Node} (hlocal : localName name = field)
    (h : isNamed name part = true) : isField field part = true := by
  cases part with
  | text content => cases h
  | element name' attributes children =>
    simp only [isNamed, decide_eq_true_eq] at h
    simp only [isField, decide_eq_true_eq]
    rw [h, hlocal]

/-- Before the first element with a name there is none. -/
theorem filter_isField_dropWhile (field : List Char) (parts : List Node) :
    (parts.dropWhile (!isField field ·)).filter (isField field) = parts.filter (isField field) := by
  have hbefore : (parts.takeWhile (!isField field ·)).filter (isField field) = [] := by
    rw [List.filter_eq_nil_iff]
    intro part hpart
    simpa using List.mem_takeWhile_imp hpart
  calc (parts.dropWhile (!isField field ·)).filter (isField field)
    _ = (parts.takeWhile (!isField field ·) ++ parts.dropWhile (!isField field ·)).filter
        (isField field) := by rw [List.filter_append, hbefore, List.nil_append]
    _ = parts.filter (isField field) := by rw [List.takeWhile_append_dropWhile]

/-- If there is none after the elements that share a name, those are all. -/
theorem filter_isField_eq_takeWhile {name field : List Char} {parts : List Node}
    (hlocal : localName name = field)
    (hrest : (parts.dropWhile (isNamed name)).any (isField field) = false) :
    parts.filter (isField field) = parts.takeWhile (isNamed name) := by
  have hnamed : ∀ part ∈ parts.takeWhile (isNamed name), isField field part = true :=
    fun part hpart => isField_of_isNamed hlocal (List.mem_takeWhile_imp hpart)
  calc parts.filter (isField field)
    _ = (parts.takeWhile (isNamed name) ++ parts.dropWhile (isNamed name)).filter
        (isField field) := by rw [List.takeWhile_append_dropWhile]
    _ = parts.takeWhile (isNamed name) := by
      rw [List.filter_append, List.filter_eq_self.2 hnamed,
        List.filter_eq_nil_iff.2 (by simpa using hrest), List.append_nil]

/-- A repeated field that can be read consists of all elements with its name. -/
theorem filter_isField_of_repeatedField? {field : List Char} {parts contents : List Node}
    (h : repeatedField? field parts = some contents) :
    parts.filter (isField field) = contents := by
  rw [← filter_isField_dropWhile]
  unfold repeatedField? at h
  cases hfrom : parts.dropWhile (!isField field ·) with
  | nil =>
    rw [hfrom] at h
    cases h
    rfl
  | cons first more =>
    have hfirst : isField field first = true := by
      have hhead := List.head_dropWhile_not (!isField field ·) (l := parts) (by simp [hfrom])
      simpa [hfrom] using hhead
    rw [hfrom] at h
    cases first with
    | text content => cases hfirst
    | element name attributes children =>
      -- the field can be read, so none of its elements stands apart from these
      have hresult : (more.dropWhile (isNamed name)).any (isField field) = false ∧
          .element name attributes children :: more.takeWhile (isNamed name) = contents := by
        dsimp only at h
        split at h
        · cases h
        · split at h
          · cases h
          · rename_i hany
            exact ⟨by simpa using hany, by simpa using h⟩
      have hlocal : localName name = field := of_decide_eq_true hfirst
      rw [List.filter_cons_of_pos hfirst, filter_isField_eq_takeWhile hlocal hresult.1, hresult.2]

end Xml

theorem forall₂_of_mapM {α β : Type} {f : α → Option β} {xs : List α} {ys : List β}
    (h : xs.mapM f = some ys) : List.Forall₂ (fun x y => f x = some y) xs ys := by
  induction xs generalizing ys with
  | nil =>
    cases h
    exact .nil
  | cons x xs ih =>
    simp only [List.mapM_cons, Option.bind_eq_bind, Option.bind_eq_some_iff] at h
    obtain ⟨y, hy, ys', hys, heq⟩ := h
    cases heq
    exact .cons hy (ih hys)

theorem StoredObject.isPlaceholder_eq_false {o : StoredObject} :
    o.isPlaceholder = false ↔ o.key ≠ "" ∧ o.key.toList.getLast? ≠ some '/' := by
  simp [isPlaceholder]

namespace ListingPage

variable {p : ListingPage} {text : String}

/-- A page has one entry for each element of a document that lists something, in their order. -/
def Lists (p : ListingPage) (text : String) : Prop :=
  ∃ name attributes parts, Xml.Node.ofDocument? text = some (.element name attributes parts) ∧
    List.Forall₂ (fun part o => StoredObject.ofNode? part = some o)
      (parts.filter (Xml.isField "Contents".toList)) p.entries

theorem lists_of_parse? (h : parse? text = some p) : p.Lists text := by
  unfold parse? at h
  obtain ⟨node, hnode, h⟩ := Option.bind_eq_some_iff.1 h
  cases node with
  | text content => cases h
  | element name attributes parts =>
    simp only [ofNode?, Option.bind_eq_bind, Option.bind_eq_some_iff] at h
    obtain ⟨_, -, contents, hcontents, entries, hentries, truncated, -, token, -, heq⟩ := h
    cases heq
    refine ⟨name, attributes, parts, hnode, ?_⟩
    rw [Xml.filter_isField_of_repeatedField? hcontents]
    exact forall₂_of_mapM hentries

theorem following?_eq_some {token : String} :
    p.following? = some token ↔ p.isTruncated = true ∧ p.nextToken = some token := by
  rw [following?]
  cases p.nextToken with
  | none => simp
  | some next => by_cases htruncated : p.isTruncated = true <;> simp [htruncated]

theorem ofReply_eq_ok {s : BucketSource} {reply : HttpReply} :
    ofReply s reply = .ok p ↔ ∃ status body, reply = .response status body ∧
      HttpReply.isSuccess status = true ∧ parse? (Text.forgiving body) = some p := by
  cases reply with
  | noConnection => simp [ofReply]
  | interrupted status => simp [ofReply]
  | response status body =>
    by_cases hstatus : HttpReply.isSuccess status = true
    · cases hpage : parse? (Text.forgiving body) <;> simp [ofReply, hstatus, hpage]
    · simp [ofReply, hstatus]

end ListingPage

/-! ## What has been found and asked for -/

namespace ReplySequence

variable {r : ReplySequence} {s : BucketSource} {c : BucketClient} {page : ListingPage} {n : Nat}

theorem objects_succ (h : r.page s n = .ok page) :
    r.objects s (n + 1) = r.objects s n ++ page.objects := by
  have hentries : r.entries s n = page.entries := by rw [entries, h]
  have hobjects : (page.entries.filter fun o =>
      o.key ≠ "" ∧ o.key.toList.getLast? ≠ some '/') = page.objects := by
    refine List.filter_congr fun o _ => ?_
    simp only [← StoredObject.isPlaceholder_eq_false, Bool.decide_eq_false]
  rw [objects, List.range_succ, List.flatMap_append, List.filter_append, List.flatMap_singleton,
    hentries, hobjects]
  rfl

theorem pageRequests_succ :
    r.pageRequests c (n + 1) =
      r.pageRequests c n ++ [c.requestFor (.page (r.token c.source n)) (r.time n)] := by
  rw [pageRequests, List.range_succ, List.map_append]
  rfl

theorem length_pageRequests : (r.pageRequests c n).length = n := by
  simp [pageRequests]

theorem getElem?_pageRequests {i : Nat} (h : i < n) : (r.pageRequests c n)[i]? =
    some (c.requestFor (.page (r.token c.source i)) (r.time i)) := by
  rw [pageRequests, List.getElem?_map, List.getElem?_range h]
  rfl

theorem following?_eq_some {token : String} :
    r.following? s n = some token ↔
      ∃ page, r.page s n = .ok page ∧ page.following? = some token := by
  rw [following?]
  cases r.page s n with
  | error fault => simp
  | ok page => simp

end ReplySequence

/-! ## The loop -/

namespace BucketClient

open ReplySequence

variable {r : ReplySequence} {c : BucketClient} {n : Nat}

/-- Where a listing is after its first replies. -/
def listingAfter (r : ReplySequence) (s : BucketSource) (n : Nat) : Listing :=
  { token := r.token s n, found := r.objects s n }

theorem run_send {path : String} {parameters : List (String × String)} {sent : List HttpRequest} :
    (c.send r.host path parameters).run sent =
      (r.reply sent.length, sent ++ [c.request path parameters (r.time sent.length)]) :=
  rfl

/-- What one more reply comes to. -/
theorem run_advance :
    (c.advance r.host (listingAfter r c.source n)).run.run (r.pageRequests c n) =
      ((r.page c.source n).map fun page =>
        match page.following? with
        | some _ => .inl (listingAfter r c.source (n + 1))
        | none => .inr (r.objects c.source (n + 1)),
       r.pageRequests c (n + 1)) := by
  rw [advance, Hosted.run_bind, Hosted.run_liftM, run_send, length_pageRequests,
    pageRequests_succ]
  dsimp only
  rw [Hosted.run_bind, Hosted.run_ofExcept, ← ReplySequence.page]
  cases hpage : r.page c.source n with
  | error fault => rfl
  | ok page =>
    have hfound := objects_succ hpage
    dsimp only [Except.map]
    cases hnext : page.following? with
    | none =>
      rw [hfound]
      rfl
    | some token =>
      -- the token of this page is the one that the next page is asked for with
      have htoken : r.token c.source (n + 1) = some token :=
        following?_eq_some.2 ⟨page, hpage, hnext⟩
      have hafter : listingAfter r c.source (n + 1) =
          { token := some token, found := r.objects c.source n ++ page.objects } := by
        rw [listingAfter, htoken, hfound]
      rw [hafter]
      rfl

/-- As long as every reply gives a token for another page, that page is asked for. -/
theorem list_eq_of_followed (h : ∀ i < n, (r.following? c.source i).isSome) :
    (c.list r.host).run.run [] =
      (repeatM (c.advance r.host) (listingAfter r c.source n)).run.run (r.pageRequests c n) := by
  induction n with
  | zero => rfl
  | succ n ih =>
    obtain ⟨token, htoken⟩ := Option.isSome_iff_exists.1 (h n (Nat.lt_succ_self n))
    obtain ⟨page, hpage, hnext⟩ := following?_eq_some.1 htoken
    -- after the first `n` replies the loop asks for the page with the number `n`
    rw [ih fun i hi => h i (Nat.lt_succ_of_lt hi), Hosted.run_repeatM, run_advance, hpage]
    dsimp only [Except.map]
    rw [hnext]

/-- The first reply that gives no token for another page is the last one. -/
theorem list_eq_of_last (h : ∀ i < n, (r.following? c.source i).isSome)
    (hlast : r.following? c.source n = none) :
    (c.list r.host).run.run [] =
      ((r.page c.source n).map fun _ => r.objects c.source (n + 1),
        r.pageRequests c (n + 1)) := by
  rw [list_eq_of_followed h, Hosted.run_repeatM, run_advance]
  cases hpage : r.page c.source n with
  | error fault => rfl
  | ok page =>
    have hnext : page.following? = none := by
      rw [following?, hpage] at hlast
      exact hlast
    dsimp only [Except.map]
    rw [hnext]

/-- If some reply gives no token for another page, one is the first of them. -/
theorem exists_first {s : BucketSource} (h : ∃ n, r.following? s n = none) :
    ∃ n, r.following? s n = none ∧ ∀ i < n, (r.following? s i).isSome :=
  ⟨Nat.find h, Nat.find_spec h, fun _ hi => Option.isSome_iff_ne_none.2 (Nat.find_min h hi)⟩

/-- How a listing goes through the pages that a store gives. -/
structure GoesThroughPages (r : ReplySequence) (c : BucketClient) : Prop where
  /-- The requests for the first pages: each of them asks the bucket for a page, and for the one
  with the token that the page before has given. -/
  requests (n : Nat) : (r.pageRequests c n).length = n ∧
    ∀ i < n, ∃ request, (r.pageRequests c n)[i]? = some request ∧
      c.IsSentFor (.page (r.token c.source i)) (r.time i) request
  /-- A page comes with a status of success, and has all that its document lists. -/
  page (i : Nat) (page : ListingPage) : r.page c.source i = .ok page ↔
    ∃ status body, r.reply i = .response status body ∧ HttpReply.isSuccess status = true ∧
      ListingPage.parse? (Text.forgiving body) = some page ∧ page.Lists (Text.forgiving body)
  /-- Another page follows one that is truncated and has a token. -/
  following (i : Nat) (token : String) : r.following? c.source i = some token ↔
    ∃ page, r.page c.source i = .ok page ∧ page.isTruncated = true ∧ page.nextToken = some token
  /-- As long as there is a page that follows, it is asked for. -/
  proceeds (n : Nat) : (∀ i < n, (r.following? c.source i).isSome) →
    (c.list r.host).run.run [] = (repeatM (c.advance r.host)
      { token := r.token c.source n, found := r.objects c.source n }).run.run (r.pageRequests c n)
  /-- The listing ends with the first reply that no page follows: with all objects if it is a page,
  otherwise with its fault. -/
  ends : (∀ i, (r.following? c.source i).isSome) ∨
    ∃ n, (∀ i < n, (r.following? c.source i).isSome) ∧ r.following? c.source n = none ∧
      (c.list r.host).run.run [] =
        ((r.page c.source n).map fun _ => r.objects c.source (n + 1), r.pageRequests c (n + 1))

/-- **A listing has every page**: it asks for one after the other, each with the token of the page
before, and has the objects of all of them in order, or else a fault. -/
theorem list_pages (r : ReplySequence) (c : BucketClient) : GoesThroughPages r c where
  requests n := ⟨length_pageRequests, fun i hi =>
    ⟨_, getElem?_pageRequests hi, isSentFor_requestFor c _ _⟩⟩
  page i page := by
    rw [ReplySequence.page, ListingPage.ofReply_eq_ok]
    constructor
    · rintro ⟨status, body, hreply, hstatus, hparse⟩
      exact ⟨status, body, hreply, hstatus, hparse, ListingPage.lists_of_parse? hparse⟩
    · rintro ⟨status, body, hreply, hstatus, hparse, -⟩
      exact ⟨status, body, hreply, hstatus, hparse⟩
  following i token := by
    simp only [following?_eq_some, ListingPage.following?_eq_some]
  proceeds n := list_eq_of_followed
  ends := by
    by_cases hend : ∃ n, r.following? c.source n = none
    · obtain ⟨n, hlast, hbefore⟩ := exists_first hend
      exact .inr ⟨n, hbefore, hlast, list_eq_of_last hbefore hlast⟩
    · exact .inl fun i => Option.isSome_iff_ne_none.2 fun hnone => hend ⟨i, hnone⟩

/-- A page with nothing but a folder, which another page follows, and a page that none follows in
spite of its token. -/
def pageTexts : String × String :=
  ("<L><IsTruncated>1</IsTruncated><NextContinuationToken>t</NextContinuationToken>" ++
      "<Contents><Key>a/</Key></Contents></L>",
    "<L><Contents><Key>b</Key></Contents><NextContinuationToken>u</NextContinuationToken></L>")

def twoPages : ReplySequence where
  reply
    | 0 => .response 200 pageTexts.1.toUTF8
    | 1 => .response 200 pageTexts.2.toUTF8
    | _ => .noConnection
  time _ := .epoch
  environment _ := none

theorem page_twoPages :
    twoPages.page plainClient.source 0 = .ok
      { entries := [⟨"a/", 0, .epoch⟩], isTruncated := true, nextToken := some "t" } ∧
    twoPages.page plainClient.source 1 = .ok
      { entries := [⟨"b", 0, .epoch⟩], isTruncated := false, nextToken := some "u" } := by
  constructor
  · exact ListingPage.ofReply_eq_ok.2 ⟨200, _, rfl, rfl, by decide +kernel⟩
  · exact ListingPage.ofReply_eq_ok.2 ⟨200, _, rfl, rfl, by decide +kernel⟩

theorem list_pages_twoPages :
    (plainClient.list twoPages.host).run.run [] =
      (.ok [⟨"b", 0, .epoch⟩], twoPages.pageRequests plainClient 2) ∧
    (twoPages.pageRequests plainClient 2).map HttpRequest.url =
      ["https://corpus.s3.us-east-1.amazonaws.com/?list-type=2&max-keys=1000",
        "https://corpus.s3.us-east-1.amazonaws.com/" ++
          "?continuation-token=t&list-type=2&max-keys=1000"] := by
  obtain ⟨hfirst, hlast⟩ := page_twoPages
  have hnext : twoPages.following? plainClient.source 0 = some "t" := by
    rw [following?, hfirst]
    rfl
  have hend : twoPages.following? plainClient.source 1 = none := by
    rw [following?, hlast]
    rfl
  have hobjects : twoPages.objects plainClient.source 2 = [⟨"b", 0, .epoch⟩] := by
    rw [objects_succ hlast, objects_succ hfirst]
    rfl
  have hpages := list_pages twoPages plainClient
  constructor
  · rcases hpages.ends with hall | ⟨n, hbefore, hnone, hresult⟩
    · simpa [hend] using hall 1
    · -- only the second page can be the last one
      match n with
      | 0 => simp [hnext] at hnone
      | 1 =>
        rw [hresult, hlast, hobjects]
        rfl
      | n + 2 => simpa [hend] using hbefore 1 (by omega)
  · have hrequests : twoPages.pageRequests plainClient 2 =
        [none, some "t"].map fun token => plainClient.requestFor (.page token) .epoch := by
      rw [← hnext]
      rfl
    simp only [hrequests, List.map_cons, List.map_nil, (sends_requestFor plainClient _ _).url,
      query_page]
    decide

end BucketClient

end SourceDocs
