import SourceDocs.Proofs.ObjectStore.Listing

set_option autoImplicit false

/-! # Complete listings, and one that is cut short

A listing asks for more as long as pages say that more follow and how to ask for it. It ends with a
page that says that nothing follows, or with a fault; or else with a page that says that more
follows and has no token (`list_ends`). Such a page is taken for the last one, and what it leaves
out is missing from the listing (`list_cutShort`). -/

namespace SourceDocs

namespace ReplySequence

variable {r : ReplySequence} {s : BucketSource} {i : Nat}

/-- A reply is a page that says that more follows, and has a token to ask for it. -/
def Continues (r : ReplySequence) (s : BucketSource) (i : Nat) : Prop :=
  ∃ page token, r.page s i = .ok page ∧ page.isTruncated = true ∧ page.nextToken = some token

/-- A reply is a page that says that nothing follows. -/
def Completes (r : ReplySequence) (s : BucketSource) (i : Nat) : Prop :=
  ∃ page, r.page s i = .ok page ∧ page.isTruncated = false

/-- A reply is a page that says that more follows, but has no token to ask for it. -/
def BreaksOff (r : ReplySequence) (s : BucketSource) (i : Nat) : Prop :=
  ∃ page, r.page s i = .ok page ∧ page.isTruncated = true ∧ page.nextToken = none

theorem continues_iff : r.Continues s i ↔ (r.following? s i).isSome = true := by
  rw [Option.isSome_iff_exists]
  simp only [following?_eq_some, ListingPage.following?_eq_some, Continues]
  exact ⟨fun ⟨page, token, h⟩ => ⟨token, page, h⟩, fun ⟨token, page, h⟩ => ⟨page, token, h⟩⟩

/-- A page that does not go on is the last one, or else its token is missing. -/
theorem completes_or_breaksOff {page : ListingPage} (hpage : r.page s i = .ok page)
    (h : ¬r.Continues s i) : r.Completes s i ∨ r.BreaksOff s i := by
  cases htruncated : page.isTruncated with
  | false => exact .inl ⟨page, hpage, htruncated⟩
  | true =>
    refine .inr ⟨page, hpage, htruncated, ?_⟩
    cases htoken : page.nextToken with
    | none => rfl
    | some token => exact absurd ⟨page, token, hpage, htruncated, htoken⟩ h

end ReplySequence

namespace BucketClient

open ReplySequence

/-- **A listing is complete unless a token is missing.** If it ends at all, then with the fault of a
reply that follows pages which go on, or with the objects of such pages and of one more, which
completes them or lacks a token. -/
theorem list_ends (r : ReplySequence) (c : BucketClient) :
    (∀ i, r.Continues c.source i) ∨
    ∃ n, (∀ i < n, r.Continues c.source i) ∧
      ((∃ fault, r.page c.source n = .error fault ∧
          (c.list r.host).run.run [] = (.error fault, r.pageRequests c (n + 1))) ∨
        ((r.Completes c.source n ∨ r.BreaksOff c.source n) ∧
          (c.list r.host).run.run [] =
            (.ok (r.objects c.source (n + 1)), r.pageRequests c (n + 1)))) := by
  simp only [continues_iff]
  by_cases hend : ∃ n, r.following? c.source n = none
  · -- the first such reply is the last one
    obtain ⟨n, hlast, hbefore⟩ := exists_first hend
    have hresult := list_eq_of_last hbefore hlast
    refine .inr ⟨n, hbefore, ?_⟩
    cases hpage : r.page c.source n with
    | error fault =>
      rw [hpage] at hresult
      exact .inl ⟨fault, rfl, hresult⟩
    | ok page =>
      have hends : ¬r.Continues c.source n := by
        rw [continues_iff, hlast]
        exact Bool.false_ne_true
      rw [hpage] at hresult
      exact .inr ⟨completes_or_breaksOff hpage hends, hresult⟩
  · exact .inl fun i => Option.isSome_iff_ne_none.2 fun hnone => hend ⟨i, hnone⟩

/-- A store whose only page says that more follows and has no token. -/
def cutShort : ReplySequence where
  reply
    | 0 => .response 200 ("<ListBucketResult><IsTruncated>true</IsTruncated>" ++
        "<Contents><Key>z.py</Key></Contents></ListBucketResult>").toUTF8
    | _ => .noConnection
  time _ := .epoch
  environment _ := none

theorem page_cutShort : cutShort.page plainClient.source 0 =
    .ok { entries := [⟨"z.py", 0, .epoch⟩], isTruncated := true, nextToken := none } :=
  ListingPage.ofReply_eq_ok.2 ⟨200, _, rfl, rfl, by decide +kernel⟩

/-- The one page is taken for the whole listing, although it says that more follows. -/
theorem list_cutShort :
    (plainClient.list cutShort.host).run.run [] =
      (.ok [⟨"z.py", 0, .epoch⟩],
        [plainClient.requestFor (.page none) .epoch]) ∧
    cutShort.BreaksOff plainClient.source 0 ∧ ¬cutShort.Completes plainClient.source 0 := by
  have hnone : cutShort.following? plainClient.source 0 = none := by
    rw [following?, page_cutShort]
    rfl
  have hobjects : cutShort.objects plainClient.source 1 = [⟨"z.py", 0, .epoch⟩] := by
    rw [objects_succ page_cutShort]
    rfl
  refine ⟨?_, ⟨_, page_cutShort, rfl, rfl⟩, ?_⟩
  · rw [list_eq_of_last (fun i hi => absurd hi (Nat.not_lt_zero i)) hnone, page_cutShort, hobjects]
    rfl
  · rintro ⟨page, hpage, htruncated⟩
    rw [page_cutShort] at hpage
    cases hpage
    cases htruncated

end BucketClient

end SourceDocs
