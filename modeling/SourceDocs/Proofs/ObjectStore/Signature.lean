import Mathlib.Data.List.Nodup
import Mathlib.Data.String.Basic
import SourceDocs.ObjectStore.Signature
import SourceDocs.Proofs.Text.Percent
import SourceDocs.Proofs.Time.Text

set_option autoImplicit false

/-! # Signatures: what is signed, and how

Names with values are sorted by name, so where no name comes twice there is one order that sorting
can give (`Fields.sorted_eq`). The headers of a request are in that order, hence its canonical form
is a text of nine lines or, with a token, of ten (`canonical_eq`). No line has a newline in it, so
the form falls apart into them and tells requests apart (`canonical_eq_iff`). The signature is made
of the digest of this form and of a key that is derived from the secret key in four steps
(`authorization_sign`). -/

namespace SourceDocs

open Text

/-! ## Sorting by name -/

namespace Fields

variable {fields fields' : List (String × String)}

theorem sorted_perm (fields : List (String × String)) : (sorted fields).Perm fields :=
  List.mergeSort_perm fields _

theorem mem_sorted {f : String × String} : f ∈ sorted fields ↔ f ∈ fields :=
  (sorted_perm fields).mem_iff

theorem pairwise_le_sorted (fields : List (String × String)) :
    (sorted fields).Pairwise fun a b => a.1 ≤ b.1 := by
  have hsorted : (sorted fields).Pairwise fun a b =>
      (a.1 < b.1 || (a.1 = b.1 && a.2 ≤ b.2) : Bool) = true := by
    refine List.pairwise_mergeSort ?_ ?_ fields
    · intro a b c hab hbc
      simp only [Bool.or_eq_true, Bool.and_eq_true, decide_eq_true_eq] at *
      rcases hab with hab | ⟨hab, hab'⟩
      · rcases hbc with hbc | ⟨hbc, -⟩
        · exact .inl (lt_trans hab hbc)
        · exact .inl (hbc ▸ hab)
      · rcases hbc with hbc | ⟨hbc, hbc'⟩
        · exact .inl (hab ▸ hbc)
        · exact .inr ⟨hab.trans hbc, le_trans hab' hbc'⟩
    · intro a b
      simp only [Bool.or_eq_true, Bool.and_eq_true, decide_eq_true_eq]
      rcases lt_trichotomy a.1 b.1 with hlt | heq | hgt
      · exact .inl (.inl hlt)
      · rcases le_total a.2 b.2 with hle | hle
        · exact .inl (.inr ⟨heq, hle⟩)
        · exact .inr (.inr ⟨heq.symm, hle⟩)
      · exact .inr (.inl hgt)
  refine hsorted.imp fun {a b} h => ?_
  simp only [Bool.or_eq_true, Bool.and_eq_true, decide_eq_true_eq] at h
  exact h.elim le_of_lt fun h => le_of_eq h.1

/-- Where no name comes twice, sorting gives the arrangement whose names ascend. -/
theorem sorted_eq (hperm : fields.Perm fields')
    (hnames : (fields'.map Prod.fst).Pairwise (· < ·)) : sorted fields = fields' := by
  have hsame := (sorted_perm fields).trans hperm
  have hnodup : (fields'.map Prod.fst).Nodup := hnames.imp ne_of_lt
  refine List.Perm.eq_of_pairwise ?_ (pairwise_le_sorted fields)
    ((List.pairwise_map.1 hnames).imp le_of_lt) hsame
  intro a b ha hb hab hba
  exact List.inj_on_of_nodup_map hnodup (hsame.mem_iff.1 ha) hb (le_antisymm hab hba)

end Fields

namespace UnsignedRequest

variable {r r' : UnsignedRequest} {token token' : Option String}

/-! ## Canonical forms -/

/-- The headers that are signed are sorted as they stand. -/
theorem signedHeaders_eq (r : UnsignedRequest) (token : Option String) :
    r.signedHeaders token =
      [("host", r.host), ("x-amz-content-sha256", payloadHash), ("x-amz-date", r.time.timeStamp)] ++
        token.toList.map fun t => ("x-amz-security-token", t) := by
  refine Fields.sorted_eq (.refl _) ?_
  have hnames : ["host", "x-amz-content-sha256", "x-amz-date", "x-amz-security-token"].Pairwise
      (· < ·) := by
    decide
  cases token with
  | none => exact hnames.sublist (List.sublist_append_left ["host", _, _] [_])
  | some t => exact hnames

/-- The names of the headers that are signed. -/
def signedNames : Option String → String
  | none => "host;x-amz-content-sha256;x-amz-date"
  | some _ => "host;x-amz-content-sha256;x-amz-date;x-amz-security-token"

/-- The digest of no bytes, in hexadecimal digits. -/
def emptyDigest : String := hexOfBytes (Sha256.digest [])

/-- The lines of a canonical form. -/
def canonicalLines (r : UnsignedRequest) (token : Option String) : List String :=
  ["GET", r.path, r.query, "host:" ++ r.host, "x-amz-content-sha256:" ++ emptyDigest,
    "x-amz-date:" ++ r.time.timeStamp] ++
  token.toList.map (fun t => "x-amz-security-token:" ++ t) ++
  ["", signedNames token, emptyDigest]

theorem payloadHash_eq : payloadHash = emptyDigest := rfl

theorem headerNames_eq (r : UnsignedRequest) (token : Option String) :
    r.headerNames token = signedNames token := by
  rw [headerNames, signedHeaders_eq]
  cases token with
  | none => rfl
  | some t => rfl

theorem canonical_eq (r : UnsignedRequest) (token : Option String) :
    r.canonical token = "\n".intercalate (r.canonicalLines token) := by
  rw [← String.toList_inj, String.toList_intercalate, canonical, headerLines, headerNames_eq,
    signedHeaders_eq, payloadHash_eq]
  cases token <;> simp [canonicalLines, String.join]

/-- No part of a request that it brings with it breaks a line. -/
structure IsOneLine (r : UnsignedRequest) (token : Option String) : Prop where
  path : '\n' ∉ r.path.toList
  query : '\n' ∉ r.query.toList
  host : '\n' ∉ r.host.toList
  token : ∀ t ∈ token, '\n' ∉ t.toList

theorem newline_notMem_emptyDigest : '\n' ∉ emptyDigest.toList := by
  have hdigit : ∀ n < 16, hexDigit 'a' n ≠ '\n' := by
    decide
  rw [emptyDigest, hexOfBytes, String.toList_ofList, List.mem_flatMap]
  rintro ⟨b, -, hmem⟩
  have hlt := b.toNat_lt
  simp only [List.mem_cons, List.not_mem_nil, or_false] at hmem
  rcases hmem with h | h
  · exact hdigit _ (by omega) h.symm
  · exact hdigit _ (by omega) h.symm

theorem newline_notMem_timeStamp (t : Instant) : '\n' ∉ t.timeStamp.toList := by
  intro h
  rcases Instant.mem_timeStamp h with h | h
  · exact absurd h (by decide)
  · exact absurd h (by decide)

theorem newline_notMem_signedNames (token : Option String) :
    '\n' ∉ (signedNames token).toList := by
  cases token with
  | none => decide
  | some t =>
    show '\n' ∉ "host;x-amz-content-sha256;x-amz-date;x-amz-security-token".toList
    decide

theorem IsOneLine.newline_notMem (h : r.IsOneLine token) :
    ∀ line ∈ r.canonicalLines token, '\n' ∉ line.toList := by
  have hlabel : ∀ {label line : String}, '\n' ∉ label.toList → '\n' ∉ line.toList →
      '\n' ∉ (label ++ line).toList := by
    intro label line hlabel hline hmem
    rw [String.toList_append] at hmem
    exact (List.mem_append.1 hmem).elim hlabel hline
  have htoken : ∀ line ∈ token.toList.map fun t => "x-amz-security-token:" ++ t,
      '\n' ∉ line.toList := by
    simp only [List.forall_mem_map, Option.mem_toList]
    exact fun t ht => hlabel (by decide) (h.token t ht)
  simp only [canonicalLines, List.forall_mem_append, List.forall_mem_cons]
  exact ⟨⟨⟨by decide, h.path, h.query, hlabel (by decide) h.host,
    hlabel (by decide) newline_notMem_emptyDigest, hlabel (by decide) (newline_notMem_timeStamp _),
    fun _ hnil => absurd hnil List.not_mem_nil⟩, htoken⟩,
    by decide, newline_notMem_signedNames token, newline_notMem_emptyDigest,
    fun _ hnil => absurd hnil List.not_mem_nil⟩

/-- A canonical form falls apart into its lines. -/
theorem splitOn_canonical (h : r.IsOneLine token) :
    (r.canonical token).toList.splitOn '\n' = (r.canonicalLines token).map String.toList := by
  rw [canonical_eq, String.toList_intercalate]
  refine List.splitOn_intercalate '\n' ?_ (by simp [canonicalLines])
  simpa only [List.forall_mem_map] using h.newline_notMem

/-- **A canonical form tells what a request is for, who is asked, and when.** -/
theorem canonical_eq_iff (h : r.IsOneLine token) (h' : r'.IsOneLine token') :
    r.canonical token = r'.canonical token' ↔ r.path = r'.path ∧ r.query = r'.query ∧
      r.host = r'.host ∧ r.time.timeStamp = r'.time.timeStamp ∧ token = token' := by
  constructor
  · intro heq
    have hsame : r.canonicalLines token = r'.canonicalLines token' := by
      refine List.map_injective_iff.2 (fun _ _ => String.toList_inj.1) ?_
      rw [← splitOn_canonical h, heq, splitOn_canonical h']
    -- the token is the only line that can be missing
    have hlength := congrArg List.length hsame
    cases token with
    | none =>
      cases token' with
      | none =>
        simp only [canonicalLines, List.cons_append, List.cons.injEq, String.append_right_inj]
          at hsame
        obtain ⟨-, hpath, hquery, hhost, -, hstamp, -⟩ := hsame
        exact ⟨hpath, hquery, hhost, hstamp, rfl⟩
      | some t' => simp [canonicalLines] at hlength
    | some t =>
      cases token' with
      | none => simp [canonicalLines] at hlength
      | some t' =>
        simp only [canonicalLines, List.cons_append, List.cons.injEq, String.append_right_inj,
          Option.toList_some, List.map_cons, List.map_nil, List.nil_append] at hsame
        obtain ⟨-, hpath, hquery, hhost, -, hstamp, ht, -⟩ := hsame
        exact ⟨hpath, hquery, hhost, hstamp, congrArg some ht⟩
  · rintro ⟨hpath, hquery, hhost, hstamp, rfl⟩
    simp only [canonical_eq, canonicalLines, hpath, hquery, hhost, hstamp]

/-! ## Signatures -/

/-- The key for a day, a region and the service: each step is the code of the next part under the
key so far. -/
def derivedKey (secretKey dateStamp region : String) : List UInt8 :=
  let day := Hmac.digest (encode ("AWS4" ++ secretKey)) (encode dateStamp)
  let service := Hmac.digest (Hmac.digest day (encode region)) (encode "s3")
  Hmac.digest service (encode "aws4_request")

/-- The signature of a canonical form. -/
def signatureOf (secretKey region : String) (time : Instant) (canonical : String) : List UInt8 :=
  Hmac.digest (derivedKey secretKey time.dateStamp region) (encode
    ("AWS4-HMAC-SHA256\n" ++ time.timeStamp ++ "\n" ++
      time.dateStamp ++ "/" ++ region ++ "/s3/aws4_request\n" ++
      hexOfBytes (Sha256.digest (encode canonical))))

theorem signingKey_eq (secretKey dateStamp region : String) :
    signingKey secretKey dateStamp region = derivedKey secretKey dateStamp region := by
  simp only [signingKey, derivedKey, List.foldl_cons, List.foldl_nil]

theorem textToSign_eq (r : UnsignedRequest) (region : String) (token : Option String) :
    r.textToSign region token =
      "AWS4-HMAC-SHA256\n" ++ r.time.timeStamp ++ "\n" ++
        r.time.dateStamp ++ "/" ++ region ++ "/s3/aws4_request\n" ++
        hexOfBytes (Sha256.digest (encode ("\n".intercalate (r.canonicalLines token)))) := by
  rw [textToSign, hexDigest, canonical_eq, scope, ← String.toList_inj]
  simp

/-- **The signature of a request is that of its canonical form.** -/
theorem authorization_sign (r : UnsignedRequest) (c : Credentials) (region : String) :
    (r.sign c region).authorization =
      "AWS4-HMAC-SHA256 Credential=" ++ c.accessKey ++ "/" ++ r.time.dateStamp ++ "/" ++ region ++
        "/s3/aws4_request, SignedHeaders=" ++ signedNames c.sessionToken ++ ", Signature=" ++
        hexOfBytes (signatureOf c.secretKey region r.time
          ("\n".intercalate (r.canonicalLines c.sessionToken))) := by
  have hsignature : Hmac.digest (signingKey c.secretKey r.time.dateStamp region)
      (encode (r.textToSign region c.sessionToken)) = signatureOf c.secretKey region r.time
        ("\n".intercalate (r.canonicalLines c.sessionToken)) := by
    rw [signatureOf, signingKey_eq, textToSign_eq]
  unfold sign
  dsimp only
  rw [hsignature, headerNames_eq, scope]
  -- both sides are the same but for how their parts are grouped
  generalize hexOfBytes (signatureOf _ _ _ _) = signature
  rw [← String.toList_inj]
  simp

end UnsignedRequest

end SourceDocs
