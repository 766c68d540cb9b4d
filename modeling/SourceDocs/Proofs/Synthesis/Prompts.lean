import SourceDocs.Proofs.Synthesis.Output

set_option autoImplicit false

/-! # Prompts: no two requests of a run are made in the same words

The kind of a request can be read off the first characters of its prompt (`opening`). So if the
chunks ask for their documentation in different words, all requests of a run have different prompts:
a prompt then stands for its request. -/

namespace SourceDocs

namespace Prompt

/-- The first characters of a prompt, which differ from kind to kind. -/
def opening (prompt : String) : List Char := prompt.toList.take 10

theorem opening_append {first : String} (rest : String) (h : first.toList.length = 10) :
    opening (first ++ rest) = first.toList := by
  rw [opening, String.toList_append, ← h, List.take_left]

theorem opening_detailed (c : Chunk) (ctx : ChunkContext) :
    opening (detailed c ctx) = "Generate d".toList := by
  have hfirst : "Generate detailed documentation for" =
      "Generate d" ++ "etailed documentation for" := by decide
  simp only [detailed, chunkRequest, hfirst, String.append_assoc]
  exact opening_append _ (by decide)

theorem opening_summary (c : Chunk) (ctx : ChunkContext) :
    opening (summary c ctx) = "Summarize ".toList := by
  have hfirst : " the following " = " " ++ "the following " := by decide
  simp only [summary, chunkRequest, hfirst, String.append_assoc]
  rw [← String.append_assoc]
  exact opening_append _ (by decide)

theorem opening_combinedSummary (summaries : List String) :
    opening (combinedSummary summaries) = "Generate a".toList := by
  have hsplit : combinedSummary summaries = "Generate a" ++
      (" high-level summary for the following code summaries:\n\n" ++
        "\n\n".intercalate summaries) := by
    rw [← String.append_assoc]
    rfl
  rw [hsplit]
  exact opening_append _ (by decide)

theorem opening_combined (highLevel : String) (documents : List String) :
    opening (combined highLevel documents) = "Combine th".toList := by
  have hsplit : combined highLevel documents = "Combine th" ++
      ("e following high-level summary with the detailed documentation:\n\n" ++
        ("High-level summary:\n" ++ highLevel ++ "\n\nDetailed documentation:\n" ++
          "\n\n".intercalate documents)) := by
    simp only [← String.append_assoc]
    rfl
  rw [hsplit]
  exact opening_append _ (by decide)

/-- Chunks that are summarized in the same words are documented in the same words. -/
theorem detailed_eq_of_summary_eq {c c' : Chunk} {ctx ctx' : ChunkContext}
    (h : summary c ctx = summary c' ctx') : detailed c ctx = detailed c' ctx' := by
  simp only [summary, detailed, chunkRequest, String.append_assoc, String.append_right_inj] at h ⊢
  exact h

theorem detailed_ne_summary (c c' : Chunk) (ctx ctx' : ChunkContext) :
    detailed c ctx ≠ summary c' ctx' := by
  intro h
  have hopening := congrArg opening h
  rw [opening_detailed, opening_summary] at hopening
  exact absurd hopening (by decide)

end Prompt

namespace Run

/-! ## The requests of a run -/

theorem mem_prompts_jobsFor {hierarchical : Bool} {stores : ContextStores} {c : Chunk}
    {place : Nat} {prompt : String} :
    prompt ∈ (jobsFor hierarchical stores c place).map Job.prompt ↔
      prompt = Prompt.detailed c (stores.contextOf c) ∨
        (hierarchical = true ∧ prompt = Prompt.summary c (stores.contextOf c)) := by
  cases hierarchical <;> simp [jobsFor]

/-- Different words for the documents of all chunks make different prompts for the whole plan. -/
theorem nodup_prompts_jobs {cs : List Chunk} {stores : ContextStores} (hierarchical : Bool)
    (h : (cs.map fun c => Prompt.detailed c (stores.contextOf c)).Nodup) :
    ((jobs hierarchical cs stores).map Job.prompt).Nodup := by
  rw [jobs, List.map_flatMap, List.nodup_flatMap]
  constructor
  · rintro ⟨c, place⟩ -
    cases hierarchical with
    | false => simp [jobsFor]
    | true => simpa [jobsFor] using Prompt.detailed_ne_summary c c _ _
  · rw [← List.zipIdx_map_fst 0 cs, List.map_map] at h
    refine (List.pairwise_map.1 h).imp fun {x y} hne => ?_
    intro prompt hc hc'
    rw [mem_prompts_jobsFor] at hc hc'
    rcases hc with rfl | ⟨-, rfl⟩ <;> rcases hc' with hc' | ⟨-, hc'⟩
    · exact hne hc'
    · exact Prompt.detailed_ne_summary _ _ _ _ hc'
    · exact Prompt.detailed_ne_summary _ _ _ _ hc'.symm
    · exact hne (Prompt.detailed_eq_of_summary_eq hc')

/-- What requests about the corpus begin with, no request about a chunk does. -/
theorem opening_of_mem_jobs {hierarchical : Bool} {cs : List Chunk} {stores : ContextStores}
    {job : Job} (h : job ∈ jobs hierarchical cs stores) :
    Prompt.opening job.prompt ∈ ["Generate d".toList, "Summarize ".toList] := by
  obtain ⟨x, -, hjob⟩ := List.mem_flatMap.1 h
  rcases mem_prompts_jobsFor.1 (List.mem_map_of_mem hjob) with hprompt | ⟨-, hprompt⟩
  · rw [hprompt, Prompt.opening_detailed]
    exact List.mem_cons_self
  · rw [hprompt, Prompt.opening_summary]
    exact List.mem_cons_of_mem _ List.mem_cons_self

theorem opening_of_mem_corpus {ended : List SettledJob} {highLevel : String} {job : Job}
    (h : job ∈ [summaryJob ended, documentJob highLevel ended]) :
    Prompt.opening job.prompt ∈ ["Generate a".toList, "Combine th".toList] := by
  rcases List.mem_pair.1 h with rfl | rfl
  · rw [summaryJob, Prompt.opening_combinedSummary]
    exact List.mem_cons_self
  · rw [documentJob, Prompt.opening_combined]
    exact List.mem_cons_of_mem _ List.mem_cons_self

/-- **No two requests of a run have the same prompt**, those about the corpus included. -/
theorem Stage.nodup_prompts {r : Run} {hierarchical : Bool} {cs : List Chunk}
    {stores : ContextStores} (h : Stage (jobs hierarchical cs stores) r)
    (hprompts : (cs.map fun c => Prompt.detailed c (stores.contextOf c)).Nodup) :
    ((r.pending ++ r.settled.map SettledJob.entry).map fun x => x.2.prompt).Nodup := by
  obtain ⟨ended, highLevel, corpus, hcorpus, hperm⟩ := h.entries
  have hjobs : (numbered 0 (jobs hierarchical cs stores ++ corpus)).map (fun x => x.2.prompt) =
      (jobs hierarchical cs stores).map Job.prompt ++ corpus.map Job.prompt := by
    rw [← List.map_append, ← map_snd_numbered 0 (jobs hierarchical cs stores ++ corpus),
      List.map_map, map_snd_numbered]
    rfl
  refine (hperm.map _).nodup_iff.2 ?_
  rw [hjobs, List.nodup_append]
  refine ⟨nodup_prompts_jobs hierarchical hprompts, ?_, ?_⟩
  · have hpair : ([summaryJob ended, documentJob highLevel ended].map Job.prompt).Nodup := by
      have hne : (summaryJob ended).prompt ≠ (documentJob highLevel ended).prompt := by
        intro heq
        have hopening := congrArg Prompt.opening heq
        rw [summaryJob, documentJob, Prompt.opening_combinedSummary, Prompt.opening_combined]
          at hopening
        exact absurd hopening (by decide)
      simpa using hne
    exact hpair.sublist (hcorpus.sublist.map Job.prompt)
  · rintro prompt hplan prompt' hlater rfl
    obtain ⟨job, hjob, rfl⟩ := List.mem_map.1 hplan
    obtain ⟨job', hjob', heq⟩ := List.mem_map.1 hlater
    have hopening := opening_of_mem_corpus (hcorpus.subset hjob')
    rw [heq] at hopening
    have hopening' := opening_of_mem_jobs hjob
    generalize Prompt.opening job.prompt = first at hopening hopening'
    simp only [List.mem_cons, List.not_mem_nil, or_false] at hopening hopening'
    rcases hopening' with rfl | rfl <;> revert hopening <;> decide

end Run

end SourceDocs
