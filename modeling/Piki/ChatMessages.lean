import Piki.LLMProviders
import Mathlib.Data.List.SplitBy

/-! The messages of a chat completion: the turns of a request, those of one role in a row
joined into one message, behind the system prompt. -/
namespace Piki.OpenAIChatCompletionsAdapter
open LLMProvider

section Runs
variable {α : Type} {r : α → α → Bool}

theorem splitBy_snoc_new {items : List α} {x : α} (h : ∀ y ∈ items.getLast?, r y x = false) :
    (items ++ [x]).splitBy r = items.splitBy r ++ [[x]] :=
  List.splitBy_append_cons [] h

/-- An item that is related to the last one extends the last run. -/
theorem splitBy_snoc_same {items last : List α} {init : List (List α)} {x : α}
    (hruns : items.splitBy r = init ++ [last]) (hx : ∀ y ∈ last.getLast?, r y x = true) :
    (items ++ [x]).splitBy r = init ++ [last ++ [x]] := by
  have hlast : last ≠ [] := by
    have hmem : last ∈ items.splitBy r := by simp [hruns]
    exact List.ne_nil_of_mem_splitBy hmem
  obtain ⟨hflat, hnil, hchain, hapart⟩ := List.splitBy_eq_iff.mp hruns
  rw [List.splitBy_eq_iff]
  refine ⟨?_, ?_, ?_, ?_⟩
  · rw [hflat]
    simp
  · simp only [List.mem_append, List.mem_singleton, not_or] at hnil ⊢
    exact ⟨hnil.1, by simp⟩
  · intro run hrun
    rcases List.mem_append.mp hrun with hin | hin
    · exact hchain run (List.mem_append_left _ hin)
    · rw [List.mem_singleton.mp hin]
      have hend : last.IsChain fun a b => r a b = true := hchain last (by simp)
      exact List.isChain_append.mpr ⟨hend, List.isChain_singleton x, by simpa using hx⟩
  · rw [List.isChain_append] at hapart ⊢
    refine ⟨hapart.1, List.isChain_singleton _, ?_⟩
    intro run hrun next hnext
    obtain ⟨ha, hb, hr⟩ := hapart.2.2 run hrun last (by simp)
    obtain rfl : last ++ [x] = next := by simpa using hnext
    refine ⟨ha, by simp, ?_⟩
    rw [List.head_append_of_ne_nil hlast]
    exact hr

end Runs

/-- The turns that are sent: the conversation and then the evidence. -/
def turns (request : CompositionRequest) : List (String × String) :=
  request.conversation.map (fun turn => (roleName turn.role, turn.text)) ++
    [("user", evidenceMessage request)]

def sameRole (a b : String × String) : Bool := decide (a.1 = b.1)

/-- The maximal runs of consecutive turns of one role. -/
def runs (ts : List (String × String)) : List (List (String × String)) := ts.splitBy sameRole

/-- One message for a run: its role, and its texts with an empty line between two of them. -/
def joined (run : List (String × String)) : String × String :=
  ((run.head?.map Prod.fst).getD "", "\n\n".intercalate (run.map Prod.snd))

theorem joined_snoc {run : List (String × String)} (hne : run ≠ []) (role content : String) :
    joined (run ++ [(role, content)]) =
      ((joined run).1, (joined run).2 ++ "\n\n" ++ content) := by
  have hhead : (run ++ [(role, content)]).head? = run.head? := by
    cases run with
    | nil => exact absurd rfl hne
    | cons t rest => rfl
  have htexts : run.map Prod.snd ≠ [] := by simpa using hne
  simp only [joined, hhead, List.map_append, List.map_cons, List.map_nil]
  rw [String.intercalate_append_of_ne_nil htexts (by simp), String.intercalate_singleton]

/-- All turns of a run have its role. -/
theorem role_of_mem {ts run : List (String × String)} (hrun : run ∈ runs ts) :
    ∀ t ∈ run, t.1 = (joined run).1 := by
  have hchain := List.isChain_of_mem_splitBy hrun
  cases run with
  | nil => simp
  | cons first rest =>
    have hpair : (first :: rest).Pairwise fun a b => a.1 = b.1 := by
      have hiff : (first :: rest).IsChain fun a b => a.1 = b.1 := by
        refine hchain.imp ?_
        intro a b hab
        simpa [sameRole] using hab
      exact List.isChain_iff_pairwise.mp hiff
    intro t ht
    rcases List.mem_cons.mp ht with rfl | ht
    · rfl
    · exact ((List.pairwise_cons.mp hpair).1 t ht).symm

theorem runs_snoc {ts : List (String × String)} (system : String × String)
    {role content : String} (hrole : system.1 ≠ role) :
    appendMessage (system :: (runs ts).map joined) role content =
      system :: (runs (ts ++ [(role, content)])).map joined := by
  rcases List.eq_nil_or_concat (runs ts) with hnil | ⟨init, last, hruns⟩
  · have hts : ts = [] := List.splitBy_eq_nil.mp hnil
    subst hts
    have hone : runs [(role, content)] = [[(role, content)]] := rfl
    simp [appendMessage, hnil, hone, hrole, joined]
  · rw [List.concat_eq_append] at hruns
    have hmem : last ∈ runs ts := by simp [hruns]
    have hne : last ≠ [] := List.ne_nil_of_mem_splitBy hmem
    have hroles := role_of_mem hmem
    have hsplit : system :: (runs ts).map joined =
        (system :: init.map joined) ++ [joined last] := by simp [hruns]
    have hend : (system :: (runs ts).map joined).getLast? = some (joined last) := by
      rw [hsplit, List.getLast?_concat]
    simp only [appendMessage, hend]
    by_cases hsame : (joined last).1 = role
    · have hnext : runs (ts ++ [(role, content)]) = init ++ [last ++ [(role, content)]] := by
        refine splitBy_snoc_same hruns ?_
        intro t ht
        simp [sameRole, hroles t (List.mem_of_mem_getLast? ht), hsame]
      rw [if_pos hsame, hnext, hsplit, List.dropLast_concat]
      simp [joined_snoc hne]
    · have hnext : runs (ts ++ [(role, content)]) = runs ts ++ [[(role, content)]] := by
        refine splitBy_snoc_new ?_
        intro t ht
        have hflat : ts = (init ++ [last]).flatten := by
          rw [← hruns, runs, List.flatten_splitBy]
        have hlast : t ∈ last := by
          rw [hflat, List.flatten_append, List.flatten_singleton,
            List.getLast?_append_of_ne_nil _ hne] at ht
          exact List.mem_of_mem_getLast? ht
        simp [sameRole, hroles t hlast, hsame]
      rw [if_neg hsame, hnext]
      simp [joined]

theorem roleName_ne_system (role : Role) : "system" ≠ roleName role := by
  cases role <;> decide

theorem fold_runs (prompt : String) (conversation : List ConversationTurn) :
    conversation.foldl (fun ms turn => appendMessage ms (roleName turn.role) turn.text)
        [("system", prompt)] =
      ("system", prompt) ::
        (runs (conversation.map fun turn => (roleName turn.role, turn.text))).map joined := by
  induction conversation using List.reverseRecOn with
  | nil => rfl
  | append_singleton conversation turn ih =>
    rw [List.foldl_concat, ih, runs_snoc ("system", prompt) (roleName_ne_system turn.role),
      List.map_append]
    rfl

theorem messages_eq (request : CompositionRequest) :
    messages request =
      ("system", request.systemPrompt) :: (runs (turns request)).map joined := by
  have huser : ("system", request.systemPrompt).1 ≠ "user" := roleName_ne_system .user
  rw [messages, fold_runs, runs_snoc _ huser]
  rfl

theorem joined_apart (ts : List (String × String)) :
    ((runs ts).map joined).IsChain fun a b => a.1 ≠ b.1 := by
  have hchain := List.isChain_getLast_head_splitBy sameRole ts
  rw [List.isChain_map]
  refine List.IsChain.imp_of_mem_imp ?_ hchain
  rintro a b ha hb ⟨hane, hbne, hdiff⟩ heq
  have hla := role_of_mem ha _ (List.getLast_mem hane)
  have hhb := role_of_mem hb _ (List.head_mem hbne)
  simp only [sameRole, decide_eq_false_iff_not] at hdiff
  exact hdiff (by rw [hla, hhb, heq])

theorem joined_ends {run : List (String × String)} {t : String × String}
    (h : run.getLast? = some t) : ∃ start, (joined run).2 = start ++ t.2 := by
  obtain ⟨init, rfl⟩ : ∃ init, run = init ++ [t] :=
    ⟨run.dropLast, (List.dropLast_append_getLast? t h).symm⟩
  by_cases hinit : init = []
  · subst hinit
    exact ⟨"", by simp [joined]⟩
  · obtain ⟨role, content⟩ := t
    exact ⟨(joined init).2 ++ "\n\n", by rw [joined_snoc hinit]⟩

theorem runs_end {ts : List (String × String)} {t : String × String}
    (h : ts.getLast? = some t) :
    ∃ init last, runs ts = init ++ [last] ∧ last ∈ runs ts ∧ last.getLast? = some t := by
  have hflat : (runs ts).flatten = ts := List.flatten_splitBy _ _
  rcases List.eq_nil_or_concat (runs ts) with hnil | ⟨init, last, hruns⟩
  · rw [hnil] at hflat
    simp [← hflat] at h
  · rw [List.concat_eq_append] at hruns
    have hmem : last ∈ runs ts := by simp [hruns]
    have hne : last ≠ [] := List.ne_nil_of_mem_splitBy hmem
    refine ⟨init, last, hruns, hmem, ?_⟩
    rw [← h, ← hflat, hruns, List.flatten_append, List.flatten_singleton,
      List.getLast?_append_of_ne_nil _ hne]

/-- The last message is one of the user and ends with the evidence. -/
theorem messages_end (request : CompositionRequest) : ∃ start,
    (messages request).getLast? = some ("user", start ++ request.evidencePrompt) := by
  have hturn : (turns request).getLast? = some ("user", evidenceMessage request) :=
    List.getLast?_concat
  obtain ⟨init, last, hruns, hmem, hlast⟩ := runs_end hturn
  have hrole : "user" = (joined last).1 := role_of_mem hmem _ (List.mem_of_mem_getLast? hlast)
  obtain ⟨start, hstart⟩ := joined_ends hlast
  have hsplit : messages request =
      (("system", request.systemPrompt) :: init.map joined) ++ [joined last] := by
    rw [messages_eq, hruns]
    simp
  obtain ⟨lead, hlead⟩ : ∃ lead, evidenceMessage request = lead ++ request.evidencePrompt :=
    ⟨_, rfl⟩
  refine ⟨start ++ lead, ?_⟩
  rw [hsplit, List.getLast?_concat]
  refine congrArg some (Prod.ext hrole.symm ?_)
  rw [hstart, hlead, String.append_assoc]

theorem role_of_turn {request : CompositionRequest} {t : String × String}
    (ht : t ∈ turns request) : t.1 ≠ "system" := by
  rcases List.mem_append.mp ht with hin | hin
  · obtain ⟨turn, -, rfl⟩ := List.mem_map.mp hin
    exact (roleName_ne_system turn.role).symm
  · rw [List.mem_singleton.mp hin]
    exact (roleName_ne_system .user).symm

/-- What `compose` posts: the system prompt and then one message for each maximal run of
turns of one role, which lose and reorder nothing; the last message is the evidence. -/
theorem messages_join_runs (request : CompositionRequest) :
    (∀ settings replies, ∀ post ∈ (compose settings replies request).posts,
      post = .chat settings.model (messages request) settings.maxOutputTokens) ∧
    messages request =
      ("system", request.systemPrompt) :: (runs (turns request)).map joined ∧
    (runs (turns request)).flatten = turns request ∧
    (∀ run ∈ runs (turns request), run ≠ [] ∧ (joined run).1 ≠ "system" ∧
      ∀ t ∈ run, t.1 = (joined run).1) ∧
    ((messages request).IsChain fun a b => a.1 ≠ b.1) ∧
    ∃ start, (messages request).getLast? = some ("user", start ++ request.evidencePrompt) := by
  have hflat : (runs (turns request)).flatten = turns request := List.flatten_splitBy _ _
  have hrun : ∀ run ∈ runs (turns request), run ≠ [] ∧ (joined run).1 ≠ "system" ∧
      ∀ t ∈ run, t.1 = (joined run).1 := by
    intro run hmem
    have hne : run ≠ [] := List.ne_nil_of_mem_splitBy hmem
    have hroles := role_of_mem hmem
    have hturn : run.head hne ∈ turns request := by
      rw [← hflat]
      exact List.mem_flatten_of_mem hmem (List.head_mem hne)
    refine ⟨hne, ?_, hroles⟩
    rw [← hroles _ (List.head_mem hne)]
    exact role_of_turn hturn
  refine ⟨?_, messages_eq request, hflat, hrun, ?_, messages_end request⟩
  · intro settings replies post hpost
    exact List.eq_of_mem_replicate hpost
  · rw [messages_eq, List.isChain_cons]
    refine ⟨?_, joined_apart _⟩
    intro m hm
    obtain ⟨run, hmem, rfl⟩ := List.mem_map.mp (List.mem_of_mem_head? hm)
    exact (hrun run hmem).2.1.symm

end Piki.OpenAIChatCompletionsAdapter
