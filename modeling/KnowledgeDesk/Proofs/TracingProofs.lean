import KnowledgeDesk.Lib.Runs
import KnowledgeDesk.Proofs.RedactProofs
import KnowledgeDesk.Tracing

/-!
# What leaves for the tracer

Every text of a call is redacted, except the failure `finish` is given: it goes out as it came. So what
has left is redacted iff no failure with PII in it has reached the root span.
-/

namespace KnowledgeDesk.Proofs

open AskTracer Runs

/-- The text is a redacted one or the marker of a failed redaction, and nothing is detected in it. -/
structure Scrubbed (env : Env) (text : String) : Prop where
  source : text = "[REDACTION FAILED]" ∨ ∃ original, text = Pii.redact env original
  clean : Pii.detectTypes env text = []

/-- Everything handed to the client is scrubbed. -/
def AllScrubbed (env : Env) (t : AskTracer) : Prop := ∀ c ∈ t.handed, ∀ text ∈ c.texts, Scrubbed env text

/-- `finish` gets past the ends of the child spans. -/
def ReachesRoot (sur : Surroundings) (t : AskTracer) : Prop :=
  (t.retrieval = true → sur.clientRaises t.handed.length = false) ∧
  (t.gen = true → sur.clientRaises (t.handed.length + if t.retrieval then 1 else 0) = false)

/-- The step hands the client a failure in which PII is detected. -/
def Leaks (sur : Surroundings) (t : AskTracer) : Method → Prop
  | .finish (some error) => t.root = true ∧ ReachesRoot sur t ∧ Pii.detectTypes sur.env error ≠ []
  | _ => False

variable {sur : Surroundings}

theorem scrubbed_redact (env : Env) (text : String) : Scrubbed env (Pii.redact env text) :=
  ⟨.inr ⟨text, rfl⟩, detectTypes_redact text⟩

/-- A failure without PII is its own redaction. -/
theorem scrubbed_iff {env : Env} {text : String} : Scrubbed env text ↔ Pii.detectTypes env text = [] :=
  ⟨fun h => h.clean, fun h => ⟨.inr ⟨text, (redact_of_detectTypes h).symm⟩, h⟩⟩

theorem scrubbed_scrub (sur : Surroundings) (text : String) : Scrubbed sur.env (scrub sur text) := by
  unfold scrub
  split
  · exact scrubbed_iff.2 (detectTypes_of_no_telling (not_telling (by decide)))
  · exact scrubbed_redact sur.env text

/-! ## Blocks -/

/-- The block hands the client calls of `S` only, and keeps the question and the answer. -/
def Hands (S : ClientCall → Prop) (body : Block) : Prop :=
  ∀ t, (body t).2.question = t.question ∧
    ∃ cs, (body t).2.handed = t.handed ++ cs ∧ ∀ c ∈ cs, S c

variable {S : ClientCall → Prop}

theorem hands_pure : Hands S (pure ()) := fun _ => ⟨rfl, [], by simp, by simp⟩

theorem hands_assign {f : AskTracer → AskTracer}
    (hf : ∀ t, (f t).question = t.question ∧ (f t).handed = t.handed) : Hands S (assign f) :=
  fun t => ⟨(hf t).1, [], by simp [assign, (hf t).2], by simp⟩

theorem hands_call {c : ClientCall} (h : S c) : Hands S (call sur c) :=
  fun _ => ⟨rfl, [c], rfl, by simpa using h⟩

theorem hands_bind {body : Block} {next : Unit → Block} (hb : Hands S body) (hn : Hands S (next ())) :
    Hands S (body >>= next) := by
  intro t
  obtain ⟨hq, cs, hcs, hS⟩ := hb t
  rw [Proc.bind_apply]
  rcases hres : body t with ⟨r, t'⟩
  rw [hres] at hq hcs
  cases r with
  | error e => exact ⟨hq, cs, hcs, hS⟩
  | ok u =>
    obtain ⟨hq', cs', hcs', hS'⟩ := hn t'
    refine ⟨hq'.trans hq, cs ++ cs', by rw [hcs', hcs, List.append_assoc], fun c hc => ?_⟩
    rcases List.mem_append.1 hc with hc | hc
    · exact hS c hc
    · exact hS' c hc

theorem hands_ifThen {b : Bool} {body : Block} (h : Hands S body) : Hands S (ifThen b body) := by
  cases b with
  | true => exact h
  | false => exact hands_pure

theorem Hands.mono {S' : ClientCall → Prop} {body : Block} (h : Hands S body) (hS : ∀ c, S c → S' c) :
    Hands S' body := fun t =>
  let ⟨hq, cs, hcs, hall⟩ := h t
  ⟨hq, cs, hcs, fun c hc => hS c (hall c hc)⟩

/-- What a call hands over has left, whatever comes after it. -/
theorem handed_call_bind {c : ClientCall} {next : Unit → Block} (hn : Hands S (next ())) (t : AskTracer) :
    c ∈ ((call sur c >>= next) t).2.handed := by
  rw [Proc.bind_apply, call]
  cases hr : sur.clientRaises t.handed.length with
  | true => simp
  | false =>
    obtain ⟨-, cs, hcs, -⟩ := hn { t with handed := t.handed ++ [c] }
    rw [if_neg Bool.false_ne_true, hcs]
    simp

/-- A guarded block whose handler calls nothing. -/
theorem guarded_hands {body : Block} {onError : AskTracer → AskTracer} (hb : Hands S body)
    (he : ∀ t, (onError t).question = t.question ∧ (onError t).handed = t.handed) (t : AskTracer) :
    (guarded body onError t).question = t.question ∧
      ∃ cs, (guarded body onError t).handed = t.handed ++ cs ∧ ∀ c ∈ cs, S c := by
  obtain ⟨hq, cs, hcs, hS⟩ := hb t
  unfold guarded
  rcases hres : body t with ⟨_ | _, t'⟩
  · rw [hres] at hq hcs
    exact ⟨(he t').1.trans hq, cs, (he t').2.trans hcs, hS⟩
  · rw [hres] at hq hcs
    exact ⟨hq, cs, hcs, hS⟩

/-! ## The methods -/

/-- The texts of the call are scrubbed, if the question is. -/
def ScrubbedCall (sur : Surroundings) (question : String) (c : ClientCall) : Prop :=
  Scrubbed sur.env question → ∀ text ∈ c.texts, Scrubbed sur.env text

theorem scrubbedCall_of_texts {question : String} {c : ClientCall} (h : c.texts = []) :
    ScrubbedCall sur question c := fun _ text htext => by
  rw [h] at htext
  cases htext

theorem AllScrubbed.append {t t' : AskTracer} (ht : AllScrubbed sur.env t)
    (hq : Scrubbed sur.env t.question) {cs : List ClientCall} (hcs : t'.handed = t.handed ++ cs)
    (hS : ∀ c ∈ cs, ScrubbedCall sur t.question c) : AllScrubbed sur.env t' := by
  intro c hc
  rw [hcs] at hc
  rcases List.mem_append.1 hc with hc | hc
  · exact ht c hc
  · exact hS c hc hq

theorem hands_question {question : String} {c : ClientCall} (h : c.texts = [question]) :
    Hands (ScrubbedCall sur question) (call sur c) := by
  refine hands_call fun hq text htext => ?_
  rw [h] at htext
  rwa [List.mem_singleton.1 htext]

theorem hands_silent {question : String} {c : ClientCall} (h : c.texts = []) :
    Hands (ScrubbedCall sur question) (call sur c) :=
  hands_call (scrubbedCall_of_texts h)

theorem hands_openTrace (question : String) (orgId userId : Uuid) (providerName : String) :
    Hands (ScrubbedCall sur question) (openTrace sur question orgId userId providerName) := by
  refine hands_bind (hands_silent rfl) ?_
  refine hands_bind (hands_question rfl) ?_
  refine hands_bind (hands_assign fun _ => ⟨rfl, rfl⟩) ?_
  refine hands_bind (hands_question rfl) ?_
  exact hands_assign fun _ => ⟨rfl, rfl⟩

theorem init_scrubbed (sur : Surroundings) (configured : Bool) (question : String) (orgId userId : Uuid)
    (providerName model : String) :
    Scrubbed sur.env (init sur configured question orgId userId providerName model).question ∧
      AllScrubbed sur.env (init sur configured question orgId userId providerName model) := by
  have hq := scrubbed_scrub sur question
  have hnone : AllScrubbed sur.env { question := scrub sur question, model } := by
    intro c hc
    cases hc
  unfold init
  cases configured with
  | false => exact ⟨hq, hnone⟩
  | true =>
    obtain ⟨hkeep, cs, hcs, hS⟩ := @guarded_hands _ _ (fun t => { t with root := false })
      (hands_openTrace (scrub sur question) orgId userId providerName)
      (fun _ => ⟨rfl, rfl⟩) { question := scrub sur question, model }
    exact ⟨by rw [if_pos rfl, hkeep]; exact hq, hnone.append hq hcs hS⟩

theorem hands_sources (sur : Surroundings) (ss : List Source) (stats : Option RetrievalStats) (model question : String)
    (retrieval : Bool) :
    Hands (ScrubbedCall sur question) (do
      ifThen retrieval (endRetrieval sur ss stats)
      call sur (.startGeneration model question)
      assign fun t => { t with gen := true }) := by
  refine hands_bind (hands_ifThen ?_) ?_
  · refine hands_bind (hands_call fun _ => ?_) ?_
    · simp only [ClientCall.texts, scrubSources, List.map_map, List.mem_map]
      rintro _ ⟨s, -, rfl⟩
      exact scrubbed_scrub sur s.path
    · exact hands_bind (hands_silent rfl) (hands_assign fun _ => ⟨rfl, rfl⟩)
  · exact hands_bind (hands_question rfl) (hands_assign fun _ => ⟨rfl, rfl⟩)

theorem hands_endChildren (sur : Surroundings) (question : String) (retrieval gen : Bool) :
    Hands (ScrubbedCall sur question) (endChildren sur retrieval gen) :=
  hands_bind (hands_ifThen (hands_silent rfl)) (hands_ifThen (hands_silent rfl))

/-- What the root span is ended with: the redacted answer, or the failure as it is. -/
theorem hands_endRoot (question : String) (answer : List String) (error : Option String) :
    Hands (fun c => (∀ e ∈ error, Scrubbed sur.env e) → ScrubbedCall sur question c)
      (endRoot sur question answer error) := by
  cases error with
  | none =>
    have hans := scrubbed_scrub sur (String.join answer)
    refine hands_bind (hands_call fun _ hq => by simpa [ClientCall.texts] using ⟨hq, hans⟩) ?_
    refine hands_bind (hands_call fun _ _ => by simpa [ClientCall.texts] using hans) ?_
    exact hands_call fun _ => scrubbedCall_of_texts rfl
  | some e =>
    refine hands_bind (hands_call fun he hq => by simpa [ClientCall.texts] using ⟨hq, he e rfl⟩) ?_
    refine hands_bind (hands_call fun he _ => by simpa [ClientCall.texts] using he e rfl) ?_
    exact hands_call fun _ => scrubbedCall_of_texts rfl

/-- The ends of the child spans do not raise. -/
theorem endChildren_ok (t : AskTracer) :
    (endChildren sur t.retrieval t.gen t).1 = .ok () ↔ ReachesRoot sur t := by
  unfold endChildren ReachesRoot
  rcases t with ⟨question, model, root, retrieval, gen, answer, handed⟩
  cases retrieval with
  | false => cases gen <;> simp [Proc.bind_apply, ifThen, call]
  | true =>
    cases hr : sur.clientRaises handed.length <;> cases gen <;> simp [Proc.bind_apply, ifThen, call, hr]

/-- What a step hands over is scrubbed, if it is not a failure that is not. -/
theorem hands_step (sur : Surroundings) (t : AskTracer) (m : Method) :
    (step sur t m).question = t.question ∧
      ∃ cs, (step sur t m).handed = t.handed ++ cs ∧ ∀ c ∈ cs,
        (∀ e, m = .finish (some e) → Scrubbed sur.env e) → ScrubbedCall sur t.question c := by
  have hidle : t.question = t.question ∧ ∃ cs, t.handed = t.handed ++ cs ∧ ∀ c ∈ cs,
      (∀ e, m = .finish (some e) → Scrubbed sur.env e) → ScrubbedCall sur t.question c :=
    ⟨rfl, [], by simp, by simp⟩
  cases m with
  | sources ss stats =>
    simp only [step, AskTracer.sources]
    split
    · have hblock := hands_sources sur ss stats t.model t.question t.retrieval
      exact guarded_hands (hblock.mono fun _ h _ => h) (fun _ => ⟨rfl, rfl⟩) t
    · exact hidle
  | token text => exact hidle
  | done inputTokens outputTokens costUsd =>
    simp only [step, AskTracer.done]
    split
    · refine guarded_hands (hands_call fun _ _ => ?_) (fun _ => ⟨rfl, rfl⟩) t
      simpa [ClientCall.texts] using scrubbed_scrub sur (String.join t.answer)
    · exact hidle
  | finish error =>
    simp only [step, AskTracer.finish]
    split
    · have hchildren := hands_endChildren sur t.question t.retrieval t.gen
      refine guarded_hands (hands_bind (hchildren.mono fun _ h _ => h) ?_) (fun _ => ⟨rfl, rfl⟩) t
      refine (hands_endRoot t.question t.answer error).mono fun _ h he => h fun e hm => he e ?_
      rw [Option.mem_def.1 hm]
    · exact hidle

/-- A step keeps what has left scrubbed iff it does not leak. -/
theorem allScrubbed_step {t : AskTracer} (hq : Scrubbed sur.env t.question) (ht : AllScrubbed sur.env t)
    (m : Method) : AllScrubbed sur.env (step sur t m) ↔ ¬ Leaks sur t m := by
  by_cases hclean : ∀ e, m = .finish (some e) → Scrubbed sur.env e
  · obtain ⟨-, cs, hcs, hS⟩ := hands_step sur t m
    refine iff_of_true (ht.append hq hcs fun c hc => hS c hc hclean) fun hleak => ?_
    cases m with
    | finish error =>
      cases error with
      | none => exact hleak
      | some e => exact hleak.2.2 (hclean e rfl).clean
    | _ => exact hleak
  · obtain ⟨e, rfl, hdirty⟩ : ∃ e, m = .finish (some e) ∧ ¬ Scrubbed sur.env e := by
      simpa using hclean
    have hpii : Pii.detectTypes sur.env e ≠ [] := fun h => hdirty (scrubbed_iff.2 h)
    simp only [step, AskTracer.finish]
    by_cases hroot : t.root = true
    · rw [if_pos hroot]
      rcases hres : endChildren sur t.retrieval t.gen t with ⟨r, t'⟩
      cases r with
      | error u =>
        -- the end of a child span has raised, and the failure has not left
        have hreach : ¬ ReachesRoot sur t := fun h => by
          have := (endChildren_ok t).2 h
          rw [hres] at this
          cases this
        obtain ⟨-, cs, hcs, hS⟩ := hands_endChildren sur t.question t.retrieval t.gen t
        rw [hres] at hcs
        rw [guarded, Proc.bind_of_error hres]
        exact iff_of_true (ht.append hq hcs hS) fun h => hreach h.2.1
      | ok u =>
        have hreach : ReachesRoot sur t := (endChildren_ok t).1 (by rw [hres])
        have hmem : ClientCall.setTraceIo t.question e ∈
            (endRoot sur t.question t.answer (some e) t').2.handed :=
          @handed_call_bind sur (fun _ => True) _ _
            (hands_bind (hands_call trivial) (hands_call trivial)) t'
        rw [guarded, Proc.bind_of_ok hres]
        rcases hlast : endRoot sur t.question t.answer (some e) t' with ⟨r, t''⟩
        rw [hlast] at hmem
        have hleak : ¬ AllScrubbed sur.env t'' := fun h =>
          hdirty (h _ hmem e (by simp [ClientCall.texts]))
        cases r <;> exact iff_of_false hleak fun h => h ⟨hroot, hreach, hpii⟩
    · rw [if_neg hroot]
      exact iff_of_true ht fun h => hroot h.1

/-- What has left for the tracer is redacted, in every order of the methods, iff no call of `finish` gets
to the root span with a failure in which PII is detected. -/
theorem traces_are_redacted_iff (sur : Surroundings) (configured : Bool) (question : String)
    (orgId userId : Uuid) (providerName model : String) (ms : List Method) :
    Throughout (step sur) (AllScrubbed sur.env) (init sur configured question orgId userId providerName model)
        ms ↔
      EachStep (step sur) (fun t m => ¬ Leaks sur t m)
        (init sur configured question orgId userId providerName model) ms := by
  obtain ⟨hq, hall⟩ := init_scrubbed sur configured question orgId userId providerName model
  have hkeep : ∀ t m, Scrubbed sur.env t.question → Scrubbed sur.env (step sur t m).question :=
    fun t m h => (hands_step sur t m).1 ▸ h
  exact throughout_iff_eachStep hkeep (fun t m hq ht => allScrubbed_step hq ht m) hq hall

/-- Langfuse as it should be, and a redaction that never raises. -/
def quiet : Surroundings := ⟨asciiEnv id, fun _ => false, fun _ => false⟩

/-- A provider's failure that names somebody: it goes out as it is. -/
theorem failure_is_not_redacted :
    ¬ Throughout (step quiet) (AllScrubbed quiet.env)
      (init quiet true "who is Dana?" 1 2 "claude" "claude-sonnet-5")
      [.sources [⟨"7", 0, "team.txt"⟩] none, .token "Dana is ",
        .finish (some (traceError "0a1b2c3d" "RuntimeError('no mailbox for dana@acme.test')"))] := by
  intro h
  have hclean := (h.last (.setTraceIo "who is Dana?"
    (traceError "0a1b2c3d" "RuntimeError('no mailbox for dana@acme.test')")) (by decide)
    (traceError "0a1b2c3d" "RuntimeError('no mailbox for dana@acme.test')")
    (by simp [ClientCall.texts])).clean
  revert hclean
  decide

end KnowledgeDesk.Proofs
