import Frona.Inference.Retry
import Mathlib.Tactic.Ring

set_option autoImplicit false

namespace Frona.Inference

open Utf8 (Text)

section Attempts

variable (texts : Texts) (history : List RigMessage) (outcomes : Nat → Attempt)

/-- Tokens were sent, and then the provider rejected the output cap and named a lower one. -/
def Made.RejectedLate (made : Made) : Prop :=
  made.attempt.emits = true ∧ ∃ error provider lower, made.attempt.ending = .error error provider ∧
    learnOutputCap texts made.cap error = some lower

theorem Attempt.tokens_of_silent {attempt : Attempt} (silent : attempt.emits = false) :
    attempt.tokens = [] := by
  simpa [Attempt.emits] using silent

@[simp] theorem streamedText_append (events more : List StreamEvent) :
    streamedText (events ++ more) = streamedText events ++ streamedText more := by
  simp [streamedText]

theorem streamedText_tokens (tokens : List StreamToken) :
    streamedText (tokens.map tokenEvent) = tokens.flatMap tokenText := by
  induction tokens with
  | nil => rfl
  | cons token rest ih =>
      cases token with
      | text text => simpa [streamedText, tokenEvent, eventText, tokenText] using ih
      | reasoning text => simpa [streamedText, tokenEvent, eventText, tokenText] using ih

structure Passed (sent : Option Nat) (before after : Call)
    (result : Except InferenceError StreamResult) (quiet : List Made) (last : Made) : Prop where
  made : after.made = before.made ++ quiet ++ [last]
  silent : ∀ made ∈ quiet, made.attempt.emits = false
  cap : last.cap = sent
  events : streamedText after.events = streamedText before.events ++ last.attempt.text
  recorded : after.accumulatedText =
    before.accumulatedText ++ if result.isOk then last.attempt.text else []
  emitted : after.emitted = (before.emitted || last.attempt.emits)
  rejected : ∀ error lower, result = .error error → learnOutputCap texts sent error = some lower →
    last.attempt.emits = true → last.RejectedLate texts

variable {texts history outcomes}

theorem Attempt.text_of_silent {attempt : Attempt} (silent : attempt.emits = false) :
    attempt.text = [] := by
  simp [Attempt.text, attempt.tokens_of_silent silent]

theorem result_error {attempt : Attempt} {error : InferenceError}
    (failed : attempt.result history = .error error) :
    (error = .cancelled attempt.text) ∨ (error = .emptyResponse) ∨
      ∃ provider, attempt.ending = .error error provider := by
  unfold Attempt.result at failed
  split at failed
  next => exact Or.inl (Except.error.inj failed).symm
  next content _ =>
    split at failed
    next =>
      split at failed
      next => simp at failed
      next => exact Or.inr (Or.inl (Except.error.inj failed).symm)
    next => simp at failed
  next inner provider ended =>
    obtain rfl := Except.error.inj failed
    exact Or.inr (Or.inr ⟨provider, ended⟩)

theorem passed_giveUp (call : Call) (index : Nat) (model : ModelConfig) (sent : Option Nat)
    (retries : Nat) (attempt : Attempt) (error : InferenceError)
    (failed : attempt.result history = .error error) :
    Passed texts sent call ((call.attempt index sent attempt).giveUp model retries error).2
      ((call.attempt index sent attempt).giveUp model retries error).1 []
      ⟨index, sent, attempt⟩ := by
  have texted : streamedText (call.events ++ attempt.tokens.map tokenEvent) =
      streamedText call.events ++ attempt.text := by
    rw [streamedText_append, streamedText_tokens]
    rfl
  cases result_error failed with
  | inl cancelled =>
      subst cancelled
      refine ⟨by simp [Call.giveUp, Call.append, Call.attempt], by simp, rfl, texted, ?_, rfl, ?_⟩
      · rfl
      · intro error lower same
        simp [Call.giveUp] at same
  | inr rest =>
      have kept : (call.attempt index sent attempt).giveUp model retries error =
          (.error (error.forModel model retries), call.attempt index sent attempt) := by
        cases rest with
        | inl empty =>
            subst empty
            rfl
        | inr ended =>
            obtain ⟨provider, _⟩ := ended
            cases error with
            | cancelled text => simp [InferenceError.isCancelled] at provider
            | _ => rfl
      rw [kept]
      refine ⟨by simp [Call.attempt], by simp, rfl, texted, by simp [Call.attempt, Except.isOk,
        Except.toBool], rfl, ?_⟩
      intro wrapped lower same learned emits
      obtain rfl := Except.error.inj same
      cases rest with
      | inl empty =>
          subst empty
          cases sent <;>
            simp [learnOutputCap, InferenceError.forModel, InferenceError.outputTokenLimit]
              at learned
      | inr ended =>
          obtain ⟨provider, ended⟩ := ended
          exact ⟨emits, error, provider, lower, ended, learned⟩

theorem passed_ok (call : Call) (index : Nat) (sent : Option Nat) (attempt : Attempt)
    (content : List AssistantContent) :
    Passed texts sent call ((call.attempt index sent attempt).append attempt.text)
      (.ok (.contents content)) [] ⟨index, sent, attempt⟩ where
  made := by simp [Call.append, Call.attempt]
  silent := by simp
  cap := rfl
  events := by
    simp only [Call.append, Call.attempt, streamedText_append, streamedText_tokens]
    rfl
  recorded := rfl
  emitted := rfl
  rejected error lower same := by simp at same

theorem Passed.again {call after : Call} {index : Nat} {sent : Option Nat} {attempt : Attempt}
    {reason : String} {result : Except InferenceError StreamResult} {quiet : List Made}
    {last : Made} (silent : attempt.emits = false)
    (passed : Passed texts sent { call.attempt index sent attempt with
      events := (call.attempt index sent attempt).events ++ [.retry reason] } after result quiet
      last) : Passed texts sent call after result (⟨index, sent, attempt⟩ :: quiet) last where
  made := by simpa [Call.attempt] using passed.made
  silent made member := by
    cases List.mem_cons.mp member with
    | inl first => exact first ▸ silent
    | inr later => exact passed.silent made later
  cap := passed.cap
  events := by
    rw [passed.events]
    simp [Call.attempt, attempt.tokens_of_silent silent, streamedText, eventText]
  recorded := passed.recorded
  emitted := by
    rw [passed.emitted]
    simp [Call.attempt, silent]
  rejected := passed.rejected

theorem passed_attempts (index : Nat) (model : ModelConfig) (sent : Option Nat)
    (left retries : Nat) (call : Call) :
    ∃ quiet last, quiet.length ≤ left ∧
      Passed texts sent call
        (streamAttempts texts history outcomes index model sent left retries call).2
        (streamAttempts texts history outcomes index model sent left retries call).1 quiet last := by
  induction left generalizing retries call with
  | zero =>
      refine ⟨[], ⟨index, sent, outcomes call.made.length⟩, Nat.le_refl _, ?_⟩
      unfold streamAttempts
      cases ended : (outcomes call.made.length).result history with
      | ok content => simpa only [ended] using passed_ok call index sent _ content
      | error error =>
          simpa only [ended] using passed_giveUp call index model sent retries _ error ended
  | succ left ih =>
      unfold streamAttempts
      cases ended : (outcomes call.made.length).result history with
      | ok content =>
          simp only [ended]
          exact ⟨[], _, Nat.zero_le _, passed_ok call index sent _ content⟩
      | error error =>
          simp only [ended]
          split
          next again =>
            obtain ⟨_, unsent⟩ := Bool.and_eq_true_iff.mp again
            have silent : (outcomes call.made.length).emits = false := by
              simp [Call.attempt] at unsent
              exact unsent.2
            obtain ⟨quiet, last, short, passed⟩ := ih (retries + 1) _
            exact ⟨⟨index, sent, outcomes call.made.length⟩ :: quiet, last,
              Nat.succ_le_succ short, passed.again silent⟩
          next =>
            exact ⟨[], _, Nat.zero_le _, passed_giveUp call index model sent retries _ error ended⟩

theorem passed_one {maxRetries index : Nat} {model : ModelConfig} {sent : Option Nat}
    {call after : Call} {result : Except InferenceError StreamResult}
    (passes : streamOneModel texts history outcomes maxRetries index model sent call =
      (result, after)) :
    ∃ quiet last, quiet.length ≤ maxRetries ∧ Passed texts sent call after result quiet last := by
  obtain ⟨quiet, last, short, passed⟩ := passed_attempts index model sent maxRetries 0
    { call with passes := call.passes ++ [(index, sent)] }
  rw [streamOneModel] at passes
  rw [passes] at passed
  exact ⟨quiet, last, short, passed.made, passed.silent, passed.cap, passed.events,
    passed.recorded, passed.emitted, passed.rejected⟩

end Attempts

section Calls

structure Streamed (before after : Call) (ok : Bool) (quiet tail : List Made) : Prop where
  made : after.made = before.made ++ quiet ++ tail
  silent : ∀ made ∈ quiet, made.attempt.emits = false
  single : tail.length ≤ 1
  events : streamedText after.events =
    streamedText before.events ++ tail.flatMap fun made => made.attempt.text
  recorded : after.accumulatedText =
    before.accumulatedText ++ if ok then tail.flatMap fun made => made.attempt.text else []

variable {texts : Texts} {history : List RigMessage} {outcomes : Nat → Attempt}

theorem Passed.streamed {sent : Option Nat} {before after : Call}
    {result : Except InferenceError StreamResult} {quiet : List Made} {last : Made}
    (passed : Passed texts sent before after result quiet last) :
    Streamed before after result.isOk quiet [last] where
  made := passed.made
  silent := passed.silent
  single := Nat.le_refl _
  events := by simpa using passed.events
  recorded := by simpa using passed.recorded

theorem Streamed.none (call : Call) (ok : Bool) : Streamed call call ok [] [] :=
  ⟨by simp, by simp, by simp, by simp, by simp⟩

theorem Streamed.from {before start after : Call} {ok : Bool} {quiet tail : List Made}
    (streamed : Streamed start after ok quiet tail) (made : start.made = before.made)
    (events : start.events = before.events)
    (recorded : start.accumulatedText = before.accumulatedText) :
    Streamed before after ok quiet tail where
  made := made ▸ streamed.made
  silent := streamed.silent
  single := streamed.single
  events := events ▸ streamed.events
  recorded := recorded ▸ streamed.recorded

theorem Streamed.trans {before between after : Call} {ok : Bool}
    {quiet tail later last : List Made} (first : Streamed before between false quiet tail)
    (silent : ∀ made ∈ tail, made.attempt.emits = false)
    (second : Streamed between after ok later last) :
    Streamed before after ok (quiet ++ tail ++ later) last := by
  have texts : tail.flatMap (fun made => made.attempt.text) = [] := by
    rw [List.flatMap_eq_nil_iff]
    exact fun made member => Attempt.text_of_silent (silent made member)
  refine ⟨?_, ?_, second.single, ?_, ?_⟩
  · rw [second.made, first.made]
    simp
  · intro made member
    rcases List.mem_append.mp member with member | member
    · rcases List.mem_append.mp member with member | member
      · exact first.silent made member
      · exact silent made member
    · exact second.silent made member
  · rw [second.events, first.events, texts, List.append_nil]
  · rw [second.recorded, first.recorded]
    simp

def Recorded (texts : Texts) (before after : Call) (result : Except InferenceError StreamResult) :
    Prop :=
  ∃ added, after.made = before.made ++ added ∧
    (before.emitted = false → (∀ made ∈ added, ¬ made.RejectedLate texts) →
      ∃ quiet tail, Streamed before after result.isOk quiet tail ∧
        (after.emitted = false → ∀ made ∈ tail, made.attempt.emits = false))

theorem Passed.recorded_all {sent : Option Nat} {before after : Call}
    {result : Except InferenceError StreamResult} {quiet : List Made} {last : Made}
    (passed : Passed texts sent before after result quiet last) :
    Recorded texts before after result := by
  refine ⟨quiet ++ [last], by simpa using passed.made, fun _ _ => ⟨quiet, [last], passed.streamed,
    fun still made member => ?_⟩⟩
  obtain rfl := List.mem_singleton.mp member
  rw [passed.emitted] at still
  exact (Bool.or_eq_false_iff.mp still).2

theorem recorded_model (maxRetries index : Nat) (model : ModelConfig) (sent : Option Nat)
    (call : Call) :
    Recorded texts call
      (streamModel texts history outcomes maxRetries index model sent call).2
      (streamModel texts history outcomes maxRetries index model sent call).1 := by
  fun_induction streamModel texts history outcomes maxRetries index model sent call with
  | case1 sent call result after passes =>
      obtain ⟨quiet, last, _, passed⟩ := passed_one passes
      exact passed.recorded_all
  | case2 sent call error after passes lower learned ih =>
      obtain ⟨quiet, last, _, passed⟩ := passed_one passes
      obtain ⟨added, made, rest⟩ := ih
      refine ⟨quiet ++ [last] ++ added, ?_, fun unsent calm => ?_⟩
      · rw [made]
        simp [Call.learn, passed.made]
      -- A token in the last attempt would make this rejection a late one.
      have silent : last.attempt.emits = false := by
        by_contra sends
        have late := passed.rejected error lower rfl learned (by simpa using sends)
        exact calm last (by simp) late
      have still : (after.learn model lower).emitted = false := by
        simp [Call.learn, passed.emitted, unsent, silent]
      obtain ⟨later, tail, streamed, ends⟩ :=
        rest still fun made member => calm made (List.mem_append_right _ member)
      refine ⟨_, tail, passed.streamed.trans ?_ (streamed.from rfl rfl rfl), ends⟩
      intro made member
      obtain rfl := List.mem_singleton.mp member
      exact silent
  | case3 sent call error after passes learned =>
      obtain ⟨quiet, last, _, passed⟩ := passed_one passes
      exact passed.recorded_all

theorem recorded_fallbacks (group : ModelGroup) (maxTokens : Option Nat) (index : Nat)
    (models : List ModelConfig) (failures : List InferenceError) (call : Call) :
    ∃ added,
      (streamFallbacks texts history outcomes group maxTokens index models failures call).2.made =
        call.made ++ added ∧
      ((∀ made ∈ added, ¬ made.RejectedLate texts) → ∃ quiet tail, Streamed call
        (streamFallbacks texts history outcomes group maxTokens index models failures call).2
        (streamFallbacks texts history outcomes group maxTokens index models failures
          call).1.isOk quiet tail) := by
  induction models generalizing index failures call with
  | nil => exact ⟨[], by simp [streamFallbacks], fun _ => ⟨[], [], .none call _⟩⟩
  | cons model rest ih =>
      simp only [streamFallbacks]
      split
      next =>
        have done := @recorded_model texts history outcomes group.maxRetries index model
          (cappedMaxTokens call.learned model (maxTokens.or model.maxTokens))
          { call with emitted := false }
        cases out : streamModel texts history outcomes group.maxRetries index model
            (cappedMaxTokens call.learned model (maxTokens.or model.maxTokens))
            { call with emitted := false } with
        | mk result after =>
            rw [out] at done
            obtain ⟨added, made, rest'⟩ := done
            cases result with
            | ok result =>
                refine ⟨added, made, fun calm => ?_⟩
                obtain ⟨quiet, tail, streamed, _⟩ := rest' rfl calm
                exact ⟨quiet, tail, streamed.from rfl rfl rfl⟩
            | error error =>
                simp only
                split
                next =>
                  refine ⟨added, made, fun calm => ?_⟩
                  obtain ⟨quiet, tail, streamed, _⟩ := rest' rfl calm
                  exact ⟨quiet, tail, streamed.from rfl rfl rfl⟩
                next still =>
                  obtain ⟨more, made', later⟩ := ih (index + 1) (failures ++ [error]) after
                  refine ⟨added ++ more, by rw [made', made, List.append_assoc], fun calm => ?_⟩
                  obtain ⟨quiet, tail, streamed, ends⟩ :=
                    rest' rfl fun made member => calm made (List.mem_append_left _ member)
                  obtain ⟨quiet', tail', streamed'⟩ :=
                    later fun made member => calm made (List.mem_append_right _ member)
                  have ours : Streamed call after false quiet tail := streamed.from rfl rfl rfl
                  exact ⟨_, tail', ours.trans (ends (by simpa using still)) streamed'⟩
      next => exact ih (index + 1) _ call

end Calls

section Passes

def Lowers (before after : Option Nat) : Prop :=
  ∃ higher lower, before = some higher ∧ after = some lower ∧ lower < higher

theorem Lowers.trans {first second third : Option Nat} (one : Lowers first second)
    (two : Lowers second third) : Lowers first third := by
  obtain ⟨high, middle, rfl, rfl, less⟩ := one
  obtain ⟨_, low, same, rfl, lesser⟩ := two
  obtain rfl := Option.some.inj same
  exact ⟨high, low, rfl, rfl, by omega⟩

/-- Passes over one model have lower caps from one to the next. -/
def CapsFall (passes : List (Nat × Option Nat)) : Prop :=
  passes.Pairwise fun before after => before.1 = after.1 → Lowers before.2 after.2

variable {texts : Texts} {history : List RigMessage} {outcomes : Nat → Attempt}

theorem passes_attempts (index : Nat) (model : ModelConfig) (sent : Option Nat)
    (left retries : Nat) (call : Call) :
    (streamAttempts texts history outcomes index model sent left retries call).2.passes =
      call.passes := by
  have kept (tried : Call) (retries : Nat) (error : InferenceError) :
      (tried.giveUp model retries error).2.passes = tried.passes := by
    cases error <;> rfl
  induction left generalizing retries call with
  | zero =>
      unfold streamAttempts
      cases ended : (outcomes call.made.length).result history with
      | ok content => simp only [ended]; rfl
      | error error => simp only [ended]; rw [kept]; rfl
  | succ left ih =>
      unfold streamAttempts
      cases ended : (outcomes call.made.length).result history with
      | ok content => simp only [ended]; rfl
      | error error =>
          simp only [ended]
          split
          next => rw [ih]; rfl
          next => rw [kept]; rfl

theorem passes_one {maxRetries index : Nat} {model : ModelConfig} {sent : Option Nat}
    {call after : Call} {result : Except InferenceError StreamResult}
    (passes : streamOneModel texts history outcomes maxRetries index model sent call =
      (result, after)) : after.passes = call.passes ++ [(index, sent)] := by
  have kept := @passes_attempts texts history outcomes index model sent maxRetries 0
    { call with passes := call.passes ++ [(index, sent)] }
  rw [streamOneModel] at passes
  rwa [passes] at kept

theorem passes_model (maxRetries index : Nat) (model : ModelConfig) (sent : Option Nat)
    (call : Call) :
    ∃ caps, (streamModel texts history outcomes maxRetries index model sent call).2.passes =
      call.passes ++ (sent :: caps).map (Prod.mk index) ∧ (sent :: caps).Pairwise Lowers := by
  fun_induction streamModel texts history outcomes maxRetries index model sent call with
  | case1 sent call result after passes => exact ⟨[], by simpa using passes_one passes, by simp⟩
  | case2 sent call error after passes lower learned ih =>
      obtain ⟨caps, same, falls⟩ := ih
      refine ⟨some lower :: caps, ?_, ?_⟩
      · rw [same]
        simp [Call.learn, passes_one passes]
      · obtain ⟨higher, rfl, less⟩ := learnOutputCap_eq_some texts learned
        have first : Lowers (some higher) (some lower) := ⟨higher, lower, rfl, rfl, less⟩
        refine List.pairwise_cons.mpr ⟨fun cap member => ?_, falls⟩
        cases List.mem_cons.mp member with
        | inl same => exact same ▸ first
        | inr later => exact first.trans ((List.pairwise_cons.mp falls).1 cap later)
  | case3 sent call error after passes learned => exact ⟨[], by simpa using passes_one passes, by simp⟩

theorem passes_fallbacks (group : ModelGroup) (maxTokens : Option Nat) (index : Nat)
    (models : List ModelConfig) (failures : List InferenceError) (call : Call) :
    ∃ added,
      (streamFallbacks texts history outcomes group maxTokens index models failures call).2.passes =
        call.passes ++ added ∧ CapsFall added ∧ ∀ pass ∈ added, index ≤ pass.1 := by
  induction models generalizing index failures call with
  | nil => exact ⟨[], by simp [streamFallbacks], by simp [CapsFall], by simp⟩
  | cons model rest ih =>
      simp only [streamFallbacks]
      split
      next =>
        obtain ⟨caps, same, falls⟩ := @passes_model texts history outcomes group.maxRetries index
          model (cappedMaxTokens call.learned model (maxTokens.or model.maxTokens))
          { call with emitted := false }
        generalize cappedMaxTokens call.learned model (maxTokens.or model.maxTokens) = sent
          at same falls ⊢
        have ours : CapsFall ((sent :: caps).map (Prod.mk index)) := by
          refine List.pairwise_map.mpr (List.Pairwise.imp ?_ falls)
          intro before after lowers _
          exact lowers
        have here : ∀ pass ∈ (sent :: caps).map (Prod.mk index), index ≤ pass.1 := by
          simp
        cases out : streamModel texts history outcomes group.maxRetries index model sent
            { call with emitted := false } with
        | mk result after =>
            rw [out] at same
            cases result with
            | ok result => exact ⟨_, same, ours, here⟩
            | error error =>
                simp only
                split
                next => exact ⟨_, same, ours, here⟩
                next =>
                  obtain ⟨more, same', falls', later⟩ := ih (index + 1) (failures ++ [error]) after
                  refine ⟨_, by rw [same', same, List.append_assoc], ?_, ?_⟩
                  · refine List.pairwise_append.mpr ⟨ours, falls', ?_⟩
                    intro first member second member' one
                    have after := later second member'
                    obtain ⟨cap, _, rfl⟩ := List.mem_map.mp member
                    omega
                  · intro pass member
                    cases List.mem_append.mp member with
                    | inl first => exact here pass first
                    | inr second => exact Nat.le_of_succ_le (later pass second)
      next =>
        obtain ⟨added, same, falls, later⟩ := ih (index + 1) _ call
        exact ⟨added, same, falls, fun pass member => Nat.le_of_succ_le (later pass member)⟩

end Passes

section Ends

variable {texts : Texts} {history : List RigMessage} {outcomes : Nat → Attempt}

def attemptBound (maxRetries : Nat) (requested : Option Nat) : Nat :=
  (requested.getD 0 + 1) * (maxRetries + 1)

theorem made_one {maxRetries index : Nat} {model : ModelConfig} {sent : Option Nat}
    {call after : Call} {result : Except InferenceError StreamResult}
    (passes : streamOneModel texts history outcomes maxRetries index model sent call =
      (result, after)) : after.made.length ≤ call.made.length + (maxRetries + 1) := by
  obtain ⟨quiet, last, short, passed⟩ := passed_one passes
  rw [passed.made]
  simp only [List.length_append, List.length_singleton]
  omega

theorem made_model (maxRetries index : Nat) (model : ModelConfig) (sent : Option Nat)
    (call : Call) :
    (streamModel texts history outcomes maxRetries index model sent call).2.made.length ≤
      call.made.length + attemptBound maxRetries sent := by
  have enough (sent : Option Nat) : maxRetries + 1 ≤ attemptBound maxRetries sent :=
    Nat.le_mul_of_pos_left _ (Nat.succ_pos _)
  fun_induction streamModel texts history outcomes maxRetries index model sent call with
  | case1 sent call result after passes =>
      exact Nat.le_trans (made_one passes) (Nat.add_le_add_left (enough sent) _)
  | case2 sent call error after passes lower learned ih =>
      obtain ⟨higher, rfl, less⟩ := learnOutputCap_eq_some texts learned
      have one := made_one passes
      have rest : attemptBound maxRetries (some lower) + (maxRetries + 1) ≤
          attemptBound maxRetries (some higher) := by
        simp only [attemptBound, Option.getD_some]
        calc (lower + 1) * (maxRetries + 1) + (maxRetries + 1)
            = (lower + 2) * (maxRetries + 1) := by ring
          _ ≤ (higher + 1) * (maxRetries + 1) := Nat.mul_le_mul_right _ (by omega)
      have start : (after.learn model lower).made.length = after.made.length := rfl
      omega
  | case3 sent call error after passes learned =>
      exact Nat.le_trans (made_one passes) (Nat.add_le_add_left (enough sent) _)

theorem attemptBound_capped (maxRetries : Nat) (learned : Text → Option Nat) (model : ModelConfig)
    (requested : Option Nat) :
    attemptBound maxRetries (cappedMaxTokens learned model requested) ≤
      attemptBound maxRetries requested := by
  refine Nat.mul_le_mul_right _ (Nat.succ_le_succ ?_)
  cases requested with
  | none => rfl
  | some requested =>
      simp only [cappedMaxTokens, Option.map_some, Option.getD_some]
      split
      next => exact Nat.min_le_left _ _
      next => exact Nat.le_refl _

theorem made_fallbacks (group : ModelGroup) (maxTokens : Option Nat) (index : Nat)
    (models : List ModelConfig) (failures : List InferenceError) (call : Call) :
    (streamFallbacks texts history outcomes group maxTokens index models failures
      call).2.made.length ≤ call.made.length + (models.map fun model =>
        attemptBound group.maxRetries (maxTokens.or model.maxTokens)).sum := by
  induction models generalizing index failures call with
  | nil => simp [streamFallbacks]
  | cons model rest ih =>
      simp only [streamFallbacks, List.map_cons, List.sum_cons]
      split
      next =>
        have capped := attemptBound_capped group.maxRetries call.learned model
          (maxTokens.or model.maxTokens)
        have one := @made_model texts history outcomes group.maxRetries index model
          (cappedMaxTokens call.learned model (maxTokens.or model.maxTokens))
          { call with emitted := false }
        generalize cappedMaxTokens call.learned model (maxTokens.or model.maxTokens) = sent
          at capped one ⊢
        cases out : streamModel texts history outcomes group.maxRetries index model sent
            { call with emitted := false } with
        | mk result after =>
            rw [out] at one
            simp only at one
            cases result with
            | ok result =>
                simp only
                omega
            | error error =>
                simp only
                split
                next =>
                  simp only
                  omega
                next =>
                  have later := ih (index + 1) (failures ++ [error]) after
                  omega
      next =>
        have later := ih (index + 1) (failures ++
          [InferenceError.forModel (.providerNotConfigured model.providerHandle) model 0]) call
        omega

/-- A call ends, and with falling caps; unless a provider rejects an output cap after it has sent
tokens, one attempt at most sends any, and what was streamed is what was recorded. -/
theorem streamed_is_recorded (texts : Texts) (history : List RigMessage)
    (outcomes : Nat → Attempt) (group : ModelGroup) (maxTokens : Option Nat)
    (accumulatedText : Text) (learned : Text → Option Nat)
    (result : Except InferenceError StreamResult) (call : Call)
    (called : streamWithRetryAndFallback texts history outcomes group maxTokens accumulatedText
      learned = (result, call)) :
    call.made.length ≤ ((group.main :: group.fallbacks).map fun model =>
      attemptBound group.maxRetries (maxTokens.or model.maxTokens)).sum ∧
    CapsFall call.passes ∧
    ((∀ made ∈ call.made, ¬ made.RejectedLate texts) →
      (call.made.filter fun made => made.attempt.emits).length ≤ 1 ∧
      (result.isOk = true → call.accumulatedText = accumulatedText ++ streamedText call.events)) := by
  rw [streamWithRetryAndFallback] at called
  have bound := @made_fallbacks texts history outcomes group maxTokens 0
    (group.main :: group.fallbacks) [] (.begin accumulatedText learned)
  obtain ⟨passes, same, falls, _⟩ := @passes_fallbacks texts history outcomes group maxTokens 0
    (group.main :: group.fallbacks) [] (.begin accumulatedText learned)
  obtain ⟨added, made, recorded⟩ := @recorded_fallbacks texts history outcomes group maxTokens 0
    (group.main :: group.fallbacks) [] (.begin accumulatedText learned)
  rw [called] at bound same made recorded
  simp only [Call.begin, List.nil_append] at same made
  subst same made
  refine ⟨by simpa [Call.begin] using bound, falls, fun calm => ?_⟩
  obtain ⟨quiet, tail, streamed⟩ := recorded calm
  have parts : call.made = quiet ++ tail := by simpa [Call.begin] using streamed.made
  constructor
  · have silent : quiet.filter (fun made => made.attempt.emits) = [] := by
      rw [List.filter_eq_nil_iff]
      intro made member
      simp [streamed.silent made member]
    rw [parts, List.filter_append, silent, List.nil_append]
    exact Nat.le_trans (List.length_filter_le _ _) streamed.single
  · intro ok
    have texts := streamed.events
    have kept := streamed.recorded
    simp only [ok, if_true] at kept
    rw [kept, texts]
    rfl

end Ends

section Rejected

def rejection : Text := "max_tokens: expected a value <= 5, but got 10".toList

def plainTexts : Texts where
  display
    | .providerResponse _ body => body
    | _ => []
  lowercase := List.map Char.toLower
  captures pattern text :=
    if pattern = 0 ∧ text = "Completion error: ".toList ++ rejection then some ['5'] else none

def streamedThenRejected : Nat → Attempt
  | 0 => ⟨[.text ['a']], .error (.completionFailed (.providerResponse (some 400) rejection)) rfl⟩
  | _ => ⟨[.text ['b']], .output [.text ['b']]⟩

def oneModel : ModelGroup where
  main := ⟨['p'], ['m'], none⟩
  fallbacks := []
  maxRetries := 0
  providers := [['p']]

theorem streamOneModel_ok {texts : Texts} {history : List RigMessage} {outcomes : Nat → Attempt}
    {maxRetries index : Nat} {model : ModelConfig} {cap : Option Nat} {call : Call}
    {content : List AssistantContent}
    (ended : (outcomes call.made.length).result history = .ok content) :
    streamOneModel texts history outcomes maxRetries index model cap call =
      (.ok (.contents content),
        (Call.attempt { call with passes := call.passes ++ [(index, cap)] } index cap
          (outcomes call.made.length)).append (outcomes call.made.length).text) := by
  unfold streamOneModel streamAttempts
  simp only [ended]

theorem streamOneModel_error {texts : Texts} {history : List RigMessage}
    {outcomes : Nat → Attempt} {index : Nat} {model : ModelConfig} {cap : Option Nat}
    {call : Call} {error : InferenceError}
    (ended : (outcomes call.made.length).result history = .error error) :
    streamOneModel texts history outcomes 0 index model cap call =
      (Call.attempt { call with passes := call.passes ++ [(index, cap)] } index cap
        (outcomes call.made.length)).giveUp model 0 error := by
  unfold streamOneModel streamAttempts
  simp only [ended]

theorem streamModel_ok {texts : Texts} {history : List RigMessage} {outcomes : Nat → Attempt}
    {maxRetries index : Nat} {model : ModelConfig} {sent : Option Nat} {call after : Call}
    {result : StreamResult}
    (passes : streamOneModel texts history outcomes maxRetries index model sent call =
      (.ok result, after)) :
    streamModel texts history outcomes maxRetries index model sent call = (.ok result, after) := by
  rw [streamModel, passes]

theorem streamModel_lower {texts : Texts} {history : List RigMessage} {outcomes : Nat → Attempt}
    {maxRetries index : Nat} {model : ModelConfig} {sent : Option Nat} {call after : Call}
    {error : InferenceError} {lower : Nat}
    (passes : streamOneModel texts history outcomes maxRetries index model sent call =
      (.error error, after)) (learned : learnOutputCap texts sent error = some lower) :
    streamModel texts history outcomes maxRetries index model sent call =
      streamModel texts history outcomes maxRetries index model (some lower)
        (after.learn model lower) := by
  rw [streamModel, passes]
  simp only
  split
  next other same =>
    obtain rfl := Option.some.inj (same.symm.trans learned)
    rfl
  next none => simp [learned] at none

theorem streamFallbacks_ok {texts : Texts} {history : List RigMessage} {outcomes : Nat → Attempt}
    {group : ModelGroup} {maxTokens : Option Nat} {index : Nat} {model : ModelConfig}
    {rest : List ModelConfig} {failures : List InferenceError} {call after : Call}
    {result : StreamResult} (configured : model.providerHandle ∈ group.providers)
    (streamed : streamModel texts history outcomes group.maxRetries index model
      (cappedMaxTokens call.learned model (maxTokens.or model.maxTokens))
      { call with emitted := false } = (.ok result, after)) :
    streamFallbacks texts history outcomes group maxTokens index (model :: rest) failures call =
      (.ok result, after) := by
  simp only [streamFallbacks]
  rw [if_pos configured, streamed]

theorem rejected_text_not_recorded :
    ¬ ∀ (texts : Texts) (history : List RigMessage) (outcomes : Nat → Attempt)
      (group : ModelGroup) (maxTokens : Option Nat) (accumulatedText : Text)
      (learned : Text → Option Nat) (result : Except InferenceError StreamResult) (call : Call),
      streamWithRetryAndFallback texts history outcomes group maxTokens accumulatedText learned =
        (result, call) → result.isOk = true →
      call.accumulatedText = accumulatedText ++ streamedText call.events := by
  intro claimed
  have rejected : learnOutputCap plainTexts (some 10) (.modelFailed ['p'] ['m'] 0
      (.completionFailed (.providerResponse (some 400) rejection))) = some 5 := by
    unfold plainTexts rejection
    repeat rw [String.toList_ofList]
    decide +kernel
  have passes := (streamModel_lower (@streamOneModel_error plainTexts [] streamedThenRejected 0
    oneModel.main (some 10) (.begin [] fun _ => none) _ rfl) rejected).trans
      (streamModel_ok (streamOneModel_ok rfl))
  have called : streamWithRetryAndFallback plainTexts [] streamedThenRejected oneModel (some 10) []
      (fun _ => none) = _ := streamFallbacks_ok (List.mem_singleton_self _) passes
  exact absurd (claimed _ _ _ _ _ _ _ _ _ called rfl) (by decide)

def streamedAtOnce : Nat → Attempt := fun _ => ⟨[.text ['b']], .output [.text ['b']]⟩

theorem streamed_is_recorded_once :
    ∃ call, streamWithRetryAndFallback plainTexts [] streamedAtOnce oneModel (some 10) ['a']
      (fun _ => none) = (.ok (.contents [.text ['b']]), call) ∧
      call.accumulatedText = ['a'] ++ streamedText call.events := by
  have passes := streamModel_ok (@streamOneModel_ok plainTexts [] streamedAtOnce 0 0
    oneModel.main (some 10) (.begin ['a'] fun _ => none) _ rfl)
  have called : streamWithRetryAndFallback plainTexts [] streamedAtOnce oneModel (some 10) ['a']
      (fun _ => none) = _ := streamFallbacks_ok (List.mem_singleton_self _) passes
  refine ⟨_, called, ((streamed_is_recorded _ _ _ _ _ _ _ _ _ called).2.2 ?_).2 rfl⟩
  intro made member late
  obtain rfl : made = ⟨0, some 10, streamedAtOnce 0⟩ := List.mem_singleton.mp member
  obtain ⟨_, error, provider, lower, ended, _⟩ := late
  cases ended

end Rejected

end Frona.Inference
