import Mathlib.Data.List.DropRight
import Frona.Inference.Conversation
import Frona.Inference.ToolLoop

set_option autoImplicit false

namespace Frona.Inference

open Utf8

section Answers

def Answers : List Text → List RigMessage → Prop
  | pending, [] => pending = []
  | pending, message :: rest =>
      if message.isAssistant then pending = [] ∧ Answers message.callIds rest
      else ∃ later, pending = message.resultIds ++ later ∧ Answers later rest

def AnsweredNext : List Text → List RigMessage → Prop
  | pending, [] => pending = []
  | pending, message :: rest => message.resultIds = pending ∧ AnsweredNext message.callIds rest

def PairedSince (given history : List RigMessage) : Prop :=
  ∃ kept added, history = kept ++ added ∧
    kept.map RigMessage.pairing = given.map RigMessage.pairing ∧ Answers [] added

def DistinctSince (given history : List RigMessage) : Prop :=
  ∀ message ∈ history.drop given.length, message.callIds.Nodup

def AnsweredSince (given history : List RigMessage) : Prop :=
  PairedSince given history ∧ DistinctSince given history

def Response.DistinctIds : Response → Prop
  | .contents items _ => ((toolCallsOf items).map (·.id)).Nodup
  | .cancelled _ | .failed _ => True

theorem Answers.append {pending : List Text} {front back : List RigMessage}
    (answers : Answers pending front) (later : Answers [] back) :
    Answers pending (front ++ back) := by
  induction front generalizing pending with
  | nil =>
      obtain rfl : pending = [] := answers
      exact later
  | cons message rest ih =>
      simp only [Answers, List.cons_append] at answers ⊢
      split at answers
      · next assistant =>
          rw [if_pos assistant]
          exact ⟨answers.1, ih answers.2⟩
      · next other =>
          rw [if_neg other]
          obtain ⟨left, same, answers⟩ := answers
          exact ⟨left, same, ih answers⟩

theorem Answers.congr {pending : List Text} {front back : List RigMessage}
    (same : back.map RigMessage.pairing = front.map RigMessage.pairing)
    (answers : Answers pending front) : Answers pending back := by
  induction front generalizing pending back with
  | nil =>
      obtain rfl : back = [] := by simpa using same
      exact answers
  | cons message rest ih =>
      cases back with
      | nil => simp at same
      | cons other others =>
          simp only [List.map_cons, List.cons.injEq, RigMessage.pairing, Prod.mk.injEq] at same
          obtain ⟨⟨kind, calls, results⟩, tail⟩ := same
          simp only [Answers, kind, calls, results] at answers ⊢
          split at answers
          · next assistant =>
              rw [if_pos assistant]
              exact ⟨answers.1, ih tail answers.2⟩
          · next other =>
              rw [if_neg other]
              obtain ⟨left, pending, answers⟩ := answers
              exact ⟨left, pending, ih tail answers⟩

theorem answers_results (results : List RigMessage)
    (users : ∀ message ∈ results, message.isAssistant = false) :
    Answers (results.flatMap RigMessage.resultIds) results := by
  induction results with
  | nil => rfl
  | cons message rest ih =>
      have user := users message List.mem_cons_self
      simp only [Answers, user, Bool.false_eq_true, if_false, List.flatMap_cons]
      exact ⟨_, rfl, ih fun other member => users other (List.mem_cons_of_mem _ member)⟩

theorem PairedSince.congr {given history other : List RigMessage}
    (paired : PairedSince given history)
    (same : other.map RigMessage.pairing = history.map RigMessage.pairing) :
    PairedSince given other := by
  obtain ⟨kept, added, rfl, unchanged, answers⟩ := paired
  rw [List.map_append] at same
  obtain ⟨kept', added', rfl, keeps, adds⟩ := List.map_eq_append_iff.mp same
  exact ⟨kept', added', rfl, keeps.trans unchanged, answers.congr adds⟩

theorem PairedSince.refl (given : List RigMessage) : PairedSince given given :=
  ⟨given, [], (List.append_nil given).symm, rfl, rfl⟩

theorem PairedSince.grow {given history results : List RigMessage} {message : RigMessage}
    (paired : PairedSince given history) (assistant : message.isAssistant = true)
    (users : ∀ result ∈ results, result.isAssistant = false)
    (answered : results.flatMap RigMessage.resultIds = message.callIds) :
    PairedSince given (history ++ message :: results) := by
  obtain ⟨kept, added, rfl, unchanged, answers⟩ := paired
  refine ⟨kept, added ++ message :: results, by simp, unchanged, answers.append ?_⟩
  simp only [Answers, assistant, if_true, true_and, ← answered]
  exact answers_results results users

theorem DistinctSince.congr {given history other : List RigMessage}
    (same : other.map RigMessage.pairing = history.map RigMessage.pairing) :
    DistinctSince given other ↔ DistinctSince given history := by
  have forward {front back : List RigMessage}
      (same : back.map RigMessage.pairing = front.map RigMessage.pairing)
      (distinct : DistinctSince given front) : DistinctSince given back := by
    intro message member
    have paired := List.mem_map_of_mem (f := RigMessage.pairing) member
    rw [List.map_drop, same, ← List.map_drop] at paired
    obtain ⟨old, there, equal⟩ := List.mem_map.mp paired
    have calls : old.callIds = message.callIds := congrArg (·.2.1) equal
    exact calls ▸ distinct old there
  exact ⟨forward same.symm, forward same⟩

theorem callIds_of_user {message : RigMessage} (user : message.isAssistant = false) :
    message.callIds = [] := by
  cases message with
  | assistant content => cases user
  | user content => rfl
  | system content => rfl

theorem distinctSince_grow {given history results : List RigMessage} {message : RigMessage}
    (paired : PairedSince given history)
    (users : ∀ result ∈ results, result.isAssistant = false) :
    DistinctSince given (history ++ message :: results) ↔
      DistinctSince given history ∧ message.callIds.Nodup := by
  obtain ⟨kept, added, rfl, unchanged, -⟩ := paired
  have length : given.length ≤ (kept ++ added).length := by
    have same := congrArg List.length unchanged
    simp only [List.length_map] at same
    simp [← same]
  unfold DistinctSince
  rw [List.drop_append_of_le_length length, List.forall_mem_append, List.forall_mem_cons]
  refine and_congr_right fun _ => and_iff_left fun result member => ?_
  rw [callIds_of_user (users result member)]
  exact List.nodup_nil

theorem isOrphan_eq (message : RigMessage) : isOrphan message = !message.resultIds.isEmpty := by
  cases message with
  | assistant content => rfl
  | system content => rfl
  | user content =>
      simp only [isOrphan, RigMessage.resultIds]
      induction content with
      | nil => rfl
      | cons item rest ih => cases item <;> simp_all [UserContent.isToolResult, UserContent.resultId, List.filterMap_cons]

theorem not_orphan_of_answers {message : RigMessage} {rest : List RigMessage}
    (answers : Answers [] (message :: rest)) : isOrphan message = false := by
  simp only [Answers] at answers
  split at answers
  · next assistant =>
      cases message with
      | assistant content => rfl
      | user content => simp [RigMessage.isAssistant] at assistant
      | system content => rfl
  · obtain ⟨later, none, _⟩ := answers
    simp [isOrphan_eq, (List.append_eq_nil_iff.mp none.symm).1]

theorem strip_of_paired {given history : List RigMessage} (paired : PairedSince given history)
    (stripped : stripLeadingOrphans given = given) : stripLeadingOrphans history = history := by
  obtain ⟨kept, added, rfl, unchanged, answers⟩ := paired
  cases kept with
  | nil =>
      cases added with
      | nil => rfl
      | cons message rest =>
          simp [stripLeadingOrphans, not_orphan_of_answers answers]
  | cons message rest =>
      cases given with
      | nil => simp at unchanged
      | cons first others =>
          simp only [List.map_cons, List.cons.injEq, RigMessage.pairing, Prod.mk.injEq]
            at unchanged
          have orphan : isOrphan first = false := by
            have head := List.dropWhile_eq_self_iff.mp stripped (by simp)
            rw [List.getElem_cons_zero] at head
            simpa using head
          rw [isOrphan_eq, ← unchanged.1.2.2, ← isOrphan_eq] at orphan
          simp [stripLeadingOrphans, orphan]

theorem strip_strip (history : List RigMessage) :
    stripLeadingOrphans (stripLeadingOrphans history) = stripLeadingOrphans history :=
  List.dropWhile_idempotent isOrphan history

theorem retained_callIds (contents : List AssistantContent) :
    (contents.map retained).filterMap AssistantContent.callId =
      (toolCallsOf contents).map (·.id) := by
  induction contents with
  | nil => rfl
  | cons item rest ih =>
      cases item with
      | text text => exact ih
      | reasoning reasoning => exact ih
      | toolCall call => exact congrArg (call.id :: ·) ih

theorem processModelResponse_eq (contents : List AssistantContent) (history : List RigMessage) :
    ∃ message, (processModelResponse contents history).1 = history ++ [message] ∧
      message.isAssistant = true ∧ message.callIds = (toolCallsOf contents).map (·.id) := by
  refine ⟨_, rfl, rfl, ?_⟩
  rw [← retained_callIds]
  split
  · next none =>
      have : contents.map retained = [] := by simpa using none
      rw [this]
      rfl
  · rfl

end Answers

section Execution

variable {around : Surroundings}

def Exec.Later (before after : Exec) : Prop :=
  after = { before with moment := after.moment } ∧ before.moment ≤ after.moment

theorem Exec.Later.trans {before between after : Exec} (first : before.Later between)
    (second : between.Later after) : before.Later after := by
  obtain ⟨same, bound⟩ := first
  obtain ⟨same', bound'⟩ := second
  exact ⟨by rw [same', same], bound.trans bound'⟩

theorem Exec.Later.refl (exec : Exec) : exec.Later exec := ⟨rfl, le_rfl⟩

theorem persist_later {before after : Exec} (done : before.persist around = .ok after) :
    before.Later after := by
  unfold Exec.persist at done
  cases written : around.persist before.moment with
  | error error => simp [written, bind, Except.bind] at done
  | ok value =>
      simp only [written, bind, Except.bind, pure, Except.pure, Except.ok.injEq] at done
      obtain rfl := done
      exact ⟨rfl, Nat.le_succ _⟩

theorem beginCalls_later (calls : List RigToolCall) {before after : Exec}
    (done : beginCalls around calls before = .ok after) : before.Later after := by
  induction calls generalizing before with
  | nil =>
      cases done
      exact Exec.Later.refl _
  | cons call rest ih =>
      simp only [beginCalls, bind, Except.bind] at done
      split at done
      · cases done
      · split at done
        · cases done
        · next persisted => exact (persist_later persisted).trans (ih done)

theorem persistIf_later (wanted : Bool) {before after : Exec}
    (done : before.persistIf around wanted = .ok after) : before.Later after := by
  cases wanted with
  | true => exact persist_later done
  | false =>
      cases done
      exact Exec.Later.refl _

theorem finishCall_later (hitl : Option ToolStatus) (taskEvent : Option TaskEvent)
    {before after : Exec} (done : finishCall around hitl taskEvent before = .ok after) :
    before.Later after := by
  simp only [finishCall, bind, Except.bind] at done
  split at done
  · cases done
  · next finished =>
      split at done
      · cases done
      · next prompted =>
          exact ((persist_later finished).trans (persistIf_later _ prompted)).trans
            (persistIf_later _ done)

structure Exec.Adds (before after : Exec) (results : List RigMessage) : Prop where
  history : after.chatHistory = before.chatHistory ++ results
  users : ∀ message ∈ results, message.isAssistant = false
  moment : before.moment ≤ after.moment
  external : after.externalTools = [] → before.externalTools = []

theorem Exec.Adds.trans {before between after : Exec} {first second : List RigMessage}
    (adds : before.Adds between first) (more : between.Adds after second) :
    before.Adds after (first ++ second) where
  history := by rw [more.history, adds.history, List.append_assoc]
  users message member := (List.mem_append.mp member).elim (adds.users message)
    (more.users message)
  moment := adds.moment.trans more.moment
  external none := adds.external (more.external none)

theorem Exec.Later.adds {before after : Exec} (later : before.Later after) :
    before.Adds after [] := by
  obtain ⟨same, bound⟩ := later
  exact ⟨by rw [same]; simp, by simp, bound, by rw [same]; exact id⟩

theorem buildToolResultMessage_resultIds (call : RigToolCall) (result : Text)
    (images : List (List UInt8 × Text)) :
    (buildToolResultMessage call result images).resultIds = [call.id] := by
  have none : (images.map fun image => UserContent.image image.1 image.2).filterMap
      UserContent.resultId = [] := by
    rw [List.filterMap_map]
    exact List.filterMap_eq_nil_iff.mpr fun _ _ => rfl
  rw [buildToolResultMessage, RigMessage.resultIds, List.filterMap_cons, none]
  rfl

theorem settleCall_adds (call : RigToolCall) (execution : Execution) {before after : Exec}
    {abandoned : Bool} (done : settleCall around call execution before = .ok (after, abandoned)) :
    ∃ results, before.Adds after results ∧ (abandoned = true → execution = .abandoned) ∧
      (after.externalTools = [] → abandoned = false →
        results.flatMap RigMessage.resultIds = [call.id]) := by
  have user (text : Text) (images : List (List UInt8 × Text)) :
      ∀ message ∈ [buildToolResultMessage call text images], message.isAssistant = false := by
    simp [buildToolResultMessage, RigMessage.isAssistant]
  cases execution with
  | abandoned =>
      simp only [settleCall, Except.ok.injEq, Prod.mk.injEq] at done
      obtain ⟨rfl, rfl⟩ := done
      exact ⟨[], ⟨by simp, by simp, Nat.le_succ _, id⟩, fun _ => rfl, by simp⟩
  | failed display =>
      simp only [settleCall, bind, Except.bind] at done
      split at done
      · cases done
      · next finished =>
          simp only [Except.ok.injEq, Prod.mk.injEq] at done
          obtain ⟨rfl, rfl⟩ := done
          have adds := (finishCall_later _ _ finished).adds
          refine ⟨[buildToolResultMessage call ("Error: ".toList ++ display) []],
            ⟨?_, user _ _, adds.moment, adds.external⟩, by simp, fun _ _ => ?_⟩
          · simp [adds.history]
          · simp [buildToolResultMessage_resultIds]
  | finished output =>
      simp only [settleCall, bind, Except.bind] at done
      split at done
      · cases done
      · next finished =>
          have adds := (finishCall_later _ _ finished).adds
          split at done
          · simp only [Except.ok.injEq, Prod.mk.injEq] at done
            obtain ⟨rfl, rfl⟩ := done
            exact ⟨[], ⟨adds.history, by simp, adds.moment, by simp⟩, by simp, by simp⟩
          · simp only [Except.ok.injEq, Prod.mk.injEq] at done
            obtain ⟨rfl, rfl⟩ := done
            refine ⟨[buildToolResultMessage call output.text output.images],
              ⟨?_, user _ _, adds.moment, adds.external⟩, by simp, fun _ _ => ?_⟩
            · simp [adds.history]
            · simp [buildToolResultMessage_resultIds]

theorem settleCalls_adds (runs : List (RigToolCall × Execution)) {before after : Exec}
    {abandoned : Bool} (done : settleCalls around runs before = .ok (after, abandoned)) :
    ∃ results, before.Adds after results ∧
      (abandoned = true → ∃ run ∈ runs, run.2 = .abandoned) ∧
      (after.externalTools = [] → abandoned = false →
        results.flatMap RigMessage.resultIds = runs.map (·.1.id)) := by
  induction runs generalizing before after abandoned with
  | nil =>
      simp only [settleCalls, Except.ok.injEq, Prod.mk.injEq] at done
      obtain ⟨rfl, rfl⟩ := done
      exact ⟨[], (Exec.Later.refl _).adds, by simp, by simp⟩
  | cons run rest ih =>
      obtain ⟨call, execution⟩ := run
      simp only [settleCalls, bind, Except.bind] at done
      split at done
      · cases done
      · next result settled =>
          split at done
          · cases done
          · next tail settledRest =>
              simp only [Except.ok.injEq, Prod.mk.injEq] at done
              obtain ⟨rfl, rfl⟩ := done
              obtain ⟨first, adds, gone, answered⟩ := settleCall_adds call execution settled
              obtain ⟨others, addsRest, goneRest, answeredRest⟩ := ih settledRest
              refine ⟨first ++ others, adds.trans addsRest, fun either => ?_, fun none kept => ?_⟩
              · cases Bool.or_eq_true_iff.mp either with
                | inl here => exact ⟨_, List.mem_cons_self, gone here⟩
                | inr later =>
                    obtain ⟨run, member, left⟩ := goneRest later
                    exact ⟨run, List.mem_cons_of_mem _ member, left⟩
              · obtain ⟨here, later⟩ := Bool.or_eq_false_iff.mp kept
                rw [List.flatMap_append, answered (addsRest.external none) here,
                  answeredRest none later]
                rfl

theorem runCalls_calls (calls : List RigToolCall) (moment : Nat) :
    (runCalls around calls moment).map (·.1.id) = calls.map (·.id) := by
  induction calls generalizing moment with
  | nil => rfl
  | cons call rest ih => simp [runCalls, ih]

theorem runCalls_abandoned (calls : List RigToolCall) (moment later : Nat)
    (bound : moment + calls.length ≤ later) (run : RigToolCall × Execution)
    (member : run ∈ runCalls around calls moment) (abandoned : run.2 = .abandoned) :
    around.cancelled later = true := by
  induction calls generalizing moment with
  | nil => cases member
  | cons call rest ih =>
      simp only [List.length_cons] at bound
      cases member with
      | head => exact around.stays _ later (around.abandons moment abandoned) (by omega)
      | tail _ member => exact ih (moment + 1) (by omega) member

theorem executeBatches_adds (batches : List (List RigToolCall)) {before after : Exec}
    (done : executeBatches around batches before = .ok after) :
    ∃ results, before.Adds after results ∧
      (after.externalTools = [] → around.cancelled after.moment = false →
        results.flatMap RigMessage.resultIds = batches.flatten.map (·.id)) := by
  induction batches generalizing before with
  | nil =>
      cases done
      exact ⟨[], (Exec.Later.refl _).adds, by simp⟩
  | cons batch rest ih =>
      simp only [executeBatches] at done
      split at done
      · next cancelled =>
          cases done
          exact ⟨[], (Exec.Later.refl _).adds, by simp [cancelled]⟩
      · simp only [bind, Except.bind] at done
        split at done
        · cases done
        · next begun started =>
            split at done
            · cases done
            · next result settled =>
                obtain ⟨first, adds, gone, answered⟩ := settleCalls_adds _ settled
                have ran : begun.Adds result.1 first :=
                  ⟨adds.history, adds.users, (Nat.le_add_right _ _).trans adds.moment,
                    adds.external⟩
                have so_far := (beginCalls_later batch started).adds.trans ran
                rw [List.nil_append] at so_far
                split at done
                · next abandoned =>
                    cases done
                    obtain ⟨run, member, left⟩ := gone abandoned
                    have cancelled := runCalls_abandoned batch begun.moment result.1.moment
                      adds.moment run member left
                    exact ⟨first, so_far, by simp [cancelled]⟩
                · next kept =>
                    obtain ⟨others, addsRest, answeredRest⟩ := ih done
                    refine ⟨first ++ others, so_far.trans addsRest, fun none alive => ?_⟩
                    rw [List.flatMap_append,
                      answered (addsRest.external none) (by simpa using kept),
                      answeredRest none alive, runCalls_calls]
                    simp

theorem pushCall_flatten (batches : List (List RigToolCall)) (call : RigToolCall) :
    (pushCall batches call).flatten = batches.flatten ++ [call] := by
  unfold pushCall
  split
  · next first rest last =>
      split
      · obtain ⟨front, rfl⟩ := List.getLast?_eq_some_iff.mp last
        simp
      · simp
  · simp

theorem batchToolCalls_flatten (calls : List RigToolCall) :
    (batchToolCalls calls).flatten = calls := by
  have all (batches : List (List RigToolCall)) :
      (calls.foldl pushCall batches).flatten = batches.flatten ++ calls := by
    induction calls generalizing batches with
    | nil => simp
    | cons call rest ih => simp [ih, pushCall_flatten]
  simpa [batchToolCalls] using all []

end Execution

end Frona.Inference
