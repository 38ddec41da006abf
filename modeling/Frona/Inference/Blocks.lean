import Frona.Inference.Conversation

set_option autoImplicit false

namespace Frona.Inference

open Utf8
open Frona.Chat

/-- The message has a content item, and no text block of it is empty. -/
def NoEmptyBlock : RigMessage → Prop
  | .user content => content ≠ [] ∧ ∀ item ∈ content, item ≠ .text []
  | .assistant content => content ≠ [] ∧ ∀ item ∈ content, item ≠ .text []
  | .system content => content ≠ []

@[simp] theorem noEmptyBlock_userText (text : Text) :
    NoEmptyBlock (.userText text) ↔ text ≠ [] := by
  simp [RigMessage.userText, NoEmptyBlock]

@[simp] theorem noEmptyBlock_assistantText (text : Text) :
    NoEmptyBlock (.assistantText text) ↔ text ≠ [] := by
  simp [RigMessage.assistantText, NoEmptyBlock]

section Texts

@[simp] theorem filesBlock_ne_nil (content : Text) (paths : List Text) :
    filesBlock content paths ≠ [] := by
  simp [filesBlock, filesOpening_ne_nil]

@[simp] theorem attributeCrossAgent_ne_nil (content : Text) (handle : Option Text) :
    attributeCrossAgent content handle ≠ [] := by
  simp [attributeCrossAgent, attributionOpening_ne_nil]

@[simp] theorem liveCallContent_ne_nil (content : Text) : liveCallContent content ≠ [] := by
  simp [liveCallContent, liveCallTag_ne_nil]

@[simp] theorem conversationSummary_ne_nil (summary : Text) :
    conversationSummary summary ≠ [] := by
  simp [conversationSummary, summaryOpening_ne_nil]

theorem taskCompletionContent_eq_nil (message : Message) :
    taskCompletionContent message = [] ↔ message.content = [] := by
  simp only [taskCompletionContent]
  split
  · next wrapped =>
      have : message.content ≠ [] := by
        intro empty
        simp [empty] at wrapped
      simp [taskResultOpening_ne_nil, this]
  · rfl

theorem foldl_notes_eq_nil (notes : List Text) (text : Text) :
    notes.foldl (fun text note => text ++ '\n' :: note) text = [] ↔ text = [] ∧ notes = [] := by
  induction notes generalizing text with
  | nil => simp
  | cons note rest ih =>
      rw [List.foldl_cons, ih]
      simp

theorem withNotes_eq_nil (text : Text) (attachments : List Attachment) :
    withNotes text attachments = [] ↔ text = [] ∧ attachments.filterMap voiceNoteBlock = [] :=
  foldl_notes_eq_nil _ _

end Texts

section Rows

variable (services : Services) (ids : CallIds) (context : ConversationContext)

theorem userMessageText_eq_nil (content : Text) (attachments : List Attachment)
    (ownerUserId : Text) :
    userMessageText services content attachments ownerUserId = [] ↔
      content = [] ∧ ∀ attachment ∈ attachments, isEmbeddableImage attachment = true := by
  unfold userMessageText
  cases nonImages : attachments.filter (!isEmbeddableImage ·) with
  | nil =>
      have : ∀ attachment ∈ attachments, isEmbeddableImage attachment = true := by
        simpa using nonImages
      simpa [withNotes_eq_nil] using fun _ => this
  | cons other rest =>
      obtain ⟨member, notImage⟩ := List.mem_filter.mp (nonImages ▸ List.mem_cons_self)
      have : ¬∀ attachment ∈ attachments, isEmbeddableImage attachment = true := by
        intro all
        simp [all other member] at notImage
      simp [withNotes_eq_nil, this]

theorem imageBlock_ne_text (ownerUserId : Text) (attachment : Attachment) (item : UserContent)
    (block : imageBlock services ownerUserId attachment = some item) : item ≠ .text [] := by
  obtain ⟨bytes, _, rfl⟩ := Option.map_eq_some_iff.mp block
  simp

theorem noEmptyBlock_buildUserMessage (content : Text) (attachments : List Attachment)
    (ownerUserId : Text) :
    NoEmptyBlock (buildUserMessage services content attachments ownerUserId) ↔
      (content = [] → ∃ attachment ∈ attachments, isEmbeddableImage attachment = false) := by
  have text : userMessageText services content attachments ownerUserId ≠ [] ↔
      (content = [] → ∃ attachment ∈ attachments, isEmbeddableImage attachment = false) := by
    simp [userMessageText_eq_nil]
  unfold buildUserMessage
  split
  · next none =>
      have : attachments = [] := by simpa using none
      simp [this]
  · simp only []
    split
    · simpa using text
    · split
      · simpa using text
      · rw [← text]
        constructor
        · intro clean empty
          exact clean.2 _ List.mem_cons_self (by rw [empty])
        · intro filled
          refine ⟨by simp, fun item member => ?_⟩
          cases member with
          | head => simpa using filled
          | tail _ member =>
              obtain ⟨attachment, _, block⟩ := List.mem_filterMap.mp member
              exact imageBlock_ne_text services ownerUserId attachment item block

theorem noEmptyBlock_convertTurn (calls : List ToolCall) (message : RigMessage)
    (member : message ∈ convertTurn ids calls) : NoEmptyBlock message := by
  simp only [convertTurn, List.mem_append] at member
  cases member with
  | inl member =>
      split at member
      · simp at member
      · next filled =>
          obtain rfl := List.mem_singleton.mp member
          refine ⟨by simpa using filled, fun item member => ?_⟩
          simp only [turnItems, List.mem_append, List.mem_map, List.mem_filter] at member
          obtain (⟨reasoning, _, rfl⟩ | ⟨text, ⟨_, filled⟩, rfl⟩) | ⟨call, _, rfl⟩ := member
          · simp
          · simpa using filled
          · simp
  | inr member =>
      split at member
      · simp at member
      · next filled =>
          obtain rfl := List.mem_singleton.mp member
          refine ⟨by simpa using filled, fun item member => ?_⟩
          obtain ⟨call, _, rfl⟩ := List.mem_map.mp member
          simp

theorem noEmptyBlock_convertAgentWithToolCalls (row : Message) (toolCalls : List ToolCall)
    (agentId : Text) (handle : Option Text) (message : RigMessage)
    (member : message ∈ convertAgentWithToolCalls ids row toolCalls agentId handle) :
    NoEmptyBlock message := by
  unfold convertAgentWithToolCalls at member
  split at member
  · split at member
    · simp at member
    · obtain rfl := List.mem_singleton.mp member
      simp
  · simp only [List.mem_append, List.mem_flatMap] at member
    cases member with
    | inl member =>
        obtain ⟨turn, _, member⟩ := member
        exact noEmptyBlock_convertTurn ids turn.2 message member
    | inr member =>
        split at member
        · next completed =>
            obtain rfl := List.mem_singleton.mp member
            refine ⟨by simp, fun item member => ?_⟩
            simp only [List.mem_append, List.mem_map, List.mem_singleton] at member
            obtain ⟨reasoning, _, rfl⟩ | rfl := member
            · simp
            · simpa using completed.2
        · simp at member

theorem noEmptyBlock_convertAgentMessage (row : Message) (agentId : Text) (handle : Option Text)
    (message : RigMessage) (emitted : convertAgentMessage row agentId handle = some message) :
    NoEmptyBlock message := by
  unfold convertAgentMessage at emitted
  split at emitted
  · simp at emitted
  · split at emitted
    · split at emitted
      · obtain rfl := Option.some.inj emitted
        refine ⟨by simp, fun item member => ?_⟩
        cases member with
        | head => simp
        | tail _ member =>
            split at member
            · cases member
            · next filled =>
                obtain rfl := List.mem_singleton.mp member
                simpa using filled
      · split at emitted
        · simp at emitted
        · next filled =>
            obtain rfl := Option.some.inj emitted
            simpa using filled
    · split at emitted
      · simp at emitted
      · obtain rfl := Option.some.inj emitted
        simp

/-- The row is of a role that the builder sends as it stands, and it consists of images only. -/
def ImagesOnly (row : Message) : Prop :=
  (row.role = .user ∨ row.role = .contact ∨ row.role = .taskCompletion) ∧
    row.content = [] ∧ row.attachments ≠ [] ∧
    ∀ attachment ∈ row.attachments, isEmbeddableImage attachment = true

theorem noEmptyBlock_buildMessage (toolCalls : List ToolCall) (row : Message) :
    (∀ message ∈ buildMessage services ids context toolCalls row, NoEmptyBlock message) ↔
      ¬ImagesOnly row := by
  have plain (content : Text) (same : content = [] ↔ row.content = [])
      (role : row.role = .user ∨ row.role = .contact ∨ row.role = .taskCompletion) :
      (∀ message ∈ (if (isBlank row.content && row.attachments.isEmpty) = true then []
          else [buildUserMessage services content row.attachments context.userId]),
        NoEmptyBlock message) ↔ ¬ImagesOnly row := by
    simp only [ImagesOnly, role, true_and]
    split
    · next empty =>
        have : row.attachments = [] := by simp_all
        simp [this]
    · next sent =>
        simp only [List.mem_singleton, forall_eq, noEmptyBlock_buildUserMessage, same]
        constructor
        · rintro found ⟨empty, _, images⟩
          obtain ⟨attachment, member, other⟩ := found empty
          simp [images attachment member] at other
        · intro mixed empty
          by_contra images
          refine mixed ⟨empty, ?_, by simpa using images⟩
          rintro none
          simp [empty, none] at sent
  cases role : row.role with
  | user => simpa [buildMessage, role] using plain row.content Iff.rfl (by simp [role])
  | contact => simpa [buildMessage, role] using plain row.content Iff.rfl (by simp [role])
  | taskCompletion =>
      simpa [buildMessage, role] using
        plain (taskCompletionContent row) (taskCompletionContent_eq_nil row) (by simp [role])
  | liveCall =>
      simp [buildMessage, role, ImagesOnly, noEmptyBlock_buildUserMessage]
  | agent =>
      simp only [buildMessage, role, ImagesOnly, reduceCtorEq, or_self, false_and,
        not_false_eq_true, iff_true]
      intro message member
      split at member
      · exact noEmptyBlock_convertAgentWithToolCalls ids row _ _ _ message member
      · exact noEmptyBlock_convertAgentMessage row _ _ message (Option.mem_toList.mp member)
  | system =>
      simp only [buildMessage, role, ImagesOnly, reduceCtorEq, or_self, false_and,
        not_false_eq_true, iff_true]
      intro message member
      split at member
      · simp at member
      · next filled =>
          obtain rfl := List.mem_singleton.mp member
          simpa using filled

theorem noEmptyBlock_summaryMessage (summary : Option Text) (message : RigMessage)
    (member : message ∈ summaryMessage summary) : NoEmptyBlock message := by
  unfold summaryMessage at member
  split at member
  · split at member
    · simp at member
    · obtain rfl := List.mem_singleton.mp member
      simp
  · simp at member

end Rows

section Result

variable (services : Services) (ids : CallIds) (context : ConversationContext)

/-- The provider sees no empty block exactly when no row that is sent as it stands consists of
images only. -/
theorem noEmptyBlock_build_iff (messages : List Message) (toolCalls : List ToolCall)
    (summary : Option Text) :
    (∀ message ∈ build services ids context messages toolCalls summary, NoEmptyBlock message) ↔
      ∀ row ∈ messages, ¬ImagesOnly row := by
  simp only [build, List.mem_append, List.mem_flatMap]
  constructor
  · intro clean row member
    rw [← noEmptyBlock_buildMessage services ids context toolCalls row]
    exact fun message sent => clean message (.inr ⟨row, member, sent⟩)
  · intro mixed message sent
    cases sent with
    | inl sent => exact noEmptyBlock_summaryMessage summary message sent
    | inr sent =>
        obtain ⟨row, member, sent⟩ := sent
        exact (noEmptyBlock_buildMessage services ids context toolCalls row).mpr
          (mixed row member) message sent

def photo : Attachment where
  filename := "cat.png".toList
  contentType := "image/png".toList
  owner := "user:u".toList
  path := "cat.png".toList

def photoMessage : Message where
  id := "m1".toList
  role := .user
  content := []
  attachments := [photo]
  createdAt := 0

theorem photo_without_text :
    ¬∀ message ∈ build ⟨fun _ => none, fun _ => none, fun _ _ => none, fun _ => some [1]⟩
        ⟨some, fun id => id.getD [], fun id => (id, some id)⟩ ⟨[], []⟩ [photoMessage] [] none,
      NoEmptyBlock message := by
  intro clean
  have row := (noEmptyBlock_buildMessage _ _ _ [] photoMessage).mp fun message sent =>
    clean message (by simpa [build, summaryMessage] using sent)
  exact row ⟨.inl rfl, rfl, List.cons_ne_nil _ _, by decide +kernel⟩

end Result

end Frona.Inference
