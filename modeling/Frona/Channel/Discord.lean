import Frona.Chat.Message
import Frona.Chat.SplitBlocks
import Frona.Chat.SplitFits
import Mathlib.Data.List.Basic

set_option autoImplicit false

namespace Frona.Channel.Discord

open Utf8 (Text slice sliceFrom startsWith)
open Frona.Chat (Attachment MarkdownSplitter isBlank)

section Messages

structure CreateAttachment where
  bytes : List UInt8
  filename : Text

structure CreateButton where
  url : Text
  label : Text

structure CreateMessage where
  content : Option Text := none
  files : List CreateAttachment := []
  components : List (List CreateButton) := []

inductive ChannelErrorKind where
  | transient
  | forbidden
  | notFound
  | payloadInvalid
  | payloadTooLarge
  | unauthorized
  | other

structure ChannelError where
  message : Text
  kind : ChannelErrorKind

inductive SerenityError where
  | unsuccessfulRequest (status : Nat) (message : Text)
  | other (message : Text)

def classifyDiscordError : SerenityError → ChannelError
  | .unsuccessfulRequest status message =>
      if status = 429 then ⟨message, .transient⟩
      else if status = 401 then ⟨message, .unauthorized⟩
      else if status = 403 then ⟨message, .forbidden⟩
      else if status = 404 then ⟨message, .notFound⟩
      else if status = 413 then ⟨message, .payloadTooLarge⟩
      else if status = 400 then ⟨message, .payloadInvalid⟩
      else if 500 ≤ status ∧ status ≤ 599 then ⟨message, .transient⟩
      else ⟨message, .other⟩
  | .other message => ⟨message, .transient⟩

end Messages

section Attachments

inductive AttachmentKind where
  | image
  | audio
  | video
  | document
  deriving DecidableEq

def classify (attachment : Attachment) : AttachmentKind :=
  let contentType := attachment.contentType.map Char.toLower
  if startsWith "image/".toList contentType then .image
  else if startsWith "audio/".toList contentType then .audio
  else if startsWith "video/".toList contentType then .video
  else .document

def isMedia (kind : AttachmentKind) : Bool := decide (kind ≠ .document)

def iconFor (attachment : Attachment) : Text :=
  match classify attachment with
  | .image => "🖼️".toList
  | .audio => "🎵".toList
  | .video => "🎬".toList
  | .document => "📄".toList

def buttonLabel (attachment : Attachment) : Text :=
  iconFor attachment ++ " Open ".toList ++ attachment.filename

structure Seams where
  readAttachmentBytes : Attachment → Option (List UInt8)
  outboundUrl : Attachment → Option Text
  /-- The byte ranges of the tables at the top of a document, if it can be parsed. -/
  tables : Text → Option (List (Nat × Nat))
  convert : Text → Option Text

variable (seams : Seams)

def files (attachments : List Attachment) : List CreateAttachment :=
  attachments.filterMap fun attachment =>
    if isMedia (classify attachment) then
      (seams.readAttachmentBytes attachment).map fun bytes => ⟨bytes, attachment.filename⟩
    else none

def buttons (attachments : List Attachment) : List CreateButton :=
  attachments.filterMap fun attachment =>
    if isMedia (classify attachment) then none
    else (seams.outboundUrl attachment).map fun url => ⟨url, buttonLabel attachment⟩

def maxButtons : Nat := 25

def truncatedCount (attachments : List Attachment) : Nat :=
  (buttons seams attachments).length - maxButtons

def actionRows (attachments : List Attachment) : List (List CreateButton) :=
  ((buttons seams attachments).take maxButtons).toChunks 5

def bodyWithOverflow (body : Text) (attachments : List Attachment) : Text :=
  let truncated := truncatedCount seams attachments
  if truncated > 0 then
    body ++ "\n\n(plus ".toList ++ Nat.toDigits 10 truncated ++ " more attachment".toList ++
      (if truncated = 1 then [] else ['s']) ++ " — see in app)".toList
  else body

end Attachments

section Tables

variable (seams : Seams)

def trimNewlines (text : Text) : Text := (text.reverse.dropWhile fun c => c == '\n').reverse

def fenceFrom (text : Text) : Nat → List (Nat × Nat) → Option Text
  | cursor, [] => sliceFrom text cursor
  | cursor, (start, stop) :: rest => do
      let span ← slice text start stop
      let aligned := (seams.convert span).getD span
      let before ← slice text cursor start
      let after ← fenceFrom text stop rest
      return before ++ "```\n".toList ++ trimNewlines aligned ++ "\n```".toList ++ after

def fenceTables (text : Text) : Option Text :=
  match seams.tables text with
  | none => some text
  | some ranges => if ranges = [] then some text else fenceFrom seams text 0 ranges

end Tables

section Sending

structure Sent where
  message : CreateMessage
  failure : Option SerenityError

structure DiscordAdapter where
  splitter : MarkdownSplitter

def discordMaxMessageLen : Nat := 2000

def DiscordAdapter.new : DiscordAdapter := ⟨⟨discordMaxMessageLen⟩⟩

-- The outcome of each call of the API.
variable (failures : Nat → Option SerenityError)

def sendMessage (message : CreateMessage) (sent : List Sent) : Option SerenityError × List Sent :=
  let failure := failures sent.length
  (failure, sent ++ [⟨message, failure⟩])

def sendChunks : List Text → List Sent → Except ChannelError Unit × List Sent
  | [], sent => (.ok (), sent)
  | chunk :: rest, sent =>
      match sendMessage failures { content := some chunk } sent with
      | (some error, sent) => (.error (classifyDiscordError error), sent)
      | (none, sent) => sendChunks rest sent

-- `let _ = channel_id.send_message(..)`
def sendExtras (chunks : List Text) (sent : List Sent) : List Sent :=
  chunks.foldl (fun sent chunk => (sendMessage failures { content := some chunk } sent).2) sent

variable (self : DiscordAdapter) (seams : Seams)

def DiscordAdapter.chunks (text : Text) : Option (List Text) :=
  (fenceTables seams text).bind self.splitter.split

/-- The chat is the parsed `channel_external_id`. -/
def DiscordAdapter.postMessage (chat : Except ChannelError Nat) (text : Text) :
    Option (Except ChannelError Unit × List Sent) :=
  match chat with
  | .error error => some (.error error, [])
  | .ok _ => (self.chunks seams text).map fun chunks => sendChunks failures chunks []

def sendWithAttachments (attachments : List Attachment) (chunks : List Text) :
    Except ChannelError Unit × List Sent :=
  let sent := sendExtras failures chunks.tail []
  let request : CreateMessage :=
    ⟨chunks.head?, files seams attachments, actionRows seams attachments⟩
  match sendMessage failures request sent with
  | (some error, sent) => (.error (classifyDiscordError error), sent)
  | (none, sent) => (.ok (), sent)

def DiscordAdapter.onSend (body : Text) (attachments : List Attachment)
    (chat : Except ChannelError Nat) : Option (Except ChannelError Unit × List Sent) :=
  if attachments = [] then
    if isBlank body then some (.ok (), []) else self.postMessage failures seams chat body
  else
    match chat with
    | .error error => some (.error error, [])
    | .ok _ =>
        let body := bodyWithOverflow seams body attachments
        if body = [] then some (sendWithAttachments failures seams attachments [])
        else (self.chunks seams body).map (sendWithAttachments failures seams attachments)

end Sending

section Specification

variable (failures : Nat → Option SerenityError) (self : DiscordAdapter) (seams : Seams)
  (body : Text) (attachments : List Attachment) (chat : Except ChannelError Nat)

def DiscordAdapter.replyChunks : Option (List Text) :=
  if attachments = [] then if isBlank body then some [] else self.chunks seams body
  else
    let body := bodyWithOverflow seams body attachments
    if body = [] then some [] else self.chunks seams body

def contents (sent : List Sent) : List Text :=
  (sent.filter fun sent => sent.failure.isNone).filterMap fun sent => sent.message.content

structure Delivers : Prop where
  inOrder : ∀ sent, self.onSend failures seams body attachments chat = some (.ok (), sent) →
    ∃ chunks, self.replyChunks seams body attachments = some chunks ∧ contents sent = chunks
  reported : ∀ result sent,
    self.onSend failures seams body attachments chat = some (result, sent) →
      (∃ call ∈ sent, call.message.content.isSome = true ∧ call.failure.isSome = true) →
        ∃ error, result = .error error

/-- No second chunk goes with attachments, the message with the attachments fails, or the chunks
cannot be told apart and nothing fails. -/
def Orderly : Prop :=
  attachments = [] ∨ (∃ error, chat = .error error) ∨
    ∀ chunks, self.replyChunks seams body attachments = some chunks →
      chunks.length ≤ 1 ∨ (failures (chunks.length - 1)).isSome = true ∨
        ((∀ i < chunks.length, failures i = none) ∧
          ∀ chunk ∈ chunks, ∀ other ∈ chunks, chunk = other)

end Specification

section Calls

variable {failures : Nat → Option SerenityError}

def chunkSent (failure : Option SerenityError) (chunk : Text) : Sent :=
  ⟨{ content := some chunk }, failure⟩

theorem contents_append (first second : List Sent) :
    contents (first ++ second) = contents first ++ contents second := by
  simp [contents]

theorem contents_taken (chunks : List Text) : contents (chunks.map (chunkSent none)) = chunks := by
  induction chunks with
  | nil => rfl
  | cons chunk rest ih => simpa [contents, chunkSent] using ih

theorem sendChunks_ok {chunks : List Text} {sent after : List Sent}
    (done : sendChunks failures chunks sent = (.ok (), after)) :
    after = sent ++ chunks.map (chunkSent none) := by
  induction chunks generalizing sent with
  | nil =>
      cases done
      simp
  | cons chunk rest ih =>
      simp only [sendChunks, sendMessage] at done
      cases failure : failures sent.length with
      | some error =>
          rw [failure] at done
          cases done
      | none =>
          rw [failure] at done
          rw [ih done, List.append_assoc]
          rfl

theorem sendExtras_eq (chunks : List Text) (sent : List Sent) :
    sendExtras failures chunks sent =
      sent ++ chunks.mapIdx fun index chunk =>
        chunkSent (failures (sent.length + index)) chunk := by
  induction chunks generalizing sent with
  | nil => simp [sendExtras]
  | cons chunk rest ih =>
      have step : sendExtras failures (chunk :: rest) sent =
          sendExtras failures rest (sent ++ [chunkSent (failures sent.length) chunk]) := rfl
      have shifted (index : Nat) :
          (sent ++ [chunkSent (failures sent.length) chunk]).length + index =
            sent.length + (index + 1) := by
        simp only [List.length_append, List.length_singleton]
        omega
      rw [step, ih, List.mapIdx_cons, List.append_assoc]
      simp only [shifted]
      rfl

variable {seams : Seams} {attachments : List Attachment} {chunks : List Text}

theorem sendWithAttachments_eq :
    ∃ request : CreateMessage, request.content = chunks.head? ∧
      sendWithAttachments failures seams attachments chunks =
        ((match failures (chunks.length - 1) with
          | some error => .error (classifyDiscordError error)
          | none => .ok ()),
        chunks.tail.mapIdx (fun index chunk => chunkSent (failures index) chunk) ++
          [⟨request, failures (chunks.length - 1)⟩]) := by
  refine ⟨⟨chunks.head?, files seams attachments, actionRows seams attachments⟩, rfl, ?_⟩
  simp only [sendWithAttachments, sendMessage, sendExtras_eq, List.nil_append, List.length_nil,
    Nat.zero_add, List.length_mapIdx, List.length_tail]
  cases failures (chunks.length - 1) <;> rfl

theorem all_taken {chunks : List Text} (none_ : ∀ i < chunks.length, failures i = none) :
    chunks.mapIdx (fun index chunk => chunkSent (failures index) chunk) =
      chunks.map (chunkSent none) := by
  refine List.ext_getElem (by simp) fun index inside _ => ?_
  rw [List.length_mapIdx] at inside
  simp [none_ index inside]

theorem alike_of_moved {first : Text} {rest : List Text} (same : rest ++ [first] = first :: rest) :
    ∀ chunk ∈ rest, chunk = first := by
  induction rest with
  | nil => exact fun _ member => absurd member List.not_mem_nil
  | cons next rest ih =>
      simp only [List.cons_append, List.cons.injEq] at same
      obtain ⟨rfl, same⟩ := same
      intro chunk member
      rcases List.mem_cons.mp member with rfl | member
      · rfl
      · exact ih same chunk member

theorem moved_of_alike {first : Text} {rest : List Text} (alike : ∀ chunk ∈ rest, chunk = first) :
    rest ++ [first] = first :: rest := by
  rw [List.eq_replicate_of_mem alike, ← List.replicate_succ', List.replicate_succ]

end Calls

section Delivery

variable {failures : Nat → Option SerenityError} {seams : Seams} {attachments : List Attachment}
  {chunks : List Text}

theorem sendWithAttachments_delivers :
    ((∀ sent, sendWithAttachments failures seams attachments chunks = (.ok (), sent) →
        contents sent = chunks) ∧
      ∀ result sent, sendWithAttachments failures seams attachments chunks = (result, sent) →
        (∃ call ∈ sent, call.message.content.isSome = true ∧ call.failure.isSome = true) →
          ∃ error, result = .error error) ↔
    chunks.length ≤ 1 ∨ (failures (chunks.length - 1)).isSome = true ∨
      ((∀ i < chunks.length, failures i = none) ∧
        ∀ chunk ∈ chunks, ∀ other ∈ chunks, chunk = other) := by
  obtain ⟨request, content, calls⟩ := @sendWithAttachments_eq failures seams attachments chunks
  rw [calls]
  cases last : failures (chunks.length - 1) with
  | some error => simp
  | none =>
      simp only [Prod.mk.injEq, true_and, Option.isSome_none, Bool.false_eq_true, false_or]
      cases chunks with
      | nil => simp [contents, content]
      | cons first rest =>
          have alike_iff : (∀ chunk ∈ first :: rest, ∀ other ∈ first :: rest, chunk = other) ↔
              ∀ chunk ∈ rest, chunk = first := by
            constructor
            · exact fun same chunk member =>
                same chunk (List.mem_cons_of_mem _ member) first List.mem_cons_self
            · intro same chunk member other member'
              have equal {chunk : Text} (member : chunk ∈ first :: rest) : chunk = first :=
                (List.mem_cons.mp member).elim id (same chunk)
              exact (equal member).trans (equal member').symm
          rw [alike_iff]
          have final : contents [⟨request, none⟩] = [first] := by simp [contents, content]
          constructor
          · rintro ⟨inOrder, reported⟩
            refine .inr ?_
            have taken : ∀ i < rest.length, failures i = none := by
              intro i inside
              by_contra failed
              obtain ⟨error, same⟩ := reported _ _ ⟨rfl, rfl⟩ ⟨chunkSent (failures i) rest[i],
                List.mem_append_left _ (List.mem_mapIdx.mpr ⟨i, inside, rfl⟩), rfl,
                Option.isSome_iff_ne_none.mpr failed⟩
              cases same
            have moved := inOrder _ rfl
            rw [List.tail_cons, all_taken taken, contents_append, contents_taken, final] at moved
            refine ⟨fun i inside => ?_, alike_of_moved moved⟩
            rcases Nat.lt_succ_iff_lt_or_eq.mp inside with earlier | rfl
            · exact taken i earlier
            · exact last
          · intro orderly
            have taken : (∀ i < rest.length, failures i = none) ∧
                ∀ chunk ∈ rest, chunk = first := by
              rcases orderly with single | ⟨taken, alike⟩
              · have empty : rest = [] := by simpa using single
                simp [empty]
              · exact ⟨fun i inside => taken i (Nat.lt_succ_of_lt inside), alike⟩
            rw [List.tail_cons, all_taken taken.1]
            constructor
            · rintro sent rfl
              rw [contents_append, contents_taken, final, moved_of_alike taken.2]
            · rintro result sent ⟨rfl, rfl⟩ ⟨call, member, -, failed⟩
              rcases List.mem_append.mp member with member | member
              · obtain ⟨chunk, -, rfl⟩ := List.mem_map.mp member
                cases failed
              · rw [List.mem_singleton.mp member] at failed
                cases failed

variable {self : DiscordAdapter} {body : Text} {chat : Except ChannelError Nat}

theorem text_delivers : Delivers failures self seams body [] chat := by
  have sends (result : Except ChannelError Unit) (sent : List Sent)
      (done : self.onSend failures seams body [] chat = some (result, sent)) :
      (result = .ok () ∧ isBlank body = true ∧ sent = []) ∨ (∃ error, result = .error error) ∨
        ∃ chunks, isBlank body = false ∧ self.chunks seams body = some chunks ∧
          result = .ok () ∧ sent = chunks.map (chunkSent none) := by
    unfold DiscordAdapter.onSend at done
    rw [if_pos rfl] at done
    split at done
    next blank =>
      cases done
      exact .inl ⟨rfl, blank, rfl⟩
    next full =>
      rw [Bool.not_eq_true] at full
      unfold DiscordAdapter.postMessage at done
      cases chat with
      | error error =>
          cases done
          exact .inr (.inl ⟨error, rfl⟩)
      | ok _ =>
          obtain ⟨chunks, split, posted⟩ := Option.map_eq_some_iff.mp done
          cases result with
          | error error => exact .inr (.inl ⟨error, rfl⟩)
          | ok _ =>
              have all := sendChunks_ok posted
              rw [List.nil_append] at all
              exact .inr (.inr ⟨chunks, full, split, rfl, all⟩)
  constructor
  · intro sent done
    rcases sends _ _ done with ⟨-, blank, rfl⟩ | ⟨error, same⟩ | ⟨chunks, full, split, -, rfl⟩
    · exact ⟨[], by rw [DiscordAdapter.replyChunks, if_pos rfl, if_pos blank], rfl⟩
    · cases same
    · refine ⟨chunks, ?_, contents_taken chunks⟩
      rw [DiscordAdapter.replyChunks, if_pos rfl, full]
      exact split
  · rintro result sent done ⟨call, member, -, failed⟩
    rcases sends _ _ done with ⟨-, -, rfl⟩ | error | ⟨chunks, -, -, -, rfl⟩
    · cases member
    · exact error
    · obtain ⟨chunk, -, rfl⟩ := List.mem_map.mp member
      cases failed

theorem onSend_attached (attached : attachments ≠ []) (channel : Nat) :
    self.onSend failures seams body attachments (.ok channel) =
      (self.replyChunks seams body attachments).map
        (sendWithAttachments failures seams attachments) := by
  rw [DiscordAdapter.onSend, if_neg attached, DiscordAdapter.replyChunks, if_neg attached]
  simp only
  split <;> rfl

end Delivery

/-- A reply is delivered just where this holds of its chunks and of the calls for them. -/
theorem delivers_iff (failures : Nat → Option SerenityError) (self : DiscordAdapter)
    (seams : Seams) (body : Text) (attachments : List Attachment)
    (chat : Except ChannelError Nat) :
    Delivers failures self seams body attachments chat ↔
      Orderly failures self seams body attachments chat := by
  unfold Orderly
  by_cases bare : attachments = []
  · subst bare
    exact iff_of_true text_delivers (.inl rfl)
  · cases chat with
    | error error =>
        refine iff_of_true ⟨fun sent done => ?_, fun result sent done _ => ⟨error, ?_⟩⟩
          (.inr (.inl ⟨error, rfl⟩))
        all_goals
          unfold DiscordAdapter.onSend at done
          rw [if_neg bare] at done
        · cases done
        · cases done
          rfl
    | ok channel =>
        have calls := @onSend_attached failures seams attachments self body bare channel
        simp only [bare, reduceCtorEq, exists_false, false_or]
        cases split : self.replyChunks seams body attachments with
        | none =>
            rw [split] at calls
            refine iff_of_true ⟨fun sent done => ?_, fun result sent done => ?_⟩ (by simp)
            all_goals rw [calls] at done; cases done
        | some chunks =>
            rw [split] at calls
            simp only [Option.some.injEq, forall_eq']
            refine Iff.trans ?_ (@sendWithAttachments_delivers failures seams attachments chunks)
            constructor
            · rintro ⟨inOrder, reported⟩
              refine ⟨fun sent done => ?_, fun result sent done => ?_⟩
              · obtain ⟨whole, same, held⟩ := inOrder sent (calls.trans (congrArg some done))
                rw [split, Option.some.injEq] at same
                exact held.trans same.symm
              · exact reported result sent (calls.trans (congrArg some done))
            · rintro ⟨inOrder, reported⟩
              refine ⟨fun sent done => ⟨chunks, split, ?_⟩, fun result sent done => ?_⟩
              · exact inOrder sent (Option.some.inj (calls.symm.trans done))
              · exact reported result sent (Option.some.inj (calls.symm.trans done))

section Long

theorem round_short {providerLimit : Nat} {state : Chat.SplitState} {rest body after : Text}
    {chunk : Chat.Chunk} (large : 4 ≤ providerLimit)
    (round : Chat.Round (fun _ cut => cut) providerLimit state rest chunk body after)
    (nonempty : rest ≠ []) : Utf8.byteLength body ≤ providerLimit := by
  cases round with
  | final fits => omega
  | forced head tail first more same choice =>
      have small := first.utf8Size_le_four
      simp only [Utf8.byteLength_cons, Utf8.byteLength_nil]
      omega
  | cut head tail body after some_ choice =>
      exact (choice.short.trans (choice.head_le nonempty).1).trans (Nat.sub_le _ _)

theorem split_long {text : Text} (solid : text.all Frona.Text.isWhitespace = false)
    (long : discordMaxMessageLen < Utf8.byteLength text) :
    ∃ chunks, DiscordAdapter.new.splitter.split text = some chunks ∧ 1 < chunks.length := by
  have nonempty : text ≠ [] := by
    rintro rfl
    cases solid
  have large : 4 ≤ discordMaxMessageLen := by decide
  obtain ⟨chunks, split, rounds⟩ :=
    Chat.splitChunks_rounds Chat.adjusts_id text discordMaxMessageLen
  refine ⟨chunks.map Chat.Chunk.text, ?_, ?_⟩
  · have all : DiscordAdapter.new.splitter.split text =
        (Chat.splitChunks (fun _ cut => cut) text discordMaxMessageLen).map
          (·.map Chat.Chunk.text) := by
      simp [DiscordAdapter.new, MarkdownSplitter.split, Chat.split, solid, not_le.mpr long]
    rw [all, split]
    rfl
  · rw [List.length_map]
    cases rounds with
    | done => exact absurd rfl nonempty
    | final _ _ _ chunk _ _ _ round =>
        exact absurd (round_short large round nonempty) (not_le.mpr long)
    | next _ _ _ body after chunk chunks _ _ round _ _ rounds =>
        cases rounds with
        | done =>
            rw [List.append_nil] at long nonempty round
            exact absurd (round_short large round nonempty) (not_le.mpr long)
        | final => simp
        | next => simp

def plainSeams : Seams where
  readAttachmentBytes _ := some []
  outboundUrl _ := none
  tables _ := some []
  convert _ := none

def photo : Attachment := ⟨['p'], "image/png".toList, [], [], none⟩

def longBody : Text := List.replicate 2001 'a'

def firstFails : Nat → Option SerenityError
  | 0 => some (.unsuccessfulRequest 500 [])
  | _ => none

theorem lost_chunk_unreported : ¬ ∀ (failures : Nat → Option SerenityError) (seams : Seams)
    (body : Text) (attachments : List Attachment) (chat : Except ChannelError Nat),
    Delivers failures .new seams body attachments chat := by
  intro claimed
  have size : Utf8.byteLength longBody = 2001 := by
    rw [longBody, Chat.byteLength_replicate]
    rfl
  have solid : longBody.all Frona.Text.isWhitespace = false :=
    List.all_eq_false.mpr ⟨'a', List.mem_replicate.mpr ⟨by decide, rfl⟩, by decide⟩
  obtain ⟨chunks, split, several⟩ := split_long solid (by rw [size]; decide)
  have plain (text : Text) : DiscordAdapter.new.chunks plainSeams text =
      DiscordAdapter.new.splitter.split text := rfl
  have noNote : bodyWithOverflow plainSeams longBody [photo] = longBody := by
    have none_ : truncatedCount plainSeams [photo] = 0 := by decide
    simp [bodyWithOverflow, none_]
  have nonempty : longBody ≠ [] := by
    intro empty
    rw [empty] at solid
    cases solid
  have reply : DiscordAdapter.new.replyChunks plainSeams longBody [photo] = some chunks := by
    rw [DiscordAdapter.replyChunks, if_neg (List.cons_ne_nil _ _), noNote, if_neg nonempty, plain,
      split]
  have sends := @onSend_attached firstFails plainSeams [photo] .new longBody
    (List.cons_ne_nil _ _) 0
  rw [reply, Option.map_some] at sends
  obtain ⟨request, -, calls⟩ := @sendWithAttachments_eq firstFails plainSeams [photo] chunks
  have done := sends.trans (congrArg some calls)
  obtain ⟨-, reported⟩ := claimed firstFails plainSeams longBody [photo] (.ok 0)
  clear claimed split reply sends calls
  rcases chunks with _ | ⟨first, _ | ⟨second, rest⟩⟩
  · simp at several
  · simp at several
  · obtain ⟨error, same⟩ := reported _ _ done
      ⟨chunkSent (firstFails 0) second, by simp, rfl, rfl⟩
    cases same

end Long

end Frona.Channel.Discord
