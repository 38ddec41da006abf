import Frona.Inference.Rig
import Mathlib.Data.List.TakeWhile

set_option autoImplicit false

namespace Frona.Inference

open Utf8 (Text)

section Truncating

def summaryOpenTag : Text := "<conversation_summary>".toList

def isSummaryMessage : RigMessage → Bool
  | .user content => content.any fun block => match block with
      | .text text => summaryOpenTag.isPrefixOf text
      | _ => false
  | _ => false

def isPlainUserMessage : RigMessage → Bool
  | .user content => !content.any UserContent.isToolResult
  | _ => false

def messagesTokens (messages : List RigMessage) : Nat := (messages.map estimateMessageTokens).sum

/-- The tokens that a history may have. The product is one of `usize`. -/
def historyBudget (systemPrompt : Text) (contextWindow maxOutputTokens historyTruncationPct : Nat) :
    Nat :=
  (contextWindow - maxOutputTokens - estimateTokens systemPrompt) * historyTruncationPct % 2 ^ 64 /
    100

def pinned (history : List RigMessage) : Option RigMessage := history.head?.filter isSummaryMessage

def unpinned (history : List RigMessage) : List RigMessage :=
  history.drop (pinned history).toList.length

def keepNewest (tailBudget : Nat) : Nat → List RigMessage → List RigMessage
  | _, [] => []
  | used, message :: older =>
      let cost := estimateMessageTokens message
      if used + cost > tailBudget then []
      else message :: keepNewest tailBudget (used + cost) older

def trimHead (messages : List RigMessage) : List RigMessage :=
  let leadingInvalid := (messages.takeWhile fun message => !isPlainUserMessage message).length
  if leadingInvalid < messages.length then messages.drop leadingInvalid else messages

def truncateHistory (history : List RigMessage) (systemPrompt : Text)
    (contextWindow maxOutputTokens historyTruncationPct : Nat) : List RigMessage :=
  let budget := historyBudget systemPrompt contextWindow maxOutputTokens historyTruncationPct
  if messagesTokens history ≤ budget then history
  else
    let tailBudget := budget - messagesTokens (pinned history).toList
    let kept := (keepNewest tailBudget 0 (unpinned history).reverse).reverse
    (pinned history).toList ++ trimHead kept

end Truncating

section Claims

def ResultsFollow (messages : List RigMessage) : Prop :=
  ∀ before message after, messages = before ++ message :: after → ∀ id ∈ message.resultIds,
    ∃ caller ∈ before, id ∈ caller.callIds

def finalExchange : List RigMessage → List RigMessage
  | [] => []
  | message :: rest =>
      if rest.any isPlainUserMessage then finalExchange rest
      else if isPlainUserMessage message then message :: rest
      else []

/-- The history is unchanged, or cut to the summary and to a part that begins with a plain user
message and ends where the history does. -/
def Sendable (budget : Nat) (history result : List RigMessage) : Prop :=
  result = history ∨
    ∃ suffix, result = (pinned history).toList ++ suffix ∧ suffix <:+ unpinned history ∧
      suffix.head?.any isPlainUserMessage = true ∧ ResultsFollow suffix ∧
      (messagesTokens result ≤ budget ∨
        budget < messagesTokens (pinned history).toList +
          messagesTokens (finalExchange (unpinned history)))

structure Fits (room : Nat) (messages part : List RigMessage) : Prop where
  suffix : part <:+ messages
  starts : part.head?.any isPlainUserMessage = true
  room : messagesTokens part ≤ room

/-- The whole history fits, or else the final exchange does, behind the summary, and no plain user
message that the longest such part begins with stands between a result and its call. -/
def Cuttable (budget : Nat) (history : List RigMessage) : Prop :=
  let room := budget - messagesTokens (pinned history).toList
  messagesTokens history ≤ budget ∨
    messagesTokens (finalExchange (unpinned history)) ≤ room ∧
      ∀ part, Fits room (unpinned history) part →
        (∀ other, Fits room (unpinned history) other → other <:+ part) → ResultsFollow part

end Claims

section Walks

variable {room used : Nat}

@[simp] theorem messagesTokens_nil : messagesTokens [] = 0 := rfl

@[simp] theorem messagesTokens_cons (message : RigMessage) (rest : List RigMessage) :
    messagesTokens (message :: rest) = estimateMessageTokens message + messagesTokens rest := by
  simp [messagesTokens]

@[simp] theorem messagesTokens_append (left right : List RigMessage) :
    messagesTokens (left ++ right) = messagesTokens left + messagesTokens right := by
  simp [messagesTokens]

@[simp] theorem messagesTokens_reverse (messages : List RigMessage) :
    messagesTokens messages.reverse = messagesTokens messages := by
  simp [messagesTokens, List.sum_reverse]

theorem messagesTokens_suffix {part messages : List RigMessage} (suffix : part <:+ messages) :
    messagesTokens part ≤ messagesTokens messages := by
  obtain ⟨before, rfl⟩ := suffix
  simp

theorem keepNewest_prefix (messages : List RigMessage) :
    keepNewest room used messages <+: messages := by
  induction messages generalizing used with
  | nil => exact List.prefix_refl _
  | cons message older ih =>
      simp only [keepNewest]
      split
      next => exact List.nil_prefix
      next => exact List.prefix_cons_inj message |>.mpr ih

theorem keepNewest_cost (messages : List RigMessage) (within : used ≤ room) :
    used + messagesTokens (keepNewest room used messages) ≤ room := by
  induction messages generalizing used with
  | nil => simpa [keepNewest] using within
  | cons message older ih =>
      simp only [keepNewest]
      split
      next => simpa using within
      next fits =>
        have := @ih (used + estimateMessageTokens message) (by omega)
        simp only [messagesTokens_cons]
        omega

theorem prefix_keepNewest {messages part : List RigMessage} (front : part <+: messages)
    (fits : used + messagesTokens part ≤ room) : part <+: keepNewest room used messages := by
  induction messages generalizing used part with
  | nil => simpa [keepNewest] using front
  | cons message older ih =>
      cases part with
      | nil => exact List.nil_prefix
      | cons first rest =>
          obtain ⟨rfl, front'⟩ := List.cons_prefix_cons.mp front
          simp only [messagesTokens_cons] at fits
          simp only [keepNewest]
          rw [if_neg (by omega)]
          exact (List.prefix_cons_inj first).mpr (ih front' (by omega))

def newest (room : Nat) (messages : List RigMessage) : List RigMessage :=
  (keepNewest room 0 messages.reverse).reverse

theorem newest_suffix (messages : List RigMessage) : newest room messages <:+ messages := by
  rw [newest, ← List.reverse_prefix, List.reverse_reverse]
  exact keepNewest_prefix _

theorem newest_cost (messages : List RigMessage) :
    messagesTokens (newest room messages) ≤ room := by
  simpa [newest] using keepNewest_cost messages.reverse (Nat.zero_le room)

theorem suffix_newest {messages part : List RigMessage} (suffix : part <:+ messages)
    (fits : messagesTokens part ≤ room) : part <:+ newest room messages := by
  rw [newest, ← List.reverse_prefix, List.reverse_reverse]
  exact prefix_keepNewest (List.reverse_prefix.mpr suffix) (by simpa using fits)

end Walks

section Heads

variable {messages part : List RigMessage}

theorem drop_takeWhile (messages : List RigMessage) (p : RigMessage → Bool) :
    messages.drop (messages.takeWhile p).length = messages.dropWhile p := by
  have parts := List.takeWhile_append_dropWhile (p := p) (l := messages)
  calc messages.drop (messages.takeWhile p).length
      = (messages.takeWhile p ++ messages.dropWhile p).drop (messages.takeWhile p).length := by
        rw [parts]
    _ = messages.dropWhile p := List.drop_left

theorem trimHead_some (plain : messages.any isPlainUserMessage = true) :
    trimHead messages = messages.dropWhile fun message => !isPlainUserMessage message := by
  have some_ : messages.dropWhile (fun message => !isPlainUserMessage message) ≠ [] := by
    simpa [List.dropWhile_eq_nil_iff] using plain
  have shorter : (messages.takeWhile fun message => !isPlainUserMessage message).length <
      messages.length := by
    have parts := congrArg List.length (List.takeWhile_append_dropWhile
      (p := fun message => !isPlainUserMessage message) (l := messages))
    have := List.length_pos_of_ne_nil some_
    rw [List.length_append] at parts
    omega
  rw [trimHead, if_pos shorter, drop_takeWhile]

theorem trimHead_none (plain : messages.any isPlainUserMessage = false) :
    trimHead messages = messages := by
  have all : messages.takeWhile (fun message => !isPlainUserMessage message) = messages := by
    simpa [List.takeWhile_eq_self_iff] using plain
  rw [trimHead, all, if_neg (Nat.lt_irrefl _)]

theorem trimHead_suffix (messages : List RigMessage) : trimHead messages <:+ messages := by
  unfold trimHead
  dsimp only
  split
  next => exact List.drop_suffix _ _
  next => exact List.suffix_refl _

theorem any_of_starts (suffix : part <:+ messages)
    (starts : part.head?.any isPlainUserMessage = true) :
    messages.any isPlainUserMessage = true := by
  cases part with
  | nil => simp at starts
  | cons first rest =>
      exact List.any_eq_true.mpr ⟨first, suffix.subset (by simp), by simpa using starts⟩

theorem suffix_dropWhile (suffix : part <:+ messages)
    (starts : part.head?.any isPlainUserMessage = true) :
    part <:+ messages.dropWhile fun message => !isPlainUserMessage message := by
  induction messages with
  | nil => simpa using suffix
  | cons message rest ih =>
      rcases List.suffix_cons_iff.mp suffix with rfl | inside
      · have plain : isPlainUserMessage message = true := by simpa using starts
        simp [plain]
      · rw [List.dropWhile_cons]
        split
        next => exact ih inside
        next => exact inside.trans (List.suffix_cons _ _)

theorem dropWhile_starts (plain : messages.any isPlainUserMessage = true) :
    (messages.dropWhile fun message => !isPlainUserMessage message).head?.any isPlainUserMessage =
      true := by
  induction messages with
  | nil => simp at plain
  | cons message rest ih =>
      rw [List.dropWhile_cons]
      split
      next other =>
        refine ih ?_
        simpa [show isPlainUserMessage message = false by simpa using other] using plain
      next this => simpa using this

theorem finalExchange_suffix (messages : List RigMessage) :
    finalExchange messages <:+ messages := by
  induction messages with
  | nil => exact List.suffix_refl _
  | cons message rest ih =>
      simp only [finalExchange]
      split
      next => exact ih.trans (List.suffix_cons _ _)
      next =>
        split
        next => exact List.suffix_refl _
        next => exact List.nil_suffix

theorem finalExchange_starts (plain : messages.any isPlainUserMessage = true) :
    (finalExchange messages).head?.any isPlainUserMessage = true := by
  induction messages with
  | nil => simp at plain
  | cons message rest ih =>
      simp only [finalExchange]
      split
      next later => exact ih later
      next none_ =>
        have here : isPlainUserMessage message = true := by simpa [none_] using plain
        simp [here]

theorem finalExchange_least (suffix : part <:+ messages)
    (starts : part.head?.any isPlainUserMessage = true) : finalExchange messages <:+ part := by
  induction messages with
  | nil => exact List.nil_suffix
  | cons message rest ih =>
      simp only [finalExchange]
      rcases List.suffix_cons_iff.mp suffix with rfl | inside
      · split
        next => exact (finalExchange_suffix rest).trans (List.suffix_cons _ _)
        next =>
          split
          next => exact List.suffix_refl _
          next => exact List.nil_suffix
      · rw [if_pos (any_of_starts inside starts)]
        exact ih inside

end Heads

section Cuts

variable {messages part : List RigMessage} {room : Nat}

theorem fits_iff_newest : Fits room messages part ↔
    part <:+ newest room messages ∧ part.head?.any isPlainUserMessage = true :=
  ⟨fun fits => ⟨suffix_newest fits.suffix fits.room, fits.starts⟩,
    fun ⟨suffix, starts⟩ => ⟨suffix.trans (newest_suffix messages), starts,
      (messagesTokens_suffix suffix).trans (newest_cost messages)⟩⟩

theorem exists_fits (plain : messages.any isPlainUserMessage = true) :
    (newest room messages).any isPlainUserMessage = true ↔
      messagesTokens (finalExchange messages) ≤ room := by
  constructor
  · intro kept
    have inside := finalExchange_suffix (newest room messages)
    have least := finalExchange_least (inside.trans (newest_suffix messages))
      (finalExchange_starts kept)
    exact (messagesTokens_suffix (least.trans inside)).trans (newest_cost messages)
  · intro fits
    exact any_of_starts (suffix_newest (finalExchange_suffix messages) fits)
      (finalExchange_starts plain)

theorem trimmed_longest (kept : (newest room messages).any isPlainUserMessage = true) :
    Fits room messages (trimHead (newest room messages)) ∧
      ∀ other, Fits room messages other → other <:+ trimHead (newest room messages) := by
  rw [trimHead_some kept]
  refine ⟨fits_iff_newest.mpr ⟨List.dropWhile_suffix _, dropWhile_starts kept⟩, ?_⟩
  intro other fits
  obtain ⟨suffix, starts⟩ := fits_iff_newest.mp fits
  exact suffix_dropWhile suffix starts

end Cuts

section Exact

variable {history : List RigMessage}

theorem history_split (history : List RigMessage) :
    (pinned history).toList ++ unpinned history = history := by
  unfold unpinned pinned
  cases history with
  | nil => rfl
  | cons first rest => cases summary : isSummaryMessage first <;> simp [Option.filter, summary]

theorem dropped_some {budget : Nat} (plain : (unpinned history).any isPlainUserMessage = true)
    (long : budget < messagesTokens history)
    (small : messagesTokens (unpinned history) ≤
      budget - messagesTokens (pinned history).toList) : False := by
  have total := congrArg messagesTokens (history_split history)
  rw [messagesTokens_append] at total
  obtain ⟨message, inside, -⟩ := List.any_eq_true.mp plain
  obtain ⟨before, after, same⟩ := List.append_of_mem inside
  have positive := estimateMessageTokens_pos message
  have := congrArg messagesTokens same
  simp only [messagesTokens_append, messagesTokens_cons] at this
  omega

theorem sendable_cut {budget : Nat} (plain : (unpinned history).any isPlainUserMessage = true)
    (long : budget < messagesTokens history) :
    let room := budget - messagesTokens (pinned history).toList
    Sendable budget history
        ((pinned history).toList ++ trimHead (newest room (unpinned history))) ↔
      messagesTokens (finalExchange (unpinned history)) ≤ room ∧
        ∀ part, Fits room (unpinned history) part →
          (∀ other, Fits room (unpinned history) other → other <:+ part) → ResultsFollow part := by
  intro room
  rw [← exists_fits plain]
  constructor
  · rintro (same | ⟨suffix, same, -, starts, follow, -⟩)
    · -- Nothing would have been dropped.
      have whole := List.append_cancel_left (same.trans (history_split history).symm)
      have suffix : unpinned history <:+ newest room (unpinned history) := by
        conv_lhs => rw [← whole]
        exact trimHead_suffix _
      exact (dropped_some plain long
        ((messagesTokens_suffix suffix).trans (newest_cost _))).elim
    · obtain rfl := List.append_cancel_left same
      have kept : (newest room (unpinned history)).any isPlainUserMessage = true := by
        by_contra none_
        rw [trimHead_none (by simpa using none_)] at starts
        exact none_ (any_of_starts (List.suffix_refl _) starts)
      refine ⟨kept, fun part fits longest => ?_⟩
      have ⟨cut, longest'⟩ := trimmed_longest kept
      obtain rfl := (longest' part fits).eq_of_length
        (Nat.le_antisymm (longest' part fits).length_le (longest _ cut).length_le)
      exact follow
  · rintro ⟨kept, follow⟩
    have ⟨cut, longest⟩ := trimmed_longest kept
    refine .inr ⟨_, rfl, cut.suffix, cut.starts, follow _ cut longest, .inl ?_⟩
    have room_ : messagesTokens (trimHead (newest room (unpinned history))) ≤
      budget - messagesTokens (pinned history).toList := cut.room
    have positive : 0 < messagesTokens (trimHead (newest room (unpinned history))) := by
      cases shape : trimHead (newest room (unpinned history)) with
      | nil =>
          have starts := cut.starts
          simp [shape] at starts
      | cons message rest =>
          have := estimateMessageTokens_pos message
          rw [messagesTokens_cons]
          omega
    rw [messagesTokens_append]
    omega

/-- A history that is cut can be sent exactly when the final exchange fits, and no result is parted
from its call. -/
theorem sendable_iff (plain : (unpinned history).any isPlainUserMessage = true)
    (systemPrompt : Text) (contextWindow maxOutputTokens historyTruncationPct : Nat) :
    Sendable (historyBudget systemPrompt contextWindow maxOutputTokens historyTruncationPct) history
        (truncateHistory history systemPrompt contextWindow maxOutputTokens historyTruncationPct) ↔
      Cuttable (historyBudget systemPrompt contextWindow maxOutputTokens historyTruncationPct)
        history := by
  unfold truncateHistory Cuttable
  generalize historyBudget systemPrompt contextWindow maxOutputTokens historyTruncationPct = budget
  dsimp only
  split
  next short => exact ⟨fun _ => .inl short, fun _ => .inl rfl⟩
  next long =>
    rw [or_iff_right long]
    exact sendable_cut plain (by omega)

def Answered (messages : List RigMessage) : Prop :=
  ∀ before message after, messages = before ++ message :: after → ∀ id ∈ message.resultIds,
    ∃ init caller between, before = init ++ caller :: between ∧ id ∈ caller.callIds ∧
      ∀ other ∈ between, isPlainUserMessage other = false

theorem plain_user {message : RigMessage} (plain : isPlainUserMessage message = true) :
    message.resultIds = [] ∧ message.callIds = [] := by
  cases message with
  | user content =>
      refine ⟨List.filterMap_eq_nil_iff.mpr fun block member => ?_, rfl⟩
      have other : block.isToolResult = false := by
        simpa using List.any_eq_false.mp (by simpa [isPlainUserMessage] using plain) block member
      cases block with
      | toolResult => cases other
      | text | image => rfl
  | assistant | system => cases plain

theorem Answered.resultsFollow {messages part : List RigMessage} (answered : Answered messages)
    (suffix : part <:+ messages) (starts : part.head?.any isPlainUserMessage = true) :
    ResultsFollow part := by
  obtain ⟨dropped, rfl⟩ := suffix
  rintro before message after rfl id inside
  obtain ⟨init, caller, between, earlier, calls, quiet⟩ :=
    answered (dropped ++ before) message after (by simp) id inside
  cases before with
  | nil =>
      have plain : isPlainUserMessage message = true := by simpa using starts
      rw [(plain_user plain).1] at inside
      cases inside
  | cons first rest =>
      have plain : isPlainUserMessage first = true := by simpa using starts
      rcases List.append_eq_append_iff.mp earlier with ⟨more, -, same⟩ | ⟨more, -, same⟩
      · exact ⟨caller, same ▸ List.mem_append_right _ List.mem_cons_self, calls⟩
      · -- The call lies before the part, and the user speaks in between.
        cases more with
        | nil =>
            obtain rfl := (List.cons.inj same).1
            rw [(plain_user plain).2] at calls
            cases calls
        | cons next others =>
            have spoken := quiet first ((List.cons.inj same).2 ▸ by simp)
            exact absurd plain (by simp [spoken])

theorem sendable_iff_answered (plain : (unpinned history).any isPlainUserMessage = true)
    (answered : Answered (unpinned history)) (systemPrompt : Text)
    (contextWindow maxOutputTokens historyTruncationPct : Nat) :
    let budget := historyBudget systemPrompt contextWindow maxOutputTokens historyTruncationPct
    Sendable budget history
        (truncateHistory history systemPrompt contextWindow maxOutputTokens historyTruncationPct) ↔
      messagesTokens history ≤ budget ∨ messagesTokens (finalExchange (unpinned history)) ≤
        budget - messagesTokens (pinned history).toList := by
  intro budget
  refine (sendable_iff plain _ _ _ _).trans (or_congr_right (and_iff_left ?_))
  exact fun part fits _ => answered.resultsFollow fits.suffix fits.starts

end Exact

section Examples

def question : RigMessage := .userText "Why?".toList

def callMessage : RigMessage :=
  .assistant [.toolCall { id := ['c'], name := List.replicate 40 'n', arguments := .null }]

def resultMessage : RigMessage :=
  .user [.toolResult { call := ['c'], name := ['n'], content := [] }]

theorem result_alone :
    ¬Sendable (historyBudget [] 10 0 100) [question, callMessage, resultMessage]
      (truncateHistory [question, callMessage, resultMessage] [] 10 0 100) := by
  have cut : truncateHistory [question, callMessage, resultMessage] [] 10 0 100 =
      [resultMessage] := by rfl
  rw [cut]
  rintro (same | ⟨suffix, same, -, starts, -⟩)
  · simp at same
  · have alone : suffix = [resultMessage] := same.symm
    rw [alone] at starts
    cases starts

theorem sendable_iff_question :
    Sendable (historyBudget [] 10 0 100) [.assistantText (List.replicate 40 'n'), question]
      (truncateHistory [.assistantText (List.replicate 40 'n'), question] [] 10 0 100) := by
  refine (sendable_iff (by decide) [] 10 0 100).mpr (.inr ⟨by decide, ?_⟩)
  rintro part fits - before message after rfl id inside
  have known := fits.suffix.subset (show message ∈ before ++ message :: after by simp)
  have none_ : ∀ other ∈ unpinned [.assistantText (List.replicate 40 'n'), question],
      other.resultIds = [] := by decide
  rw [none_ message known] at inside
  cases inside

end Examples

end Frona.Inference
