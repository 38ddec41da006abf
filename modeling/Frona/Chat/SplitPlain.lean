import Frona.Chat.SplitRounds

set_option autoImplicit false

namespace Frona.Chat

open Utf8 Frona.Text

section Plain

def silentSplitRound (remaining : Text) (providerLimit : Nat) : Option (Text × Text) :=
  let cut := findBoundary remaining providerLimit
  if cut = 0 then
    -- One character is forced, so that the loop makes progress.
    match remaining with
    | [] => none
    | first :: rest => some ([first], rest)
  else splitAt remaining cut

def silentSplitLoop (providerLimit : Nat) : Nat → Text → Option (List Text)
  | 0, _ => none
  | fuel + 1, remaining =>
      if remaining = [] then some []
      else if byteLength remaining ≤ providerLimit then some [remaining]
      else do
        let (chunk, rest) ← silentSplitRound remaining providerLimit
        return chunk :: (← silentSplitLoop providerLimit fuel rest)

/-- `none` when a slice is not between characters, or when the loop does not end. -/
def silentSplitPlain (text : Text) (providerLimit : Nat) : Option (List Text) :=
  if byteLength text ≤ providerLimit then some [text]
  else silentSplitLoop providerLimit (text.length + 1) text

def overflowIntro : Text := "\n\nFull reply: ".toList

def trimEnd (text : Text) : Text := (text.reverse.dropWhile isWhitespace).reverse

def appendOverflow (body url : Text) (totalLimit : Nat) : Option Text := do
  let suffixLen := byteLength overflowIntro + byteLength url
  let bodyBudget := totalLimit - suffixLen
  let (head, _) ← splitAt body (findBoundary body bodyBudget)
  return trimEnd head ++ (overflowIntro ++ url)

structure PlainSplitter where
  providerLimit : Nat
  hardLimit : Option Nat

/-- `share` is the address of the chat share, or the error of asking for it. -/
def PlainSplitter.split {Error : Type} (self : PlainSplitter) (text : Text)
    (share : Except Error Text) : Option (Except Error (List Text)) :=
  if text.all isWhitespace then some (.ok [])
  else if self.hardLimit.any (· < byteLength text) then
    match share with
    | .error error => some (.error error)
    | .ok url => (appendOverflow text url self.providerLimit).map fun message => .ok [message]
  else (silentSplitPlain text self.providerLimit).map .ok

end Plain

section Lossless

/-- Chunks that are a text cut between characters, none of them empty or over the limit. -/
structure Lossless (text : Text) (providerLimit : Nat) (chunks : List Text) : Prop where
  whole : chunks.flatten = text
  nonempty : text ≠ [] → ∀ chunk ∈ chunks, chunk ≠ []
  short : ∀ chunk ∈ chunks, byteLength chunk ≤ providerLimit
  boundary : ∀ n, IsBoundary text (byteLength (chunks.take n).flatten)

theorem flatten_boundary (chunks : List Text) (n : Nat) :
    IsBoundary chunks.flatten (byteLength (chunks.take n).flatten) := by
  refine ⟨(chunks.take n).flatten, (chunks.drop n).flatten, ?_, rfl⟩
  rw [← List.flatten_append, List.take_append_drop]

theorem silentSplitRound_spec (remaining : Text) (providerLimit : Nat) (large : 4 ≤ providerLimit)
    (long : providerLimit < byteLength remaining) :
    ∃ chunk rest, silentSplitRound remaining providerLimit = some (chunk, rest) ∧
      remaining = chunk ++ rest ∧ chunk ≠ [] ∧ byteLength chunk ≤ providerLimit := by
  obtain ⟨head, tail, whole, cut, fits, progress⟩ := findBoundary_spec remaining providerLimit
  have short : byteLength head ≤ providerLimit := by omega
  -- A character takes four bytes at most, so the limit leaves room for the first one.
  have some : head ≠ [] := by
    cases remaining with
    | nil => simp at long
    | cons c rest =>
        have := c.utf8Size_le_four
        exact progress c rest rfl (by omega)
  refine ⟨head, tail, ?_, whole, some, short⟩
  have forward : byteLength head ≠ 0 := by simpa using some
  simp only [silentSplitRound, cut, forward, if_false]
  rw [whole, splitAt_append]

theorem silentSplitLoop_lossless (providerLimit : Nat) (large : 4 ≤ providerLimit) (fuel : Nat)
    (remaining : Text) (enough : remaining.length < fuel) :
    ∃ chunks, silentSplitLoop providerLimit fuel remaining = some chunks ∧
      chunks.flatten = remaining ∧
      ∀ chunk ∈ chunks, chunk ≠ [] ∧ byteLength chunk ≤ providerLimit := by
  induction fuel generalizing remaining with
  | zero => omega
  | succ fuel ih =>
      unfold silentSplitLoop
      split
      next done => exact ⟨[], rfl, by simp [done], by simp⟩
      next left =>
        split
        next fits => exact ⟨[remaining], rfl, by simp, by simp [left, fits]⟩
        next long =>
          obtain ⟨chunk, rest, round, whole, some, short⟩ :=
            silentSplitRound_spec remaining providerLimit large (by omega)
          have progress : rest.length < fuel := by
            have := List.length_pos_of_ne_nil some
            rw [whole, List.length_append] at enough
            omega
          obtain ⟨chunks, run, flat, all⟩ := ih rest progress
          refine ⟨chunk :: chunks, ?_, by simp [flat, whole], ?_⟩
          · simp [round, run]
          · simp only [List.forall_mem_cons]
            exact ⟨⟨some, short⟩, all⟩

theorem silentSplitPlain_lossless (text : Text) (providerLimit : Nat) (large : 4 ≤ providerLimit) :
    ∃ chunks, silentSplitPlain text providerLimit = some chunks ∧
      Lossless text providerLimit chunks := by
  unfold silentSplitPlain
  split
  next fits =>
    refine ⟨[text], rfl, by simp, by simp, by simpa using fits, fun n => ?_⟩
    simpa using flatten_boundary [text] n
  next long =>
    obtain ⟨chunks, run, flat, all⟩ :=
      silentSplitLoop_lossless providerLimit large (text.length + 1) text (by omega)
    refine ⟨chunks, run, flat, fun _ chunk member => (all chunk member).1,
      fun chunk member => (all chunk member).2, fun n => ?_⟩
    rw [← flat]
    exact flatten_boundary chunks n

end Lossless

section Overflow

theorem trimEnd_append (text : Text) : ∃ blank, text = trimEnd text ++ blank := by
  refine ⟨(text.reverse.takeWhile isWhitespace).reverse, ?_⟩
  rw [trimEnd, ← List.reverse_append, List.takeWhile_append_dropWhile, List.reverse_reverse]

theorem trimEnd_length (text : Text) : byteLength (trimEnd text) ≤ byteLength text := by
  obtain ⟨blank, same⟩ := trimEnd_append text
  have size := congrArg byteLength same
  rw [byteLength_append] at size
  omega

theorem appendOverflow_spec (body url : Text) (totalLimit : Nat)
    (room : byteLength overflowIntro + byteLength url ≤ totalLimit) :
    ∃ message, appendOverflow body url totalLimit = some message ∧
      byteLength message ≤ totalLimit ∧ (overflowIntro ++ url).IsSuffix message := by
  let budget := totalLimit - (byteLength overflowIntro + byteLength url)
  obtain ⟨head, tail, whole, cut, fits, -⟩ := findBoundary_spec body budget
  have short : byteLength head ≤ budget := by
    have size := congrArg byteLength whole
    rw [byteLength_append] at size
    omega
  have run : appendOverflow body url totalLimit = some (trimEnd head ++ (overflowIntro ++ url)) := by
    change (splitAt body (findBoundary body budget)).bind _ = _
    rw [cut, whole, splitAt_append]
    rfl
  refine ⟨trimEnd head ++ (overflowIntro ++ url), run, ?_, List.suffix_append _ _⟩
  · have := trimEnd_length head
    simp only [byteLength_append]
    omega

theorem PlainSplitter.split_short {Error : Type} (self : PlainSplitter) (text : Text)
    (share : Except Error Text) (large : 4 ≤ self.providerLimit)
    (room : ∀ url, share = .ok url → byteLength overflowIntro + byteLength url ≤ self.providerLimit) :
    ∃ result, self.split text share = some result ∧
      ∀ chunks, result = .ok chunks → ∀ chunk ∈ chunks, byteLength chunk ≤ self.providerLimit := by
  unfold PlainSplitter.split
  split
  next blank => exact ⟨.ok [], rfl, by simp⟩
  next visible =>
    split
    next overlong =>
      cases share with
      | error error => exact ⟨.error error, rfl, by simp⟩
      | ok url =>
          obtain ⟨message, run, short, -⟩ :=
            appendOverflow_spec text url self.providerLimit (room url rfl)
          refine ⟨.ok [message], by simp [run], ?_⟩
          intro chunks same
          obtain rfl := Except.ok.inj same
          simpa using short
    next within =>
      obtain ⟨chunks, run, lossless⟩ := silentSplitPlain_lossless text self.providerLimit large
      refine ⟨.ok chunks, by rw [run]; rfl, ?_⟩
      intro other same
      obtain rfl := Except.ok.inj same
      exact lossless.short

/-- With four bytes of room a plain split loses nothing and keeps the limit; a reply cut short
keeps it as well, and ends in the address of the whole one. -/
theorem plain_split_sound (text : Text) (providerLimit : Nat) (large : 4 ≤ providerLimit)
    (body url : Text) (totalLimit : Nat)
    (room : byteLength overflowIntro + byteLength url ≤ totalLimit) :
    (∃ chunks, silentSplitPlain text providerLimit = some chunks ∧
      Lossless text providerLimit chunks) ∧
    ∃ message, appendOverflow body url totalLimit = some message ∧
      byteLength message ≤ totalLimit ∧ url.IsSuffix message := by
  obtain ⟨message, run, short, ends⟩ := appendOverflow_spec body url totalLimit room
  exact ⟨silentSplitPlain_lossless text providerLimit large, message, run, short,
    (List.suffix_append overflowIntro url).trans ends⟩

-- Four bytes are what the emoji takes: it is a chunk of its own.
theorem plain_split_sound_emoji :
    (∃ chunks, silentSplitPlain "ab 🦀é c".toList 4 = some chunks ∧
      Lossless "ab 🦀é c".toList 4 chunks) ∧
    ∃ message, appendOverflow "a long  reply".toList "u/s/1".toList 24 = some message ∧
      byteLength message ≤ 24 ∧ "u/s/1".toList.IsSuffix message :=
  plain_split_sound _ 4 (by decide) _ _ 24 (by decide)

example : silentSplitPlain "ab 🦀é c".toList 4 = some (["ab ", "🦀", "é c"].map String.toList) := by
  decide +kernel

end Overflow

end Frona.Chat
