import Frona.Pkm.Authoring

set_option autoImplicit false

namespace Frona.Pkm

open Utf8 (Text)

namespace PageWorld

variable (world : PageWorld)

/-- Every accepted change went into the stored article, or the page is authored again. -/
structure Remembered : Prop where
  edits : ∀ edit ∈ world.edits, edit ∈ world.row.basis.edits ∨ world.needsReconciliation = true
  memories : ∀ memory ∈ world.memories,
    memory ∈ world.row.basis.memories ∨ world.needsReconciliation = true

def LaterThanRendering (now : Int) : Prop := world.row.renderedAt < now

/--
Since an author read its row no edit was accepted, and since it read the memories none was inserted,
unless the page changed at a time later than the commit. A memory is stamped later than the last
rendering, and so is an edit of memories while the page is to be authored.
-/
def Timely (call : PageCall) (now : Int) : Prop :=
  match call with
  | .stateRead _ _ since seen =>
      since = world.edits.length ∧
        (seen = some world.memories.length ∨
          world.hasSource = true ∧ now < world.row.updatedAt)
  | .editing stamp write =>
      world.accepts write = false ∨ write.memoryOps = [] ∨ world.LaterThanRendering stamp ∨
        world.needsReconciliation = false
  | .inserting stamp => world.LaterThanRendering stamp
  | _ => True

def Undisturbed (action : PageAction) (world : PageWorld) : Prop :=
  match action with
  | .turn id now answer => answer.fails = true ∨ world.Timely (world.calls id) now
  | _ => True

instance (now : Int) : Decidable (world.LaterThanRendering now) :=
  inferInstanceAs (Decidable (_ < _))

instance (now : Int) : (call : PageCall) → Decidable (world.Timely call now)
  | .stateRead _ _ _ _ => inferInstanceAs (Decidable (_ ∧ _))
  | .editing _ _ => inferInstanceAs (Decidable (_ ∨ _))
  | .inserting stamp => inferInstanceAs (Decidable (world.LaterThanRendering stamp))
  | .idle | .authoring | .entityRead _ _ => inferInstanceAs (Decidable True)

instance : (action : PageAction) → (world : PageWorld) → Decidable (Undisturbed action world)
  | .turn _ _ _, _ => inferInstanceAs (Decidable (_ ∨ _))
  | .author _, _ | .edit _ _ _, _ | .insert _ _, _ | .openWorking _, _ | .nextPass, _ =>
      inferInstanceAs (Decidable True)

section Invariant

structure Taken (page : PageRow) (since : Nat) : Prop where
  past : since ≤ world.edits.length
  has : ∀ edit ∈ world.edits.take since, edit ∈ page.basis.edits

def Listed (memories : List Nat) (seen : Option Nat) : Prop :=
  ∀ count ∈ seen, count ≤ world.memories.length ∧
    ∀ memory ∈ world.memories.take count, memory ∈ memories

def Holds : PageCall → Prop
  | .entityRead page since => world.Taken page since
  | .stateRead page memories since seen => world.Taken page since ∧ world.Listed memories seen
  | _ => True

/-- The stored article has every edit, and every memory unless the page is authored again; and the
copies that are in use have what was there when they were made. -/
structure Kept : Prop where
  edits : ∀ edit ∈ world.edits, edit ∈ world.row.basis.edits
  memories : (∀ memory ∈ world.memories, memory ∈ world.row.basis.memories) ∨
    world.needsReconciliation = true
  working : ∀ working ∈ world.working, world.Taken working.page working.since
  calls : ∀ id, world.Holds (world.calls id)

/-- Before any call and pass: the article has every edit, and is authored again if it misses a
memory. -/
structure Quiet : Prop where
  idle : ∀ id, world.calls id = .idle
  alone : world.working = none
  edits : ∀ edit ∈ world.edits, edit ∈ world.row.basis.edits
  memories : (∀ memory ∈ world.memories, memory ∈ world.row.basis.memories) ∨
    world.needsReconciliation = true

end Invariant

section Facts

variable {world}

theorem needsReconciliation_iff :
    world.needsReconciliation = true ↔
      world.hasSource = true ∧ world.row.renderedAt < world.row.updatedAt := by
  simp [needsReconciliation]

theorem Kept.remembered (kept : world.Kept) : world.Remembered where
  edits edit member := .inl (kept.edits edit member)
  memories memory member := kept.memories.imp_left fun all => all memory member

theorem Quiet.kept (quiet : world.Quiet) : world.Kept where
  edits := quiet.edits
  memories := quiet.memories
  working := by simp [quiet.alone]
  calls id := by
    rw [quiet.idle id]
    trivial

structure Grows (before after : PageWorld) : Prop where
  edits : before.edits <+: after.edits
  memories : before.memories <+: after.memories

theorem take_of_begins {A : Type} {before after : List A} {count : Nat} (grows : before <+: after)
    (past : count ≤ before.length) : after.take count = before.take count := by
  obtain ⟨more, rfl⟩ := grows
  exact List.take_append_of_le_length past

variable {next : PageWorld}

theorem grows_of_same (edits : next.edits = world.edits)
    (memories : next.memories = world.memories) : Grows world next := ⟨edits ▸ List.prefix_rfl, memories ▸ List.prefix_rfl⟩

theorem Taken.grow {page : PageRow} {since : Nat} (taken : world.Taken page since)
    (grows : Grows world next) : next.Taken page since where
  past := taken.past.trans grows.edits.length_le
  has := by
    rw [take_of_begins grows.edits taken.past]
    exact taken.has

theorem Listed.grow {memories : List Nat} {seen : Option Nat} (listed : world.Listed memories seen)
    (grows : Grows world next) : next.Listed memories seen := by
  intro count here
  obtain ⟨past, has⟩ := listed count here
  rw [take_of_begins grows.memories past]
  exact ⟨past.trans grows.memories.length_le, has⟩

theorem Holds.grow {call : PageCall} (holds : world.Holds call) (grows : Grows world next) :
    next.Holds call := by
  cases call with
  | entityRead page since => exact Taken.grow holds grows
  | stateRead page memories since seen => exact ⟨holds.1.grow grows, holds.2.grow grows⟩
  | idle | authoring | editing | inserting => trivial

theorem Kept.grow (kept : world.Kept) (grows : Grows world next) (calls : next.calls = world.calls)
    (working : ∀ working ∈ next.working, working ∈ world.working ∨
      next.Taken working.page working.since)
    (edits : ∀ edit ∈ next.edits, edit ∈ next.row.basis.edits)
    (memories : (∀ memory ∈ next.memories, memory ∈ next.row.basis.memories) ∨
      next.needsReconciliation = true) : next.Kept where
  edits := edits
  memories := memories
  working copy here := (working copy here).elim
    (fun before => (kept.working copy before).grow grows) id
  calls id := by
    rw [calls]
    exact (kept.calls id).grow grows

theorem Kept.goOn (kept : world.Kept) (id : Nat) {call : PageCall} (holds : world.Holds call) :
    (world.goOn id call).Kept where
  edits := kept.edits
  memories := kept.memories
  working copy here := (kept.working copy here).grow (grows_of_same rfl rfl)
  calls other := by
    have same : Grows world (world.goOn id call) := grows_of_same rfl rfl
    by_cases own : other = id
    · have here : (world.goOn id call).calls other = call := by simp [PageWorld.goOn, own]
      rw [here]
      exact holds.grow same
    · have still : (world.goOn id call).calls other = world.calls other := by
        simp [PageWorld.goOn, own]
      rw [still]
      exact (kept.calls other).grow same

theorem Kept.taken_row (kept : world.Kept) : world.Taken world.row world.edits.length where
  past := le_rfl
  has := by
    rw [List.take_length]
    exact kept.edits

theorem Kept.taken_view (kept : world.Kept) : world.Taken world.entityByPath world.viewSince := by
  unfold entityByPath viewSince
  cases here : world.working with
  | none => exact kept.taken_row
  | some working =>
      by_cases follows : working.existingOnly
      · simpa [follows] using kept.taken_row
      · simpa [follows] using kept.working working (by simp [here])

theorem Kept.commitAuthoredPage (kept : world.Kept) {page : PageRow} {memories : List Nat}
    {since : Nat} {seen : Option Nat} {now : Int}
    (taken : world.Taken page since) (listed : world.Listed memories seen)
    (timely : world.Timely (.stateRead page memories since seen) now) (write : AuthoredPageWrite) :
    (world.commitAuthoredPage write ⟨page.basis.edits, memories⟩ now).Kept := by
  obtain ⟨unedited, uninserted⟩ := timely
  -- No edit came between the copy and the commit, so the copy has them all.
  have edits : ∀ edit ∈ world.edits, edit ∈ page.basis.edits := by
    have has := taken.has
    rwa [unedited, List.take_length] at has
  refine kept.grow (grows_of_same rfl rfl) rfl ?_ edits ?_
  · intro working here
    obtain rfl := Option.some.inj here
    refine Or.inr ⟨le_rfl, ?_⟩
    change ∀ edit ∈ world.edits.take world.edits.length, edit ∈ page.basis.edits
    rwa [List.take_length]
  · obtain all | ⟨source, later⟩ := uninserted
    · left
      obtain ⟨-, has⟩ := listed _ all
      rwa [List.take_length] at has
    · exact Or.inr (needsReconciliation_iff.mpr ⟨source, later⟩)

theorem Kept.createSourcedMemory (kept : world.Kept) {now : Int}
    (later : world.LaterThanRendering now) : (world.createSourcedMemory now).Kept := by
  refine kept.grow ⟨List.prefix_rfl, List.prefix_append _ _⟩ rfl (fun _ => Or.inl) kept.edits ?_
  refine Or.inr (needsReconciliation_iff.mpr ⟨?_, later⟩)
  simp [hasSource, PageWorld.createSourcedMemory]

structure Bumped (before after : PageWorld) : Prop where
  path : after.path = before.path
  edits : after.edits = before.edits
  rendered : after.row.renderedAt = before.row.renderedAt
  basis : after.row.basis.edits = before.row.basis.edits
  calls : after.calls = before.calls
  working : after.working = before.working
  kept : before.memories <+: after.memories
  drawn : ∀ memory ∈ before.row.basis.memories, memory ∈ after.row.basis.memories
  new : ∀ memory ∈ after.memories, memory ∈ before.memories ∨ memory ∈ after.row.basis.memories

theorem applyEditOp_bumped (now : Int) (op : PageEditMemoryOp) :
    world.Bumped (applyEditOp now world op) := by
  have inserted : world.Bumped (world.insertHumanMemory now) := by
    constructor <;> try rfl
    · exact List.prefix_append _ _
    · intro memory member
      exact List.mem_append_left _ member
    · intro memory member
      obtain old | new := List.mem_append.mp member
      · exact Or.inl old
      · exact Or.inr (List.mem_append_right _ new)
  cases op with
  | add kind content => exact inserted
  | supersede older kind content note => exact inserted
  | setDisposition memory disposition =>
      exact ⟨rfl, rfl, rfl, rfl, rfl, rfl, List.prefix_rfl, fun _ => id, fun _ => Or.inl⟩

theorem applyEditOp_updatedAt (now : Int) (op : PageEditMemoryOp) :
    (applyEditOp now world op).row.updatedAt = now := by
  cases op <;> rfl

theorem foldl_bumped (now : Int) (ops : List PageEditMemoryOp) :
    world.Bumped (ops.foldl (applyEditOp now) world) := by
  induction ops generalizing world with
  | nil => exact ⟨rfl, rfl, rfl, rfl, rfl, rfl, List.prefix_rfl, fun _ => id, fun _ => Or.inl⟩
  | cons op ops ih =>
      have first : world.Bumped (applyEditOp now world op) := applyEditOp_bumped now op
      have rest := @ih (applyEditOp now world op)
      refine ⟨rest.path.trans first.path, rest.edits.trans first.edits,
        rest.rendered.trans first.rendered, rest.basis.trans first.basis,
        rest.calls.trans first.calls, rest.working.trans first.working, first.kept.trans rest.kept,
        fun memory member => rest.drawn memory (first.drawn memory member), ?_⟩
      intro memory member
      obtain before | drawn := rest.new memory member
      · exact (first.new memory before).imp_right (rest.drawn memory)
      · exact Or.inr drawn

theorem foldl_updatedAt {now : Int} {ops : List PageEditMemoryOp} (changes : ops ≠ []) :
    (ops.foldl (applyEditOp now) world).row.updatedAt = now := by
  obtain ⟨init, last, rfl⟩ := List.eq_nil_or_concat' ops |>.resolve_left changes
  rw [List.foldl_append]
  exact applyEditOp_updatedAt now last

theorem foldl_memories {now : Int} {write : PageEditWrite} (attached : world.attached write = true)
    (changes : write.memoryOps ≠ []) :
    (write.memoryOps.foldl (applyEditOp now) world).memories ≠ [] := by
  cases ops : write.memoryOps with
  | nil => exact absurd ops changes
  | cons op rest =>
      have later : (applyEditOp now world op).Bumped (rest.foldl (applyEditOp now) _) :=
        foldl_bumped now rest
      have some : (applyEditOp now world op).memories ≠ [] := by
        cases op with
        | add kind content => simp [applyEditOp, insertHumanMemory, createSourcedMemory]
        | supersede older kind content note =>
            simp [applyEditOp, insertHumanMemory, createSourcedMemory]
        | setDisposition memory disposition =>
            simp only [PageWorld.attached, ops, List.all_cons, Bool.and_eq_true,
              PageEditMemoryOp.memoryId?, decide_eq_true_eq] at attached
            exact List.ne_nil_of_mem attached.1
      obtain ⟨memory, member⟩ := List.exists_mem_of_ne_nil _ some
      exact List.ne_nil_of_mem (later.kept.subset member)

theorem Kept.applyPageEdit (kept : world.Kept) {now : Int} {write : PageEditWrite}
    (attached : world.attached write = true)
    (timely : write.memoryOps = [] ∨ world.LaterThanRendering now ∨
      world.needsReconciliation = false) :
    (world.applyPageEdit now write).Kept := by
  have bumped : world.Bumped (write.memoryOps.foldl (applyEditOp now) world) :=
    foldl_bumped now write.memoryOps
  have grows : Grows world (world.applyPageEdit now write) :=
    ⟨by simp [PageWorld.applyPageEdit, bumped.edits], bumped.kept⟩
  refine kept.grow grows bumped.calls ?_ ?_ ?_
  · intro working here
    exact Or.inl (bumped.working ▸ here)
  · intro edit member
    simp only [PageWorld.applyPageEdit, List.mem_append, bumped.edits, bumped.basis] at member ⊢
    exact member.imp_left (kept.edits edit)
  · have covered (all : ∀ memory ∈ world.memories, memory ∈ world.row.basis.memories) :
        ∀ memory ∈ (world.applyPageEdit now write).memories,
          memory ∈ (world.applyPageEdit now write).row.basis.memories := by
      intro memory member
      obtain before | drawn := bumped.new memory member
      · exact bumped.drawn memory (all memory before)
      · exact drawn
    by_cases changes : write.memoryOps = []
    · refine kept.memories.imp covered fun needed => ?_
      simpa [PageWorld.applyPageEdit, changes, needsReconciliation, hasSource] using needed
    · obtain later | clean := timely.resolve_left changes
      · refine Or.inr (needsReconciliation_iff.mpr ⟨?_, ?_⟩)
        · simp [hasSource, PageWorld.applyPageEdit, foldl_memories attached changes]
        · simp only [PageWorld.applyPageEdit, bumped.rendered, foldl_updatedAt changes]
          exact later
      · exact Or.inl (covered (kept.memories.resolve_right (by simp [clean])))

end Facts

theorem Kept.step {sha256Hex : Text → Text} {action : PageAction} {next : PageWorld}
    (kept : world.Kept) (undisturbed : Undisturbed action world)
    (taken : pageStep sha256Hex action world = some next) : next.Kept := by
  have begun {id : Nat} {call : PageCall} (taken : world.begin id call = some next)
      (holds : world.Holds call) : next.Kept := by
    rw [PageWorld.begin] at taken
    split at taken
    next =>
      obtain rfl := Option.some.inj taken
      exact kept.goOn id holds
    next => simp at taken
  cases action with
  | author id => exact begun taken trivial
  | edit id now write => exact begun taken trivial
  | insert id now => exact begun taken trivial
  | openWorking existingOnly =>
      obtain rfl := Option.some.inj taken
      refine kept.grow (grows_of_same rfl rfl) rfl ?_ kept.edits kept.memories
      intro working here
      obtain rfl := Option.some.inj here
      exact Or.inr ⟨kept.taken_row.past, kept.taken_row.has⟩
  | nextPass =>
      obtain rfl := Option.some.inj taken
      exact kept.grow (grows_of_same rfl rfl) rfl (by simp) kept.edits kept.memories
  | turn id now answer =>
      change pageTurn sha256Hex world id now answer = some next at taken
      have returns {left : PageWorld} (returned : some (left.goOn id .idle) = some next)
          (kept : left.Kept) : next.Kept := by
        rw [← Option.some.inj returned]
        exact kept.goOn id trivial
      have timely (succeeds : answer.fails = false) : world.Timely (world.calls id) now := by
        simpa [Undisturbed, succeeds] using undisturbed
      have held := kept.calls id
      cases stage : world.calls id with
      | idle => simp [pageTurn, stage] at taken
      | authoring =>
          cases fails : answer.fails with
          | true =>
              simp only [pageTurn, stage, fails, if_true] at taken
              exact returns taken kept
          | false =>
              simp only [pageTurn, stage, fails, Bool.false_eq_true, if_false,
                Option.some.injEq] at taken
              rw [← taken]
              exact kept.goOn id kept.taken_view
      | entityRead page since =>
          rw [stage] at held
          cases fails : answer.fails with
          | true =>
              simp only [pageTurn, stage, fails, if_true, Option.some.injEq] at taken
              rw [← taken]
              exact kept.goOn id ⟨held, by simp [Listed]⟩
          | false =>
              simp only [pageTurn, stage, fails, Bool.false_eq_true, if_false,
                Option.some.injEq] at taken
              rw [← taken]
              exact kept.goOn id ⟨held, by simp [Listed]⟩
      | stateRead page memories since seen =>
          rw [stage] at held
          cases fails : answer.fails with
          | true =>
              simp only [pageTurn, stage, fails, if_true] at taken
              exact returns taken kept
          | false =>
              simp only [pageTurn, stage, fails, Bool.false_eq_true, if_false] at taken
              have timely := timely fails
              rw [stage] at timely
              exact returns taken (kept.commitAuthoredPage held.1 held.2 timely _)
      | editing stamp write =>
          cases fails : answer.fails with
          | true =>
              simp only [pageTurn, stage, fails, if_true] at taken
              exact returns taken kept
          | false =>
              simp only [pageTurn, stage, fails, Bool.false_eq_true, if_false] at taken
              refine returns taken ?_
              have timely := timely fails
              simp only [stage, Timely] at timely
              rw [tryCommitPageEdit]
              cases accepted : world.accepts write with
              | false => exact kept
              | true =>
                  have attached : world.attached write = true := by
                    simp only [accepts, Bool.and_eq_true] at accepted
                    exact accepted.2
                  simp only [accepted, Bool.true_eq_false, false_or] at timely
                  exact kept.applyPageEdit attached timely
      | inserting stamp =>
          cases fails : answer.fails with
          | true =>
              simp only [pageTurn, stage, fails, if_true] at taken
              exact returns taken kept
          | false =>
              simp only [pageTurn, stage, fails, Bool.false_eq_true, if_false] at taken
              have later := timely fails
              rw [stage] at later
              exact returns taken (kept.createSourcedMemory later)

/-- In every state of an undisturbed run each accepted change is in the article or to come. -/
theorem remembered_run (sha256Hex : Text → Text) (start last : PageWorld)
    (actions : List PageAction) (quiet : start.Quiet)
    (undisturbed : Machine.Guarded (pageStep sha256Hex) Undisturbed actions start)
    (reached : Machine.run (pageStep sha256Hex) actions start = some last) : last.Remembered :=
  Kept.remembered (Machine.invariant_run (pageStep sha256Hex) Undisturbed Kept
    (fun _ world _ held allowed taken => Kept.step world held allowed taken) actions start last
    quiet.kept undisturbed reached)

end PageWorld

section Runs

open PageWorld

def draftAnswer : Answer := ⟨false, "body".toList, "text".toList⟩

def adaPage : PageWorld where
  path := "people/ada".toList
  row :=
    { name := "Ada".toList, description := [], attributes := [], body := [], syncContent := none
      rev := some "old".toList, updatedAt := 1, renderedAt := 0, basis := ⟨[], []⟩ }
  working := none
  memories := [0]
  edits := []
  nextId := 1
  calls := fun _ => .idle

def proseEdit (head : Text) : PageEditWrite where
  base := .revision head
  newPageName := none
  body := "edited".toList
  content := "edited".toList
  rev := "edited".toList
  memoryOps := []

def pageTurnOf (id : Nat) (now : Int) : PageAction := .turn id now draftAnswer

def inTurn : List PageAction :=
  [.insert 1 2, pageTurnOf 1 3, .author 0, pageTurnOf 0 4, pageTurnOf 0 5, pageTurnOf 0 6,
    .edit 2 7 (proseEdit "text".toList), pageTurnOf 2 8]

def whileAuthoring : List PageAction :=
  [.author 0, pageTurnOf 0 2, pageTurnOf 0 3, .insert 1 4, pageTurnOf 1 5,
    .edit 2 6 (proseEdit "old".toList), pageTurnOf 2 7, pageTurnOf 0 8]

def afterPageActions (actions : List PageAction) : Option PageWorld :=
  Machine.run (pageStep id) actions adaPage

theorem remembered_inTurn :
    (afterPageActions inTurn).elim False PageWorld.Remembered := by
  cases ran : afterPageActions inTurn with
  | none =>
      have reached : (afterPageActions inTurn).isSome = true := by decide
      simp [ran] at reached
  | some last =>
      exact remembered_run id adaPage last inTurn
        ⟨fun _ => rfl, rfl, by decide, by decide⟩ (by decide) ran

theorem whileAuthoring_idle : ∀ id, (afterPageActions whileAuthoring).map
    (fun last => last.calls id) = some .idle
  | 0 => by decide
  | 1 => by decide
  | 2 => by decide
  | _ + 3 => rfl

theorem both_forgotten :
    ∃ last, Machine.run (pageStep id) whileAuthoring adaPage = some last ∧
      (∀ id, last.calls id = .idle) ∧ ¬ last.Remembered := by
  have idle := whileAuthoring_idle
  cases ran : afterPageActions whileAuthoring with
  | none => simpa [ran] using idle 0
  | some last =>
      refine ⟨last, ran, fun id => by simpa [ran] using idle id, fun remembered => ?_⟩
      have kept : (afterPageActions whileAuthoring).map
          (fun last => (last.memories, last.row.basis.memories)) = some ([0, 1], [0]) := by
        decide
      have clean : (afterPageActions whileAuthoring).map needsReconciliation = some false := by
        decide
      simp only [ran, Option.map_some, Option.some.injEq, Prod.mk.injEq] at kept clean
      have owed := remembered.memories 1 (by simp [kept.1])
      simp [kept.2, clean] at owed

end Runs

end Frona.Pkm
