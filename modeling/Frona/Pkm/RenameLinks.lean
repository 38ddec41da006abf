import Frona.Pkm.RenameRows

set_option autoImplicit false

namespace Frona.Pkm

open Utf8 (Text stripPrefix stripPrefix_eq_some)
open Moves (sequential simultaneous Ordered)
open Wikilink (BracketFree linkText rewrite links)

-- A wikilink is a target, then a fragment and a label: `[[target#fragment|label]]`.
def isTarget (c : Char) : Bool := c != '#' && c != '|'

def linkTarget (inner : Text) : Text := inner.takeWhile isTarget

def linkSuffix (inner : Text) : Text := inner.dropWhile isTarget

namespace VaultScope

variable (vault : VaultScope)

def linkedPage (inner : Text) : Text :=
  (stripPrefix (vault.vaultPath []) (linkTarget inner)).getD (linkTarget inner)

def relinkInner (f : Text → Text) (inner : Text) : Text :=
  match stripPrefix (vault.vaultPath []) (linkTarget inner) with
  | some page => vault.vaultPath (f page) ++ linkSuffix inner
  | none => f (linkTarget inner) ++ linkSuffix inner

def relinked (f : Text → Text) (content : Text) : Text := rewrite (vault.relinkInner f) content

theorem vaultPath_append (page rest : Text) :
    vault.vaultPath (page ++ rest) = vault.vaultPath page ++ rest := by
  simp [vaultPath]

theorem vaultPath_inj (page page' : Text) :
    vault.vaultPath page = vault.vaultPath page' ↔ page = page' := by
  simp [vaultPath]

theorem strip_vaultPath (text page : Text) :
    stripPrefix (vault.vaultPath []) text = some page ↔ text = vault.vaultPath page := by
  rw [stripPrefix_eq_some]
  simp [vaultPath]

theorem vaultPath_free (directory : BracketFree vault.directory) (page : Text) :
    BracketFree (vault.vaultPath page) ↔ BracketFree page := by
  simp only [BracketFree, vaultPath, List.mem_append, List.mem_cons]
  constructor
  · intro free c member
    exact free c (Or.inr (Or.inr member))
  · rintro free c (member | rfl | member)
    · exact directory c member
    · rfl
    · exact free c member

def linkStep (move : Text × Text) (inner : Text) : Text :=
  if inner = vault.vaultPath move.1 then vault.vaultPath move.2 else inner

def linkSteps (moves : List (Text × Text)) (inner : Text) : Text :=
  moves.foldl (fun inner move => vault.linkStep move inner) inner

theorem linkSteps_eq (moves : List (Text × Text)) (inner : Text) :
    vault.linkSteps moves inner =
      match stripPrefix (vault.vaultPath []) inner with
      | some page => vault.vaultPath (sequential moves page)
      | none => inner := by
  induction moves generalizing inner with
  | nil =>
      cases found : stripPrefix (vault.vaultPath []) inner with
      | none => rfl
      | some page => simpa [linkSteps, sequential] using (vault.strip_vaultPath inner page).mp found
  | cons move rest ih =>
      change vault.linkSteps rest (vault.linkStep move inner) = _
      rw [ih]
      cases found : stripPrefix (vault.vaultPath []) inner with
      | none =>
          have other : inner ≠ vault.vaultPath move.1 := by
            intro same
            rw [(vault.strip_vaultPath inner move.1).mpr same] at found
            simp at found
          simp [linkStep, other, found]
      | some page =>
          obtain rfl := (vault.strip_vaultPath inner page).mp found
          have step : vault.linkStep move (vault.vaultPath page) =
              vault.vaultPath (if page = move.1 then move.2 else page) := by
            by_cases same : page = move.1 <;> simp [linkStep, vaultPath_inj, same]
          rw [step, (vault.strip_vaultPath _ _).mpr rfl]
          rfl

theorem linkStep_idem (move : Text × Text) : vault.linkStep move ∘ vault.linkStep move =
    vault.linkStep move := by
  funext inner
  by_cases same : inner = vault.vaultPath move.1 <;> simp [linkStep, same]

/-- A move whose links are links before and after: no bracket stands in one. -/
structure Plain (move : Text × Text) : Prop where
  directory : BracketFree vault.directory
  source : BracketFree move.1
  target : BracketFree move.2

theorem linkStep_free (move : Text × Text) (plain : vault.Plain move) (inner : Text)
    (free : BracketFree inner) : BracketFree (vault.linkStep move inner) := by
  unfold linkStep
  split
  · exact (vault.vaultPath_free plain.directory _).mpr plain.target
  · exact free

theorem linkSteps_free (moves : List (Text × Text)) (plain : ∀ move ∈ moves, vault.Plain move)
    (inner : Text) (free : BracketFree inner) : BracketFree (vault.linkSteps moves inner) := by
  induction moves generalizing inner with
  | nil => exact free
  | cons move rest ih =>
      exact ih (fun later member => plain later (by simp [member])) _
        (vault.linkStep_free move (plain move (by simp)) inner free)

theorem linkSteps_append (before after : List (Text × Text)) :
    vault.linkSteps (before ++ after) = vault.linkSteps after ∘ vault.linkSteps before := by
  funext inner
  simp [linkSteps]

theorem relinkInner_free (f : Text → Text) (inner : Text) (free : BracketFree inner)
    (keeps : BracketFree (f (vault.linkedPage inner))) : BracketFree (vault.relinkInner f inner) := by
  have target : BracketFree (linkTarget inner) := fun c member =>
    free c (List.takeWhile_subset _ member)
  have suffix : BracketFree (linkSuffix inner) := fun c member =>
    free c ((List.dropWhile_suffix _).subset member)
  have joined (page : Text) (page_free : BracketFree page) :
      BracketFree (page ++ linkSuffix inner) := by
    intro c member
    cases List.mem_append.mp member with
    | inl left => exact page_free c left
    | inr right => exact suffix c right
  unfold relinkInner
  unfold linkedPage at keeps
  cases found : stripPrefix (vault.vaultPath []) (linkTarget inner) with
  | some page =>
      have whole := (vault.strip_vaultPath _ _).mp found
      rw [found, Option.getD_some] at keeps
      refine joined _ fun c member => ?_
      have directory : ∀ c ∈ vault.directory, Wikilink.isPlain c = true := fun c member =>
        target c (by rw [whole]; exact List.mem_append_left _ member)
      exact (vault.vaultPath_free directory _).mpr keeps c member
  | none =>
      rw [found, Option.getD_none] at keeps
      exact joined _ keeps

theorem rewritten_eq (content : Text) (move : Text × Text) (plain : vault.Plain move) :
    vault.rewritten content move.1 move.2 = rewrite (vault.linkStep move) content :=
  Wikilink.replace_linkText _ _ ((vault.vaultPath_free plain.directory _).mpr plain.source) content

theorem relinkedFile_at (env : Environment) (page source target : Text) (files : Files)
    (key : FileKey) :
    vault.relinkedFile env page source target files key =
      if env.accepts key = true ∧ vault.names page key then (files key).map fun content =>
        vault.rewritten content source target
      else files key := by
  cases named : vault.pageKey page with
  | error error => simp [relinkedFile, names, named]
  | ok key' =>
      by_cases same : key' = key
      · subst same
        cases accepted : env.accepts key' <;> simp [relinkedFile, names, named, accepted]
      · cases accepted : env.accepts key' <;>
          simp [relinkedFile, names, named, accepted, same, Ne.symm same]

theorem relinkedFiles_cons (env : Environment) (linker : Text) (linkers : List Text)
    (source target : Text) (files : Files) :
    vault.relinkedFiles env (linker :: linkers) source target files =
      vault.relinkedFiles env linkers source target
        (vault.relinkedFile env linker source target files) := rfl

theorem relinkedAll_cons (env : Environment) (db : Database) (move : Text × Text)
    (rest : List (Text × Text)) (files : Files) :
    vault.relinkedAll env db (move :: rest) files = vault.relinkedAll env db rest
      (vault.relinkedFiles env (db.entitiesLinkingTo move.2) move.1 move.2 files) := rfl

theorem relinkedFiles_at (env : Environment) (linkers : List Text) (source target : Text)
    (files : Files) (key : FileKey) (content : Text)
    (once : vault.rewritten (vault.rewritten content source target) source target =
      vault.rewritten content source target) (stored : files key = some content) :
    vault.relinkedFiles env linkers source target files key =
      some (if env.accepts key = true ∧ ∃ linker ∈ linkers, vault.names linker key then
        vault.rewritten content source target else content) := by
  have settled (linkers : List Text) (files : Files)
      (stored : files key = some (vault.rewritten content source target)) :
      vault.relinkedFiles env linkers source target files key =
        some (vault.rewritten content source target) := by
    induction linkers generalizing files with
    | nil => exact stored
    | cons linker linkers ih =>
        rw [relinkedFiles_cons]
        exact ih _ (by rw [relinkedFile_at, stored, Option.map_some, once, ite_self])
  induction linkers generalizing files with
  | nil => simpa [relinkedFiles] using stored
  | cons linker linkers ih =>
      rw [relinkedFiles_cons]
      by_cases here : env.accepts key = true ∧ vault.names linker key
      · rw [settled, if_pos ⟨here.1, linker, by simp, here.2⟩]
        rw [relinkedFile_at, if_pos here, stored, Option.map_some]
      · rw [ih _ (by rw [relinkedFile_at, if_neg here, stored])]
        congr 2
        apply propext
        apply and_congr_right
        intro accepted
        have other : ¬vault.names linker key := fun named => here ⟨accepted, named⟩
        simp [other]

theorem relinkedFiles_passed (env : Environment) (linkers : List Text) (source target : Text)
    (files : Files) (key : FileKey)
    (passed : ¬(env.accepts key = true ∧ ∃ linker ∈ linkers, vault.names linker key)) :
    vault.relinkedFiles env linkers source target files key = files key := by
  induction linkers generalizing files with
  | nil => rfl
  | cons linker linkers ih =>
      rw [relinkedFiles_cons, ih _ fun later => passed ⟨later.1, later.2.imp fun other found => ⟨by simp [found.1], found.2⟩⟩,
        relinkedFile_at, if_neg fun here => passed ⟨here.1, linker, by simp, here.2⟩]

def followed (env : Environment) (db : Database) (moves : List (Text × Text)) (key : FileKey) :
    List (Text × Text) :=
  moves.filter fun move =>
    env.accepts key = true ∧ ∃ linker ∈ db.entitiesLinkingTo move.2, vault.names linker key

def Unread (moves : List (Text × Text)) (content : Text) (move : Text × Text) : Prop :=
  ∀ kept : List (Text × Text), kept.Sublist moves →
    ¬linkText (vault.vaultPath move.1) <:+: rewrite (vault.linkSteps kept) content

theorem relinkedAll_at (env : Environment) (db : Database) (all moves done : List (Text × Text))
    (key : FileKey) (content : Text) (some_of : (done ++ moves).Sublist all)
    (plain : ∀ move ∈ done, vault.Plain move)
    (read : ∀ move ∈ vault.followed env db moves key, vault.Plain move ∨ vault.Unread all content move)
    (files : Files) (stored : files key = some (rewrite (vault.linkSteps done) content)) :
    ∃ kept : List (Text × Text), kept.Sublist (vault.followed env db moves key) ∧
      (∀ move ∈ kept, vault.Plain move) ∧
      (∀ move ∈ vault.followed env db moves key, move ∈ kept ∨ vault.Unread all content move) ∧
      vault.relinkedAll env db moves files key =
        some (rewrite (vault.linkSteps (done ++ kept)) content) := by
  induction moves generalizing done files with
  | nil => exact ⟨[], List.Sublist.refl _, by simp, by simp [followed], by simpa [relinkedAll] using stored⟩
  | cons move rest ih =>
      have later : (done ++ rest).Sublist all :=
        (List.Sublist.append_left (List.sublist_cons_self move rest) done).trans some_of
      have next := vault.relinkedAll_cons env db move rest files
      -- The file as it is once this move is made in it, when it is one that the file is read for.
      by_cases reads : env.accepts key = true ∧
          ∃ linker ∈ db.entitiesLinkingTo move.2, vault.names linker key
      · have here : vault.followed env db (move :: rest) key =
            move :: vault.followed env db rest key := by
          rw [followed, List.filter_cons_of_pos (by simpa using reads)]
          rfl
        rw [here] at read ⊢
        by_cases safe : vault.Plain move
        · have keeps (text : Text) : ∀ inner ∈ links text, BracketFree (vault.linkStep move inner) :=
            fun inner member => vault.linkStep_free move safe inner (Wikilink.links_free _ _ member)
          have free : ∀ inner ∈ links content, BracketFree (vault.linkSteps done inner) :=
            fun inner member => vault.linkSteps_free done plain inner (Wikilink.links_free _ _ member)
          have made := vault.relinkedFiles_at env (db.entitiesLinkingTo move.2) move.1 move.2 files key
            _ (by
              rw [vault.rewritten_eq _ move safe, vault.rewritten_eq _ move safe,
                Wikilink.rewrite_rewrite _ _ _ (keeps _), linkStep_idem]) stored
          rw [if_pos reads, vault.rewritten_eq _ move safe,
            Wikilink.rewrite_rewrite _ _ _ free] at made
          have joined : vault.linkStep move ∘ vault.linkSteps done =
              vault.linkSteps (done ++ [move]) := (vault.linkSteps_append done [move]).symm
          rw [joined] at made
          obtain ⟨kept, some_kept, kept_plain, kept_all, ends⟩ := ih (done ++ [move])
            (by simpa using some_of)
            (fun other member => by
              cases List.mem_append.mp member with
              | inl before => exact plain other before
              | inr last => exact List.mem_singleton.mp last ▸ safe)
            (fun other member => read other (List.mem_cons_of_mem _ member)) _ made
          refine ⟨move :: kept, some_kept.cons_cons move, ?_, ?_, ?_⟩
          · simpa [safe] using kept_plain
          · intro other member
            cases List.mem_cons.mp member with
            | inl same => exact .inl (same ▸ List.mem_cons_self)
            | inr deeper => exact (kept_all other deeper).imp_left (List.mem_cons_of_mem _)
          · rw [next, ends, List.append_assoc, List.singleton_append]
        · have unread := (read move (by simp)).resolve_left safe
          have absent : vault.rewritten (rewrite (vault.linkSteps done) content) move.1 move.2 =
              rewrite (vault.linkSteps done) content :=
            Wikilink.replace_absent _ _ _
              (unread done ((List.sublist_append_left done _).trans some_of))
          have made := vault.relinkedFiles_at env (db.entitiesLinkingTo move.2) move.1 move.2 files key
            _ (by rw [absent, absent]) stored
          rw [if_pos reads, absent] at made
          obtain ⟨kept, some_kept, kept_plain, kept_all, ends⟩ := ih done later plain
            (fun other member => read other (List.mem_cons_of_mem _ member)) _ made
          refine ⟨kept, some_kept.cons move, kept_plain, ?_, by rw [next, ends]⟩
          intro other member
          cases List.mem_cons.mp member with
          | inl same => exact .inr (same ▸ unread)
          | inr deeper => exact kept_all other deeper
      · have here : vault.followed env db (move :: rest) key = vault.followed env db rest key := by
          rw [followed, List.filter_cons_of_neg (by simpa using reads)]
          rfl
        rw [here] at read ⊢
        have made : vault.relinkedFiles env (db.entitiesLinkingTo move.2) move.1 move.2 files key =
            some (rewrite (vault.linkSteps done) content) := by
          rw [vault.relinkedFiles_passed env _ move.1 move.2 files key reads, stored]
        obtain ⟨kept, some_kept, kept_plain, kept_all, ends⟩ := ih done later plain read _ made
        exact ⟨kept, some_kept, kept_plain, kept_all, by rw [next, ends]⟩

theorem relinkedAll_still (env : Environment) (db : Database) (moves : List (Text × Text))
    (still : ∀ move ∈ moves, move.1 = move.2) (files : Files) :
    vault.relinkedAll env db moves files = files := by
  have same (content page : Text) : vault.rewritten content page page = content :=
    Wikilink.replace_self content _ (by simp [linkText])
  have linked (linkers : List Text) (page : Text) (files : Files) :
      vault.relinkedFiles env linkers page page files = files := by
    induction linkers generalizing files with
    | nil => rfl
    | cons linker linkers ih =>
        have here : vault.relinkedFile env linker page page files = files := by
          funext key
          simp [relinkedFile_at, same]
        rw [relinkedFiles_cons, here, ih]
  induction moves generalizing files with
  | nil => rfl
  | cons move rest ih =>
      rw [relinkedAll_cons, still move (by simp), linked, ih fun later member => still later (by simp [member])]

end VaultScope

end Frona.Pkm
