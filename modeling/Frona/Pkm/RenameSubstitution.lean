import Frona.Pkm.RenameLinks

set_option autoImplicit false

namespace Frona.Pkm

open Utf8 (Text stripPrefix)
open Frona.Text (trim)
open Moves (sequential simultaneous Ordered)
open Wikilink (BracketFree rewrite links)
open PkmSyncService (dirMoves occupiedTarget)

theorem VaultScope.directory_segment (vault : VaultScope) : '/' ∉ vault.directory := by
  have valid := vault.validated
  intro slash
  simp only [validateDirectory] at valid
  split at valid
  · simp at valid
  · rename_i clean
    have same : trim vault.directory = vault.directory := by simpa using valid
    rw [same] at clean
    exact clean (Or.inr (Or.inl slash))

section Links

variable (vault : VaultScope)

theorem relinkInner_of_fixed (f : Text → Text) (inner : Text)
    (fixed : f (vault.linkedPage inner) = vault.linkedPage inner) :
    vault.relinkInner f inner = inner := by
  have whole : linkTarget inner ++ linkSuffix inner = inner := List.takeWhile_append_dropWhile
  unfold VaultScope.relinkInner
  unfold VaultScope.linkedPage at fixed
  cases found : stripPrefix (vault.vaultPath []) (linkTarget inner) with
  | none =>
      simp only [found, Option.getD_none] at fixed ⊢
      rw [fixed, whole]
  | some page =>
      simp only [found, Option.getD_some] at fixed ⊢
      rw [fixed, ← (vault.strip_vaultPath _ _).mp found, whole]

theorem fixed_of_relinkInner (f : Text → Text) (inner : Text)
    (same : vault.relinkInner f inner = inner) :
    f (vault.linkedPage inner) = vault.linkedPage inner := by
  have whole : inner = linkTarget inner ++ linkSuffix inner :=
    List.takeWhile_append_dropWhile.symm
  unfold VaultScope.relinkInner at same
  unfold VaultScope.linkedPage
  cases found : stripPrefix (vault.vaultPath []) (linkTarget inner) with
  | none =>
      simp only [found] at same
      exact List.append_cancel_right (same.trans whole)
  | some page =>
      simp only [found] at same
      have target := (vault.strip_vaultPath _ _).mp found
      have cancelled := List.append_cancel_right (same.trans whole)
      rw [target] at cancelled
      simpa using (vault.vaultPath_inj _ _).mp cancelled

theorem strip_linkTarget (page : Text) (slash : '/' ∈ vault.linkedPage (vault.vaultPath page)) :
    ∃ named, stripPrefix (vault.vaultPath []) (linkTarget (vault.vaultPath page)) = some named := by
  cases found : stripPrefix (vault.vaultPath []) (linkTarget (vault.vaultPath page)) with
  | some named => exact ⟨named, rfl⟩
  | none =>
      exfalso
      simp only [VaultScope.linkedPage, found, Option.getD_none] at slash
      have whole : linkTarget (vault.vaultPath page) ++ linkSuffix (vault.vaultPath page) =
          vault.directory ++ '/' :: page := List.takeWhile_append_dropWhile
      cases List.append_eq_append_iff.mp whole with
      | inl short =>
          obtain ⟨tail, directory, _⟩ := short
          exact vault.directory_segment (by rw [directory]; simp [slash])
      | inr long =>
          obtain ⟨tail, directory, rest⟩ := long
          cases tail with
          | nil =>
              rw [directory, List.append_nil] at slash
              exact vault.directory_segment slash
          | cons c tail =>
              obtain rfl : '/' = c := (List.cons.inj rest).1
              have : stripPrefix (vault.vaultPath []) (linkTarget (vault.vaultPath page)) =
                  some tail := (vault.strip_vaultPath _ _).mpr directory
              rw [found] at this
              simp at this

variable (source target : Text) (db : Database)

theorem linkSteps_eq_relinkInner (away : source ≠ target) (unique : db.paths.Nodup)
    (ordered : Ordered (dirMoves source target db)) (kept : List (Text × Text))
    (some_of : kept.Sublist (dirMoves source target db)) (inner : Text) :
    vault.linkSteps kept inner = vault.relinkInner (simultaneous (dirMoves source target db)) inner ↔
      (vault.linkedPage inner ∈ (dirMoves source target db).map Prod.fst ↔
        ∃ move ∈ kept, inner = vault.vaultPath move.1) := by
  have sources := dirMoves_sources source target db unique
  have steps (page : Text) : sequential kept page = simultaneous kept page :=
    Moves.sequential_eq kept (ordered.sublist some_of) page
  by_cases plain : ∃ move ∈ kept, inner = vault.vaultPath move.1
  · obtain ⟨⟨old, new⟩, member, rfl⟩ := plain
    obtain ⟨_, rest, rfl, rfl⟩ := (mem_dirMoves source target db old new).mp (some_of.subset member)
    have followed : vault.linkSteps kept (vault.vaultPath (source ++ '/' :: rest)) =
        vault.vaultPath (target ++ '/' :: rest) := by
      rw [vault.linkSteps_eq, (vault.strip_vaultPath _ _).mpr rfl]
      simp only [steps]
      rw [Moves.simultaneous_moved kept (sources.sublist (some_of.map _)) _ _ member]
    have right : ∃ move ∈ kept, vault.vaultPath (source ++ '/' :: rest) = vault.vaultPath move.1 :=
      ⟨_, member, rfl⟩
    simp only [followed, right, iff_true]
    by_cases moving : vault.linkedPage (vault.vaultPath (source ++ '/' :: rest)) ∈
        (dirMoves source target db).map Prod.fst
    · -- The suffix of the link is the end of the page's own path.
      simp only [moving, iff_true]
      obtain ⟨⟨page, new⟩, moved, same⟩ := List.mem_map.mp moving
      obtain ⟨_, rest', page_eq, new_eq⟩ := (mem_dirMoves source target db page new).mp moved
      obtain ⟨named, found⟩ := strip_linkTarget vault (source ++ '/' :: rest) (by
        rw [← same, page_eq]
        simp)
      obtain rfl : page = named := by
        simpa [VaultScope.linkedPage, found] using same
      have whole := (vault.strip_vaultPath _ _).mp found
      have joined : vault.vaultPath (source ++ '/' :: rest) =
          vault.vaultPath (page ++ linkSuffix (vault.vaultPath (source ++ '/' :: rest))) := by
        rw [vault.vaultPath_append page, ← whole]
        exact List.takeWhile_append_dropWhile.symm
      have tail := (vault.vaultPath_inj _ _).mp joined
      rw [page_eq] at tail
      have ends : rest = rest' ++ linkSuffix (vault.vaultPath (source ++ '/' :: rest)) := by
        simpa using tail
      simp only [VaultScope.relinkInner, found]
      rw [Moves.simultaneous_moved _ sources page new moved, new_eq, ← vault.vaultPath_append]
      congr 1
      conv_lhs => rw [ends]
      simp
    · simp only [moving, iff_false]
      have fixed := relinkInner_of_fixed vault (simultaneous (dirMoves source target db))
        (vault.vaultPath (source ++ '/' :: rest))
        (Moves.simultaneous_unmoved _ _ fun move member same =>
          moving (List.mem_map.mpr ⟨move, member, same⟩))
      rw [fixed, vault.vaultPath_inj]
      intro same
      exact away (List.append_cancel_right same).symm
  · have followed : vault.linkSteps kept inner = inner := by
      rw [vault.linkSteps_eq]
      split
      next page found =>
        obtain rfl := (vault.strip_vaultPath _ _).mp found
        rw [Moves.sequential_unmoved]
        intro move member same
        exact plain ⟨move, member, by rw [same]⟩
      next => rfl
    simp only [followed, plain, iff_false]
    by_cases moving : vault.linkedPage inner ∈ (dirMoves source target db).map Prod.fst
    · simp only [moving, not_true, iff_false]
      intro same
      have fixed := fixed_of_relinkInner vault _ inner same.symm
      obtain ⟨⟨old, new⟩, moved, here⟩ := List.mem_map.mp moving
      rw [← here, Moves.simultaneous_moved _ sources old new moved] at fixed
      obtain ⟨_, rest, rfl, rfl⟩ := (mem_dirMoves source target db old new).mp moved
      exact away (List.append_cancel_right fixed).symm
    · simp only [moving, not_false_iff, iff_true]
      exact (relinkInner_of_fixed vault _ inner
        (Moves.simultaneous_unmoved _ _ fun move member same =>
          moving (List.mem_map.mpr ⟨move, member, same⟩))).symm

end Links

end Frona.Pkm
