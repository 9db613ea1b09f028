import VirtualClock.Proofs.Config.Layers
import VirtualClock.Proofs.LogFilter.Cuts

/-! How the check of a configuration ends. It yields the configuration, or what is wrong with it,
unless its log filter has a part that starts or ends within a character, whatever its other settings
are, and whatever engine reads the patterns of the filter; and so does loading. -/

namespace VirtualClock.Config

open LogFilter (Splits)
open LogFilter.Directive (Tears)

/-- The settings of layers, from the defaults up, denote `c`. -/
def Denote (layers : List (List (String × Value))) (c : Config) : Prop :=
  ofEntries? (layers.foldl Value.mergeEntries (toEntries {})) = some c

/-- Reading a file does not break off within a character; what is done with it may. -/
theorem fileLayer_bind_splits_iff (files : FileTree) (path : String)
    (k : List (String × Value) → Except ConfigError Config) :
    (fileLayer files path >>= k) = .error .splitsCharacter ↔
      ∃ layer, fileLayer files path = .ok layer ∧ k layer = .error .splitsCharacter := by
  have hne : fileLayer files path ≠ .error .splitsCharacter := by
    rw [fileLayer]
    split
    · simp
    · split <;> simp
  cases hread : fileLayer files path with
  | error e =>
    rw [hread] at hne
    refine iff_of_false (fun h => hne ?_) (by rintro ⟨layer, ⟨⟩, -⟩)
    cases h
    rfl
  | ok layer =>
    refine ⟨fun h => ⟨layer, rfl, h⟩, ?_⟩
    rintro ⟨_, ⟨⟩, h⟩
    exact h

section Check

variable [LogFilter.PatternEngine]

theorem logFilterProblems_splits_iff (text : String) :
    logFilterProblems text = .error .splitsCharacter ↔ Splits text := by
  rw [← LogFilter.ofString_splits_iff, logFilterProblems]
  split_ifs with hblank
  · refine iff_of_false (by simp) fun h => ?_
    exact ((LogFilter.ofString_splits_iff text).mp h).trim_ne_nil (List.isEmpty_iff.mp hblank)
  · cases LogFilter.ofString text with
    | ok f => simp
    | error e => cases e <;> simp

theorem logFilterProblems_ne_malformed (text : String) :
    logFilterProblems text ≠ .error .malformed := by
  rw [logFilterProblems]
  split_ifs
  · simp
  · split <;> simp

/-- The check yields the configuration or what is wrong with it, or it fails. -/
theorem check_cases (c : Config) :
    (c.check = .ok c ∨ ∃ problems, problems ≠ [] ∧ c.check = .error (.validation problems)) ∧
        ¬Splits c.telemetry.logFilter ∨
      c.check = .error .splitsCharacter ∧ Splits c.telemetry.logFilter := by
  have hsplits := logFilterProblems_splits_iff c.telemetry.logFilter
  cases hfilter : logFilterProblems c.telemetry.logFilter with
  | error e =>
    cases e with
    | malformed => exact absurd hfilter (logFilterProblems_ne_malformed _)
    | splitsCharacter =>
      refine .inr ⟨?_, hsplits.mp hfilter⟩
      rw [check, problems, hfilter]
      rfl
  | ok ps =>
    refine .inl ⟨?_, fun h => by cases hfilter.symm.trans (hsplits.mpr h)⟩
    rw [check_eq hfilter]
    split_ifs with hfine hwait
    · exact .inl rfl
    · refine .inr ⟨ps, fun hnil => hfine ⟨hwait, hnil⟩, rfl⟩
    · exact .inr ⟨_, List.cons_ne_nil _ _, rfl⟩

theorem check_splits_iff (c : Config) :
    c.check = .error .splitsCharacter ↔ Splits c.telemetry.logFilter := by
  obtain ⟨hok | ⟨problems, -, herr⟩, hnot⟩ | ⟨hcheck, h⟩ := check_cases c
  · rw [hok]
    exact iff_of_false (by simp) hnot
  · rw [herr]
    exact iff_of_false (by simp) hnot
  · exact iff_of_true hcheck h

theorem ofLayers_splits_iff (layers : List (List (String × Value))) :
    ofLayers layers = .error .splitsCharacter ↔
      ∃ c, Denote layers c ∧ Splits c.telemetry.logFilter := by
  rw [ofLayers]
  split
  · rename_i hnone
    refine iff_of_false (by simp) ?_
    rintro ⟨c, hc, -⟩
    cases hnone.symm.trans hc
  · rename_i c hc
    rw [check_splits_iff]
    refine ⟨fun h => ⟨c, hc, h⟩, ?_⟩
    rintro ⟨c', hc', h⟩
    cases hc.symm.trans hc'
    exact h

theorem load_splits_iff (files : FileTree) (env : Environment) :
    load files env = .error .splitsCharacter ↔
      ∃ base named c, fileLayer files baseFile = .ok base ∧
        fileLayer files (environmentFile env) = .ok named ∧
        Denote [base, named, environmentLayer env] c ∧ Splits c.telemetry.logFilter := by
  rw [load, fileLayer_bind_splits_iff]
  simp only [fileLayer_bind_splits_iff, ofLayers_splits_iff]
  simp only [exists_and_left]

theorem loadFrom_splits_iff (files : FileTree) (env : Environment) (path : String) :
    loadFrom files env path = .error .splitsCharacter ↔
      ∃ named c, files.exists? path ∧ fileLayer files path = .ok named ∧
        Denote [named, environmentLayer env] c ∧ Splits c.telemetry.logFilter := by
  cases hexists : files.exists? path with
  | false =>
    rw [loadFrom_missing hexists]
    exact iff_of_false (by simp) (by rintro ⟨named, c, ⟨⟩, -⟩)
  | true =>
    have hload : loadFrom files env path =
        fileLayer files path >>= fun named => ofLayers [named, environmentLayer env] := by
      rw [loadFrom, hexists]
      rfl
    rw [hload, fileLayer_bind_splits_iff]
    simp only [ofLayers_splits_iff, exists_and_left, true_and]

/-- The check of a configuration yields it, or what is wrong with it, if and only if its log filter
has no part that starts or ends within a character, whatever its other settings are. Loading breaks
off within a character if and only if the layers denote a configuration with such a filter,
whichever of them it comes from. Such a filter has a directive that starts with a blank and has a
character of several bytes. -/
theorem check_yields_iff (c : Config) (files : FileTree) (env : Environment) (path : String) :
    ((c.check = .ok c ∨ ∃ problems, problems ≠ [] ∧ c.check = .error (.validation problems)) ↔
      ¬Splits c.telemetry.logFilter) ∧
    (load files env = .error .splitsCharacter ↔
      ∃ base named c, fileLayer files baseFile = .ok base ∧
        fileLayer files (environmentFile env) = .ok named ∧
        Denote [base, named, environmentLayer env] c ∧ Splits c.telemetry.logFilter) ∧
    (loadFrom files env path = .error .splitsCharacter ↔
      ∃ named c, files.exists? path ∧ fileLayer files path = .ok named ∧
        Denote [named, environmentLayer env] c ∧ Splits c.telemetry.logFilter) ∧
    (Splits c.telemetry.logFilter → ∃ piece ∈ LogFilter.pieces c.telemetry.logFilter,
      (∃ x ∈ piece.toList.head?, Text.isBlank x = true) ∧ ∃ x ∈ piece.toList, 1 < x.utf8Size) := by
  refine ⟨?_, load_splits_iff files env, loadFrom_splits_iff files env path,
    LogFilter.Splits.blank_and_wide⟩
  obtain ⟨hyields, hnot⟩ | ⟨hcheck, h⟩ := check_cases c
  · exact iff_of_true hyields hnot
  · refine iff_of_false ?_ (not_not.mpr h)
    rw [hcheck]
    rintro (⟨⟨⟩⟩ | ⟨problems, -, ⟨⟩⟩)

end Check

/-- The two bytes of the letter are the third and the fourth of the filter, but the part in front of
the equals sign is taken to be its first three. -/
theorem check_blank_letter :
    let c : Config := { telemetry := { logFilter := " é=loud" } }
    c.check = .error .splitsCharacter ∧
      ¬(c.check = .ok c ∨ ∃ problems, c.check = .error (.validation problems)) := by
  intro c
  have hpieces : LogFilter.pieces " é=loud" = [" é=loud"] := by
    rw [LogFilter.pieces, show " é=loud".splitOn "," = [" é=loud"] from
      (Text.splitOn_eq " é=loud" ',').trans (by decide)]
    rfl
  have htears : Tears " é=loud".toList :=
    .within ['é'] '=' "loud".toList (.levelOrTarget 0) {} 0 (by decide) rfl rfl
      (.inr ⟨[' '], 'é', "=loud".toList, by decide, by decide, by decide⟩)
  have hcheck : c.check = .error .splitsCharacter :=
    (check_splits_iff c).mpr ⟨[], " é=loud", [], hpieces, by simp, htears⟩
  refine ⟨hcheck, ?_⟩
  rw [hcheck]
  rintro (⟨⟨⟩⟩ | ⟨problems, ⟨⟩⟩)

end VirtualClock.Config
