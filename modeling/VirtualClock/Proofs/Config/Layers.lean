import Mathlib
import VirtualClock.LogFilter.Pattern
import VirtualClock.Proofs.Config.Sources

/-! The configuration that layers of settings make. Each of the four settings is settled by the
values that the layers give to it, and by nothing else; the last of them counts, and only a table is
laid over the table below it. Fixed texts are read by `cbv`, which has the equations of characters
from the whole library. -/

namespace VirtualClock.Config

open Value

/-- The values that a setting is given: by the defaults, by layers of files, and by the environment
variables. -/
def given (files : List (List (String × Value))) (env : Environment) (section_ field : String) :
    List (Option Value) :=
  setting? section_ field (toEntries {}) :: files.map (setting? section_ field) ++
    [stack (env.map (ofVariable? section_ field))]

/-- A layer in which the sections of the configuration, as far as they are there, are tables. -/
def Mappings (layer : List (String × Value)) : Prop :=
  ∀ section_ ∈ ["clock", "telemetry"], ∀ v ∈ lookup section_ layer, ∃ entries, v = .table entries

/-- No environment variable is for a section as a whole. -/
def NoSections (env : Environment) : Prop :=
  ∀ var ∈ env, ∀ section_ ∈ ["clock", "telemetry"], settingPath? var.1 ≠ some [section_]

theorem setting?_layers {files : List (List (String × Value))} {env : Environment}
    {section_ : String}
    (hfiles : ∀ layer ∈ files, Sectioned section_ layer)
    (henv : ∀ var ∈ env, settingPath? var.1 ≠ some [section_])
    (hdefault : Sectioned section_ (toEntries {})) :
    let merged := (files ++ [environmentLayer env]).foldl mergeEntries (toEntries {})
    Sectioned section_ merged ∧
      ∀ field, setting? section_ field merged = stack (given files env section_ field) := by
  obtain ⟨hlayer, hsetting⟩ := setting?_environmentLayer henv
  have hlayers : ∀ layer ∈ toEntries {} :: (files ++ [environmentLayer env]),
      Sectioned section_ layer := by
    intro layer hmem
    simp only [List.mem_cons, List.mem_append, List.not_mem_nil, or_false] at hmem
    obtain rfl | hfile | rfl := hmem
    · exact hdefault
    · exact hfiles layer hfile
    · exact hlayer
  obtain ⟨hmerged, hstack⟩ := Sectioned.foldl hlayers
  refine ⟨hmerged, fun field => (hstack field).trans ?_⟩
  rw [List.map_cons, List.map_append, List.map_singleton, hsetting, given]
  rfl

theorem sectioned_defaults {section_ : String} (h : section_ ∈ ["clock", "telemetry"]) :
    Sectioned section_ (toEntries {}) := by
  refine ⟨by unfold Distinct; decide, fun v hv => ?_⟩
  obtain rfl | rfl : section_ = "clock" ∨ section_ = "telemetry" := by simpa using h
  · cases hv
    exact ⟨_, rfl, by unfold Distinct; decide⟩
  · cases hv
    exact ⟨_, rfl, by unfold Distinct; decide⟩

theorem lookup_of_setting? {section_ field : String} {layer : List (String × Value)} {v : Value}
    (h : setting? section_ field layer = some v) :
    ∃ entries, lookup section_ layer = some (.table entries) ∧ lookup field entries = some v := by
  unfold setting? at h
  split at h
  · rename_i entries hlookup
    exact ⟨entries, hlookup, h⟩
  · cases h

/-- The clock settings of a section that has both of them. -/
theorem field?_clock {layer : List (String × Value)} {guard wait : Value}
    (hguard : setting? "clock" "guard" layer = some guard)
    (hwait : setting? "clock" "wait_timeout_ms" layer = some wait) :
    field? {} clock? (lookup "clock" layer) =
      (guard? guard).bind fun g => (unsigned64? wait).map fun w => ⟨g, w⟩ := by
  obtain ⟨entries, hlookup, hg⟩ := lookup_of_setting? hguard
  obtain ⟨_, hlookup', hw⟩ := lookup_of_setting? hwait
  cases hlookup.symm.trans hlookup'
  rw [hlookup, field?, clock?, fields?, List.map_cons, List.map_singleton, hg, hw]
  show ((guard? guard).bind fun g =>
    (unsigned64? wait).bind fun w => some (⟨g, w⟩ : ClockConfig)) = _
  cases guard? guard <;> cases unsigned64? wait <;> rfl

/-- The telemetry settings of a section that has both of them. -/
theorem field?_telemetry {layer : List (String × Value)} {filter metrics : Value}
    (hfilter : setting? "telemetry" "log_filter" layer = some filter)
    (hmetrics : setting? "telemetry" "metrics" layer = some metrics) :
    field? {} telemetry? (lookup "telemetry" layer) =
      (str? filter).bind fun f => (bool? metrics).map fun m => ⟨f, m⟩ := by
  obtain ⟨entries, hlookup, hf⟩ := lookup_of_setting? hfilter
  obtain ⟨_, hlookup', hm⟩ := lookup_of_setting? hmetrics
  cases hlookup.symm.trans hlookup'
  rw [hlookup, field?, telemetry?, fields?, List.map_cons, List.map_singleton, hf, hm]
  show ((str? filter).bind fun f =>
    (bool? metrics).bind fun m => some (⟨f, m⟩ : TelemetryConfig)) = _
  cases str? filter <;> cases bool? metrics <;> rfl

/-- Each setting is read from what it is given. -/
theorem ofEntries?_eq {layer : List (String × Value)} {guard wait filter metrics : Value}
    (hguard : setting? "clock" "guard" layer = some guard)
    (hwait : setting? "clock" "wait_timeout_ms" layer = some wait)
    (hfilter : setting? "telemetry" "log_filter" layer = some filter)
    (hmetrics : setting? "telemetry" "metrics" layer = some metrics) :
    ofEntries? layer = (guard? guard).bind fun g => (unsigned64? wait).bind fun w =>
      (str? filter).bind fun f => (bool? metrics).map fun m => ⟨⟨g, w⟩, ⟨f, m⟩⟩ := by
  have hread : ofEntries? layer = (field? {} clock? (lookup "clock" layer)).bind fun c =>
      (field? {} telemetry? (lookup "telemetry" layer)).bind fun t => some ⟨c, t⟩ := rfl
  rw [hread, field?_clock hguard hwait, field?_telemetry hfilter hmetrics]
  cases guard? guard <;> cases unsigned64? wait <;> cases str? filter <;> cases bool? metrics <;>
    rfl

theorem Mappings.sectioned {files : FileTree} {path : String} {layer : List (String × Value)}
    (h : Mappings layer) (hread : fileLayer files path = .ok layer) :
    ∀ section_ ∈ ["clock", "telemetry"], Sectioned section_ layer :=
  fun section_ hsection => sectioned_fileLayer hread (h section_ hsection)

section Check

variable [LogFilter.PatternEngine]

/-- A checked configuration is the one that was checked. -/
theorem check_eq {c : Config} {problems : List Problem}
    (h : logFilterProblems c.telemetry.logFilter = .ok problems) :
    c.check =
      if (1 ≤ c.clock.waitTimeout ∧ c.clock.waitTimeout ≤ 600000) ∧ problems = [] then .ok c
      else .error (.validation ((if 1 ≤ c.clock.waitTimeout ∧ c.clock.waitTimeout ≤ 600000 then []
        else [.waitTimeout]) ++ problems)) := by
  have hproblems : c.problems = .ok ((if 1 ≤ c.clock.waitTimeout ∧ c.clock.waitTimeout ≤ 600000
      then [] else [.waitTimeout]) ++ problems) := by
    rw [Config.problems, h]
    rfl
  rw [check, hproblems]
  by_cases hwait : 1 ≤ c.clock.waitTimeout ∧ c.clock.waitTimeout ≤ 600000
  · rw [if_pos hwait, List.nil_append]
    cases problems with
    | nil => rw [if_pos ⟨hwait, rfl⟩]
    | cons p ps => rw [if_neg fun h => by cases h.2]
  · rw [if_neg hwait, if_neg fun h => hwait h.1]
    rfl

theorem check_ne_parsing (c : Config) : c.check ≠ .error .parsing := by
  unfold check
  split <;> simp

/-- What becomes of the values that the four settings are given. Only the guard can be read from a
table. -/
structure Makes (values : String → String → List (Option Value)) (r : Except ConfigError Config) :
    Prop where
  parsing_iff : r = .error .parsing ↔
    (stack (values "clock" "guard")).bind guard? = none ∨
    (last? (values "clock" "wait_timeout_ms")).bind unsigned64? = none ∨
    (last? (values "telemetry" "log_filter")).bind str? = none ∨
    (last? (values "telemetry" "metrics")).bind bool? = none
  eq_of_read : ∀ guard wait filter metrics problems,
    (stack (values "clock" "guard")).bind guard? = some guard →
    (last? (values "clock" "wait_timeout_ms")).bind unsigned64? = some wait →
    (last? (values "telemetry" "log_filter")).bind str? = some filter →
    (last? (values "telemetry" "metrics")).bind bool? = some metrics →
    logFilterProblems filter = .ok problems →
    r = if (1 ≤ wait ∧ wait ≤ 600000) ∧ problems = [] then .ok ⟨⟨guard, wait⟩, ⟨filter, metrics⟩⟩
      else .error (.validation
        ((if 1 ≤ wait ∧ wait ≤ 600000 then [] else [.waitTimeout]) ++ problems))

theorem makes_ofLayers {files : List (List (String × Value))} {env : Environment}
    (hfiles : ∀ section_ ∈ ["clock", "telemetry"], ∀ layer ∈ files, Sectioned section_ layer)
    (henv : NoSections env) :
    Makes (given files env) (ofLayers (files ++ [environmentLayer env])) := by
  let merged := (files ++ [environmentLayer env]).foldl mergeEntries (toEntries {})
  have hsetting (section_ : String) (hsection : section_ ∈ ["clock", "telemetry"])
      (field : String) {v : Value} (hv : setting? section_ field (toEntries {}) = some v) :
      ∃ w, setting? section_ field merged = some w ∧
        stack (given files env section_ field) = some w := by
    obtain ⟨-, hstack⟩ := setting?_layers (hfiles section_ hsection)
      (fun var hvar => henv var hvar section_ hsection) (sectioned_defaults hsection)
    have hgiven : some v ∈ given files env section_ field := by
      rw [given, hv]
      exact List.mem_cons_self
    obtain ⟨w, hw⟩ := exists_stack hgiven
    exact ⟨w, (hstack field).trans hw, hw⟩
  obtain ⟨guard, hguard, hguard'⟩ := hsetting "clock" (by simp) "guard" rfl
  obtain ⟨wait, hwait, hwait'⟩ := hsetting "clock" (by simp) "wait_timeout_ms" rfl
  obtain ⟨filter, hfilter, hfilter'⟩ := hsetting "telemetry" (by simp) "log_filter" rfl
  obtain ⟨metrics, hmetrics, hmetrics'⟩ := hsetting "telemetry" (by simp) "metrics" rfl
  have hof := ofEntries?_eq hguard hwait hfilter hmetrics
  have hresult : ofLayers (files ++ [environmentLayer env]) =
      (ofEntries? merged).elim (.error .parsing) check := by
    rw [ofLayers]
    cases ofEntries? ((files ++ [environmentLayer env]).foldl mergeEntries (toEntries {})) <;> rfl
  rw [hresult, hof]
  refine ⟨?_, fun g w f m problems hg hw hf hm hproblems => ?_⟩
  · rw [← bind_stack (fun _ => rfl), ← bind_stack (fun _ => rfl), ← bind_stack (fun _ => rfl),
      hguard', hwait', hfilter', hmetrics']
    simp only [Option.bind_some]
    cases guard? guard <;> cases unsigned64? wait <;> cases str? filter <;> cases bool? metrics <;>
      simp [check_ne_parsing]
  · rw [hguard', Option.bind_some] at hg
    rw [← bind_stack (fun _ => rfl), hwait', Option.bind_some] at hw
    rw [← bind_stack (fun _ => rfl), hfilter', Option.bind_some] at hf
    rw [← bind_stack (fun _ => rfl), hmetrics', Option.bind_some] at hm
    rw [hg, hw, hf, hm]
    exact check_eq (c := ⟨⟨g, w⟩, ⟨f, m⟩⟩) hproblems

theorem makes_load {files : FileTree} {env : Environment} {base named : List (String × Value)}
    (hbase : fileLayer files baseFile = .ok base)
    (hnamed : fileLayer files (environmentFile env) = .ok named) (hmappings : Mappings base)
    (hmappings' : Mappings named) (henv : NoSections env) :
    Makes (given [base, named] env) (load files env) := by
  have hload : load files env = ofLayers ([base, named] ++ [environmentLayer env]) := by
    rw [load, hbase, hnamed]
    rfl
  rw [hload]
  refine makes_ofLayers (fun section_ hsection layer hlayer => ?_) henv
  obtain rfl | hlayer := List.mem_cons.mp hlayer
  · exact hmappings.sectioned hbase section_ hsection
  · obtain rfl := List.mem_singleton.mp hlayer
    exact hmappings'.sectioned hnamed section_ hsection

theorem makes_loadFrom {files : FileTree} {env : Environment} {path : String}
    {layer : List (String × Value)} (hexists : files.exists? path)
    (hread : fileLayer files path = .ok layer) (hlayer : Mappings layer) (henv : NoSections env) :
    Makes (given [layer] env) (loadFrom files env path) := by
  have hload : loadFrom files env path = ofLayers ([layer] ++ [environmentLayer env]) := by
    rw [loadFrom, hexists, hread]
    rfl
  rw [hload]
  refine makes_ofLayers (fun section_ hsection l hl => ?_) henv
  obtain rfl := List.mem_singleton.mp hl
  exact hlayer.sectioned hread section_ hsection

theorem loadFrom_missing {files : FileTree} {path : String} (h : files.exists? path = false)
    (env : Environment) : loadFrom files env path = .error (.fileNotFound path) := by
  rw [loadFrom, h]
  rfl

/-- Each of the four settings is read from the last value that the defaults, the files in their
order and the environment give to it; only a guard that is given as a table is laid over the table
below it, name by name. The configuration is made of what is read, or it cannot be parsed if
something cannot be read, or else what is wrong with it is reported. The file of a given path takes
the place of the two files, and it must exist. -/
theorem load_layers (files : FileTree) (env : Environment) (base named : List (String × Value))
    (hbase : fileLayer files baseFile = .ok base)
    (hnamed : fileLayer files (environmentFile env) = .ok named)
    (hmappings : Mappings base ∧ Mappings named) (henv : NoSections env) :
    (∀ layers v, last? (given layers env "clock" "guard") = some v →
      (∀ entries, v ≠ .table entries) → stack (given layers env "clock" "guard") = some v) ∧
    Makes (given [base, named] env) (load files env) ∧
    ∀ path, (files.exists? path = false → loadFrom files env path = .error (.fileNotFound path)) ∧
      ∀ layer, files.exists? path → fileLayer files path = .ok layer → Mappings layer →
        Makes (given [layer] env) (loadFrom files env path) := by
  refine ⟨fun _ _ => stack_eq_last?, makes_load hbase hnamed hmappings.1 hmappings.2 henv,
    fun path => ⟨fun hmissing => loadFrom_missing hmissing env, ?_⟩⟩
  exact fun layer hexists hread hlayer => makes_loadFrom hexists hread hlayer henv

end Check

/-- A base file and the files of two environments. -/
def someFiles : FileTree where
  files := [(["config", "tackle.yaml"], some "clock: \x7bguard: \x7block_free: ~\x7d\x7d"),
    (["config", "ci.yaml"], some "clock: \x7bwait_timeout_ms: 250\x7d"),
    (["config", "development.yaml"], some "clock: \x7bguard: \x7blocked: ~\x7d\x7d")]

/-- The settings of the base file. -/
def lockFree : List (String × Value) :=
  [("clock", .table [("guard", .table [("lock_free", .null)])])]

theorem fileLayer_base : fileLayer someFiles baseFile = .ok lockFree :=
  fileLayer_eq ["config", "tackle.yaml"] "clock: \x7bguard: \x7block_free: ~\x7d\x7d" (by decide)
    (by decide +kernel) ((Text.splitOn_eq baseFile '/').trans (by decide)) rfl (by cbv)

theorem logFilterProblems_info : logFilterProblems "info" = .ok [] := by
  have hpieces : LogFilter.pieces "info" = ["info"] := by
    rw [LogFilter.pieces, show "info".splitOn "," = ["info"] from
      (Text.splitOn_eq "info" ',').trans (by decide)]
    rfl
  rw [logFilterProblems, LogFilter.ofString, hpieces]
  cbv

theorem mappings_clock (entries : List (String × Value)) :
    Mappings [("clock", .table entries)] := by
  intro section_ hsection v hv
  obtain rfl | rfl : section_ = "clock" ∨ section_ = "telemetry" := by simpa using hsection
  · cases hv
    exact ⟨_, rfl⟩
  · cases hv

/-- The wait of the environment file and the log filter of the defaults, with a guard from an
environment variable in place of the table in the base file. -/
theorem load_layers_ci :
    let env : Environment := [("TACKLE_ENV", "ci"), ("TACKLE_CLOCK__GUARD", "locked")]
    let named : List (String × Value) := [("clock", .table [("wait_timeout_ms", .int 250)])]
    fileLayer someFiles baseFile = .ok lockFree ∧
      fileLayer someFiles (environmentFile env) = .ok named ∧
      (Mappings lockFree ∧ Mappings named) ∧ NoSections env ∧
      load someFiles env = .ok { clock := { waitTimeout := 250 } } := by
  intro env named
  have hnamed : fileLayer someFiles (environmentFile env) = .ok named :=
    fileLayer_eq ["config", "ci.yaml"] "clock: \x7bwait_timeout_ms: 250\x7d" (by decide)
      (by decide +kernel) ((Text.splitOn_eq (environmentFile env) '/').trans (by decide)) rfl
      (by cbv)
  have hmappings : Mappings lockFree ∧ Mappings named := ⟨mappings_clock _, mappings_clock _⟩
  have hname : settingPath? "TACKLE_ENV" = some ["env"] :=
    settingPath?_eq "env" (by cbv) ((Text.splitOn_eq "env" '.').trans (by decide)) (by decide)
  have hguard : settingPath? "TACKLE_CLOCK__GUARD" = some ["clock", "guard"] :=
    settingPath?_eq "clock__guard" (by cbv) ((Text.splitOn_eq "clock.guard" '.').trans (by decide))
      (by decide)
  have henv : NoSections env := by
    intro var hvar section_ hsection
    obtain rfl | rfl : var = ("TACKLE_ENV", "ci") ∨ var = ("TACKLE_CLOCK__GUARD", "locked") := by
      simpa [env] using hvar
    · rw [hname]
      rintro h
      cases h
      exact absurd hsection (by decide)
    · rw [hguard]
      simp
  have hlocked : Inline.ofString "locked" = .str "locked" := by cbv
  have hvariables (section_ field : String) : env.map (ofVariable? section_ field) =
      [none, if "clock" = section_ ∧ "guard" = field then some (.str "locked") else none] := by
    simp only [env, List.map_cons, List.map_nil, ofVariable?, hname, hguard, nest, hlocked]
  obtain ⟨-, hmakes, -⟩ :=
    load_layers someFiles env lockFree named fileLayer_base hnamed hmappings henv
  refine ⟨fileLayer_base, hnamed, hmappings, henv, ?_⟩
  refine (hmakes.eq_of_read .locked 250 "info" false [] ?_ ?_ ?_ ?_ logFilterProblems_info).trans
    (if_pos (by decide))
  all_goals rw [given, hvariables]; rfl

/-- The guard of the file for `development` does not replace that of the base file, because both are
tables: of the two names in the merged one the first counts. -/
theorem load_two_guards :
    let locked : List (String × Value) :=
      [("clock", .table [("guard", .table [("locked", .null)])])]
    fileLayer someFiles baseFile = .ok lockFree ∧
      fileLayer someFiles (environmentFile []) = .ok locked ∧
      (last? (given [lockFree, locked] [] "clock" "guard")).bind guard? = some .locked ∧
      load someFiles [] = .ok { clock := { guard := .lockFree } } := by
  intro locked
  have hnamed : fileLayer someFiles (environmentFile []) = .ok locked :=
    fileLayer_eq ["config", "development.yaml"] "clock: \x7bguard: \x7blocked: ~\x7d\x7d"
      (by decide) (by decide +kernel)
      ((Text.splitOn_eq (environmentFile []) '/').trans (by decide)) rfl (by cbv)
  refine ⟨fileLayer_base, hnamed, rfl, ?_⟩
  rw [load, fileLayer_base, hnamed]
  show ofLayers [lockFree, locked, environmentLayer []] = _
  have hread : ofEntries? ([lockFree, locked, environmentLayer []].foldl mergeEntries
      (toEntries {})) = some { clock := { guard := .lockFree } } := rfl
  rw [ofLayers, hread]
  exact (check_eq logFilterProblems_info).trans (if_pos (by decide))

end VirtualClock.Config
