import EntityStore.Proofs.Config.Tables

/-! # Where a setting comes from

A configuration takes each setting from the environment, or else from the file of the project, of the
user, or the standard values (`load_layered`).  In the environment later variables win, and a `.env`
file adds variables behind those that are there, unless there is one of that name already.

So a variable of the process wins over one of the `.env` file where both assign a setting under one
name.  A name that is spelled differently is another variable, which is added and wins, although it
assigns the same setting; and a group that is given as a list is replaced as a whole
(`load_spelled_differently`).  With the usual names of variables a setting is what the variable of its
name says, if there is one (`exists_load_usual`). -/

namespace EntityStore.Config

/-! ### The `.env` file -/

/-- The variables of a list whose names are new, of each name the first one. -/
def newVariables (env : Environment) : Environment → Environment
  | [] => []
  | v :: rest =>
    if (env.get? v.1).isSome then newVariables env rest else v :: newVariables (env ++ [v]) rest

theorem foldl_add (vs : Environment) (env : Environment) :
    vs.foldl (fun env v => env.add v.1 v.2) env = env ++ newVariables env vs := by
  induction vs generalizing env with
  | nil => exact (List.append_nil env).symm
  | cons v rest ih =>
      rw [List.foldl_cons, ih, newVariables, Environment.add]
      cases hfound : env.get? v.1 with
      | none =>
          rw [if_neg (by simp)]
          exact List.append_assoc env [v] _
      | some value => rfl

/-- A variable keeps its value, and one that is added has the value that stands first. -/
theorem get?_foldl_add (name : String) (vs : Environment) (env : Environment) :
    Environment.get? name (vs.foldl (fun env v => env.add v.1 v.2) env) =
      (env.get? name).or (vs.get? name) := by
  induction vs generalizing env with
  | nil => exact Option.or_none.symm
  | cons v rest ih =>
      rw [List.foldl_cons, ih, Environment.get?_add, Environment.get?, Option.or_assoc]
      by_cases heq : v.1 = name
      · rw [if_pos heq, if_pos heq, Option.some_or]
      · rw [if_neg heq, if_neg heq, Option.none_or]

theorem get?_eq_none_iff {name : String} {env : Environment} :
    env.get? name = none ↔ name ∉ env.map Prod.fst := by
  induction env with
  | nil => exact iff_of_true rfl List.not_mem_nil
  | cons v rest ih =>
      rw [Environment.get?, List.map_cons, List.mem_cons, not_or, ← ih]
      by_cases heq : v.1 = name
      · rw [if_pos heq]
        exact iff_of_false (Option.some_ne_none _) fun h => h.1 heq.symm
      · rw [if_neg heq]
        exact ⟨fun h => ⟨fun h' => heq h'.symm, h⟩, fun h => h.2⟩

/-- None of the new variables has a name that is there. -/
theorem get?_eq_none_of_mem_newVariables {v : String × String} : ∀ {vs env : Environment},
    v ∈ newVariables env vs → env.get? v.1 = none
  | w :: rest, env, h => by
      rw [newVariables] at h
      split at h
      · exact get?_eq_none_of_mem_newVariables h
      · next hnew =>
          rcases List.mem_cons.mp h with rfl | h
          · exact Option.not_isSome_iff_eq_none.mp hnew
          · have hnone := get?_eq_none_of_mem_newVariables h
            rw [Environment.get?_append, Option.or_eq_none_iff] at hnone
            exact hnone.1

namespace DotEnv

/-- The variables that lines assign, up to the first line that is malformed.  A value can refer to
the variables before it. -/
def assigned (env : Environment) : List (Option (List Char)) → Environment
  | [] | none :: _ => []
  | some line :: more =>
    match readLine? env line with
    | none => []
    | some .blank => assigned env more
    | some (.assignment name value) => (name, value) :: assigned (env.add name value) more

theorem addLines_eq_foldl (lines : List (Option (List Char))) (env : Environment) :
    addLines env lines = (assigned env lines).foldl (fun env v => env.add v.1 v.2) env := by
  induction lines generalizing env with
  | nil => rfl
  | cons line more ih =>
      cases line with
      | none => rfl
      | some line =>
          rw [addLines, assigned]
          cases readLine? env line with
          | none => rfl
          | some said =>
              cases said with
              | blank => exact ih env
              | assignment name value => exact ih (env.add name value)

/-- The variables that a file assigns. -/
def fileVariables (env : Environment) (text : String) : Environment :=
  assigned env (joinLines [] .plain (lines (match text.toList with
    | '\ufeff' :: rest => rest
    | cs => cs)))

theorem load_eq_foldl (env : Environment) (text : String) :
    load env text = (fileVariables env text).foldl (fun env v => env.add v.1 v.2) env :=
  addLines_eq_foldl _ env

end DotEnv

namespace Sources

/-- The variables that the `.env` file assigns. -/
def dotEnvVariables (s : Sources) (files : DotEnvFiles) : Environment :=
  (files.chosen.map (DotEnv.fileVariables s.environment)).getD []

/-- Those that are added to the environment. -/
def added (s : Sources) (files : DotEnvFiles) : Environment :=
  newVariables s.environment (s.dotEnvVariables files)

variable {s : Sources} {files : DotEnvFiles}

theorem environment_withDotEnv_eq_foldl : (s.withDotEnv files).environment =
    (s.dotEnvVariables files).foldl (fun env v => env.add v.1 v.2) s.environment := by
  rw [withDotEnv, dotEnvVariables]
  cases files.chosen with
  | none => rfl
  | some text => exact DotEnv.load_eq_foldl s.environment text

theorem environment_withDotEnv :
    (s.withDotEnv files).environment = s.environment ++ s.added files := by
  rw [environment_withDotEnv_eq_foldl, foldl_add, added]

theorem get?_withDotEnv (name : String) : (s.withDotEnv files).environment.get? name =
    (s.environment.get? name).or ((s.dotEnvVariables files).get? name) := by
  rw [environment_withDotEnv_eq_foldl, get?_foldl_add]

theorem user_withDotEnv : (s.withDotEnv files).user = s.user := by
  rw [withDotEnv]
  split <;> rfl

theorem project_withDotEnv : (s.withDotEnv files).project = s.project := by
  rw [withDotEnv]
  split <;> rfl

end Sources

/-! ### Variables that assign a setting -/

/-- The usual name of the variable of a setting. -/
def Key.variableName : Key → String
  | path => "TESSERA_DATABASE__PATH"
  | url => "TESSERA_DATABASE__URL"
  | authToken => "TESSERA_DATABASE__AUTH_TOKEN"
  | statementTimeoutMs => "TESSERA_DATABASE__STATEMENT_TIMEOUT_MS"
  | retryMaxAttempts => "TESSERA_DATABASE__RETRY_MAX_ATTEMPTS"
  | retryBaseDelayMs => "TESSERA_DATABASE__RETRY_BASE_DELAY_MS"
  | retryMaxDelayMs => "TESSERA_DATABASE__RETRY_MAX_DELAY_MS"
  | defaultLimit => "TESSERA_QUERY__DEFAULT_LIMIT"
  | maxLimit => "TESSERA_QUERY__MAX_LIMIT"

theorem Key.settingPath?_variableName (k : Key) :
    settingPath? k.variableName = some [k.group, k.name] := by
  cases k <;> decide +kernel

/-- The variable of a setting assigns this setting and no other one. -/
theorem Key.assigned?_variableName (k k' : Key) (value : String) :
    (variableLayer (k.variableName, value)).assigned? k' =
      if k = k' then some (readVariable value) else none := by
  have hlayer : variableLayer (k.variableName, value) =
      [(k.group, .table [(k.name, readVariable value)])] := by
    rw [variableLayer, k.settingPath?_variableName]
    rfl
  rw [hlayer]
  cases k <;> cases k' <;> rfl

/-- What an environment assigns to a setting: its last variable that assigns anything to it. -/
def Environment.assigned? (k : Key) (env : Environment) : Option Setting :=
  Layer.topmost? k (env.map variableLayer)

/-- All variables that assign the setting have one name. -/
def Environment.OneName (k : Key) (env : Environment) : Prop :=
  ∀ v ∈ env, ∀ v' ∈ env, ((variableLayer v).assigned? k).isSome = true →
    ((variableLayer v').assigned? k).isSome = true → v.1 = v'.1

instance (k : Key) (env : Environment) : Decidable (env.OneName k) :=
  inferInstanceAs (Decidable (∀ v ∈ env, ∀ v' ∈ env, _ → _ → _))

theorem exists_variable_of_assigned? {env : Environment} {k : Key} {x : Setting}
    (h : env.assigned? k = some x) : ∃ v ∈ env, ((variableLayer v).assigned? k).isSome = true := by
  obtain ⟨l, hl, hassigned⟩ := List.exists_of_findSome?_eq_some h
  obtain ⟨v, hv, rfl⟩ := List.mem_map.mp (List.mem_reverse.mp hl)
  exact ⟨v, hv, by rw [hassigned]; rfl⟩

/-- Variables that are added do not assign what the process assigns under the same name. -/
theorem assigned?_or_comm {s : Sources} {files : DotEnvFiles} {k : Key}
    (h : (s.withDotEnv files).environment.OneName k) :
    ((s.added files).assigned? k).or (s.environment.assigned? k) =
      (s.environment.assigned? k).or ((s.added files).assigned? k) := by
  cases hprocess : s.environment.assigned? k with
  | none => rw [Option.or_none, Option.none_or]
  | some x =>
      cases hadded : (s.added files).assigned? k with
      | none => rfl
      | some y =>
          obtain ⟨v, hv, hassigns⟩ := exists_variable_of_assigned? hprocess
          obtain ⟨v', hv', hassigns'⟩ := exists_variable_of_assigned? hadded
          have hname : v.1 = v'.1 := by
            rw [Sources.environment_withDotEnv] at h
            exact h v (List.mem_append_left _ hv) v' (List.mem_append_right _ hv') hassigns hassigns'
          have hnew := get?_eq_none_of_mem_newVariables hv'
          rw [← hname] at hnew
          exact absurd (List.mem_map_of_mem hv) (get?_eq_none_iff.mp hnew)

/-! ### Loading -/

/-- What is loaded of sources whose layers are well typed. -/
theorem exists_load {s : Sources} {user project : Layer} (huser : fileLayer s.user = .ok user)
    (hproject : fileLayer s.project = .ok project) (hfiles : user.WellTyped ∧ project.WellTyped)
    (hvariables : ∀ v ∈ s.environment, (variableLayer v).WellTyped) :
    ∃ c : Configuration, s.load = (checkLimits c.limits >>= fun _ => .ok c) ∧
      ∀ k, c.setting k = ((s.environment.assigned? k).or
        ((project.assigned? k).or (user.assigned? k))).getD (Configuration.standard.setting k) := by
  have hvariable : ∀ l ∈ s.environment.map variableLayer, l.WellTyped ∧ l.Proper :=
    List.forall_mem_map.mpr fun v hv => ⟨hvariables v hv, proper_variableLayer v⟩
  obtain ⟨htyped, hassigned⟩ := Layer.assigned?_stack hvariable
  have hproper := Layer.proper_stack fun l hl => (hvariable l hl).2
  rw [← layer_eq_stack] at htyped hassigned hproper
  have hlayers : ∀ l ∈ [user, project, s.environment.layer], l.WellTyped ∧ l.Proper := by
    rintro l (_ | ⟨_, _ | ⟨_, _ | ⟨_, ⟨⟩⟩⟩⟩)
    · exact ⟨hfiles.1, proper_fileLayer huser⟩
    · exact ⟨hfiles.2, proper_fileLayer hproject⟩
    · exact ⟨htyped, hproper⟩
  obtain ⟨htyped', hstack⟩ := Layer.assigned?_stack hlayers
  obtain ⟨c, hread, hsettings⟩ := read_of_wellTyped htyped'
  refine ⟨c, ?_, fun k => ?_⟩
  · have hlayers' : s.layers = .ok [user, project, s.environment.layer] :=
      bind_of_ok huser (bind_of_ok hproject rfl)
    exact bind_of_ok hlayers' (bind_of_ok hread rfl)
  · rw [hsettings, hstack, Layer.topmost?_cons, Layer.topmost?_cons, Layer.topmost?_cons, hassigned]
    rw [Option.or_assoc]
    rfl

/-! ### Variables of the usual names -/

/-- Every variable that assigns a setting has the usual name of this setting. -/
def Environment.Usual (env : Environment) : Prop :=
  ∀ v ∈ env, ∀ k : Key, ((variableLayer v).assigned? k).isSome = true → v.1 = k.variableName

theorem Environment.usual_of_names {env : Environment}
    (h : ∀ v ∈ env, ∃ k : Key, v.1 = k.variableName) : env.Usual := by
  rintro ⟨name, value⟩ hv k hsome
  obtain ⟨k', rfl⟩ : ∃ k' : Key, name = k'.variableName := h _ hv
  rw [k'.assigned?_variableName] at hsome
  split at hsome
  · next heq => exact congrArg Key.variableName heq
  · cases hsome

/-- A setting is assigned what the variable of its usual name says. -/
theorem Environment.Usual.assigned?_eq (k : Key) : ∀ {env : Environment}, env.Usual →
    (env.map Prod.fst).Nodup → env.assigned? k = (env.get? k.variableName).map readVariable
  | [], _, _ => rfl
  | (name, value) :: rest, h, hnodup => by
      obtain ⟨hhead, hrest⟩ := List.nodup_cons.mp hnodup
      have husual : Environment.Usual rest := fun v hv => h v (List.mem_cons_of_mem _ hv)
      have ih := husual.assigned?_eq k hrest
      rw [assigned?, List.map_cons, Layer.topmost?_cons, ← assigned?, ih, get?]
      by_cases hname : name = k.variableName
      · subst hname
        -- no other variable has this name
        have hnone : get? k.variableName rest = none := get?_eq_none_iff.mpr hhead
        rw [hnone, if_pos rfl, k.assigned?_variableName, if_pos rfl]
        rfl
      · have hother : (variableLayer (name, value)).assigned? k = none :=
          Option.not_isSome_iff_eq_none.mp fun hsome =>
            hname (h _ List.mem_cons_self k hsome)
        rw [hother, if_neg hname, Option.or_none]

/-- Names stay distinct where only new variables are added. -/
theorem nodup_append_newVariables : ∀ {vs env : Environment}, (env.map Prod.fst).Nodup →
    ((env ++ newVariables env vs).map Prod.fst).Nodup
  | [], env, h => by rwa [newVariables, List.append_nil]
  | v :: rest, env, h => by
      rw [newVariables]
      split
      · exact nodup_append_newVariables h
      · next hnew =>
          have hv : v.1 ∉ env.map Prod.fst :=
            get?_eq_none_iff.mp (Option.not_isSome_iff_eq_none.mp hnew)
          have hadded : ((env ++ [v]).map Prod.fst).Nodup := by
            rw [List.map_append]
            exact List.nodup_append.mpr ⟨h, List.pairwise_singleton _ v.1, fun name hname _ hmem heq =>
              hv ((heq.trans (List.mem_singleton.mp hmem)) ▸ hname)⟩
          have ih : ((env ++ [v] ++ newVariables (env ++ [v]) rest).map Prod.fst).Nodup :=
            nodup_append_newVariables hadded
          rwa [List.append_assoc] at ih

/-- Where all settings are assigned under their usual names, a setting is what the variable of its name
says, in the process or else in the `.env` file, before what the files say. -/
theorem exists_load_usual {s : Sources} {files : DotEnvFiles} {user project : Layer}
    (huser : fileLayer s.user = .ok user) (hproject : fileLayer s.project = .ok project)
    (hfiles : user.WellTyped ∧ project.WellTyped)
    (hvariables : ∀ v ∈ (s.withDotEnv files).environment, (variableLayer v).WellTyped)
    (hnodup : (s.environment.map Prod.fst).Nodup)
    (husual : (s.withDotEnv files).environment.Usual) :
    ∃ c : Configuration,
      (s.withDotEnv files).load = (checkLimits c.limits >>= fun _ => .ok c) ∧
      ∀ k, c.setting k = ((((s.environment.get? k.variableName).or
        ((s.dotEnvVariables files).get? k.variableName)).map readVariable).or
          ((project.assigned? k).or (user.assigned? k))).getD (Configuration.standard.setting k) := by
  rw [← Sources.user_withDotEnv] at huser
  rw [← Sources.project_withDotEnv] at hproject
  obtain ⟨c, hload, hsettings⟩ := exists_load huser hproject hfiles hvariables
  have hnodup' : ((s.withDotEnv files).environment.map Prod.fst).Nodup := by
    rw [Sources.environment_withDotEnv]
    exact nodup_append_newVariables hnodup
  refine ⟨c, hload, fun k => ?_⟩
  rw [hsettings, husual.assigned?_eq k hnodup', Sources.get?_withDotEnv]

/-! ### Each setting on its own -/

/-- Each setting is taken on its own from the environment, the file of the project, the file of the
user, or the standard values, in that order.  In the environment the variables of the `.env` file
stand behind those of the process, and only those are added whose names are new.  So the process goes
before the `.env` file where all variables that assign a setting have one name.

Loading succeeds exactly if the limits that come of this are sound, wherever each of them is from;
otherwise the largest limit is at fault if it is zero, and the standard limit in every other case. -/
theorem load_layered {s : Sources} {files : DotEnvFiles} {user project : Layer}
    (huser : fileLayer s.user = .ok user) (hproject : fileLayer s.project = .ok project)
    (hfiles : user.WellTyped ∧ project.WellTyped)
    (hvariables : ∀ v ∈ (s.withDotEnv files).environment, (variableLayer v).WellTyped) :
    ∃ c : Configuration,
      (∀ k, c.setting k = (((s.added files).assigned? k).or ((s.environment.assigned? k).or
        ((project.assigned? k).or (user.assigned? k)))).getD (Configuration.standard.setting k)) ∧
      (∀ k, (s.withDotEnv files).environment.OneName k →
        c.setting k = ((s.environment.assigned? k).or (((s.added files).assigned? k).or
          ((project.assigned? k).or (user.assigned? k)))).getD (Configuration.standard.setting k)) ∧
      (∀ name, (s.withDotEnv files).environment.get? name =
        (s.environment.get? name).or ((s.dotEnvVariables files).get? name)) ∧
      (0 < c.limits.default ∧ c.limits.default ≤ c.limits.max → (s.withDotEnv files).load = .ok c) ∧
      (c.limits.max = 0 → (s.withDotEnv files).load =
        .error (.unacceptable "query.max_limit" "must be greater than 0")) ∧
      (c.limits.max ≠ 0 → ¬ (0 < c.limits.default ∧ c.limits.default ≤ c.limits.max) →
        (s.withDotEnv files).load = .error (.unacceptable "query.default_limit"
          ("must be in 1..=" ++ toString c.limits.max))) := by
  rw [← Sources.user_withDotEnv] at huser
  rw [← Sources.project_withDotEnv] at hproject
  obtain ⟨c, hload, hsettings⟩ := exists_load huser hproject hfiles hvariables
  have hassigned : ∀ k, (s.withDotEnv files).environment.assigned? k =
      ((s.added files).assigned? k).or (s.environment.assigned? k) := fun k => by
    rw [Sources.environment_withDotEnv, Environment.assigned?, List.map_append,
      Layer.topmost?_append]
    rfl
  refine ⟨c, fun k => ?_, fun k hname => ?_, fun _ => Sources.get?_withDotEnv _, ?_, ?_, ?_⟩
  · rw [hsettings, hassigned, Option.or_assoc]
  · rw [hsettings, hassigned, assigned?_or_comm hname, Option.or_assoc]
  · intro hsound
    rw [hload, (checkLimits_eq_ok_iff c.limits).mpr hsound]
    rfl
  · intro hzero
    rw [hload, checkLimits, if_pos hzero]
    rfl
  · intro hmax hunsound
    have hfault : c.limits.default = 0 ∨ c.limits.max < c.limits.default := by omega
    rw [hload, checkLimits, if_neg hmax, if_pos hfault]
    rfl

theorem exists_wellTyped {text : Option String}
    (h : (fileLayer text).toOption.any (fun l => decide l.WellTyped) = true) :
    ∃ l, fileLayer text = .ok l ∧ l.WellTyped := by
  cases hread : fileLayer text with
  | error e =>
      rw [hread] at h
      cases h
  | ok l =>
      rw [hread] at h
      exact ⟨l, rfl, of_decide_eq_true h⟩

/-- The standard limit is from the user, the largest one from the process, and the database from the
`.env` file. -/
def mixedSources : Sources where
  user := some "[query]\nmax_limit = 20\ndefault_limit = 30\n"
  project := some "[query]\nmax_limit = 40\n[database]\npath = \"project.db\"\n"
  environment := [("TESSERA_QUERY__MAX_LIMIT", "60")]

def mixedFiles : DotEnvFiles where
  package := []
  working := [some "TESSERA_QUERY__MAX_LIMIT=70\nTESSERA_DATABASE__PATH=dot.db\n"]

theorem load_layered_mixed :
    ∃ user project c, fileLayer mixedSources.user = .ok user ∧
      fileLayer mixedSources.project = .ok project ∧
      (mixedSources.withDotEnv mixedFiles).load = .ok c ∧ c.limits = ⟨30, 60⟩ ∧
      c.database.path = "dot.db" ∧
      c.setting .maxLimit = ((mixedSources.environment.assigned? .maxLimit).or
        (((mixedSources.added mixedFiles).assigned? .maxLimit).or
          ((project.assigned? .maxLimit).or (user.assigned? .maxLimit)))).getD (.integer 100) := by
  obtain ⟨user, huser, huser'⟩ : ∃ l, fileLayer mixedSources.user = .ok l ∧ l.WellTyped :=
    exists_wellTyped (by decide +kernel)
  obtain ⟨project, hproject, hproject'⟩ :
      ∃ l, fileLayer mixedSources.project = .ok l ∧ l.WellTyped := exists_wellTyped (by decide +kernel)
  obtain ⟨hvariables, honeName, hload⟩ :
      (∀ v ∈ (mixedSources.withDotEnv mixedFiles).environment, (variableLayer v).WellTyped) ∧
      (mixedSources.withDotEnv mixedFiles).environment.OneName .maxLimit ∧
      (mixedSources.withDotEnv mixedFiles).load =
        .ok ⟨{ DatabaseSettings.standard with path := "dot.db" }, ⟨30, 60⟩⟩ := by decide +kernel
  obtain ⟨c, -, hname, -, hsound, hmax, hstandard⟩ :=
    load_layered huser hproject ⟨huser', hproject'⟩ hvariables
  -- loading does not fail, so it gives the configuration of the theorem
  have hok : (mixedSources.withDotEnv mixedFiles).load = .ok c := by
    by_cases hlimits : 0 < c.limits.default ∧ c.limits.default ≤ c.limits.max
    · exact hsound hlimits
    · by_cases hzero : c.limits.max = 0
      · cases hload.symm.trans (hmax hzero)
      · cases hload.symm.trans (hstandard hzero hlimits)
  have hc := Except.ok.inj (hok.symm.trans hload)
  exact ⟨user, project, c, huser, hproject, hok, by rw [hc], by rw [hc], hname .maxLimit honeName⟩

/-! ### Names and groups that are written differently -/

def spelledSources : Sources := ⟨none, none, [("tessera_query__max_limit", "60")]⟩

def spelledFiles : DotEnvFiles := ⟨[], [some "TESSERA_QUERY__MAX_LIMIT=70\n"]⟩

/-- The user gives the standard limit and the largest one, the project the largest one. -/
def listedSources : Sources :=
  ⟨some "query = [10, 20]\n", some "[query]\nmax_limit = 80\n", []⟩

/-- A variable of the `.env` file wins over one of the process that is spelled differently, and a
standard limit that is given in a list is lost. -/
theorem load_spelled_differently :
    spelledSources.environment.assigned? .maxLimit = some (.integer 60) ∧
      (spelledSources.withDotEnv spelledFiles).load = .ok ⟨.standard, ⟨50, 70⟩⟩ ∧
      { listedSources with project := none }.load = .ok ⟨.standard, ⟨10, 20⟩⟩ ∧
      listedSources.load = .ok ⟨.standard, ⟨50, 80⟩⟩ :=
  ⟨rfl, by decide +kernel, by decide +kernel, by decide +kernel⟩

end EntityStore.Config
