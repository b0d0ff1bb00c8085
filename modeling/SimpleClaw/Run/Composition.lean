import Mathlib.Data.Char
import Mathlib.Data.List.Forall2
import Mathlib.Data.List.Lex
import SimpleClaw.Config.Secrets
import SimpleClaw.Turn.Prepare

/-!
# What is composed of a configuration

When the runtime is put together, and later in each turn, the secrets of the configuration are
asked for: the variables of the executions, the keys of the providers and of the web search, the
tokens of the channels.  A secret that has not been resolved is an error there, and where the
services are started it would be a panic.

* `effectiveExecution`, `cronEnvByAgent`: the variables of each agent.
* `ProviderSecrets.apiKey`, `discordToken`, `webSearchToRuntime`: the other uses.
* `secrets_served`: of a configuration that is loaded every secret is there, with the value it
  refers to.
-/

namespace SimpleClaw
namespace Run

open Config FirstFailure
open Turn (EnvSecrets insertEnv)

/-! ## Uses -/

/-- A secret that has to be there and not to be blank. -/
def requireSecret (missing : Text) (value : Option Text) : Except FrameworkError Text :=
  match value with
  | some value => if value.trim = [] then .error (.config missing) else .ok value
  | none => .error (.config missing)

def missingApiKey : Text :=
  ("missing provider API key: set providers.entries.<key>.api_key to a " : Text) ++
    ("$\x7bsecret:<name>\x7d reference" : Text)

/-- `GeminiProvider::api_key` -/
def geminiApiKey (apiKey : Option Secret) : Except FrameworkError Text :=
  requireSecret missingApiKey (apiKey.bind Secret.exposed)

/-- The key of `MoonshotCompatibleProvider::from_moonshot_config`. -/
def moonshotApiKey (apiKey : Option Text) : Except FrameworkError Text :=
  requireSecret missingApiKey apiKey

/-- The token of `DiscordChannel::from_config`. -/
def discordToken (token : Option Secret) : Except FrameworkError Text :=
  requireSecret (("missing Discord token: set gateway.channels.discord.token to a " : Text) ++
    ("$\x7bsecret:<name>\x7d reference" : Text)) (token.bind Secret.exposed)

/-- The key of `WebSearchToolConfig::to_runtime`. -/
def webSearchToRuntime : Option Secret → Except FrameworkError (Option Text)
  | none => .ok none
  | some secret =>
      match secret.exposed with
      | some value => .ok (some value)
      | none => .error (.config "web_search api_key was not resolved before runtime assembly")

/-- The key a provider is used with, if it has one. -/
def providerApiKey : ProviderSecrets → Option (Except FrameworkError Text)
  | .gemini apiKey => some (geminiApiKey apiKey)
  | .moonshot apiKey _ => some (moonshotApiKey apiKey)
  | .openAiCodex => none

def exposedEnv (env : SecretEnv) : EnvSecrets :=
  env.entries.map fun entry => (entry.1, entry.2.exposed)

/-- The execution of an agent; the settings and overrides that are no variables are as given. -/
def effectiveExecution (settings : Turn.ExecutionDefaultsConfig)
    (overrides : Turn.AgentExecutionOverrides) (config : SecretsConfig) (agent : AgentSecrets) :
    Turn.ExecutionDefaultsConfig :=
  { settings with env := exposedEnv config.executionEnv }.mergeWithOverrides
    { overrides with env := agent.executionEnv.map exposedEnv }

/-- The variables that `start_runtime_services` gives the scheduler for each agent, or the panic. -/
def cronEnvByAgent (settings : Turn.ExecutionDefaultsConfig)
    (overrides : Text → Turn.AgentExecutionOverrides) (config : SecretsConfig) :
    Option (List (Text × List (Text × Text))) :=
  config.agents.mapM fun agent =>
    ((effectiveExecution settings (overrides agent.id) config agent).resolvedEnv.toOption).map
      (Prod.mk agent.id)

/-! ## Variables -/

section Env

variable {key : Text} {value : Option Text} {env : EnvSecrets}

theorem mem_keys_insertEnv {key' : Text} :
    key' ∈ (insertEnv key value env).map Prod.fst ↔ key' = key ∨ key' ∈ env.map Prod.fst := by
  induction env with
  | nil => simp [insertEnv]
  | cons entry env ih =>
      unfold insertEnv
      split
      · simp
      · split
        · next heq => simp [heq]
        · rw [List.map_cons, List.mem_cons, ih, List.map_cons, List.mem_cons]
          tauto

theorem sorted_insertEnv (h : (env.map Prod.fst).Pairwise (· < ·)) :
    ((insertEnv key value env).map Prod.fst).Pairwise (· < ·) := by
  induction env with
  | nil => exact List.pairwise_singleton _ _
  | cons entry env ih =>
      obtain ⟨hfirst, henv⟩ := List.pairwise_cons.mp h
      unfold insertEnv
      split
      · next hlt =>
        refine List.pairwise_cons.mpr ⟨?_, h⟩
        intro key' hkey'
        rcases List.mem_cons.mp hkey' with rfl | hkey'
        · exact hlt
        · exact hlt.trans (hfirst key' hkey')
      · next hge =>
        split
        · next heq =>
          refine List.pairwise_cons.mpr ⟨?_, henv⟩
          intro key' hkey'
          rw [heq]
          exact hfirst key' hkey'
        · next hne =>
          refine List.pairwise_cons.mpr ⟨?_, ih henv⟩
          intro key' hkey'
          rcases mem_keys_insertEnv.mp hkey' with rfl | hkey'
          · exact lt_of_le_of_ne (not_lt.mp hge) (Ne.symm hne)
          · exact hfirst key' hkey'

theorem lookup_eq_none_of_lt (h : ∀ key' ∈ env.map Prod.fst, key < key') :
    env.lookup key = none := by
  rw [List.lookup_eq_none_iff]
  intro entry hentry
  have hlt := h entry.1 (List.mem_map_of_mem hentry)
  simpa using hlt.ne

theorem lookup_entry_cons {α : Type} (entry : Text × α) (entries : List (Text × α)) (key : Text) :
    (entry :: entries).lookup key = if key = entry.1 then some entry.2 else entries.lookup key := by
  rw [List.lookup_cons]
  by_cases hkey : key = entry.1
  · rw [beq_iff_eq.mpr hkey, if_pos hkey]
  · rw [beq_eq_false_iff_ne.mpr hkey, if_neg hkey]

theorem lookup_insertEnv (h : (env.map Prod.fst).Pairwise (· < ·)) (key' : Text) :
    (insertEnv key value env).lookup key' =
      if key' = key then some value else env.lookup key' := by
  induction env with
  | nil => exact lookup_entry_cons (key, value) [] key'
  | cons entry env ih =>
      obtain ⟨-, henv⟩ := List.pairwise_cons.mp h
      unfold insertEnv
      split
      · exact lookup_entry_cons (key, value) (entry :: env) key'
      · split
        · next heq =>
          rw [lookup_entry_cons, lookup_entry_cons, heq]
          split <;> rfl
        · next hne =>
          rw [lookup_entry_cons, lookup_entry_cons, ih henv]
          by_cases hkey : key' = key
          · rw [if_neg (hkey ▸ hne), if_pos hkey, if_pos hkey]
          · rw [if_neg hkey, if_neg hkey]

/-- One map over the other: the entries of the second are found first. -/
theorem lookup_foldl_insertEnv {own : EnvSecrets} (hown : (own.map Prod.fst).Pairwise (· < ·))
    (henv : (env.map Prod.fst).Pairwise (· < ·)) :
    ((own.foldl (fun env entry => insertEnv entry.1 entry.2 env) env).map Prod.fst).Pairwise
        (· < ·) ∧
      ∀ key, (own.foldl (fun env entry => insertEnv entry.1 entry.2 env) env).lookup key =
        (own.lookup key).or (env.lookup key) := by
  induction own generalizing env with
  | nil => exact ⟨henv, fun key => rfl⟩
  | cons entry own ih =>
      obtain ⟨hfirst, hown⟩ := List.pairwise_cons.mp hown
      have hinserted : ((insertEnv entry.1 entry.2 env).map Prod.fst).Pairwise (· < ·) :=
        sorted_insertEnv henv
      obtain ⟨hsorted, hlookup⟩ := ih hown hinserted
      refine ⟨hsorted, fun key => ?_⟩
      rw [List.foldl_cons, hlookup, lookup_insertEnv henv, lookup_entry_cons]
      by_cases hkey : key = entry.1
      · rw [if_pos hkey, if_pos hkey, hkey, lookup_eq_none_of_lt hfirst]
        rfl
      · rw [if_neg hkey, if_neg hkey]

theorem mem_insertEnv {entry : Text × Option Text} (h : entry ∈ insertEnv key value env) :
    entry = (key, value) ∨ entry ∈ env := by
  induction env with
  | nil => exact .inl (List.mem_singleton.mp h)
  | cons first env ih =>
      unfold insertEnv at h
      split at h
      · exact List.mem_cons.mp h
      · split at h
        · rcases List.mem_cons.mp h with rfl | h
          · exact .inl rfl
          · exact .inr (List.mem_cons_of_mem _ h)
        · rcases List.mem_cons.mp h with rfl | h
          · exact .inr List.mem_cons_self
          · exact (ih h).imp_right (List.mem_cons_of_mem _)

theorem mem_foldl_insertEnv {own : EnvSecrets} {entry : Text × Option Text}
    (h : entry ∈ own.foldl (fun env entry => insertEnv entry.1 entry.2 env) env) :
    entry ∈ own ∨ entry ∈ env := by
  induction own generalizing env with
  | nil => exact .inr h
  | cons first own ih =>
      rcases ih h with hown | henv
      · exact .inl (List.mem_cons_of_mem _ hown)
      · rcases mem_insertEnv henv with rfl | henv
        · exact .inl List.mem_cons_self
        · exact .inr henv

/-- When every variable has a value, these are the variables. -/
theorem exists_resolvedEnv {execution : Turn.ExecutionDefaultsConfig}
    (h : ∀ entry ∈ execution.env, ∃ value, entry.2 = some value) :
    ∃ values : List (Text × Text), execution.resolvedEnv = .ok values ∧
      execution.env = values.map fun entry => (entry.1, some entry.2) := by
  rw [Turn.ExecutionDefaultsConfig.resolvedEnv]
  generalize execution.env = env at h
  induction env with
  | nil => exact ⟨[], rfl, rfl⟩
  | cons entry env ih =>
      obtain ⟨⟨value, hvalue⟩, henv⟩ := List.forall_mem_cons.mp h
      obtain ⟨values, hvalues, rfl⟩ := ih henv
      obtain ⟨key, value'⟩ := entry
      obtain rfl : value' = some value := hvalue
      refine ⟨(key, value) :: values, ?_, rfl⟩
      rw [List.mapM_cons, hvalues]
      rfl

theorem lookup_map_some (values : List (Text × Text)) (key : Text) :
    (values.map fun entry => (entry.1, some entry.2)).lookup key =
      (values.lookup key).map some := by
  induction values with
  | nil => rfl
  | cons entry values ih =>
      rw [List.map_cons, lookup_entry_cons, lookup_entry_cons, ih]
      split <;> rfl

end Env

/-! ## What a loaded configuration serves -/

variable {resolver : SecretResolver} {config loaded : SecretsConfig}

/-- The secret that a variable of an agent refers to: its own, or else the default one. -/
def variableSecret (config : SecretsConfig) (agent : AgentSecrets) (key : Text) : Option Text :=
  (((agent.executionEnv.map SecretEnv.entries).getD []).lookup key |>.or
    (config.executionEnv.entries.lookup key)).map Secret.name

/-- The value is there exactly if a secret is referred to, and is the value of that one. -/
def Gives (resolver : SecretResolver) : Option Text → Option Text → Prop
  | none, value => value = none
  | some name, value => ∃ secret, resolver.value name = some secret ∧ value = some secret

/-- The name of the secret that is the key of a provider. -/
def providerKeyName (key : Text) : ProviderSecrets → Option Text
  | .gemini apiKey => apiKey.map Secret.name
  | .moonshot apiKey _ => apiKey.bind fun raw => (parseSecretReference
      (("providers.entries." : Text) ++ key ++ (".api_key" : Text)) raw).toOption
  | .openAiCodex => none

structure AgentServed (resolver : SecretResolver) (config loaded : SecretsConfig)
    (agent agent' : AgentSecrets) : Prop where
  id : agent'.id = agent.id
  env : ∀ settings overrides, ∃ env,
    (effectiveExecution settings overrides loaded agent').resolvedEnv = .ok env ∧
      (env.map Prod.fst).Pairwise (· < ·) ∧
        ∀ key, Gives resolver (variableSecret config agent key) (env.lookup key)
  webSearch : ∀ apiKey ∈ agent.webSearchApiKey, ∃ apiKey' ∈ agent'.webSearchApiKey,
    ∃ value, webSearchToRuntime apiKey' = .ok value ∧ Gives resolver (apiKey.map Secret.name) value

/-- What a configuration has, and what it is loaded as. -/
structure Served (resolver : SecretResolver) (config loaded : SecretsConfig) : Prop where
  agents : List.Forall₂ (AgentServed resolver config loaded) config.agents loaded.agents
  providers : List.Forall₂ (fun entry entry' => entry'.1 = entry.1 ∧
    ∀ name, providerKeyName entry.1 entry.2 = some name →
      ∃ value, resolver.value name = some value ∧ providerApiKey entry'.2 = some (.ok value))
    config.providers loaded.providers
  channels : List.Forall₂ (fun entry entry' => entry'.1 = entry.1 ∧
    ∀ token, entry.2 = some token →
      ∃ value, resolver.value token.name = some value ∧ discordToken entry'.2 = .ok value)
    config.channels loaded.channels

/-- What resolves is not blank. -/
theorem trim_ne_nil_of_value {name value : Text} (h : resolver.value name = some value) :
    value.trim ≠ [] := by
  have hensure : ∀ {value' source : Text},
      (ensureNonempty value' source name resolver.secretsPathDisplay).toOption = some value →
        value.trim ≠ [] := by
    intro value' source hvalue
    rw [ensureNonempty] at hvalue
    split at hvalue
    · cases hvalue
    · next hblank =>
      obtain rfl := Option.some.inj hvalue
      exact hblank
  rw [SecretResolver.value, SecretResolver.resolve] at h
  split at h
  · cases h
  · split at h
    · exact hensure h
    · split at h
      · exact hensure h
      · cases h

theorem requireSecret_eq_ok (missing : Text) {name value : Text}
    (h : resolver.value name = some value) : requireSecret missing (some value) = .ok value :=
  if_neg (trim_ne_nil_of_value h)

/-- A reference that does not fail has a value. -/
theorem exists_value_of_failure_eq_none {fieldPath name : Text}
    (h : resolver.failure ⟨fieldPath, .ok name⟩ = none) :
    ∃ value, resolver.value name = some value := by
  change errorOf (resolver.resolveAt fieldPath name) = none at h
  cases hvalue : resolver.resolveAt fieldPath name with
  | error err =>
      rw [hvalue] at h
      cases h
  | ok value => exact ⟨value, resolver.resolveAt_eq_ok_iff.mp hvalue⟩

/-- Every variable of the map has a value. -/
def Resolves (resolver : SecretResolver) (entries : List (Text × Secret)) : Prop :=
  ∀ entry ∈ entries, ∃ value, resolver.value entry.2.name = some value

theorem resolves_of_references {fieldPath : Text} {env : SecretEnv}
    (h : ∀ reference ∈ env.references fieldPath, resolver.failure reference = none) :
    Resolves resolver env.entries := by
  intro entry hentry
  exact exists_value_of_failure_eq_none
    (h _ (List.mem_flatMap.mpr ⟨entry, hentry, List.mem_singleton_self _⟩))

theorem lookup_exposedEnv_filled (env : SecretEnv) (key : Text) :
    (exposedEnv (env.filled resolver)).lookup key =
      (env.entries.lookup key).map fun secret => resolver.value secret.name := by
  rw [exposedEnv, SecretEnv.filled, List.map_map]
  induction env.entries with
  | nil => rfl
  | cons entry entries ih =>
      rw [List.map_cons, lookup_entry_cons, lookup_entry_cons, ih]
      change (if key = entry.1 then _ else _) = _
      split <;> rfl

theorem sorted_exposedEnv (env : SecretEnv) :
    ((exposedEnv env).map Prod.fst).Pairwise (· < ·) := by
  rw [exposedEnv, List.map_map]
  exact env.sorted

theorem exists_of_mem_exposedEnv_filled {env : SecretEnv} (h : Resolves resolver env.entries)
    {entry : Text × Option Text} (hentry : entry ∈ exposedEnv (env.filled resolver)) :
    ∃ value, entry.2 = some value := by
  rw [exposedEnv, SecretEnv.filled, List.map_map] at hentry
  obtain ⟨written, hwritten, rfl⟩ := List.mem_map.mp hentry
  exact h written hwritten

/-- **The variables of an agent**: its own before the default ones, all with their values. -/
theorem exists_env_of_resolves {agent : AgentSecrets}
    (hdefault : Resolves resolver config.executionEnv.entries)
    (hown : ∀ env ∈ agent.executionEnv, Resolves resolver env.entries)
    (settings : Turn.ExecutionDefaultsConfig) (overrides : Turn.AgentExecutionOverrides) :
    ∃ env, (effectiveExecution settings overrides (config.filled resolver)
        (agent.filled resolver)).resolvedEnv = .ok env ∧
      (env.map Prod.fst).Pairwise (· < ·) ∧
        ∀ key, Gives resolver (variableSecret config agent key) (env.lookup key) := by
  have hmerged : ∃ own : EnvSecrets,
      (effectiveExecution settings overrides (config.filled resolver)
        (agent.filled resolver)).env = own.foldl (fun env entry => insertEnv entry.1 entry.2 env)
          (exposedEnv (config.executionEnv.filled resolver)) ∧
      (own.map Prod.fst).Pairwise (· < ·) ∧
      (∀ key, own.lookup key = (((agent.executionEnv.map SecretEnv.entries).getD []).lookup
        key).map fun secret => resolver.value secret.name) ∧
      ∀ entry ∈ own, ∃ value, entry.2 = some value := by
    cases hagent : agent.executionEnv with
    | none =>
        refine ⟨[], ?_, List.Pairwise.nil, fun _ => rfl, fun _ hentry => by cases hentry⟩
        rw [effectiveExecution, AgentSecrets.filled, hagent]
        rfl
    | some env =>
        refine ⟨exposedEnv (env.filled resolver), ?_, sorted_exposedEnv _,
          lookup_exposedEnv_filled env, fun _ hentry =>
            exists_of_mem_exposedEnv_filled (hown env hagent) hentry⟩
        rw [effectiveExecution, AgentSecrets.filled, hagent]
        rfl
  obtain ⟨own, henv, hsorted, hlookup, hvalues⟩ := hmerged
  obtain ⟨hkeys, hfound⟩ := lookup_foldl_insertEnv hsorted
    (sorted_exposedEnv (config.executionEnv.filled resolver))
  rw [← henv] at hkeys hfound
  have hresolved : ∀ entry ∈ (effectiveExecution settings overrides (config.filled resolver)
      (agent.filled resolver)).env, ∃ value, entry.2 = some value := by
    intro entry hentry
    rw [henv] at hentry
    rcases mem_foldl_insertEnv hentry with hown | hdef
    · exact hvalues entry hown
    · exact exists_of_mem_exposedEnv_filled hdefault hdef
  obtain ⟨values, hok, heq⟩ := exists_resolvedEnv hresolved
  refine ⟨values, hok, ?_, fun key => ?_⟩
  · rw [heq, List.map_map] at hkeys
    exact hkeys
  · have hsome : (values.lookup key).map some =
        (variableSecret config agent key).map resolver.value := by
      rw [← lookup_map_some, ← heq, hfound, hlookup, lookup_exposedEnv_filled, variableSecret,
        Option.map_map, ← Option.map_or]
      rfl
    cases hname : variableSecret config agent key with
    | none =>
        rw [hname] at hsome
        exact Option.map_eq_none_iff.mp hsome
    | some name =>
        rw [hname] at hsome
        obtain ⟨value, hvalue, hresolved⟩ := Option.map_eq_some_iff.mp hsome
        exact ⟨value, hresolved.symm, hvalue⟩

theorem forall_mem_optionReferences {α : Type} {references : α → List Reference}
    {field : Option α} {P : Reference → Prop} :
    (∀ reference ∈ optionReferences references field, P reference) ↔
      ∀ a ∈ field, ∀ reference ∈ references a, P reference := by
  rw [optionReferences]
  cases field with
  | none => exact iff_of_true (fun _ h => by cases h) fun _ h => by cases h
  | some a => simp

/-- Every secret of a field has a value. -/
theorem exists_value_of_secretReference {fieldPath : Text} {field : Option Secret}
    (h : ∀ reference ∈ optionReferences (secretReference fieldPath) field,
      resolver.failure reference = none) :
    ∀ secret ∈ field, ∃ value, resolver.value secret.name = some value := by
  intro secret hsecret
  exact exists_value_of_failure_eq_none
    (forall_mem_optionReferences.mp h secret hsecret _ (List.mem_singleton_self _))

theorem agentServed_filled {agent : AgentSecrets}
    (hdefault : Resolves resolver config.executionEnv.entries)
    (h : ∀ reference ∈ agent.references, resolver.failure reference = none) :
    AgentServed resolver config (config.filled resolver) agent (agent.filled resolver) where
  id := rfl
  env := by
    rw [AgentSecrets.references, List.forall_mem_append] at h
    exact exists_env_of_resolves hdefault fun env henv =>
      resolves_of_references (forall_mem_optionReferences.mp h.1 env henv)
  webSearch := by
    intro apiKey hapiKey
    rw [AgentSecrets.references, List.forall_mem_append] at h
    have hvalue := exists_value_of_secretReference
      (forall_mem_optionReferences.mp h.2 apiKey hapiKey)
    refine ⟨apiKey.map (Secret.filled resolver), ?_, ?_⟩
    · rw [AgentSecrets.filled, Option.mem_def.mp hapiKey]
      rfl
    · match apiKey, hvalue with
      | none, _ => exact ⟨none, rfl, rfl⟩
      | some secret, hvalue =>
          obtain ⟨value, hvalue⟩ := hvalue secret rfl
          refine ⟨some value, ?_, value, hvalue, rfl⟩
          change (match resolver.value secret.name with
            | some value => Except.ok (some value)
            | none => _) = _
          rw [hvalue]

theorem providerApiKey_filled {key name : Text} {entry : ProviderSecrets}
    (h : ∀ reference ∈ entry.references key, resolver.failure reference = none)
    (hname : providerKeyName key entry = some name) :
    ∃ value, resolver.value name = some value ∧
      providerApiKey (entry.filled resolver key) = some (.ok value) := by
  match entry with
  | .gemini apiKey =>
      obtain ⟨secret, rfl, rfl⟩ := Option.map_eq_some_iff.mp hname
      obtain ⟨value, hvalue⟩ := exists_value_of_secretReference h secret rfl
      refine ⟨value, hvalue, congrArg some ?_⟩
      change requireSecret missingApiKey (resolver.value secret.name) = _
      rw [hvalue]
      exact requireSecret_eq_ok missingApiKey hvalue
  | .moonshot apiKey oauthClientSecret =>
      obtain ⟨raw, rfl, hparsed⟩ := Option.bind_eq_some_iff.mp hname
      have hreference := forall_mem_optionReferences.mp (List.forall_mem_append.mp h).1 raw rfl _
        (List.mem_singleton_self _)
      have hparse : parseSecretReference
          (("providers.entries." : Text) ++ key ++ (".api_key" : Text)) raw = .ok name := by
        cases hresult : parseSecretReference
            (("providers.entries." : Text) ++ key ++ (".api_key" : Text)) raw with
        | error err =>
            rw [hresult] at hparsed
            cases hparsed
        | ok name' =>
            rw [hresult] at hparsed
            exact congrArg Except.ok (Option.some.inj hparsed)
      rw [hparse] at hreference
      obtain ⟨value, hvalue⟩ := exists_value_of_failure_eq_none hreference
      refine ⟨value, hvalue, congrArg some ?_⟩
      change requireSecret missingApiKey (some (fillField resolver _ raw)) = _
      rw [fillField, hparse]
      change requireSecret missingApiKey (some ((resolver.value name).getD raw)) = _
      rw [hvalue]
      exact requireSecret_eq_ok missingApiKey hvalue
  | .openAiCodex => cases hname

/-- The services are started without a panic, each agent with its variables. -/
theorem exists_envByAgent (settings : Turn.ExecutionDefaultsConfig)
    (overrides : Text → Turn.AgentExecutionOverrides) {agents agents' : List AgentSecrets}
    (h : List.Forall₂ (AgentServed resolver config loaded) agents agents') :
    ∃ envByAgent, (agents'.mapM fun agent =>
        ((effectiveExecution settings (overrides agent.id) loaded
          agent).resolvedEnv.toOption).map (Prod.mk agent.id)) = some envByAgent ∧
      List.Forall₂ (fun agent entry => entry.1 = agent.id ∧
        ∀ key, Gives resolver (variableSecret config agent key) (entry.2.lookup key))
        agents envByAgent := by
  induction h with
  | nil => exact ⟨[], rfl, .nil⟩
  | @cons agent agent' agents agents' hagent _ ih =>
      obtain ⟨envByAgent, hrest, hgives⟩ := ih
      obtain ⟨env, henv, -, hlookup⟩ := hagent.env settings (overrides agent'.id)
      refine ⟨(agent'.id, env) :: envByAgent, ?_, .cons ⟨hagent.id, hlookup⟩ hgives⟩
      rw [List.mapM_cons, henv, hrest]
      rfl

/-- **Secrets.**  Whatever the environment and the file of secrets are, a configuration is loaded
exactly if each of its references can be resolved, and the first one that cannot is the error.
What is loaded serves every use: no agent starts, is called or runs a job with a variable that is
not resolved, its own variables go before the default ones, and each key and token is the value of
the secret it refers to. -/
theorem secrets_served (resolver : SecretResolver) (config : SecretsConfig)
    (settings : Turn.ExecutionDefaultsConfig) (overrides : Text → Turn.AgentExecutionOverrides) :
    match config.references.findSome? resolver.failure with
    | some err => config.resolveSecrets resolver = .error err
    | none => ∃ loaded, config.resolveSecrets resolver = .ok loaded ∧
        Served resolver config loaded ∧
        ∃ envByAgent, cronEnvByAgent settings overrides loaded = some envByAgent ∧
          List.Forall₂ (fun agent entry => entry.1 = agent.id ∧
            ∀ key, Gives resolver (variableSecret config agent key) (entry.2.lookup key))
            config.agents envByAgent := by
  have hvisits := config.visits_resolveSecrets resolver
  rw [Visits] at hvisits
  cases hfirst : config.references.findSome? resolver.failure with
  | some err =>
      rw [hfirst] at hvisits
      exact hvisits
  | none =>
      rw [hfirst] at hvisits
      refine ⟨config.filled resolver, hvisits, ?_⟩
      rw [List.findSome?_eq_none_iff, SecretsConfig.references, List.forall_mem_append,
        List.forall_mem_append, List.forall_mem_append] at hfirst
      obtain ⟨hproviders, henv, hchannels, hagents⟩ := hfirst
      have hdefault := resolves_of_references henv
      have hserved : ∀ agent ∈ config.agents,
          AgentServed resolver config (config.filled resolver) agent (agent.filled resolver) :=
        fun agent hagent => agentServed_filled hdefault fun reference hreference =>
          hagents reference (List.mem_flatMap.mpr ⟨agent, hagent, hreference⟩)
      refine ⟨⟨?_, ?_, ?_⟩, ?_⟩
      · exact List.forall₂_map_right_iff.mpr (List.forall₂_same.mpr hserved)
      · refine List.forall₂_map_right_iff.mpr (List.forall₂_same.mpr fun entry hentry => ⟨rfl, ?_⟩)
        intro name hname
        exact providerApiKey_filled (fun reference hreference =>
          hproviders reference (List.mem_flatMap.mpr ⟨entry, hentry, hreference⟩)) hname
      · refine List.forall₂_map_right_iff.mpr (List.forall₂_same.mpr fun entry hentry => ⟨rfl, ?_⟩)
        intro token htoken
        obtain ⟨value, hvalue⟩ := exists_value_of_secretReference (fun reference hreference =>
          hchannels reference (List.mem_flatMap.mpr ⟨entry, hentry, hreference⟩)) token htoken
        refine ⟨value, hvalue, ?_⟩
        rw [htoken]
        change requireSecret _ (resolver.value token.name) = _
        rw [hvalue]
        exact requireSecret_eq_ok _ hvalue
      · exact exists_envByAgent settings overrides
          (List.forall₂_map_right_iff.mpr (List.forall₂_same.mpr hserved))

end Run
end SimpleClaw
