import SimpleClaw.Config.Validate
import SimpleClaw.Lib.FirstFailure

/-!
# References to secrets

A configuration names its secrets, and names are looked up when it is loaded: in the environment
first, and then in the file of secrets.  Of the configuration there is here what holds references.
The variables of an execution are in the order of their names; the other maps are in the order in
which they are gone through.

* `parseSecretReference`, `Secret.deserialize`, `Secret.serialize`: references as they are written.
* `SecretResolver.resolve`: the lookup.
* `SecretsConfig.resolveSecrets`: the loading.
* `SecretsConfig.visits_resolveSecrets`: it is what the references of the configuration come to, one
  after the other.
-/

namespace SimpleClaw
namespace Config

/-! ## References -/

structure Secret where
  name : Text
  resolved : Option Text
  deriving DecidableEq

namespace Secret

def fromName (name : Text) : Secret := ⟨name, none⟩

def exposed (secret : Secret) : Option Text := secret.resolved

def serialize (secret : Secret) : Text :=
  ("$\x7bsecret:" : Text) ++ secret.name ++ ("\x7d" : Text)

end Secret

def isValidSecretName (name : Text) : Bool :=
  name.all fun ch => ch.isAlphanum || ch == '_' || ch == '-' || ch == '.'

def parseSecretReference (fieldPath raw : Text) : Except FrameworkError Text :=
  let start : Text := "$\x7bsecret:"
  let trimmed := raw.trim
  if ¬ (start <+: trimmed ∧ ("\x7d" : Text) <:+ trimmed) then
    .error (.config (fieldPath ++
      (" must use secret reference syntax $\x7bsecret:<name>\x7d" : Text)))
  else
    let name := (trimmed.drop start.length).dropLast
    if name = [] ∨ isValidSecretName name = false then
      .error (.config (fieldPath ++ (" has invalid secret reference '" : Text) ++ trimmed ++
        ("'; expected $\x7bsecret:<name>\x7d with [A-Za-z0-9_.-]+" : Text)))
    else .ok name

def Secret.deserialize (raw : Text) : Except FrameworkError Secret :=
  (parseSecretReference "secret" raw).map Secret.fromName

/-- What a reference is. -/
theorem parseSecretReference_eq_ok_iff {fieldPath raw name : Text} :
    parseSecretReference fieldPath raw = .ok name ↔
      raw.trim = ("$\x7bsecret:" : Text) ++ name ++ ("\x7d" : Text) ∧ name ≠ [] ∧
        isValidSecretName name = true := by
  have hcut : ∀ inner : Text, ((("$\x7bsecret:" : Text) ++ inner ++ ("\x7d" : Text)).drop
      ("$\x7bsecret:" : Text).length).dropLast = inner := by
    intro inner
    rw [List.append_assoc, List.drop_left]
    exact List.dropLast_concat
  unfold parseSecretReference
  dsimp only
  split
  · next hsyntax =>
    refine iff_of_false (fun heq => by cases heq) fun hreference => hsyntax ⟨?_, ?_⟩
    · rw [hreference.1, List.append_assoc]
      exact List.prefix_append _ _
    · rw [hreference.1]
      exact List.suffix_append _ _
  · next hsyntax =>
    obtain ⟨hstart, ending, hending⟩ := not_not.mp hsyntax
    obtain ⟨inner, hinner⟩ : ∃ inner, raw.trim = ("$\x7bsecret:" : Text) ++ inner ++
        ("\x7d" : Text) := by
      obtain ⟨rest, hrest⟩ := hstart
      rcases List.eq_nil_or_concat rest with rfl | ⟨inner, c, rfl⟩
      · -- the start does not end with the brace
        rw [List.append_nil] at hrest
        have hlast := congrArg List.getLast? (hending.trans hrest.symm)
        rw [List.getLast?_append_of_ne_nil _ (by decide)] at hlast
        exact absurd hlast (by decide)
      · refine ⟨inner, ?_⟩
        have hlast := congrArg List.getLast? (hending.trans hrest.symm)
        rw [List.concat_eq_append, ← List.append_assoc, List.getLast?_concat,
          List.getLast?_append_of_ne_nil _ (by decide)] at hlast
        have hbrace : c = '\x7d' := Option.some.inj (hlast.symm.trans (by decide))
        rw [← hrest, hbrace, List.concat_eq_append, ← List.append_assoc]
        rfl
    rw [hinner, hcut]
    split
    · next hinvalid =>
      refine iff_of_false (fun heq => by cases heq) ?_
      rintro ⟨heq, hne, hvalid⟩
      have hname : inner = name := by
        rw [← hcut inner, heq, hcut]
      subst hname
      rcases hinvalid with hnil | hinvalid
      · exact hne hnil
      · rw [hinvalid] at hvalid
        cases hvalid
    · next hvalid =>
      obtain ⟨hne, hvalid⟩ := not_or.mp hvalid
      constructor
      · intro heq
        obtain rfl := Except.ok.inj heq
        exact ⟨rfl, hne, by simpa using hvalid⟩
      · rintro ⟨heq, -, -⟩
        rw [← hcut inner, heq, hcut]

/-- **Written and read again**, a secret is the reference it was, whether it has been resolved or
not: its value is not written. -/
theorem Secret.deserialize_serialize {raw : Text} {secret : Secret}
    (h : Secret.deserialize raw = .ok secret) (value : Option Text) :
    Secret.deserialize (Secret.serialize { secret with resolved := value }) = .ok secret := by
  obtain ⟨name, hname, rfl⟩ := map_eq_ok_iff.mp h
  obtain ⟨-, hne, hvalid⟩ := parseSecretReference_eq_ok_iff.mp hname
  refine map_eq_ok_iff.mpr ⟨name, parseSecretReference_eq_ok_iff.mpr ⟨?_, hne, hvalid⟩, rfl⟩
  exact Text.trim_cons_concat (c := '$') (d := '\x7d') (by decide) (by decide)
    (("\x7bsecret:" : Text) ++ name)

/-! ## The resolver -/

/-- The variables that can be read, and what the file of secrets has. -/
structure SecretResolver where
  env : Text → Option Text
  fileSecrets : List (Text × Text)
  secretsPathDisplay : Text

/-- What the file of secrets is read as: it need not be there, and reading and parsing can fail. -/
def SecretResolver.new (fromStr : Text → Except Text (List (Text × Text)))
    (env : Text → Option Text) (secretsPathDisplay : Text) (content : Option (Except Text Text)) :
    Except FrameworkError SecretResolver :=
  match content with
  | none => .ok ⟨env, [], secretsPathDisplay⟩
  | some (.error message) => .error (.io message)
  | some (.ok content) =>
      if content.trim = [] then .ok ⟨env, [], secretsPathDisplay⟩
      else
        match fromStr content with
        | .ok fileSecrets => .ok ⟨env, fileSecrets, secretsPathDisplay⟩
        | .error err =>
            .error (.config (("failed to parse secrets file " : Text) ++ secretsPathDisplay ++
              (": " : Text) ++ err))

def ensureNonempty (value source name secretsPathDisplay : Text) : Except FrameworkError Text :=
  if value.trim = [] then
    .error (.config (("secret '" : Text) ++ name ++ ("' resolved from " : Text) ++ source ++
      (" is empty; expected a non-empty value (searched env first, then " : Text) ++
        secretsPathDisplay ++ (")" : Text)))
  else .ok value

def SecretResolver.resolve (resolver : SecretResolver) (name : Text) :
    Except FrameworkError Text :=
  if name.trim = [] then .error (.config "secret name cannot be empty")
  else
    match resolver.env name with
    | some value =>
        ensureNonempty value (("environment variable '" : Text) ++ name ++ ("'" : Text)) name
          resolver.secretsPathDisplay
    | none =>
        match resolver.fileSecrets.lookup name with
        | some value =>
            ensureNonempty value (("secrets file " : Text) ++ resolver.secretsPathDisplay) name
              resolver.secretsPathDisplay
        | none =>
            .error (.config (("secret '" : Text) ++ name ++
              ("' not found in environment variable '" : Text) ++ name ++
                ("' or secrets file " : Text) ++ resolver.secretsPathDisplay))

/-- The value of a name, with the field that refers to it in the error. -/
def SecretResolver.resolveAt (resolver : SecretResolver) (fieldPath name : Text) :
    Except FrameworkError Text :=
  (resolver.resolve name).mapError fun err =>
    .config (fieldPath ++ (" failed to resolve: " : Text) ++ err.display)

def Secret.resolve (resolver : SecretResolver) (fieldPath : Text) (secret : Secret) :
    Except FrameworkError Secret :=
  (resolver.resolveAt fieldPath secret.name).map fun value => { secret with resolved := some value }

/-- `resolve_secret_field`: the value replaces the reference. -/
def resolveSecretField (resolver : SecretResolver) (path raw : Text) :
    Except FrameworkError Text := do
  let secretName ← parseSecretReference path raw
  resolver.resolveAt path secretName

/-! ## The configuration -/

/-- Variables of an execution, by their names in order. -/
structure SecretEnv where
  entries : List (Text × Secret)
  sorted : (entries.map Prod.fst).Pairwise (· < ·)

inductive ProviderSecrets where
  | gemini (apiKey : Option Secret)
  | moonshot (apiKey : Option Text) (oauthClientSecret : Option (Option Text))
  | openAiCodex

structure AgentSecrets where
  id : Text
  executionEnv : Option SecretEnv
  webSearchApiKey : Option (Option Secret)

structure SecretsConfig where
  providers : List (Text × ProviderSecrets)
  executionEnv : SecretEnv
  channels : List (GatewayChannelKind × Option Secret)
  agents : List AgentSecrets

/-- An optional field. -/
def resolveOption {α : Type} (resolve : α → Except FrameworkError α) :
    Option α → Except FrameworkError (Option α)
  | none => .ok none
  | some a => (resolve a).map some

def resolveEntries (resolver : SecretResolver) (fieldPath : Text)
    (entries : List (Text × Secret)) : Except FrameworkError (List (Text × Secret)) :=
  entries.mapM fun entry =>
    (entry.2.resolve resolver (fieldPath ++ ("." : Text) ++ entry.1)).map fun secret =>
      (entry.1, secret)

section References

open FirstFailure

variable (resolver : SecretResolver)

/-- A field that refers to a secret, and the name it has there. -/
structure Reference where
  fieldPath : Text
  name : Except FrameworkError Text

def SecretResolver.failure (reference : Reference) : Option FrameworkError :=
  errorOf (reference.name >>= resolver.resolveAt reference.fieldPath)

def SecretResolver.value (name : Text) : Option Text := (resolver.resolve name).toOption

example : let resolver : SecretResolver :=
      ⟨fun name => if name = ("A" : Text) then some "x" else none, [("A", "y"), ("B", "z")], "s"⟩
    (["A", "B", "C"] : List Text).map resolver.value =
      [some "x".toList, some "z".toList, none] := by decide

/-- The secret with its value. -/
def Secret.filled (secret : Secret) : Secret :=
  { secret with resolved := resolver.value secret.name }

theorem SecretResolver.resolveAt_eq_ok_iff {fieldPath name value : Text} :
    resolver.resolveAt fieldPath name = .ok value ↔ resolver.value name = some value := by
  rw [SecretResolver.resolveAt, SecretResolver.value]
  cases resolver.resolve name with
  | error err => exact iff_of_false (fun heq => by cases heq) fun heq => by cases heq
  | ok value' => exact ⟨fun heq => congrArg some (Except.ok.inj heq), fun heq =>
      congrArg Except.ok (Option.some.inj heq)⟩

theorem Secret.visits_resolve (fieldPath : Text) (secret : Secret) :
    Visits resolver.failure (secret.resolve resolver fieldPath) [⟨fieldPath, .ok secret.name⟩]
      (secret.filled resolver) := by
  refine visits_single ?_ ?_
  · change errorOf (resolver.resolveAt fieldPath secret.name) = _
    rw [Secret.resolve]
    cases resolver.resolveAt fieldPath secret.name <;> rfl
  · intro resolved hresolved
    obtain ⟨value, hvalue, rfl⟩ := map_eq_ok_iff.mp hresolved
    rw [Secret.filled, (resolver.resolveAt_eq_ok_iff).mp hvalue]

/-- What a reference in a plain field comes to. -/
def fillField (path raw : Text) : Text :=
  ((parseSecretReference path raw).toOption.bind resolver.value).getD raw

theorem visits_resolveSecretField (path raw : Text) :
    Visits resolver.failure (resolveSecretField resolver path raw)
      [⟨path, parseSecretReference path raw⟩] (fillField resolver path raw) := by
  refine visits_single rfl ?_
  intro value hvalue
  obtain ⟨name, hname, hvalue⟩ := bind_eq_ok_iff.mp hvalue
  rw [fillField, hname]
  change value = (resolver.value name).getD raw
  rw [(resolver.resolveAt_eq_ok_iff).mp hvalue, Option.getD_some]

theorem visits_resolveOption {α : Type} {resolve : α → Except FrameworkError α}
    {references : α → List Reference} {fill : α → α}
    (h : ∀ a, Visits resolver.failure (resolve a) (references a) (fill a)) (field : Option α) :
    Visits resolver.failure (resolveOption resolve field) (field.toList.flatMap references)
      (field.map fill) := by
  match field with
  | none => exact visits_ok _ _
  | some a =>
      rw [Option.toList_some, List.flatMap_singleton]
      exact (h a).map some

/-! ### Execution environments -/

def entryReference (fieldPath : Text) (entry : Text × Secret) : Reference :=
  ⟨fieldPath ++ ("." : Text) ++ entry.1, .ok entry.2.name⟩

def fillEntry (entry : Text × Secret) : Text × Secret := (entry.1, entry.2.filled resolver)

theorem visits_resolveEntries (fieldPath : Text) (entries : List (Text × Secret)) :
    Visits resolver.failure (resolveEntries resolver fieldPath entries)
      (entries.flatMap fun entry => [entryReference fieldPath entry])
      (entries.map (fillEntry resolver)) :=
  Visits.mapM fun entry _ => (entry.2.visits_resolve resolver _).map _

theorem map_fst_fillEntry (entries : List (Text × Secret)) :
    (entries.map (fillEntry resolver)).map Prod.fst = entries.map Prod.fst := by
  rw [List.map_map]
  rfl

def SecretEnv.filled (env : SecretEnv) : SecretEnv where
  entries := env.entries.map (fillEntry resolver)
  sorted := by
    rw [map_fst_fillEntry]
    exact env.sorted

theorem map_fst_of_resolveEntries {fieldPath : Text} {entries entries' : List (Text × Secret)}
    (h : resolveEntries resolver fieldPath entries = .ok entries') :
    entries'.map Prod.fst = entries.map Prod.fst := by
  obtain ⟨-, rfl⟩ := (visits_resolveEntries resolver fieldPath entries).eq_ok_iff.mp h
  exact map_fst_fillEntry resolver entries

def resolveExecutionEnvSecrets (fieldPath : Text) (env : SecretEnv) :
    Except FrameworkError SecretEnv :=
  match h : resolveEntries resolver fieldPath env.entries with
  | .error err => .error err
  | .ok entries => .ok ⟨entries, by rw [map_fst_of_resolveEntries resolver h]; exact env.sorted⟩

def SecretEnv.references (fieldPath : Text) (env : SecretEnv) : List Reference :=
  env.entries.flatMap fun entry => [entryReference fieldPath entry]

theorem visits_resolveExecutionEnvSecrets (fieldPath : Text) (env : SecretEnv) :
    Visits resolver.failure (resolveExecutionEnvSecrets resolver fieldPath env)
      (env.references fieldPath) (env.filled resolver) := by
  have hentries := visits_resolveEntries resolver fieldPath env.entries
  rw [resolveExecutionEnvSecrets]
  split
  · next err herr =>
    rw [herr] at hentries
    exact hentries.of_error
  · next entries hok =>
    obtain ⟨hnone, hfilled⟩ := hentries.eq_ok_iff.mp hok
    exact visits_of_forall_eq_none hnone (congrArg Except.ok (by cases hfilled; rfl))

/-! ### Everything else -/

def ProviderSecrets.resolveSecrets (key : Text) :
    ProviderSecrets → Except FrameworkError ProviderSecrets
  | .gemini apiKey =>
      (resolveOption (Secret.resolve resolver
        (("providers.entries." : Text) ++ key ++ (".api_key" : Text))) apiKey).map .gemini
  | .moonshot apiKey oauthClientSecret => do
      let apiKey ← resolveOption (resolveSecretField resolver
        (("providers.entries." : Text) ++ key ++ (".api_key" : Text))) apiKey
      let oauthClientSecret ← resolveOption (resolveOption (resolveSecretField resolver
        (("providers.entries." : Text) ++ key ++ (".oauth.client_secret" : Text))))
        oauthClientSecret
      pure (.moonshot apiKey oauthClientSecret)
  | .openAiCodex => .ok .openAiCodex

def resolveChannelSecrets (kind : GatewayChannelKind) :
    Option Secret → Except FrameworkError (Option Secret) :=
  resolveOption (Secret.resolve resolver
    (("gateway.channels." : Text) ++ kind.asStr ++ (".token" : Text)))

def agentEnvPath (id : Text) : Text :=
  ("agents.list[" : Text) ++ id ++ ("].config.execution.env" : Text)

def agentWebSearchPath (id : Text) : Text :=
  ("agents.list[" : Text) ++ id ++ ("].config.tools.web_search.api_key" : Text)

def AgentSecrets.resolveSecrets (agent : AgentSecrets) : Except FrameworkError AgentSecrets := do
  let executionEnv ←
    resolveOption (resolveExecutionEnvSecrets resolver (agentEnvPath agent.id)) agent.executionEnv
  let webSearchApiKey ←
    resolveOption (resolveOption (Secret.resolve resolver (agentWebSearchPath agent.id)))
      agent.webSearchApiKey
  pure { agent with executionEnv, webSearchApiKey }

def SecretsConfig.resolveSecrets (config : SecretsConfig) :
    Except FrameworkError SecretsConfig := do
  let providers ← config.providers.mapM fun entry =>
    (entry.2.resolveSecrets resolver entry.1).map (Prod.mk entry.1)
  let executionEnv ←
    resolveExecutionEnvSecrets resolver "execution.defaults.env" config.executionEnv
  let channels ← config.channels.mapM fun entry =>
    (resolveChannelSecrets resolver entry.1 entry.2).map (Prod.mk entry.1)
  let agents ← config.agents.mapM (AgentSecrets.resolveSecrets resolver)
  pure ⟨providers, executionEnv, channels, agents⟩

/-! ### All references -/

def secretReference (fieldPath : Text) (secret : Secret) : List Reference :=
  [⟨fieldPath, .ok secret.name⟩]

def fieldReference (fieldPath raw : Text) : List Reference :=
  [⟨fieldPath, parseSecretReference fieldPath raw⟩]

def optionReferences {α : Type} (references : α → List Reference) (field : Option α) :
    List Reference :=
  field.toList.flatMap references

def ProviderSecrets.references (key : Text) : ProviderSecrets → List Reference
  | .gemini apiKey =>
      optionReferences
        (secretReference (("providers.entries." : Text) ++ key ++ (".api_key" : Text))) apiKey
  | .moonshot apiKey oauthClientSecret =>
      optionReferences
          (fieldReference (("providers.entries." : Text) ++ key ++ (".api_key" : Text))) apiKey ++
        optionReferences (optionReferences (fieldReference
          (("providers.entries." : Text) ++ key ++ (".oauth.client_secret" : Text))))
          oauthClientSecret
  | .openAiCodex => []

def ProviderSecrets.filled (key : Text) : ProviderSecrets → ProviderSecrets
  | .gemini apiKey => .gemini (apiKey.map (Secret.filled resolver))
  | .moonshot apiKey oauthClientSecret =>
      .moonshot
        (apiKey.map
          (fillField resolver (("providers.entries." : Text) ++ key ++ (".api_key" : Text))))
        (oauthClientSecret.map (Option.map (fillField resolver
          (("providers.entries." : Text) ++ key ++ (".oauth.client_secret" : Text)))))
  | .openAiCodex => .openAiCodex

theorem ProviderSecrets.visits_resolveSecrets (key : Text) (entry : ProviderSecrets) :
    Visits resolver.failure (entry.resolveSecrets resolver key) (entry.references key)
      (entry.filled resolver key) := by
  match entry with
  | .gemini apiKey =>
      exact (visits_resolveOption resolver (Secret.visits_resolve resolver _) apiKey).map _
  | .moonshot apiKey oauthClientSecret =>
      refine (visits_resolveOption resolver (visits_resolveSecretField resolver _) apiKey).bind ?_
      exact (visits_resolveOption resolver (visits_resolveOption resolver
        (visits_resolveSecretField resolver _)) oauthClientSecret).bind_pure _
  | .openAiCodex => exact visits_ok _ _

def channelReferences (entry : GatewayChannelKind × Option Secret) : List Reference :=
  optionReferences
    (secretReference (("gateway.channels." : Text) ++ entry.1.asStr ++ (".token" : Text))) entry.2

def AgentSecrets.references (agent : AgentSecrets) : List Reference :=
  optionReferences (SecretEnv.references (agentEnvPath agent.id)) agent.executionEnv ++
    optionReferences (optionReferences (secretReference (agentWebSearchPath agent.id)))
      agent.webSearchApiKey

def AgentSecrets.filled (agent : AgentSecrets) : AgentSecrets where
  id := agent.id
  executionEnv := agent.executionEnv.map (SecretEnv.filled resolver)
  webSearchApiKey := agent.webSearchApiKey.map (Option.map (Secret.filled resolver))

theorem AgentSecrets.visits_resolveSecrets (agent : AgentSecrets) :
    Visits resolver.failure (agent.resolveSecrets resolver) agent.references
      (agent.filled resolver) := by
  refine (visits_resolveOption resolver (visits_resolveExecutionEnvSecrets resolver _)
    agent.executionEnv).bind ?_
  exact (visits_resolveOption resolver (visits_resolveOption resolver
    (Secret.visits_resolve resolver _)) agent.webSearchApiKey).bind_pure _

/-- The references of the configuration in the order in which they are looked up. -/
def SecretsConfig.references (config : SecretsConfig) : List Reference :=
  config.providers.flatMap (fun entry => entry.2.references entry.1) ++
    (config.executionEnv.references "execution.defaults.env" ++
      (config.channels.flatMap channelReferences ++
        config.agents.flatMap AgentSecrets.references))

def SecretsConfig.filled (config : SecretsConfig) : SecretsConfig where
  providers := config.providers.map fun entry => (entry.1, entry.2.filled resolver entry.1)
  executionEnv := config.executionEnv.filled resolver
  channels := config.channels.map fun entry => (entry.1, entry.2.map (Secret.filled resolver))
  agents := config.agents.map (AgentSecrets.filled resolver)

/-- **Loading** goes through the references: the first that cannot be resolved is the error, and
without one each secret has its value. -/
theorem SecretsConfig.visits_resolveSecrets (config : SecretsConfig) :
    Visits resolver.failure (config.resolveSecrets resolver) config.references
      (config.filled resolver) := by
  refine Visits.bind (Visits.mapM fun entry _ =>
    (entry.2.visits_resolveSecrets resolver entry.1).map (Prod.mk entry.1)) ?_
  refine (visits_resolveExecutionEnvSecrets resolver _ config.executionEnv).bind ?_
  refine Visits.bind (Visits.mapM fun entry _ => (visits_resolveOption resolver
    (Secret.visits_resolve resolver _) entry.2).map (Prod.mk entry.1)) ?_
  exact (Visits.mapM fun agent _ => agent.visits_resolveSecrets resolver).bind_pure _

end References

end Config
end SimpleClaw
