import SimpleClaw.Lib.DistinctChoice
import SimpleClaw.Lib.Occurrences
import SimpleClaw.React.XmlRoundTrip
import SimpleClaw.Tools.Executor

/-!
# Web search

A search asks one of two services and makes at most five results of what it answers.  Where the
answer is a tree of topics, it is gone through in order; a result whose address or description one
of the earlier ones has is left out, and every loop stops as soon as there are five.

The same is done in the process of the service or in the sandbox; what the services answer is a
parameter.

* `mapBraveResults`, `mapDuckduckgoResults`: the results.
* `WebSearchTool.plan`, `executeDirect`, `executeWasm`: the tool, with `guestRun`.
* `web_search_results`: which results there are, in the process and in the sandbox.
-/

namespace SimpleClaw
namespace Tools
namespace WebSearch

open DistinctChoice Providers

/-! ## Results -/

structure WebSearchResult where
  title : Text
  url : Text
  description : Text
  age : Option Text
  deriving DecidableEq

structure WebSearchOutput where
  provider : Text
  query : Text
  totalResultsReturned : Nat
  results : List WebSearchResult
  deriving DecidableEq

def defaultWebSearchMaxResults : Nat := 5

def trimmedAge (age : Option Text) : Option Text := (age.map Text.trim).filter (· ≠ [])

structure BraveWebResult where
  title : Text
  url : Text
  description : Text
  age : Option Text
  pageAge : Option Text

def mapBraveResult (result : BraveWebResult) : Option WebSearchResult :=
  if result.url.trim = [] then none
  else some ⟨result.title.trim, result.url.trim, result.description.trim,
    trimmedAge (result.age.or result.pageAge)⟩

def mapBraveResults (query : Text) (results : List BraveWebResult) : WebSearchOutput :=
  let mapped := (results.filterMap mapBraveResult).take defaultWebSearchMaxResults
  ⟨"brave", query, mapped.length, mapped⟩

/-- A result as it is kept. -/
def WebSearchResult.normalized (candidate : WebSearchResult) : WebSearchResult :=
  ⟨candidate.title.trim, candidate.url.trim, candidate.description.trim, trimmedAge candidate.age⟩

/-- The one that is there already has the address or the description of the other. -/
def clashes (existing candidate : WebSearchResult) : Bool :=
  (candidate.url ≠ [] && existing.url == candidate.url) ||
    (candidate.description ≠ [] && existing.description == candidate.description)

def pushResult (results : List WebSearchResult) (candidate : WebSearchResult) :
    List WebSearchResult :=
  if defaultWebSearchMaxResults ≤ results.length then results
  else if results.any (clashes · candidate.normalized) then results
  else results ++ [candidate.normalized]

def parseDuckduckgoText (text : Text) : Text × Text :=
  match text.trim.splitOnce " - " with
  | some (title, description) => (title.trim, description.trim)
  | none => (text.trim, text.trim)

/-- The result that an entry with a text is. -/
def resultOfText (entry : Value) : Option WebSearchResult :=
  (entry.str "Text").map fun text =>
    ⟨(parseDuckduckgoText text).1, (entry.str "FirstURL").getD [], (parseDuckduckgoText text).2,
      none⟩

def pushEntry (results : List WebSearchResult) (entry : Value) : List WebSearchResult :=
  match resultOfText entry with
  | some candidate => pushResult results candidate
  | none => results

/-- The loop over `Results`, which stops after an entry. -/
def pushResults (results : List WebSearchResult) : List Value → List WebSearchResult
  | [] => results
  | entry :: rawResults =>
      let results := pushEntry results entry
      if defaultWebSearchMaxResults ≤ results.length then results
      else pushResults results rawResults

/-- The loop over the topics of a group, which stops before an entry. -/
def pushNested (out : List WebSearchResult) : List Value → List WebSearchResult
  | [] => out
  | nested :: topics =>
      if defaultWebSearchMaxResults ≤ out.length then out
      else pushNested (pushEntry out nested) topics

def collectDuckduckgoRelatedTopics (out : List WebSearchResult) :
    List Value → List WebSearchResult
  | [] => out
  | topic :: related =>
      if defaultWebSearchMaxResults ≤ out.length then out
      else
        match resultOfText topic with
        | some candidate => collectDuckduckgoRelatedTopics (pushResult out candidate) related
        | none => collectDuckduckgoRelatedTopics (pushNested out (topic.items "Topics")) related

def trimmedField (value : Value) (key : Text) : Text := ((value.str key).getD []).trim

/-- What the answer says itself, if it does. -/
def abstractResult (query : Text) (value : Value) : Option WebSearchResult :=
  let abstractText := trimmedField value "AbstractText"
  let heading := trimmedField value "Heading"
  if abstractText = [] then none
  else some ⟨if heading = [] then query else heading, trimmedField value "AbstractURL",
    abstractText, none⟩

def mapDuckduckgoResults (query : Text) (value : Value) : WebSearchOutput :=
  let results := match abstractResult query value with
    | some candidate => pushResult [] candidate
    | none => []
  let results := pushResults results (value.items "Results")
  let results :=
    if results.length < defaultWebSearchMaxResults then
      collectDuckduckgoRelatedTopics results (value.items "RelatedTopics")
    else results
  ⟨"duckduckgo", query, results.length, results⟩

/-! ## The loops -/

/-- What a topic offers: itself, or else the topics of the group that it is. -/
def offeredByTopic (topic : Value) : List WebSearchResult :=
  match resultOfText topic with
  | some candidate => [candidate]
  | none => (topic.items "Topics").filterMap resultOfText

/-- All that an answer offers, in order. -/
def offered (query : Text) (value : Value) : List WebSearchResult :=
  (abstractResult query value).toList ++ (value.items "Results").filterMap resultOfText ++
    (value.items "RelatedTopics").flatMap offeredByTopic

/-- The results when more is offered. -/
def pushAll (results more : List WebSearchResult) : List WebSearchResult :=
  more.foldl pushResult results

theorem pushAll_eq (results more : List WebSearchResult) :
    pushAll results more = (more.map WebSearchResult.normalized).foldl
      (keepUpTo clashes defaultWebSearchMaxResults) results := by
  rw [List.foldl_map]
  rfl

theorem pushAll_append (results more rest : List WebSearchResult) :
    pushAll results (more ++ rest) = pushAll (pushAll results more) rest :=
  List.foldl_append

theorem pushAll_of_full {results : List WebSearchResult}
    (h : defaultWebSearchMaxResults ≤ results.length) (more : List WebSearchResult) :
    pushAll results more = results := by
  rw [pushAll_eq, foldl_keepUpTo_of_full h]

theorem pushEntry_eq (results : List WebSearchResult) (entry : Value) :
    pushEntry results entry = pushAll results (resultOfText entry).toList := by
  rw [pushEntry]
  cases resultOfText entry <;> rfl

theorem pushAll_filterMap_cons (results : List WebSearchResult) (entry : Value)
    (entries : List Value) :
    pushAll results ((entry :: entries).filterMap resultOfText) =
      pushAll (pushEntry results entry) (entries.filterMap resultOfText) := by
  rw [pushEntry_eq, ← pushAll_append, List.filterMap_cons]
  cases resultOfText entry <;> rfl

theorem pushResults_eq (entries : List Value) (results : List WebSearchResult) :
    pushResults results entries = pushAll results (entries.filterMap resultOfText) := by
  induction entries generalizing results with
  | nil => rfl
  | cons entry entries ih =>
      rw [pushAll_filterMap_cons, pushResults]
      split
      · next hfull => rw [pushAll_of_full hfull]
      · exact ih _

theorem pushNested_eq (topics : List Value) (out : List WebSearchResult) :
    pushNested out topics = pushAll out (topics.filterMap resultOfText) := by
  induction topics generalizing out with
  | nil => rfl
  | cons topic topics ih =>
      rw [pushNested]
      split
      · next hfull => rw [pushAll_of_full hfull]
      · rw [pushAll_filterMap_cons]
        exact ih _

theorem collectDuckduckgoRelatedTopics_eq (related : List Value) (out : List WebSearchResult) :
    collectDuckduckgoRelatedTopics out related =
      pushAll out (related.flatMap offeredByTopic) := by
  induction related generalizing out with
  | nil => rfl
  | cons topic related ih =>
      rw [collectDuckduckgoRelatedTopics]
      split
      · next hfull => rw [pushAll_of_full hfull]
      · rw [List.flatMap_cons, pushAll_append, offeredByTopic]
        split
        · exact ih _
        · rw [ih, pushNested_eq]

/-- **Stopping early makes no difference**: the results are the first five of those that do not
clash, of all that the answer offers. -/
theorem results_mapDuckduckgoResults (query : Text) (value : Value) :
    (mapDuckduckgoResults query value).results =
      (choose clashes ((offered query value).map WebSearchResult.normalized)).take
        defaultWebSearchMaxResults := by
  have hfirst : (match abstractResult query value with
      | some candidate => pushResult [] candidate
      | none => []) = pushAll [] (abstractResult query value).toList := by
    cases abstractResult query value <;> rfl
  have hlast : ∀ results : List WebSearchResult,
      (if results.length < defaultWebSearchMaxResults then
        collectDuckduckgoRelatedTopics results (value.items "RelatedTopics")
      else results) = pushAll results ((value.items "RelatedTopics").flatMap offeredByTopic) := by
    intro results
    split
    · exact collectDuckduckgoRelatedTopics_eq _ _
    · next hfull => rw [pushAll_of_full (Nat.not_lt.mp hfull)]
  rw [← foldl_keepUpTo, ← pushAll_eq, offered, pushAll_append, pushAll_append, ← hfirst,
    ← pushResults_eq]
  exact hlast _

/-- **The results** are the first five of those that do not clash, of all that is offered: no two
have an address or a description in common, and nothing else is left out while there is room. -/
structure FirstDistinct (offers results : List WebSearchResult) : Prop where
  first : results = (choose clashes offers).take defaultWebSearchMaxResults
  distinct : results.Pairwise fun earlier later => clashes earlier later = false
  inOrder : results.Sublist offers
  complete : ∀ offer ∈ offers, offer ∈ results ∨
    (∃ result ∈ results, clashes result offer = true) ∨
    results.length = defaultWebSearchMaxResults

theorem firstDistinct_take (offers : List WebSearchResult) :
    FirstDistinct offers ((choose clashes offers).take defaultWebSearchMaxResults) where
  first := rfl
  distinct := (pairwise_choose clashes offers).sublist (List.take_sublist _ _)
  inOrder := (List.take_sublist _ _).trans (choose_sublist clashes offers)
  complete offer hoffer := by
    obtain hfew | hmany :=
      Nat.lt_or_ge (choose clashes offers).length defaultWebSearchMaxResults
    · rw [List.take_of_length_le (Nat.le_of_lt hfew)]
      exact (mem_choose_or_clashes hoffer).imp id .inl
    · exact .inr (.inr (by rw [List.length_take, Nat.min_eq_left hmany]))

/-! ## The tool -/

inductive WebSearchProvider where
  | brave
  | duckduckgo
  deriving DecidableEq

structure WebSearchToolRuntimeConfig where
  provider : WebSearchProvider
  apiKey : Option Text
  timeoutSeconds : Option Nat

def defaultWebSearchTimeoutSeconds : Nat := 20

def parseSimpleTextArg (json : SerdeJson) (argsJson : Text) : Text :=
  match json.fromStr argsJson with
  | .ok value =>
      ((value.asStr.or (value.str "query")).or ((value.str "url").or (value.str "path"))).getD
        (argsJson.trimMatches (· == '"'))
  | .error _ => argsJson.trimMatches (· == '"')

def WebSearchToolRuntimeConfig.plan (config : WebSearchToolRuntimeConfig) (json : SerdeJson)
    (argsJson : Text) : Except FrameworkError WebSearchPlan :=
  let query := (parseSimpleTextArg json argsJson).trim
  if query = [] then .error (.tool "search requires a non-empty query")
  else .ok ⟨query, config.timeoutSeconds.getD defaultWebSearchTimeoutSeconds⟩

/-- What comes back of a request: with a status, the error that the library makes of it, and what
is decoded of the rest. -/
inductive HttpAnswer (P : Type) where
  | timedOut
  | sendFailed (message : Text)
  | answered (status : Nat) (statusError : Text) (payload : Except Text P)

/-- How the two services answer. -/
structure SearchServices where
  brave : (query apiKey : Text) → HttpAnswer (List BraveWebResult)
  duckduckgo : (query : Text) → HttpAnswer Value

section Search

variable (services : SearchServices) (query : Text) (timeoutSeconds : Nat)

def searchTimedOut : Text :=
  ("search timed out after " : Text) ++ Text.decimal timeoutSeconds ++ ("s" : Text)

def decoded {P : Type} : Except Text P → Except Text P
  | .ok payload => .ok payload
  | .error err => .error (("search decode failed: " : Text) ++ err)

def searchBrave (apiKey : Text) : Except Text WebSearchOutput :=
  match services.brave query apiKey with
  | .timedOut => .error (searchTimedOut timeoutSeconds)
  | .sendFailed err => .error (("search request failed: " : Text) ++ err)
  | .answered status _ payload =>
      if 200 ≤ status ∧ status < 300 then (decoded payload).map (mapBraveResults query)
      else if status = 401 ∨ status = 403 then
        .error (("search authentication failed: provider=brave status=" : Text) ++
          Text.decimal status)
      else
        .error (("search response error: provider=brave status=" : Text) ++ Text.decimal status)

def searchDuckduckgo : Except Text WebSearchOutput :=
  match services.duckduckgo query with
  | .timedOut => .error (searchTimedOut timeoutSeconds)
  | .sendFailed err => .error (("search request failed: " : Text) ++ err)
  | .answered status statusError payload =>
      if 400 ≤ status ∧ status < 600 then
        .error (("search response error: " : Text) ++ statusError)
      else (decoded payload).map (mapDuckduckgoResults query)

/-- What the tool does in the process and in the sandbox, with the texts of its errors. -/
def search (provider : WebSearchProvider) (apiKey : Option Text) : Except Text WebSearchOutput :=
  match provider with
  | .brave =>
      match (apiKey.map Text.trim).filter (· ≠ []) with
      | some apiKey => searchBrave services query timeoutSeconds apiKey
      | none => .error "search is misconfigured: api_key is required for provider=brave"
  | .duckduckgo => searchDuckduckgo services query timeoutSeconds

end Search

def WebSearchResult.toValue (result : WebSearchResult) : Value :=
  .object (([("title", .string result.title), ("url", .string result.url),
    ("description", .string result.description)] : List (Text × Value)) ++
      (result.age.map fun age => (("age" : Text), Value.string age)).toList)

def WebSearchOutput.toValue (output : WebSearchOutput) : Value :=
  .object [("provider", .string output.provider), ("query", .string output.query),
    ("total_results_returned", .number (Text.decimal output.totalResultsReturned)),
    ("results", .array (output.results.map WebSearchResult.toValue))]

/-- `WebSearchTool::execute_direct` -/
def WebSearchToolRuntimeConfig.executeDirect (config : WebSearchToolRuntimeConfig)
    (json : SerdeJson) (services : SearchServices) (plan : WebSearchPlan) :
    Except FrameworkError Text :=
  match search services plan.query plan.timeoutSeconds config.provider config.apiKey with
  | .ok output => .ok (json.toString output.toValue)
  | .error message => .error (.tool message)

/-- The arguments of the program in the sandbox. -/
structure WebSearchArgs where
  query : Text
  provider : WebSearchProvider
  apiKey : Option Text
  timeoutSeconds : Option Nat

structure WasmRunResult where
  exitCode : Int
  stdout : Text
  stderr : Text

/-- `main` of the program in the sandbox. -/
def guestRun (json : SerdeJson) (services : SearchServices) (args : WebSearchArgs) :
    WasmRunResult :=
  let result :=
    if args.query.trim = [] then .error ("search requires a non-empty query" : Text)
    else search services args.query.trim
      (args.timeoutSeconds.getD defaultWebSearchTimeoutSeconds) args.provider args.apiKey
  match result with
  | .ok output => ⟨0, json.toString output.toValue, []⟩
  | .error message => ⟨1, [], message ++ ("\n" : Text)⟩

/-- `WebSearchTool::execute_wasm` -/
def WebSearchToolRuntimeConfig.executeWasm (config : WebSearchToolRuntimeConfig)
    (run : WebSearchArgs → Except FrameworkError WasmRunResult) (plan : WebSearchPlan) :
    Except FrameworkError Text :=
  match run ⟨plan.query, config.provider, config.apiKey, some plan.timeoutSeconds⟩ with
  | .error err => .error err
  | .ok output =>
      if output.exitCode ≠ 0 then
        .error (.tool (("web_search tool failed: exit_code=" : Text) ++
          (toString output.exitCode).toList ++ (" stderr=" : Text) ++ output.stderr.trim))
      else .ok output.stdout

/-! ## What a search comes to -/

section Served

variable {json : SerdeJson} {services : SearchServices} {config : WebSearchToolRuntimeConfig}
  {plan : WebSearchPlan}

theorem trim_query {argsJson : Text} (h : config.plan json argsJson = .ok plan) :
    plan.query.trim = plan.query ∧ plan.query ≠ [] := by
  unfold WebSearchToolRuntimeConfig.plan at h
  dsimp only at h
  split at h
  · cases h
  · next hquery =>
    obtain rfl := Except.ok.inj h
    exact ⟨Text.trim_trim _, hquery⟩

/-- What the sandboxed tool makes of the outcome of the direct one. -/
def sandboxed : Except FrameworkError Text → Except FrameworkError Text
  | .error (.tool message) =>
      .error (.tool (("web_search tool failed: exit_code=1 stderr=" : Text) ++ message.trim))
  | outcome => outcome

/-- **A search in the sandbox comes to what it comes to in the process.** -/
theorem executeWasm_guestRun {argsJson : Text} (h : config.plan json argsJson = .ok plan) :
    config.executeWasm (fun args => .ok (guestRun json services args)) plan =
      sandboxed (config.executeDirect json services plan) := by
  obtain ⟨htrim, hquery⟩ := trim_query h
  unfold WebSearchToolRuntimeConfig.executeWasm WebSearchToolRuntimeConfig.executeDirect guestRun
  dsimp only
  rw [htrim, if_neg hquery, Option.getD_some]
  cases search services plan.query plan.timeoutSeconds config.provider config.apiKey with
  | ok output => rfl
  | error message =>
      have hcode : ("web_search tool failed: exit_code=" : Text) ++ (toString (1 : Int)).toList ++
          (" stderr=" : Text) = ("web_search tool failed: exit_code=1 stderr=" : Text) := by
        decide +kernel
      have hnewline : (message ++ ("\n" : Text)).trim = message.trim :=
        Text.trimMatches_append (fun c hc => absurd hc List.not_mem_nil)
          (Text.forall_mem_of_all (by decide)) message
      dsimp only
      rw [if_pos (by decide), hcode, hnewline]
      rfl

/-- **A search**: with an answer that can be decoded the results are the first five that are offered
and do not clash, or the first five with an address; and in the sandbox the same comes out. -/
structure SearchServed (json : SerdeJson) (services : SearchServices)
    (config : WebSearchToolRuntimeConfig) (plan : WebSearchPlan) : Prop where
  duckduckgo : config.provider = .duckduckgo → ∀ status statusError value,
    services.duckduckgo plan.query = .answered status statusError (.ok value) →
    ¬ (400 ≤ status ∧ status < 600) → ∃ output : WebSearchOutput,
      config.executeDirect json services plan = .ok (json.toString output.toValue) ∧
      output.totalResultsReturned = output.results.length ∧
      FirstDistinct ((offered plan.query value).map WebSearchResult.normalized) output.results
  brave : config.provider = .brave → ∀ apiKey status statusError results,
    (config.apiKey.map Text.trim).filter (· ≠ []) = some apiKey →
    services.brave plan.query apiKey = .answered status statusError (.ok results) →
    200 ≤ status ∧ status < 300 → ∃ output : WebSearchOutput,
      config.executeDirect json services plan = .ok (json.toString output.toValue) ∧
      output.totalResultsReturned = output.results.length ∧
      output.results = (results.filterMap mapBraveResult).take defaultWebSearchMaxResults
  sandbox : config.executeWasm (fun args => .ok (guestRun json services args)) plan =
    sandboxed (config.executeDirect json services plan)

theorem web_search_results {argsJson : Text} (h : config.plan json argsJson = .ok plan) :
    SearchServed json services config plan where
  duckduckgo := by
    intro hprovider status statusError value hanswer hstatus
    refine ⟨mapDuckduckgoResults plan.query value, ?_, rfl, ?_⟩
    · unfold WebSearchToolRuntimeConfig.executeDirect search
      rw [hprovider]
      dsimp only
      rw [searchDuckduckgo, hanswer]
      dsimp only
      rw [if_neg hstatus]
      rfl
    · rw [results_mapDuckduckgoResults]
      exact firstDistinct_take _
  brave := by
    intro hprovider apiKey status statusError results hkey hanswer hstatus
    refine ⟨mapBraveResults plan.query results, ?_, rfl, rfl⟩
    unfold WebSearchToolRuntimeConfig.executeDirect search
    rw [hprovider]
    dsimp only
    rw [hkey]
    dsimp only
    rw [searchBrave, hanswer]
    dsimp only
    rw [if_pos hstatus]
    rfl
  sandbox := executeWasm_guestRun h

end Served

/-- What a service says of a language; its topics repeat what has been said. -/
def rustAnswer : Value :=
  .object [("Heading", .string "Rust"), ("AbstractText", .string "A language."),
    ("AbstractURL", .string "https://rust.example"),
    ("Results", .array []),
    ("RelatedTopics", .array
      [.object [("Text", .string "Rust - A language."), ("FirstURL", .string "https://a.example")],
        .object [("Name", .string "Books"), ("Topics", .array
          [.object [("Text", .string "The Book - A book."),
            ("FirstURL", .string "https://book.example")]])]])]

def rustServices : SearchServices where
  brave _ _ := .timedOut
  duckduckgo _ := .answered 200 [] (.ok rustAnswer)

def rustQuery : Value := .object [("query", .string " rust ")]

theorem web_search_results_rust : ∃ plan,
    (WebSearchToolRuntimeConfig.mk .duckduckgo none none).plan
      (React.XmlDispatcher.readerOf rustQuery) rustQuery.compact = .ok plan ∧
    (mapDuckduckgoResults plan.query rustAnswer).results.map WebSearchResult.title =
      ["Rust".toList, "The Book".toList] ∧
    SearchServed (React.XmlDispatcher.readerOf rustQuery) rustServices
      ⟨.duckduckgo, none, none⟩ plan := by
  have hplan : (WebSearchToolRuntimeConfig.mk .duckduckgo none none).plan
      (React.XmlDispatcher.readerOf rustQuery) rustQuery.compact = .ok ⟨"rust", 20⟩ := by
    decide +kernel
  exact ⟨_, hplan, by decide +kernel, web_search_results hplan⟩

end WebSearch
end Tools
end SimpleClaw
