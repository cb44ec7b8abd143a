import RecipeClient.Cli
import RecipeClient.Proofs.ExportLinks
import RecipeClient.Proofs.Json.Canonical
import RecipeClient.Proofs.StoreTasks
import RecipeClient.Proofs.TokenAgreement

/-!
# Runs of the command line

A run first gets in: with a token of the environment, with a token that it logs in for, or without
one. It then does what the arguments ask for, with requests that all bear that token, unless the
login failed: then it has done nothing else.

- `Cli.Enters`: how a run gets in
- `Cli.Obeys`: what a run exchanges and leaves behind for its arguments
- `Cli.follows_run`: every run gets in and obeys, or is refused
-/

namespace RecipeClient.Cli

open Dialogue (keepsToken_pure)
open Json (Codec Entries Value)

/-! ## Variables -/

section Variables

variable {lookup : String → Option String} {name value : String}

/-- A variable is set to a value that is not blank. -/
def Given (lookup : String → Option String) (name value : String) : Prop :=
  lookup name = some value ∧ ∃ c ∈ value.toList, Text.isBlank c = false

/-- A variable is not set, or is blank. -/
def Missing (lookup : String → Option String) (name : String) : Prop :=
  ∀ value, ¬ Given lookup name value

theorem meaningful?_eq_some_iff : Config.meaningful? lookup name = some value ↔
    Given lookup name value := by
  simp [Config.meaningful?, Given, Text.isAllBlank]

theorem meaningful?_eq_none_iff : Config.meaningful? lookup name = none ↔ Missing lookup name := by
  simp only [Option.eq_none_iff_forall_ne_some, ne_eq, meaningful?_eq_some_iff, Missing]

/-- What is cut off are slashes, and all of them. -/
theorem cut_withoutTrailingSlashes (s : String) : ∃ slashes,
    s.toList = (Text.withoutTrailingSlashes s).toList ++ List.replicate slashes '/' ∧
      (Text.withoutTrailingSlashes s).toList.getLast? ≠ some '/' := by
  let reversed := s.toList.reverse
  have hall : ∀ c ∈ reversed.takeWhile (· == '/'), c = '/' := fun c hc =>
    eq_of_beq (List.all_eq_true.mp List.all_takeWhile c hc)
  have hkept : (Text.withoutTrailingSlashes s).toList =
      (reversed.dropWhile (· == '/')).reverse := by
    rw [Text.withoutTrailingSlashes, String.toList_ofList]
    rfl
  refine ⟨(reversed.takeWhile (· == '/')).length, ?_, ?_⟩
  · calc
      s.toList = (reversed.takeWhile (· == '/') ++ reversed.dropWhile (· == '/')).reverse := by
        rw [List.takeWhile_append_dropWhile, List.reverse_reverse]
      _ = (reversed.dropWhile (· == '/')).reverse ++
          (reversed.takeWhile (· == '/')).reverse := List.reverse_append
      _ = _ := by
        rw [hkept, ← List.reverse_replicate, ← List.eq_replicate_of_mem hall]
  · rw [hkept, List.getLast?_reverse]
    intro hslash
    have hnot := List.head?_dropWhile_not (· == '/') reversed
    rw [hslash] at hnot
    exact absurd hnot (by simp)

/-- The address of the server that variables give: without slashes at its end. -/
inductive Located (lookup : String → Option String) : String → Prop where
  | configured {value address : String} {slashes : Nat}
      (given : Given lookup "MEALIE_BASE_URL" value)
      (cut : value.toList = address.toList ++ List.replicate slashes '/')
      (bare : address.toList.getLast? ≠ some '/') : Located lookup address
  | usual (missing : Missing lookup "MEALIE_BASE_URL") : Located lookup "http://localhost:9000"

theorem located_address : Located lookup (Config.ofVariables lookup).address := by
  have haddress : (Config.ofVariables lookup).address =
      ((Config.meaningful? lookup "MEALIE_BASE_URL").map Text.withoutTrailingSlashes).getD
        "http://localhost:9000" := rfl
  rw [haddress]
  cases hvalue : Config.meaningful? lookup "MEALIE_BASE_URL" with
  | none => exact .usual (meaningful?_eq_none_iff.mp hvalue)
  | some value =>
    obtain ⟨slashes, hcut, hbare⟩ := cut_withoutTrailingSlashes value
    exact .configured (meaningful?_eq_some_iff.mp hvalue) hcut hbare

end Variables

/-! ## Exchanges -/

/-- A request was sent, and the reply to it reads as a result. -/
structure Asks {σ α : Type} (e : Exchanged σ) (request : Request) (codec : Codec α)
    (result : Except Failure α) : Prop where
  sent : e.request = request
  read : e.reply.reading codec request = result

/-- A dialogue that is one request goes on with what is made of the reply to it. -/
theorem asks_first {σ α β γ : Type} {line : Line σ} {first : Dialogue β} {request : Request}
    {codec : Codec γ} {f : Except Failure γ → β}
    (h : first = .send request fun reply => .done (f (reply.reading codec request)))
    (next : β → Dialogue α) (state : σ) :
    ∃ e later result, Asks e request codec result ∧
      (first >>= next).exchanges line state = e :: (next (f result)).exchanges line later ∧
      (first >>= next).run line state = (next (f result)).run line later := by
  subst h
  exact ⟨⟨request, state, (line.reply request state).1⟩, (line.reply request state).2, _,
    ⟨rfl, rfl⟩, rfl, rfl⟩

/-! ## Getting in -/

/-- How a run gets in. -/
inductive Entry where
  /-- The login failed. -/
  | refused
  /-- The requests bear a token, or none. -/
  | under (token : Option String)

/-- The request that exchanges a name and a password for a token. -/
def loginRequest (username password : String) : Request :=
  ⟨.post, "/api/auth/token",
    .pairs [("password", password), ("remember_me", "false"), ("username", username)], none⟩

/-- A login with the name and the password of the environment, sent without a token. -/
structure LogsIn {σ : Type} (token : σ → Option String) (lookup : String → Option String)
    (e : Exchanged σ) (result : Except Failure AuthToken) : Prop where
  tokenless : Missing lookup "MEALIE_API_TOKEN"
  asks : ∃ username password, Given lookup "MEALIE_USERNAME" username ∧
    Given lookup "MEALIE_PASSWORD" password ∧
    Asks e (loginRequest username password) AuthToken.codec result
  bare : token e.before = none

/-- How the environment lets a run get in, and what is exchanged for that. -/
inductive Enters {σ : Type} (token : σ → Option String) (lookup : String → Option String) :
    List (Exchanged σ) → Entry → Prop where
  | byToken {told : String} (given : Given lookup "MEALIE_API_TOKEN" told) :
      Enters token lookup [] (.under (some told))
  | byLogin {e : Exchanged σ} {answer : AuthToken} (login : LogsIn token lookup e (.ok answer)) :
      Enters token lookup [e] (.under (some answer.accessToken))
  | refused {e : Exchanged σ} {failure : Failure} (login : LogsIn token lookup e (.error failure)) :
      Enters token lookup [e] .refused
  | anonymous (tokenless : Missing lookup "MEALIE_API_TOKEN")
      (missing : Missing lookup "MEALIE_USERNAME" ∨ Missing lookup "MEALIE_PASSWORD") :
      Enters token lookup [] (.under none)

section Entering

variable {σ : Type} {line : Line σ} {token : σ → Option String} {state : σ}
  {lookup : String → Option String} {config : Config} {client : Client}

theorem credentials_eq_some {username password : String}
    (h : config.credentials = some (username, password)) :
    config.username = some username ∧ config.password = some password := by
  unfold Config.credentials at h
  split at h
  · rename_i husername hpassword
    obtain ⟨rfl, rfl⟩ := Prod.mk.inj (Option.some.inj h)
    exact ⟨husername, hpassword⟩
  · exact nomatch h

theorem credentials_eq_none (h : config.credentials = none) :
    config.username = none ∨ config.password = none := by
  unfold Config.credentials at h
  split at h
  · exact nomatch h
  · rename_i hboth
    cases husername : config.username with
    | none => exact Or.inl rfl
    | some username =>
      cases hpassword : config.password with
      | none => exact Or.inr rfl
      | some password => exact absurd hpassword (hboth username password husername)

theorem sorted_login (username password rememberMe : Value) :
    Entries.sorted [("username", username), ("password", password), ("remember_me", rememberMe)] =
      [("password", password), ("remember_me", rememberMe), ("username", username)] := by
  have hpassword : "password" < "username" := by decide
  have hbehind : ¬ "remember_me" < "password" := by decide
  have hother : "remember_me" ≠ "password" := by decide
  have hfront : "remember_me" < "username" := by decide
  simp only [Entries.sorted, List.foldl, Entries.insert, if_pos hpassword, if_neg hbehind,
    if_neg hother, if_pos hfront]

theorem loginRequest_eq (username password : String) :
    Client.loginRequest username password = .ok (loginRequest username password) := by
  have hvalue : (AuthRequest.codec.toValue { username, password, rememberMe := false }).canonical =
      .object [("password", .string password), ("remember_me", .boolean false),
        ("username", .string username)] := by
    rw [Codec.toValue, Value.canonical_canonical]
    exact congrArg Value.object (sorted_login _ _ _)
  have hpairs : Query.ofParameters
      (AuthRequest.codec.toValue { username, password, rememberMe := false }) =
        .ok [("password", password), ("remember_me", "false"), ("username", username)] := by
    rw [Query.ofParameters, hvalue]
    rfl
  rw [Client.loginRequest, Request.posting, hpairs]
  rfl

theorem enter_of_token {told : String} (h : config.token = some told) :
    enter config client = .done (true, client) := by
  simp only [enter, h]
  rfl

theorem enter_of_tokenless (h : config.token = none) (hcredentials : config.credentials = none) :
    enter config client = .done (true, client) := by
  simp only [enter, h, hcredentials]
  rfl

theorem enter_of_credentials {username password : String} (h : config.token = none)
    (hcredentials : config.credentials = some (username, password)) :
    enter config client =
      client.login username password >>= fun (answer, after) =>
        pure (answer.isOk, after) := by
  simp only [enter, h, hcredentials]
  refine congrArg _ (funext ?_)
  rintro ⟨failure | done, after⟩ <;> rfl

/-- What getting in leaves behind: whether it succeeded, and the line with the token that requests
bear from then on. -/
inductive Entered (client : Client) (token : σ → Option String) : Entry → (Bool × Client) × σ → Prop
    where
  | refused {after : Client} {later : σ} : Entered client token .refused ((false, after), later)
  | under {bearing : Option String} {after : Client} {later : σ}
      (address : after.address = client.address) (bears : token later = bearing) :
      Entered client token (.under bearing) ((true, after), later)

/-- A run gets in as its environment says. -/
theorem enters_enter (hline : line.Keeps token)
    (hstate : token state = (Config.ofVariables lookup).token) (client : Client) :
    ∃ entry,
      Enters token lookup ((enter (Config.ofVariables lookup) client).exchanges line state) entry ∧
      Entered client token entry ((enter (Config.ofVariables lookup) client).run line state) := by
  cases htoken : (Config.ofVariables lookup).token with
  | some told =>
    rw [enter_of_token htoken]
    exact ⟨.under (some told), .byToken (meaningful?_eq_some_iff.mp htoken),
      .under rfl (hstate.trans htoken)⟩
  | none =>
    have htokenless : Missing lookup "MEALIE_API_TOKEN" := meaningful?_eq_none_iff.mp htoken
    cases hcredentials : (Config.ofVariables lookup).credentials with
    | none =>
      rw [enter_of_tokenless htoken hcredentials]
      have hmissing := (credentials_eq_none hcredentials).imp meaningful?_eq_none_iff.mp
        meaningful?_eq_none_iff.mp
      exact ⟨.under none, .anonymous htokenless hmissing, .under rfl (hstate.trans htoken)⟩
    | some credentials =>
      obtain ⟨username, password⟩ := credentials
      obtain ⟨husername, hpassword⟩ := credentials_eq_some hcredentials
      obtain ⟨request, reply, later, hrequest, hreply, hexchanges, hcases⟩ :=
        Session.login_cases line state client username password
      obtain rfl := Except.ok.inj ((loginRequest_eq username password).symm.trans hrequest)
      have hlogs {result : Except Failure AuthToken}
          (hread : reply.reading AuthToken.codec (loginRequest username password) = result) :
          LogsIn token lookup ⟨loginRequest username password, state, reply⟩ result :=
        ⟨htokenless, ⟨username, password, meaningful?_eq_some_iff.mp husername,
          meaningful?_eq_some_iff.mp hpassword, rfl, hread⟩, hstate.trans htoken⟩
      rw [enter_of_credentials htoken hcredentials, Dialogue.exchanges_bind, Dialogue.run_bind,
        hexchanges]
      rcases hcases with ⟨answer, hread, hrun⟩ | ⟨failure, told, hread, hrun⟩
      · rw [hrun]
        exact ⟨_, .byLogin (hlogs hread), .under rfl (hline.bear _ _)⟩
      · rw [hrun]
        exact ⟨_, .refused (hlogs hread), .refused⟩

end Entering

/-! ## Doing what is asked for -/

/-- What a run that got in exchanges for its arguments, and what it leaves behind. -/
inductive Obeys {σ : Type} (address : String) (disk : Disk) :
    List String → List (Exchanged σ) → Outcome → Prop where
  | barred {arguments : List String} {e : Exchanged σ} {failure : Failure}
      (idle : arguments = [] ∨ arguments.head? = some "check")
      (household : Asks e (.get "/api/households/self") HouseholdInDB.codec (.error failure)) :
      Obeys address disk arguments [e]
        { succeeded := false, complaint := failure.message, disk }
  /-- The reply to the second request does not matter. -/
  | checked {arguments : List String} {e numbers : Exchanged σ} {household : HouseholdInDB}
      (idle : arguments = [] ∨ arguments.head? = some "check")
      (household : Asks e (.get "/api/households/self") HouseholdInDB.codec (.ok household))
      (statistics : numbers.request = .get "/api/households/statistics") :
      Obeys address disk arguments [e, numbers] { succeeded := true, disk }
  | unlisted {more : List String} {e : Exchanged σ} {failure : Failure}
      (list : Asks e (.get "/api/organizers/tools?page=1&perPage=-1")
        (Page.codec RecipeTool.codec) (.error failure)) :
      Obeys address disk ("tools" :: more) [e]
        { succeeded := false, complaint := failure.message, disk }
  | printed {e : Exchanged σ} {page : Page RecipeTool}
      (list : Asks e (.get "/api/organizers/tools?page=1&perPage=-1")
        (Page.codec RecipeTool.codec) (.ok page)) :
      Obeys address disk ["tools"] [e]
        { succeeded := true, output := toolLines page.items, disk }
  | saved {path : String} {more : List String} {e : Exchanged σ} {page : Page RecipeTool}
      {later : Disk}
      (list : Asks e (.get "/api/organizers/tools?page=1&perPage=-1")
        (Page.codec RecipeTool.codec) (.ok page))
      (written : disk.write path (toolFile page.items) = .ok later) :
      Obeys address disk ("tools" :: path :: more) [e]
        { succeeded := true, output := toolLines page.items, disk := later }
  | unsaved {path : String} {more : List String} {e : Exchanged σ} {page : Page RecipeTool}
      {failure : SaveFailure}
      (list : Asks e (.get "/api/organizers/tools?page=1&perPage=-1")
        (Page.codec RecipeTool.codec) (.ok page))
      (failed : disk.write path (toolFile page.items) = .error failure) :
      Obeys address disk ("tools" :: path :: more) [e]
        { succeeded := false, output := toolLines page.items, complaint := failure.message, disk }
  | unexported {slug : String} {more : List String} {e : Exchanged σ} {failure : Failure}
      (link : Asks e (.json .post ("/api/recipes/" ++ slug ++ "/exports") (.object []))
        RecipeZipTokenResponse.codec (.error failure)) :
      Obeys address disk ("export" :: slug :: more) [e]
        { succeeded := false, complaint := failure.message, disk }
  | exported {slug : String} {more : List String} {e : Exchanged σ}
      {answer : RecipeZipTokenResponse}
      (link : Asks e (.json .post ("/api/recipes/" ++ slug ++ "/exports") (.object []))
        RecipeZipTokenResponse.codec (.ok answer)) :
      Obeys address disk ("export" :: slug :: more) [e]
        { succeeded := true
          output := address ++
            ("/api/recipes/" ++ slug ++ "/exports/zip?token=" ++ answer.token) ++ "\n"
          disk }
  | misused {arguments : List String}
      (other : arguments = ["export"] ∨
        ∃ word more, arguments = word :: more ∧ word ∉ ["check", "tools", "export"]) :
      Obeys address disk arguments [] { succeeded := false, complaint := usage, disk }

section Commands

variable {σ : Type} {line : Line σ} {state : σ} {address : String} {disk : Disk}
  {arguments : List String} {client : Client}

theorem path_exports (slug : String) :
    "/api/recipes/" ++ slug ++ "/exports" = Path.exports slug := by
  simp only [Path.exports, Path.through, List.foldl, Path.root, String.append_assoc]
  rfl

theorem perform_ownHousehold : Operation.ownHousehold.perform =
    .send (.get "/api/households/self") fun reply =>
      .done (reply.reading HouseholdInDB.codec (.get "/api/households/self")) := rfl

theorem start_filled_eq : ToolStore.start true =
    .send (.get "/api/organizers/tools?page=1&perPage=-1") fun reply =>
      .done ((reply.reading (Page.codec RecipeTool.codec)
        (.get "/api/organizers/tools?page=1&perPage=-1")).map fun page =>
          { items := page.items }) := by
  obtain ⟨request, hrequest, hstart⟩ := ToolStore.start_filled
  have hlist : ToolStore.listing.request =
      .ok (.get "/api/organizers/tools?page=1&perPage=-1") := by rfl
  obtain rfl := Except.ok.inj (hlist.symm.trans hrequest)
  exact hstart

theorem exportLink_eq (slug : String) : exportLink slug =
    .send (.json .post ("/api/recipes/" ++ slug ++ "/exports") (.object [])) fun reply =>
      .done ((reply.reading RecipeZipTokenResponse.codec
        (.json .post ("/api/recipes/" ++ slug ++ "/exports") (.object []))).map fun answer =>
          "/api/recipes/" ++ slug ++ "/exports/zip?token=" ++ answer.token) := by
  simp only [path_exports, ← exportPath_eq]
  rfl

theorem obeys_check (idle : arguments = [] ∨ arguments.head? = some "check") :
    Obeys address disk arguments ((check disk).exchanges line state)
      ((check disk).run line state).1 := by
  obtain ⟨e, later, result, hasks, hexchanges, hrun⟩ :=
    asks_first (f := id) perform_ownHousehold _ state
  rw [check, hexchanges, hrun]
  cases result with
  | error failure => exact .barred idle hasks
  | ok household =>
    -- the run ends in the same way for both outcomes of the second exchange
    exact .checked idle hasks rfl

theorem obeys_tools (more : List String) :
    Obeys address disk ("tools" :: more) ((tools more.head? disk).exchanges line state)
      ((tools more.head? disk).run line state).1 := by
  obtain ⟨e, later, result, hasks, hexchanges, hrun⟩ := asks_first start_filled_eq _ state
  rw [tools, hexchanges, hrun]
  cases result with
  | error failure => exact .unlisted hasks
  | ok page =>
    cases more with
    | nil => exact .printed hasks
    | cons path more =>
      cases hwrite : disk.write path (toolFile page.items) with
      | ok later =>
        simp only [Except.map, List.head?_cons, hwrite]
        exact .saved hasks hwrite
      | error failure =>
        simp only [Except.map, List.head?_cons, hwrite]
        exact .unsaved hasks hwrite

theorem obeys_exportRecipe (slug : String) (more : List String) :
    Obeys client.address disk ("export" :: slug :: more)
      ((exportRecipe client slug disk).exchanges line state)
      ((exportRecipe client slug disk).run line state).1 := by
  obtain ⟨e, later, result, hasks, hexchanges, hrun⟩ := asks_first (exportLink_eq slug) _ state
  rw [exportRecipe, hexchanges, hrun]
  cases result with
  | error failure => exact .unexported hasks
  | ok answer => exact .exported hasks

/-- What is done once a run got in is what its arguments ask for. -/
theorem obeys_obey (arguments : List String) :
    Obeys client.address disk arguments
      ((obey client disk (Command.ofArguments? arguments)).exchanges line state)
      ((obey client disk (Command.ofArguments? arguments)).run line state).1 := by
  unfold Command.ofArguments?
  split
  · exact obeys_check (Or.inl rfl)
  · exact obeys_check (Or.inr rfl)
  · exact obeys_tools _
  · exact .misused (Or.inl rfl)
  · exact obeys_exportRecipe _ _
  · rename_i hnone hcheck htools hexport hslug
    cases arguments with
    | nil => exact absurd rfl hnone
    | cons word more =>
      refine .misused (Or.inr ⟨word, more, rfl, ?_⟩)
      simp only [List.mem_cons, List.not_mem_nil, or_false, not_or]
      refine ⟨?_, ?_, ?_⟩
      · rintro rfl
        exact hcheck more rfl
      · rintro rfl
        exact htools more rfl
      · rintro rfl
        cases more with
        | nil => exact hexport rfl
        | cons slug more => exact hslug slug more rfl

theorem keepsToken_obey (command : Option Command) : (obey client disk command).KeepsToken := by
  rcases command with _ | _ | path | slug
  · trivial
  · apply Operation.ownHousehold.keepsToken_perform.bind
    rintro (failure | household)
    · exact keepsToken_pure _
    · exact Operation.statistics.keepsToken_perform.bind fun _ => keepsToken_pure _
  · apply (ToolStore.keepsToken_start true).bind
    rintro (failure | store)
    · exact keepsToken_pure _
    · dsimp only
      split
      · exact keepsToken_pure _
      · split <;> exact keepsToken_pure _
  · apply (Call.exportLink slug).keepsToken_perform.bind
    rintro (failure | path) <;> exact keepsToken_pure _

end Commands

/-! ## Runs -/

/-- What a run in an environment exchanges for its arguments, and what it leaves behind. -/
inductive Follows {σ : Type} (token : σ → Option String) (lookup : String → Option String)
    (arguments : List String) (disk : Disk) : List (Exchanged σ) → Outcome → Prop where
  /-- A run whose login failed has done nothing else. -/
  | refused {first : List (Exchanged σ)} {outcome : Outcome}
      (enters : Enters token lookup first .refused) (failed : outcome.exitCode = 1)
      (silent : outcome.output = "") (untouched : outcome.disk = disk) :
      Follows token lookup arguments disk first outcome
  | entered {first rest : List (Exchanged σ)} {bearing : Option String} {address : String}
      {outcome : Outcome} (enters : Enters token lookup first (.under bearing))
      (located : Located lookup address) (obeys : Obeys address disk arguments rest outcome)
      (under : ∀ e ∈ rest, token e.before = bearing) :
      Follows token lookup arguments disk (first ++ rest) outcome

section Runs

variable {σ : Type} {line : Line σ} {token : σ → Option String} {state : σ}

theorem ofConfig_eq (config : Config) (line : Line σ) (state : σ) :
    (Client.ofConfig config).exchanges line state = [] ∧
      ((Client.ofConfig config).run line state).1.address = config.address := by
  unfold Client.ofConfig
  cases config.token <;> exact ⟨rfl, rfl⟩

/-- Every run gets in and does what it is asked for, or is refused. -/
theorem follows (hline : line.Keeps token) (hstate : token state = none)
    (lookup : String → Option String) (arguments : List String) (disk : Disk) :
    Follows token lookup arguments disk
      ((run (Config.ofVariables lookup) arguments disk).exchanges line state)
      ((run (Config.ofVariables lookup) arguments disk).run line state).1 := by
  obtain ⟨hquiet, haddress⟩ := ofConfig_eq (Config.ofVariables lookup) line state
  have htold := (Session.Made.ofConfig (Config.ofVariables lookup) hstate).token_eq hline
  rw [run, Dialogue.exchanges_bind, Dialogue.run_bind, hquiet, List.nil_append]
  generalize (Client.ofConfig (Config.ofVariables lookup)).run line state = made at haddress htold ⊢
  obtain ⟨entry, henters, hentered⟩ := enters_enter hline htold.2 made.1
  rw [Dialogue.exchanges_bind, Dialogue.run_bind]
  generalize (enter (Config.ofVariables lookup) made.1).run line made.2 = reached at hentered ⊢
  cases hentered with
  | refused =>
    show Follows token lookup arguments disk (_ ++ []) { succeeded := false, disk }
    rw [List.append_nil]
    exact .refused henters rfl rfl rfl
  | under hafter hbears =>
    refine .entered henters (hafter.trans haddress ▸ located_address) (obeys_obey arguments) ?_
    intro e he
    exact ((keepsToken_obey _).before hline _ e he).trans hbears

end Runs

/-! ## Messages -/

section Messages

open Wire (Message Server standsInHead)

/-- A text that begins with a slash. -/
def Rooted (text : String) : Prop := text.toList.head? = some '/'

variable {σ : Type} {token : σ → Option String} {e : Exchanged σ}

theorem Asks.rooted {α : Type} {request : Request} {codec : Codec α} {result : Except Failure α}
    (h : Asks e request codec result) (hpath : Rooted request.path) :
    ∀ other ∈ [e], Rooted other.request.path := by
  intro other hother
  rwa [List.mem_singleton.mp hother, h.sent]

theorem Enters.rooted {lookup : String → Option String} {exchanges : List (Exchanged σ)}
    {entry : Entry} (h : Enters token lookup exchanges entry) :
    ∀ e ∈ exchanges, Rooted e.request.path := by
  cases h with
  | byToken | anonymous => exact nofun
  | byLogin login | refused login =>
    obtain ⟨username, password, -, -, hasks⟩ := login.asks
    have hpath : Rooted "/api/auth/token" := by simp [Rooted]
    exact hasks.rooted hpath

theorem Obeys.rooted {address : String} {disk : Disk} {arguments : List String}
    {exchanges : List (Exchanged σ)} {outcome : Outcome}
    (h : Obeys address disk arguments exchanges outcome) :
    ∀ e ∈ exchanges, Rooted e.request.path := by
  have hexport {slug : String} : Rooted ("/api/recipes/" ++ slug ++ "/exports") := by
    simp [Rooted]
  cases h with
  | barred _ household => exact household.rooted rfl
  | checked _ household numbers =>
    rw [List.forall_mem_cons]
    refine ⟨?_, ?_⟩
    · rw [household.sent]
      rfl
    · intro e he
      rw [List.mem_singleton.mp he, numbers]
      rfl
  | unlisted list | printed list | saved list | unsaved list => exact list.rooted rfl
  | unexported link | exported link => exact link.rooted hexport
  | misused => exact nofun

theorem Follows.rooted {lookup : String → Option String} {arguments : List String} {disk : Disk}
    {exchanges : List (Exchanged σ)} {outcome : Outcome}
    (h : Follows token lookup arguments disk exchanges outcome) :
    ∀ e ∈ exchanges, Rooted e.request.path := by
  cases h with
  | refused enters => exact enters.rooted
  | entered enters _ obeys => exact List.forall_mem_append.mpr ⟨enters.rooted, obeys.rooted⟩

theorem trimEndWhile_cons {p : Char → Bool} {c : Char} (h : p c = false) (cs : List Char) :
    Text.trimEndWhile p (c :: cs) = c :: Text.trimEndWhile p cs := by
  simp only [Text.trimEndWhile, List.reverse_cons, List.dropWhile_append]
  split
  · simp_all
  · simp

theorem target?_of_rooted {cs : List Char} (h : cs.head? = some '/') :
    ∃ target, Wire.target? cs = some target := by
  obtain ⟨rest, rfl⟩ := List.head?_eq_some_iff.mp h
  unfold Wire.target?
  simp [trimEndWhile_cons, Wire.isSlash]

/-- A request can be sent as a message if its token can stand in one. -/
theorem message_of_rooted {behind boundary : String} {told : Option String} {request : Request}
    (hbehind : behind = "" ∨ Rooted behind) (hpath : Rooted request.path)
    (htold : ∀ text, told = some text → standsInHead text = true) :
    ∃ message, Message.of? behind boundary told request = some message ∧
      message.authorization = told.map ("Bearer " ++ ·) := by
  have haddress : (behind ++ request.path).toList.head? = some '/' := by
    rcases hbehind with rfl | hbehind
    · rw [String.empty_append]
      exact hpath
    · rw [String.toList_append, List.head?_append, hbehind]
      rfl
  obtain ⟨target, htarget⟩ := target?_of_rooted haddress
  have hstands : (told.any fun text => !standsInHead text) = false := by
    cases told with
    | none => rfl
    | some text => simp [htold text rfl]
  rw [Message.of?, htarget]
  simp [hstands]

/-- A message is that of a request, and shows the token under which the request was sent. -/
def Shows (server : Server) (e : Exchanged Server) (message : Message) : Prop :=
  Message.of? server.behind server.boundary e.before.token e.request = some message ∧
    message.authorization = e.before.token.map ("Bearer " ++ ·)

/-- Every request arrives, in order. -/
theorem arrived_run {α : Type} (dialogue : Dialogue α) (server : Server)
    (hbehind : server.behind = "" ∨ Rooted server.behind)
    (hrooted : ∀ e ∈ dialogue.exchanges Server.line server, Rooted e.request.path)
    (hstands : ∀ e ∈ dialogue.exchanges Server.line server,
      ∀ told, e.before.token = some told → standsInHead told = true) :
    ∃ messages, (dialogue.run Server.line server).2.arrived = server.arrived ++ messages ∧
      List.Forall₂ (Shows server) (dialogue.exchanges Server.line server) messages := by
  induction dialogue generalizing server with
  | done value => exact ⟨[], (List.append_nil _).symm, .nil⟩
  | send request next ih =>
    obtain ⟨hpath, hrooted⟩ := List.forall_mem_cons.mp hrooted
    obtain ⟨htold, hstands⟩ := List.forall_mem_cons.mp hstands
    obtain ⟨message, hmessage, hshows⟩ :
        ∃ message, Message.of? server.behind server.boundary server.token request = some message ∧
          message.authorization = server.token.map ("Bearer " ++ ·) :=
      message_of_rooted hbehind hpath htold
    have hreply : (server.reply request).2 =
        { server with
          responses := server.responses.tail, arrived := server.arrived ++ [message] } := by
      rw [Server.reply, hmessage]
    have hnext := ih (server.reply request).1 (server.reply request).2
    rw [hreply] at hnext
    obtain ⟨messages, harrived, hall⟩ := hnext hbehind (hreply ▸ hrooted) (hreply ▸ hstands)
    refine ⟨message :: messages, ?_, .cons ⟨hmessage, hshows⟩ (hreply ▸ hall)⟩
    show ((next (server.reply request).1).run Server.line (server.reply request).2).2.arrived = _
    rw [hreply, harrived, List.append_assoc]
    rfl
  | bear told next ih => exact ih (server.bear told) hbehind hrooted hstands

end Messages

/-! ## Sessions of the command line -/

/-- A run gets in as its environment says and does what it is asked for under one token, or its
login is refused, and then it has done nothing else. Over a line to a server, every request arrives
as a message that shows the token, if the tokens can stand in one. -/
theorem follows_run (lookup : String → Option String) (arguments : List String) (disk : Disk) :
    (∀ {σ : Type} {line : Line σ} {token : σ → Option String} {state : σ},
      line.Keeps token → token state = none →
        Follows token lookup arguments disk
          ((run (Config.ofVariables lookup) arguments disk).exchanges line state)
          ((run (Config.ofVariables lookup) arguments disk).run line state).1) ∧
    ∀ server : Wire.Server,
      server.token = none → server.behind = "" ∨ Rooted server.behind →
      let exchanges :=
        (run (Config.ofVariables lookup) arguments disk).exchanges Wire.Server.line server
      let after := ((run (Config.ofVariables lookup) arguments disk).run Wire.Server.line server).2
      (∀ e ∈ exchanges, ∀ told, e.before.token = some told → Wire.standsInHead told = true) →
        ∃ messages, after.arrived = server.arrived ++ messages ∧
          List.Forall₂ (Shows server) exchanges messages := by
  refine ⟨fun hline hstate => follows hline hstate lookup arguments disk, ?_⟩
  intro server htoken hbehind exchanges after hstands
  have hfollows := follows Wire.Server.keeps_token htoken lookup arguments disk
  exact arrived_run _ server hbehind hfollows.rooted hstands

namespace Errand

/-- An environment with a name and a password; its token is blank. -/
def lookup : String → Option String
  | "MEALIE_BASE_URL" => some "http://mealie.test//"
  | "MEALIE_API_TOKEN" => some " "
  | "MEALIE_USERNAME" => some "ann"
  | "MEALIE_PASSWORD" => some "secret"
  | _ => none

/-- A server that gives a token, and one for a download. -/
def server : Wire.Server :=
  .ofAddress "http://mealie.test" "" "part" "connection reset"
    [.whole .okay "\x7b\"access_token\":\"fresh\"\x7d", .whole .okay "\x7b\"token\":\"t1\"\x7d"]

/-- The run that exports a recipe. -/
def exporting : Dialogue Outcome := run (Config.ofVariables lookup) ["export", "soup"] {}

end Errand

open Errand in
/-- The link is asked for under the token of the login, and printed behind the address. -/
theorem follows_run_export :
    let exchanges := exporting.exchanges Wire.Server.line server
    let ended := exporting.run Wire.Server.line server
    Wire.Server.line.Keeps Wire.Server.token ∧ server.token = none ∧ server.behind = "" ∧
      exchanges.map (·.before.token) = [none, some "fresh"] ∧
      Follows Wire.Server.token lookup ["export", "soup"] {} exchanges ended.1 ∧
      ended.1.output = "http://mealie.test/api/recipes/soup/exports/zip?token=t1\n" ∧
      ∃ messages, ended.2.arrived = messages ∧
        List.Forall₂ (Shows server) exchanges messages := by
  have htokens : (exporting.exchanges Wire.Server.line server).map (·.before.token) =
      [none, some "fresh"] := by decide +kernel
  have hstands : ∀ e ∈ exporting.exchanges Wire.Server.line server,
      ∀ told, e.before.token = some told → Wire.standsInHead told = true := by
    intro e he told htold
    have hmem := List.mem_map_of_mem (f := fun e => e.before.token) he
    rw [htokens, htold] at hmem
    obtain rfl : told = "fresh" := by simpa using hmem
    decide
  obtain ⟨hfollows, harrives⟩ := follows_run lookup ["export", "soup"] {}
  refine ⟨Wire.Server.keeps_token, rfl, rfl, htokens, hfollows Wire.Server.keeps_token rfl, ?_, ?_⟩
  · decide +kernel
  · exact harrives server rfl (Or.inl rfl) hstands

end RecipeClient.Cli
