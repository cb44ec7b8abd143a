import RecipeClient.Proofs.Calls
import RecipeClient.Proofs.Json.Tokens
import RecipeClient.Proofs.QueryDecoding

/-!
# Requests tell what they ask for

What an operation asks for is its endpoint: the operation with the identifiers in its path, without
what is sent along. Identifiers stand in a path as they are, so one that holds a slash or a question
mark, or that is a word which the path has in the same place, may lead elsewhere. All others lead
back: the method of a request and the segments of its path tell the endpoint.

- `Endpoint.ofSegments?`: the endpoint to which a method and segments lead
- `Endpoint.ofSegments?_segments`: every endpoint without misleading identifiers is led to
- `Call.endpoint_eq_of_same_target`: two calls with one method and one path ask for the same
-/

namespace RecipeClient

open Json (Value bind_eq_ok map_eq_ok)

/-! ## Segments -/

namespace Path

/-- A text that stands in a path as one segment. -/
def IsSegment (text : String) : Prop := '/' ∉ text.toList ∧ '?' ∉ text.toList

instance (text : String) : Decidable (IsSegment text) := inferInstanceAs (Decidable (_ ∧ _))

/-- The segments of a path behind its root. -/
def segments (cs : List Char) : List String :=
  ((Text.split (· == '/') cs).drop 2).map String.ofList

private theorem toList_foldl (front : String) (texts : List String) :
    (texts.foldl (fun path text => path ++ "/" ++ text) front).toList =
      front.toList ++ texts.flatMap ('/' :: ·.toList) := by
  induction texts generalizing front with
  | nil => simp
  | cons text texts ih => simp [ih]

private theorem split_joined {part : List Char} {texts : List String} (hpart : '/' ∉ part)
    (htexts : ∀ text ∈ texts, IsSegment text) :
    Text.split (· == '/') (part ++ texts.flatMap ('/' :: ·.toList)) =
      part :: texts.map String.toList := by
  have separates_of_not_mem {cs : List Char} (h : '/' ∉ cs) : ∀ c ∈ cs, (c == '/') = false := by
    intro c hc
    have hne : c ≠ '/' := fun heq => h (heq ▸ hc)
    simp [hne]
  induction texts generalizing part with
  | nil =>
    rw [List.flatMap_nil, List.append_nil]
    exact Text.split_of_separates_eq_false (separates_of_not_mem hpart)
  | cons text texts ih =>
    obtain ⟨htext, htexts⟩ := List.forall_mem_cons.mp htexts
    -- the slash in front of the text ends the part
    rw [List.flatMap_cons, List.cons_append,
      Text.split_append_cons (separates_of_not_mem hpart) rfl, ih htext.1 htexts]
    rfl

/-- The segments of a path are those that it leads through. -/
theorem segments_through {texts : List String} (h : ∀ text ∈ texts, IsSegment text) :
    segments (Query.beforeMark (through texts).toList) = texts := by
  have hpath : (through texts).toList = root.toList ++ texts.flatMap ('/' :: ·.toList) :=
    toList_foldl root texts
  have hmark : '?' ∉ (through texts).toList := by
    simp only [hpath, List.mem_append, List.mem_flatMap, not_or, not_exists, not_and]
    refine ⟨by decide, ?_⟩
    intro text htext
    simpa using (h text htext).2
  rw [Query.beforeMark_of_not_mem hmark, hpath]
  -- the root is a slash and a word, so its parts are the first two
  show segments ([] ++ (("api" :: texts).flatMap ('/' :: ·.toList))) = texts
  rw [segments, split_joined (by simp) (List.forall_mem_cons.mpr ⟨by decide, h⟩)]
  simp

end Path

/-! ## Identifiers -/

/-- What an identifier names, as far as paths have words of their own in its place. -/
inductive Endpoint.Role where
  | recipe
  /-- A recipe that a group shows to everybody. -/
  | publicRecipe
  | mealPlan
  | other
deriving DecidableEq

/-- The words that paths have in the place of an identifier. -/
def Endpoint.Role.reserved : Endpoint.Role → List String
  | recipe => ["category", "suggestions", "create", "shared"]
  | publicRecipe => ["suggestions"]
  | mealPlan => ["today", "rules"]
  | other => []

/-- What the identifiers of a collection's items name. -/
def Collection.role : Collection → Endpoint.Role
  | recipes => .recipe
  | mealPlans => .mealPlan
  | comments | shares | tools | mealPlanRules | users => .other

/-- What the identifiers of a resource's items name. -/
def Resource.role : Resource → Endpoint.Role
  | collection c => c.role
  | households => .other
  | publicRecipes _ => .publicRecipe

/-- The identifiers in the path of a resource's list. -/
def Resource.identifiers : Resource → List (Endpoint.Role × String)
  | collection _ | households => []
  | publicRecipes group => [(.other, group)]

/-! ## Endpoints -/

/-- The segments that lead to the list of a collection. -/
def Collection.segments : Collection → List String
  | recipes => ["recipes"]
  | comments => ["comments"]
  | shares => ["shared", "recipes"]
  | tools => ["organizers", "tools"]
  | mealPlans => ["households", "mealplans"]
  | mealPlanRules => ["households", "mealplans", "rules"]
  | users => ["admin", "users"]

/-- The segments that lead to the list of a resource. -/
def Resource.segments : Resource → List String
  | collection c => c.segments
  | households => ["groups", "households"]
  | publicRecipes group => ["explore", "groups", group, "recipes"]

theorem Collection.isSegment (c : Collection) : ∀ text ∈ c.segments, Path.IsSegment text := by
  cases c <;> simp [segments, Path.IsSegment]

theorem Resource.isSegment {r : Resource} (h : ∀ i ∈ r.identifiers, Path.IsSegment i.2) :
    ∀ text ∈ r.segments, Path.IsSegment text := by
  cases r with
  | collection c => exact c.isSegment
  | households => simp [segments, Path.IsSegment]
  | publicRecipes group =>
    have hgroup : Path.IsSegment group := h _ (List.mem_singleton_self _)
    simp_all [segments, Path.IsSegment]

/-- An operation with the identifiers in its path, without what it sends along. A search of recipes
asks for what the list of them does. -/
inductive Endpoint where
  | list (r : Resource)
  | read (r : Resource) (id : String)
  | create (c : Collection)
  | replace (c : Collection) (id : String)
  | remove (c : Collection) (id : String)
  | recipesInCategories
  | suggestRecipes
  | addAsset (slug : String)
  | setImage (slug : String)
  | setImageFrom (slug : String)
  | tryImport
  | createFromMarkup
  | createFromAddress
  | createFromAddresses
  | createFromArchive
  | createFromImages
  | parseIngredients
  | parseIngredient
  | exportToken (slug : String)
  | replaceRecipes
  | patchRecipes
  | setLastMade (slug : String)
  | createEvent
  | replaceEvent (id : String)
  | removeEvent (id : String)
  | listEvents
  | setEventImage (id : String)
  | recipeComments (slug : String)
  | sharedRecipe (token : String)
  | toolBySlug (slug : String)
  | mealsToday
  | randomMeal
  | unlockUsers
  | resetPassword
  | suggestPublic (group : String)
  | ownHousehold
  | ownHouseholdRecipe (slug : String)
  | preferences
  | setPreferences
  | invite
  | setPermissions
  | listMembers
  | statistics
deriving DecidableEq

/-- What an operation asks for. -/
def Operation.endpoint : Operation → Endpoint
  | list r .. => .list r
  | read r id => .read r id
  | create c _ => .create c
  | replace c id _ => .replace c id
  | remove c id => .remove c id
  | searchRecipes _ => .list (.collection .recipes)
  | recipesInCategories _ => .recipesInCategories
  | suggestRecipes .. => .suggestRecipes
  | addAsset slug .. => .addAsset slug
  | setImage slug _ => .setImage slug
  | setImageFrom slug _ => .setImageFrom slug
  | tryImport .. => .tryImport
  | createFromMarkup .. => .createFromMarkup
  | createFromAddress .. => .createFromAddress
  | createFromAddresses _ => .createFromAddresses
  | createFromArchive _ => .createFromArchive
  | createFromImages .. => .createFromImages
  | parseIngredients .. => .parseIngredients
  | parseIngredient .. => .parseIngredient
  | exportToken slug => .exportToken slug
  | replaceRecipes _ => .replaceRecipes
  | patchRecipes _ => .patchRecipes
  | setLastMade slug _ => .setLastMade slug
  | createEvent _ => .createEvent
  | replaceEvent id _ => .replaceEvent id
  | removeEvent id => .removeEvent id
  | listEvents .. => .listEvents
  | setEventImage id _ => .setEventImage id
  | recipeComments slug => .recipeComments slug
  | sharedRecipe token => .sharedRecipe token
  | toolBySlug slug => .toolBySlug slug
  | mealsToday => .mealsToday
  | randomMeal _ => .randomMeal
  | unlockUsers _ => .unlockUsers
  | resetPassword _ => .resetPassword
  | searchPublic group _ => .list (.publicRecipes group)
  | suggestPublic group .. => .suggestPublic group
  | ownHousehold => .ownHousehold
  | ownHouseholdRecipe slug => .ownHouseholdRecipe slug
  | preferences => .preferences
  | setPreferences _ => .setPreferences
  | invite _ => .invite
  | setPermissions _ => .setPermissions
  | listMembers .. => .listMembers
  | statistics => .statistics

namespace Endpoint

/-- The method of the requests for an endpoint. -/
def method : Endpoint → Method
  | list _ | read .. | recipesInCategories | suggestRecipes | listEvents | recipeComments _
  | sharedRecipe _ | toolBySlug _ | mealsToday | suggestPublic _ | ownHousehold
  | ownHouseholdRecipe _ | preferences | listMembers | statistics => .get
  | create _ | addAsset _ | setImageFrom _ | tryImport | createFromMarkup | createFromAddress
  | createFromAddresses | createFromArchive | createFromImages | parseIngredients
  | parseIngredient | exportToken _ | createEvent | randomMeal | unlockUsers | resetPassword
  | invite => .post
  | replace .. | setImage _ | replaceRecipes | replaceEvent _ | setEventImage _ | setPreferences
  | setPermissions => .put
  | patchRecipes | setLastMade _ => .patch
  | remove .. | removeEvent _ => .delete

/-- The segments that lead from the root to an endpoint. -/
def segments : Endpoint → List String
  | list r => r.segments
  | read r id => r.segments ++ [id]
  | create c => c.segments
  | replace c id => c.segments ++ [id]
  | remove c id => c.segments ++ [id]
  | recipesInCategories => ["recipes", "category"]
  | suggestRecipes => ["recipes", "suggestions"]
  | addAsset slug => ["recipes", slug, "assets"]
  | setImage slug => ["recipes", slug, "image"]
  | setImageFrom slug => ["recipes", slug, "image"]
  | tryImport => ["recipes", "test-scrape-url"]
  | createFromMarkup => ["recipes", "create", "html-or-json"]
  | createFromAddress => ["recipes", "create", "url"]
  | createFromAddresses => ["recipes", "create", "url", "bulk"]
  | createFromArchive => ["recipes", "create", "zip"]
  | createFromImages => ["recipes", "create", "image"]
  | parseIngredients => ["parser", "ingredients"]
  | parseIngredient => ["parser", "ingredient"]
  | exportToken slug => ["recipes", slug, "exports"]
  | replaceRecipes => ["recipes"]
  | patchRecipes => ["recipes"]
  | setLastMade slug => ["recipes", slug, "last-made"]
  | createEvent => ["recipes", "timeline", "events"]
  | replaceEvent id => ["recipes", "timeline", "events", id]
  | removeEvent id => ["recipes", "timeline", "events", id]
  | listEvents => ["recipes", "timeline", "events"]
  | setEventImage id => ["recipes", "timeline", "events", id, "image"]
  | recipeComments slug => ["recipes", slug, "comments"]
  | sharedRecipe token => ["recipes", "shared", token]
  | toolBySlug slug => ["organizers", "tools", "slug", slug]
  | mealsToday => ["households", "mealplans", "today"]
  | randomMeal => ["households", "mealplans", "random"]
  | unlockUsers => ["admin", "users", "unlock"]
  | resetPassword => ["admin", "users", "password-reset-token"]
  | suggestPublic group => ["explore", "groups", group, "recipes", "suggestions"]
  | ownHousehold => ["households", "self"]
  | ownHouseholdRecipe slug => ["households", "self", "recipes", slug]
  | preferences => ["households", "preferences"]
  | setPreferences => ["households", "preferences"]
  | invite => ["households", "invitations"]
  | setPermissions => ["households", "permissions"]
  | listMembers => ["households", "members"]
  | statistics => ["households", "statistics"]

/-- The identifiers in the path of an endpoint. -/
def identifiers : Endpoint → List (Role × String)
  | list r => r.identifiers
  | read r id => r.identifiers ++ [(r.role, id)]
  | replace c id | remove c id => [(c.role, id)]
  | addAsset slug | setImage slug | setImageFrom slug | exportToken slug | setLastMade slug
  | recipeComments slug => [(.recipe, slug)]
  | replaceEvent id | removeEvent id | setEventImage id | sharedRecipe id | toolBySlug id
  | suggestPublic id | ownHouseholdRecipe id => [(.other, id)]
  | _ => []

/-- No identifier is misleading: none ends a segment or the path, and none is a word that the path
has in its place. -/
def Plain (e : Endpoint) : Prop :=
  ∀ i ∈ e.identifiers, Path.IsSegment i.2 ∧ i.2 ∉ i.1.reserved

instance (e : Endpoint) : Decidable e.Plain :=
  inferInstanceAs (Decidable (∀ i ∈ e.identifiers, _))

/-! ## From segments to endpoints -/

/-- The endpoint to which segments lead a request that reads. -/
def read? : List String → Option Endpoint
  | ["recipes"] => some (list (.collection .recipes))
  | ["recipes", "category"] => some recipesInCategories
  | ["recipes", "suggestions"] => some suggestRecipes
  | ["recipes", slug] => some (read (.collection .recipes) slug)
  | ["recipes", "shared", token] => some (sharedRecipe token)
  | ["recipes", "timeline", "events"] => some listEvents
  | ["recipes", slug, "comments"] => some (recipeComments slug)
  | ["comments"] => some (list (.collection .comments))
  | ["comments", id] => some (read (.collection .comments) id)
  | ["shared", "recipes"] => some (list (.collection .shares))
  | ["shared", "recipes", id] => some (read (.collection .shares) id)
  | ["explore", "groups", group, "recipes"] => some (list (.publicRecipes group))
  | ["explore", "groups", group, "recipes", "suggestions"] => some (suggestPublic group)
  | ["explore", "groups", group, "recipes", slug] => some (read (.publicRecipes group) slug)
  | ["groups", "households"] => some (list .households)
  | ["groups", "households", id] => some (read .households id)
  | ["households", "self"] => some ownHousehold
  | ["households", "self", "recipes", slug] => some (ownHouseholdRecipe slug)
  | ["households", "members"] => some listMembers
  | ["households", "preferences"] => some preferences
  | ["households", "statistics"] => some statistics
  | ["households", "mealplans"] => some (list (.collection .mealPlans))
  | ["households", "mealplans", "today"] => some mealsToday
  | ["households", "mealplans", "rules"] => some (list (.collection .mealPlanRules))
  | ["households", "mealplans", id] => some (read (.collection .mealPlans) id)
  | ["households", "mealplans", "rules", id] => some (read (.collection .mealPlanRules) id)
  | ["organizers", "tools"] => some (list (.collection .tools))
  | ["organizers", "tools", id] => some (read (.collection .tools) id)
  | ["organizers", "tools", "slug", slug] => some (toolBySlug slug)
  | ["admin", "users"] => some (list (.collection .users))
  | ["admin", "users", id] => some (read (.collection .users) id)
  | _ => none

/-- The endpoint to which segments lead a request that creates or starts something. -/
def start? : List String → Option Endpoint
  | ["recipes"] => some (create .recipes)
  | ["recipes", "test-scrape-url"] => some tryImport
  | ["recipes", "create", "html-or-json"] => some createFromMarkup
  | ["recipes", "create", "url"] => some createFromAddress
  | ["recipes", "create", "url", "bulk"] => some createFromAddresses
  | ["recipes", "create", "zip"] => some createFromArchive
  | ["recipes", "create", "image"] => some createFromImages
  | ["recipes", "timeline", "events"] => some createEvent
  | ["recipes", slug, "assets"] => some (addAsset slug)
  | ["recipes", slug, "image"] => some (setImageFrom slug)
  | ["recipes", slug, "exports"] => some (exportToken slug)
  | ["parser", "ingredients"] => some parseIngredients
  | ["parser", "ingredient"] => some parseIngredient
  | ["comments"] => some (create .comments)
  | ["shared", "recipes"] => some (create .shares)
  | ["organizers", "tools"] => some (create .tools)
  | ["households", "mealplans"] => some (create .mealPlans)
  | ["households", "mealplans", "random"] => some randomMeal
  | ["households", "mealplans", "rules"] => some (create .mealPlanRules)
  | ["households", "invitations"] => some invite
  | ["admin", "users"] => some (create .users)
  | ["admin", "users", "unlock"] => some unlockUsers
  | ["admin", "users", "password-reset-token"] => some resetPassword
  | _ => none

/-- The endpoint to which segments lead a request that replaces. -/
def replace? : List String → Option Endpoint
  | ["recipes"] => some replaceRecipes
  | ["recipes", slug] => some (replace .recipes slug)
  | ["recipes", slug, "image"] => some (setImage slug)
  | ["recipes", "timeline", "events", id] => some (replaceEvent id)
  | ["recipes", "timeline", "events", id, "image"] => some (setEventImage id)
  | ["comments", id] => some (replace .comments id)
  | ["shared", "recipes", id] => some (replace .shares id)
  | ["organizers", "tools", id] => some (replace .tools id)
  | ["households", "mealplans", id] => some (replace .mealPlans id)
  | ["households", "mealplans", "rules", id] => some (replace .mealPlanRules id)
  | ["households", "preferences"] => some setPreferences
  | ["households", "permissions"] => some setPermissions
  | ["admin", "users", id] => some (replace .users id)
  | _ => none

/-- The endpoint to which segments lead a request that changes a part. -/
def patch? : List String → Option Endpoint
  | ["recipes"] => some patchRecipes
  | ["recipes", slug, "last-made"] => some (setLastMade slug)
  | _ => none

/-- The endpoint to which segments lead a request that removes. -/
def remove? : List String → Option Endpoint
  | ["recipes", slug] => some (remove .recipes slug)
  | ["recipes", "timeline", "events", id] => some (removeEvent id)
  | ["comments", id] => some (remove .comments id)
  | ["shared", "recipes", id] => some (remove .shares id)
  | ["organizers", "tools", id] => some (remove .tools id)
  | ["households", "mealplans", id] => some (remove .mealPlans id)
  | ["households", "mealplans", "rules", id] => some (remove .mealPlanRules id)
  | ["admin", "users", id] => some (remove .users id)
  | _ => none

/-- The endpoint to which a method and segments lead. -/
def ofSegments? : Method → List String → Option Endpoint
  | .get => read?
  | .post => start?
  | .put => replace?
  | .patch => patch?
  | .delete => remove?

variable {e : Endpoint}

theorem Plain.not_reserved (h : e.Plain) {role : Role} {id : String}
    (hid : (role, id) ∈ e.identifiers) : id ∉ role.reserved :=
  (h (role, id) hid).2

private theorem read?_segments {r : Resource} {id : String} (h : (read r id).Plain) :
    read? (read r id).segments = some (read r id) := by
  have hid : id ∉ r.role.reserved :=
    h.not_reserved (List.mem_append_right _ (List.mem_singleton_self _))
  cases r with
  | collection c =>
    cases c <;>
      simp_all [read?, segments, Resource.segments, Collection.segments, Resource.role,
        Collection.role, Role.reserved]
  | households => rfl
  | publicRecipes group =>
    simp_all [read?, segments, Resource.segments, Resource.role, Role.reserved]

/-- The segments of an endpoint lead back to it, unless an identifier is misleading. -/
theorem ofSegments?_segments (h : e.Plain) : ofSegments? e.method e.segments = some e := by
  cases e with
  | list r => cases r with
    | collection c => cases c <;> rfl
    | _ => rfl
  | read r id => exact read?_segments h
  | create c => cases c <;> rfl
  | replace c id => cases c <;> rfl
  | remove c id => cases c <;> rfl
  | addAsset slug | setImageFrom slug | exportToken slug | recipeComments slug =>
    -- the words that stand where the slug does are tried before it
    have hslug : slug ∉ Role.recipe.reserved := h.not_reserved (List.mem_singleton_self _)
    simp_all [Role.reserved, ofSegments?, read?, start?, segments, method]
  | _ => rfl

/-! ## From paths to segments -/

theorem isSegment_of_mem_segments (h : e.Plain) :
    ∀ segment ∈ e.segments, Path.IsSegment segment := by
  have hids : ∀ i ∈ e.identifiers, Path.IsSegment i.2 := fun i hi => (h i hi).1
  clear h
  cases e with
  | list r => exact Resource.isSegment hids
  | read r id =>
    obtain ⟨hr, hid⟩ := List.forall_mem_append.mp hids
    exact List.forall_mem_append.mpr ⟨Resource.isSegment hr, by simpa using hid⟩
  | create c => exact c.isSegment
  | replace c id | remove c id =>
    exact List.forall_mem_append.mpr ⟨c.isSegment, by simpa [identifiers] using hids⟩
  | _ => simp_all [segments, identifiers, Path.IsSegment]

end Endpoint

/-! ## From requests to endpoints -/

/-- A request has the method of an endpoint, and its path leads there, whatever query follows. -/
def Request.LeadsTo (request : Request) (e : Endpoint) : Prop :=
  request.method = e.method ∧
    Query.beforeMark request.path.toList = Query.beforeMark (Path.through e.segments).toList

namespace Request.LeadsTo

variable {request : Request} {e : Endpoint} {path : String} {parameters : Value}

theorem of_path (hmethod : request.method = e.method)
    (hpath : request.path = Path.through e.segments) : request.LeadsTo e :=
  ⟨hmethod, congrArg (fun path => Query.beforeMark path.toList) hpath⟩

theorem of_selecting (h : selecting path parameters = .ok request) (hmethod : e.method = .get)
    (hpath : path = Path.through e.segments) : request.LeadsTo e := by
  subst hpath
  obtain ⟨address, haddress, rfl⟩ := map_eq_ok.mp h
  obtain ⟨pairs, -, rfl⟩ := map_eq_ok.mp haddress
  exact ⟨hmethod.symm, Query.beforeMark_append _ pairs⟩

theorem of_page {page perPage : Int64}
    (h : Operation.pageRequest path page perPage parameters = .ok request)
    (hmethod : e.method = .get) (hpath : path = Path.through e.segments) : request.LeadsTo e := by
  obtain ⟨laid, -, h⟩ := bind_eq_ok.mp h
  exact of_selecting h hmethod hpath

theorem of_suggestion {query : RecipeSuggestionQuery} {foods tools : Option (List String)}
    (h : Operation.suggestionRequest path query foods tools = .ok request)
    (hmethod : e.method = .get) (hpath : path = Path.through e.segments) : request.LeadsTo e := by
  obtain ⟨laid, -, h⟩ := bind_eq_ok.mp h
  exact of_selecting h hmethod hpath

end Request.LeadsTo

theorem Collection.base_eq_through (c : Collection) : c.base = Path.through c.segments := by
  cases c <;> rfl

theorem Collection.item_eq_through (c : Collection) (id : String) :
    c.item id = Path.through (c.segments ++ [id]) := by
  cases c <;> rfl

theorem Resource.base_eq_through (r : Resource) : r.base = Path.through r.segments := by
  cases r with
  | collection c => exact c.base_eq_through
  | _ => rfl

theorem Resource.item_eq_through (r : Resource) (id : String) :
    r.item id = Path.through (r.segments ++ [id]) := by
  cases r with
  | collection c => exact c.item_eq_through id
  | _ => rfl

namespace Operation

theorem beforeMark_imagesPath (language : Option String) :
    Query.beforeMark (imagesPath language).toList =
      Query.beforeMark Path.creationFromImages.toList := by
  unfold imagesPath
  split
  · rfl
  · split
    · rfl
    · exact Query.beforeMark_append _ _

theorem beforeMark_unlocking (force : Bool) :
    Query.beforeMark (Path.unlocking force).toList =
      Query.beforeMark (Path.through ["admin", "users", "unlock"]).toList := by
  rw [Path.unlocking, String.append_assoc, String.toList_append, String.toList_append]
  exact Query.beforeMark_append_cons _ _

/-- The request for an operation leads to its endpoint. -/
theorem leadsTo_endpoint {o : Operation} {request : Request} (h : o.request = .ok request) :
    request.LeadsTo o.endpoint := by
  cases o with
  | list r => exact .of_page h rfl r.base_eq_through
  | searchRecipes | recipesInCategories | searchPublic => exact .of_selecting h rfl rfl
  | suggestRecipes | suggestPublic => exact .of_suggestion h rfl rfl
  | listEvents | listMembers => exact .of_page h rfl rfl
  | read r id =>
    obtain rfl := Except.ok.inj h
    exact .of_path rfl (r.item_eq_through id)
  | create c =>
    obtain rfl := Except.ok.inj h
    exact .of_path rfl c.base_eq_through
  | replace c id | remove c id =>
    obtain rfl := Except.ok.inj h
    exact .of_path rfl (c.item_eq_through id)
  | createFromImages images language =>
    obtain rfl := Except.ok.inj h
    exact ⟨rfl, beforeMark_imagesPath language⟩
  | unlockUsers force =>
    obtain rfl := Except.ok.inj h
    exact ⟨rfl, beforeMark_unlocking force⟩
  | _ =>
    obtain rfl := Except.ok.inj h
    exact .of_path rfl rfl

end Operation

/-! ## Calls -/

theorem Endpoint.eq_of_leadsTo {p q : Request} {d e : Endpoint} (hp : p.LeadsTo d)
    (hq : q.LeadsTo e) (hd : d.Plain) (he : e.Plain) (hmethod : p.method = q.method)
    (hpath : Query.beforeMark p.path.toList = Query.beforeMark q.path.toList) : d = e := by
  have hmethods : d.method = e.method := hp.1.symm.trans (hmethod.trans hq.1)
  have hpaths : Query.beforeMark (Path.through d.segments).toList =
      Query.beforeMark (Path.through e.segments).toList := hp.2.symm.trans (hpath.trans hq.2)
  have hsegments : d.segments = e.segments := by
    rw [← Path.segments_through (isSegment_of_mem_segments hd), hpaths,
      Path.segments_through (isSegment_of_mem_segments he)]
  apply Option.some.inj
  rw [← ofSegments?_segments hd, ← ofSegments?_segments he, hmethods, hsegments]

namespace Call

/-- What a call asks for. -/
def endpoint (c : Call) : Endpoint := c.operation.endpoint

variable {σ τ : Type} {line : Line σ} {state : σ} {other : Line τ} {otherState : τ} {c d : Call}

theorem leadsTo_of_mem_exchanges {e : Exchanged σ} (h : e ∈ c.perform.exchanges line state) :
    e.request.LeadsTo c.endpoint := by
  cases hrequest : c.operation.request with
  | error bad =>
    rw [perform_of_error hrequest] at h
    exact nomatch h
  | ok request =>
    rw [exchanges_perform hrequest] at h
    obtain rfl := List.mem_singleton.mp h
    exact Operation.leadsTo_endpoint hrequest

/-- Requests of two calls that have one method and one path, up to the first question mark, are
requests for the same thing, unless an identifier of the calls is misleading. -/
theorem endpoint_eq_of_same_target {first : Exchanged σ} {second : Exchanged τ}
    (hfirst : first ∈ c.perform.exchanges line state)
    (hsecond : second ∈ d.perform.exchanges other otherState)
    (hc : c.endpoint.Plain) (hd : d.endpoint.Plain)
    (hmethod : first.request.method = second.request.method)
    (hpath : Query.beforeMark first.request.path.toList =
      Query.beforeMark second.request.path.toList) :
    c.endpoint = d.endpoint :=
  Endpoint.eq_of_leadsTo (leadsTo_of_mem_exchanges hfirst) (leadsTo_of_mem_exchanges hsecond) hc hd
    hmethod hpath

/-- A search and a list that are told apart by their queries alone. -/
theorem endpoint_eq_of_same_target_search :
    ∃ first ∈ (ask (.searchPublic "today" { search := some "a/b?" })).perform.exchanges
      Script.line {},
    ∃ second ∈ (ask (.list (.publicRecipes "today") 2 10 .null)).perform.exchanges Script.line {},
      first.request.path = "/api/explore/groups/today/recipes?search=a%2Fb%3F" ∧
      second.request.path = "/api/explore/groups/today/recipes?page=2&perPage=10" ∧
      (ask (.searchPublic "today" { search := some "a/b?" })).endpoint =
        (ask (.list (.publicRecipes "today") 2 10 .null)).endpoint := by
  obtain ⟨first, hfirst, hget, hsearch⟩ :
      ∃ first ∈ (ask (.searchPublic "today" { search := some "a/b?" })).perform.exchanges
        Script.line {}, first.request.method = .get ∧
        first.request.path = "/api/explore/groups/today/recipes?search=a%2Fb%3F" :=
    ⟨_, List.mem_singleton_self _, rfl, by rfl⟩
  obtain ⟨second, hsecond, hget', hlist⟩ :
      ∃ second ∈ (ask (.list (.publicRecipes "today") 2 10 .null)).perform.exchanges
        Script.line {}, second.request.method = .get ∧
        second.request.path = "/api/explore/groups/today/recipes?page=2&perPage=10" :=
    ⟨_, List.mem_singleton_self _, rfl, by rfl⟩
  have hpath : Query.beforeMark first.request.path.toList =
      Query.beforeMark second.request.path.toList := by
    rw [hsearch, hlist]
    decide
  exact ⟨first, hfirst, second, hsecond, hsearch, hlist,
    endpoint_eq_of_same_target hfirst hsecond (by decide) (by decide) (hget.trans hget'.symm)
      hpath⟩

end Call

end RecipeClient
