import RecipeClient.Proofs.Calls
import RecipeClient.Proofs.Json.Tokens
import RecipeClient.Proofs.QueryDecoding

/-!
# Links to exported recipes

The link that downloads an exported recipe is made of the path of the archive and of the token as
the server sent it. Its query therefore decodes to the token only if the token needs no encoding: an
ampersand ends the value, and an escape stands for another text.

- `CarriesToken`: the query of a link decodes to a token alone
- `exportLink_carries_iff`: the tokens that an export link carries
-/

namespace RecipeClient

open Query (behindMark decode? isQueryChar)
open Text.Percent (isUnreserved)

/-- The query of a link decodes to a token alone, and it is in the alphabet of queries. -/
structure CarriesToken (link token : String) : Prop where
  decodes : decode? (behindMark link.toList) = some [("token", token)]
  alphabet : ∀ c ∈ behindMark link.toList, isQueryChar c = true

/-! ## The query of a link -/

/-- The characters between the question mark of a link and its token. -/
def tokenKey : List Char := "token=".toList

theorem exportPath_eq (slug token : String) :
    exportPath slug token = "/api/recipes/" ++ slug ++ "/exports/zip?token=" ++ token := by
  simp only [exportPath, Path.exportedArchive, Path.through, List.foldl, Path.root,
    String.append_assoc]
  rfl

theorem exportPath_toList (slug token : String) :
    (exportPath slug token).toList =
      (Path.exportedArchive slug).toList ++ '?' :: (tokenKey ++ token.toList) := by
  simp [exportPath, tokenKey, String.toList_append]

theorem behindMark_exportPath {slug : String} (h : '?' ∉ slug.toList) (token : String) :
    behindMark (exportPath slug token).toList = tokenKey ++ token.toList := by
  have hpath : '?' ∉ (Path.exportedArchive slug).toList := by
    simp [Path.exportedArchive, Path.through, Path.root, h]
  obtain ⟨-, hdrop⟩ := Text.span_append_cons (Text.bne_of_not_mem hpath) (c := '?') (by simp)
    (tokenKey ++ token.toList)
  rw [exportPath_toList, behindMark, hdrop, List.drop_one, List.tail_cons]

theorem separates_tokenKey_append {cs : List Char} (h : '&' ∉ cs) :
    ∀ c ∈ tokenKey ++ cs, (c == '&') = false := by
  intro c hc
  have hne : c ≠ '&' := by
    rintro rfl
    rcases List.mem_append.mp hc with hc | hc
    · exact absurd hc (by simp [tokenKey])
    · exact h hc
  simpa using hne

/-- Without an ampersand in it, what stands behind the key is one value. -/
theorem decode?_tokenKey_append {cs : List Char} (h : '&' ∉ cs) :
    decode? (tokenKey ++ cs) =
      (Text.Percent.decode? cs).map fun token => [("token", token)] := by
  have hkey : Text.Percent.decode? "token".toList = some "token" :=
    (Text.Percent.decode?_eq_self_iff "token").mpr (by simp)
  -- the first equality sign is the one of the key
  have hsplit : tokenKey ++ cs = "token".toList ++ '=' :: cs := by simp [tokenKey]
  have hfront : '=' ∉ "token".toList := by simp
  obtain ⟨htake, hdrop⟩ := Text.span_append_cons (Text.bne_of_not_mem hfront) (c := '=') (by simp) cs
  have hpair : Query.pairOf? (tokenKey ++ cs) =
      (Text.Percent.decode? cs).map fun token => ("token", token) := by
    rw [Query.pairOf?, hsplit, htake, hdrop]
    simp only [hkey, Option.bind_eq_bind, Option.bind_some]
    cases Text.Percent.decode? cs <;> rfl
  rw [decode?, Text.split_of_separates_eq_false (separates_tokenKey_append h),
    if_neg (by simp [tokenKey])]
  simp only [List.mapM_cons, List.mapM_nil, hpair]
  cases Text.Percent.decode? cs <;> rfl

/-- An ampersand begins another pair. -/
theorem not_mem_of_decode?_tokenKey {cs : List Char} {pair : String × String}
    (h : decode? (tokenKey ++ cs) = some [pair]) : '&' ∉ cs := by
  intro hmem
  obtain ⟨front, behind, rfl, hfront⟩ := List.eq_append_cons_of_mem hmem
  have hsplit : Text.split (· == '&') (tokenKey ++ (front ++ '&' :: behind)) =
      (tokenKey ++ front) :: Text.split (· == '&') behind := by
    rw [← List.append_assoc]
    exact Text.split_append_cons (separates_tokenKey_append hfront) (by simp) behind
  -- at least one part stands behind the ampersand
  obtain ⟨part, parts, hparts⟩ :=
    List.exists_cons_of_ne_nil (Text.split_ne_nil (· == '&') behind)
  rw [decode?, hsplit, hparts, if_neg (by simp [tokenKey])] at h
  simp only [List.mapM_cons, Option.bind_eq_bind, Option.bind_eq_some_iff, Option.pure_def,
    Option.some.injEq] at h
  obtain ⟨first, -, others, ⟨second, -, rest, -, rfl⟩, h⟩ := h
  exact absurd h (by simp)

theorem decode?_tokenKey_iff (token : String) :
    decode? (tokenKey ++ token.toList) = some [("token", token)] ↔
      '&' ∉ token.toList ∧ '%' ∉ token.toList := by
  constructor
  · intro h
    have hone := not_mem_of_decode?_tokenKey h
    rw [decode?_tokenKey_append hone, Option.map_eq_some_iff] at h
    obtain ⟨other, hother, heq⟩ := h
    simp only [List.cons.injEq, Prod.mk.injEq, true_and, and_true] at heq
    subst heq
    exact ⟨hone, (Text.Percent.decode?_eq_self_iff other).mp hother⟩
  · rintro ⟨hone, hplain⟩
    rw [decode?_tokenKey_append hone, (Text.Percent.decode?_eq_self_iff token).mpr hplain]
    rfl

/-! ## Links -/

/-- A link carries the tokens of unreserved characters and equality signs. -/
theorem carriesToken_exportPath {slug : String} (h : '?' ∉ slug.toList) (token : String) :
    CarriesToken (exportPath slug token) token ↔
      ∀ c ∈ token.toList, isUnreserved c = true ∨ c = '=' := by
  have hbehind := behindMark_exportPath h token
  constructor
  · rintro ⟨hdecodes, halphabet⟩
    rw [hbehind] at hdecodes halphabet
    obtain ⟨hone, hplain⟩ := (decode?_tokenKey_iff token).mp hdecodes
    intro c hc
    have hquery := halphabet c (List.mem_append_right _ hc)
    -- of the characters of a query, the token has neither ampersands nor escapes
    have hampersand : c ≠ '&' := fun heq => hone (heq ▸ hc)
    have hpercent : c ≠ '%' := fun heq => hplain (heq ▸ hc)
    simpa [isQueryChar, Text.Percent.isEncodedChar, hampersand, hpercent] using hquery
  · intro hall
    have hampersand : '&' ∉ token.toList := fun hmem => absurd (hall _ hmem) (by decide)
    have hpercent : '%' ∉ token.toList := fun hmem => absurd (hall _ hmem) (by decide)
    constructor
    · rw [hbehind, decode?_tokenKey_iff]
      exact ⟨hampersand, hpercent⟩
    · rw [hbehind]
      intro c hc
      rcases List.mem_append.mp hc with hc | hc
      · have hkey : ∀ d ∈ tokenKey, isQueryChar d = true := List.all_eq_true.mp (by decide)
        exact hkey c hc
      · rcases hall c hc with hunreserved | rfl
        · simp [isQueryChar, Text.Percent.isEncodedChar, hunreserved]
        · decide

section Runs

variable {σ : Type} {line : Line σ} {state : σ} {slug token : String}

/-- The reply to the request for an export holds a token. -/
def Answers (line : Line σ) (state : σ) (slug token : String) : Prop :=
  ∃ request, (Operation.exportToken slug).request = .ok request ∧
    (line.reply request state).1.reading RecipeZipTokenResponse.codec request = .ok ⟨token⟩

/-- The link to an exported recipe is the path of its archive with the token of the server as it is.
Its query decodes to the token, in the alphabet of queries, exactly if the token consists of
unreserved characters and equality signs. -/
theorem exportLink_carries_iff (hslug : '?' ∉ slug.toList) (h : Answers line state slug token) :
    ∃ link, ((exportLink slug).run line state).1 = .ok link ∧
      link = "/api/recipes/" ++ slug ++ "/exports/zip?token=" ++ token ∧
      (CarriesToken link token ↔ ∀ c ∈ token.toList, isUnreserved c = true ∨ c = '=') := by
  obtain ⟨request, hrequest, hread⟩ := h
  have hrun : ((exportLink slug).run line state).1 = .ok (exportPath slug token) := by
    have hcall : ((exportLink slug).run line state).1 =
        ((line.reply request state).1.reading RecipeZipTokenResponse.codec request).map
          fun answer => exportPath slug answer.token :=
      Call.run_perform (c := .exportLink slug) hrequest
    rw [hcall, hread]
    rfl
  exact ⟨_, hrun, exportPath_eq slug token, carriesToken_exportPath hslug token⟩

end Runs

theorem answers_script {slug body token : String}
    (h : (RecipeZipTokenResponse.codec.ofText (Reply.meaning body)).toOption.map (·.token) =
      some token) :
    Answers Script.line { replies := [.answer .okay body] } slug token := by
  obtain ⟨answer, hanswer, rfl⟩ := Option.map_eq_some_iff.mp h
  exact ⟨_, rfl, Reply.reading_answer (Json.ok_of_toOption hanswer)⟩

/-- A token that is padded with equality signs is carried as it is. -/
theorem exportLink_carries_iff_padded :
    let script : Script := { replies := [.answer .okay "\x7b\"token\":\"dG9r-_.~==\"\x7d"] }
    '?' ∉ "soup".toList ∧ Answers Script.line script "soup" "dG9r-_.~==" ∧
      ((exportLink "soup").run Script.line script).1 =
        .ok "/api/recipes/soup/exports/zip?token=dG9r-_.~==" ∧
      CarriesToken "/api/recipes/soup/exports/zip?token=dG9r-_.~==" "dG9r-_.~==" := by
  intro script
  have hslug : '?' ∉ "soup".toList := by simp
  have hanswers : Answers Script.line script "soup" "dG9r-_.~==" :=
    answers_script (by decide +kernel)
  obtain ⟨link, hrun, rfl, hcarries⟩ := exportLink_carries_iff hslug hanswers
  have hall : "dG9r-_.~==".toList.all (fun c => isUnreserved c || c == '=') = true := by decide
  refine ⟨hslug, hanswers, hrun, hcarries.mpr ?_⟩
  intro c hc
  simpa using List.all_eq_true.mp hall c hc

/-- A token with an ampersand ends early, and another pair stands behind it. -/
theorem not_carried_ampersand :
    let script : Script := { replies := [.answer .okay "\x7b\"token\":\"a&b=c\"\x7d"] }
    '?' ∉ "soup".toList ∧ '#' ∉ "soup".toList ∧ Answers Script.line script "soup" "a&b=c" ∧
      ((exportLink "soup").run Script.line script).1 =
        .ok "/api/recipes/soup/exports/zip?token=a&b=c" ∧
      decode? (behindMark "/api/recipes/soup/exports/zip?token=a&b=c".toList) =
        some [("token", "a"), ("b", "c")] ∧
      ¬ CarriesToken "/api/recipes/soup/exports/zip?token=a&b=c" "a&b=c" := by
  intro script
  have hdecoded : decode? (behindMark "/api/recipes/soup/exports/zip?token=a&b=c".toList) =
      some [("token", "a"), ("b", "c")] := by decide +kernel
  refine ⟨by simp, by simp, answers_script (by decide +kernel), ?_, hdecoded, ?_⟩
  · exact Json.ok_of_toOption (by decide +kernel)
  · intro hcarries
    exact absurd (hdecoded.symm.trans hcarries.decodes) (by simp)

end RecipeClient
