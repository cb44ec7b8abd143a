import RecipeClient.Proofs.Json.RecordReading
import RecipeClient.Proofs.Json.Skipping

/-!
# What is read is passed over

A reader checks more than the form of a value, but it ends where the value ends. So wherever a
codec reads a value, the value can be passed over as well, to the same rest.

- `Codec.Skips`: whatever a codec reads is passed over
- one lemma for each way of building a codec
- `Record.Collects`: the members of an object, gathered one by one
- `Record.skips`: so does the codec of a record
-/

namespace RecipeClient.Json

/-! ## Readers -/

/-- Whatever the step reads is passed over, to the same rest. -/
def Step.Skips {α : Type} (step : Step α) : Prop :=
  ∀ ⦃cs a rest⦄, step cs = .ok (a, rest) → skipValue cs = .ok rest

section Readers

variable {α : Type} {depth : Nat}

theorem Step.Skips.skippedItems {step : Step α} (hstep : step.Skips) {fuel : Nat} {first : Bool}
    {cs rest : List Char} {as : List α} (h : elements step fuel first cs = .ok (as, rest)) :
    SkippedItems first cs rest := by
  induction fuel generalizing first cs as with
  | zero => exact absurd h nofun
  | succ fuel ih =>
    obtain ⟨⟨more, front⟩, hnext, h⟩ := bind_eq_ok.mp h
    cases more with
    | false =>
      obtain ⟨_, rfl⟩ := ok_pair_inj.mp h
      exact .done hnext
    | true =>
      obtain ⟨⟨a, behind⟩, hread, h⟩ := bind_eq_ok.mp h
      obtain ⟨⟨others, _⟩, hothers, h⟩ := bind_eq_ok.mp h
      obtain ⟨_, rfl⟩ := ok_pair_inj.mp h
      exact .item hnext (hstep hread) (ih hothers)

theorem Step.Skips.skippedMembers {step : Step α} (hstep : step.Skips) {fuel : Nat} {first : Bool}
    {cs rest : List Char} {as : List (String × α)}
    (h : membersOf step fuel first cs = .ok (as, rest)) :
    ∃ members, SkippedMembers members first cs rest := by
  induction fuel generalizing first cs as with
  | zero => exact absurd h nofun
  | succ fuel ih =>
    obtain ⟨⟨key, front⟩, hnext, h⟩ := bind_eq_ok.mp h
    cases key with
    | none =>
      obtain ⟨_, rfl⟩ := ok_pair_inj.mp h
      exact ⟨[], .done hnext⟩
    | some key =>
      obtain ⟨value, hcolon, h⟩ := bind_eq_ok.mp h
      obtain ⟨⟨a, behind⟩, hread, h⟩ := bind_eq_ok.mp h
      obtain ⟨⟨others, _⟩, hothers, h⟩ := bind_eq_ok.mp h
      obtain ⟨_, rfl⟩ := ok_pair_inj.mp h
      obtain ⟨members, hmembers⟩ := ih hothers
      exact ⟨(key, value) :: members, .member hnext hcolon (hstep hread) hmembers⟩

theorem skips_readString (depth : Nat) (expected : String) :
    Step.Skips (readString expected depth) := by
  intro cs s rest h
  unfold readString at h
  split at h
  · exact absurd h nofun
  · rename_i hfront
    exact skipValue_string hfront h
  · exact absurd h nofun

theorem skips_readBoolean (depth : Nat) : Step.Skips (readBoolean depth) := by
  intro cs b rest h
  unfold readBoolean at h
  split at h
  · exact absurd h nofun
  · rename_i hfront
    obtain ⟨_, hword, h⟩ := bind_eq_ok.mp h
    obtain ⟨_, rfl⟩ := ok_pair_inj.mp h
    exact skipValue_true hfront hword
  · rename_i hfront
    obtain ⟨_, hword, h⟩ := bind_eq_ok.mp h
    obtain ⟨_, rfl⟩ := ok_pair_inj.mp h
    exact skipValue_false hfront hword
  · exact absurd h nofun

theorem skips_readNumber (expected : String) : Step.Skips (readNumber expected depth) := by
  intro cs n rest h
  unfold readNumber at h
  split at h
  · exact absurd h nofun
  · rename_i hfront
    exact skipValue_minus hfront h
  · rename_i hfront
    split at h
    · rename_i hc
      exact skipValue_digit hfront hc h
    · exact absurd h nofun

theorem skips_readUnit : readUnit.Skips := by
  intro cs u rest h
  unfold readUnit at h
  split at h
  · exact absurd h nofun
  · rename_i hfront
    obtain ⟨_, hword, h⟩ := bind_eq_ok.mp h
    obtain ⟨_, rfl⟩ := ok_pair_inj.mp h
    exact skipValue_null hfront hword
  · exact absurd h nofun

theorem skips_readOptional {reader : Reader α} (h : Step.Skips (reader depth)) :
    Step.Skips (readOptional reader depth) := by
  intro cs o rest hread
  by_cases hhead : (skipSpace cs).head? = some 'n'
  · obtain ⟨front, hfront⟩ := List.head?_eq_some_iff.mp hhead
    rw [Codec.readOptional_of_null hfront] at hread
    obtain ⟨_, hword, hread⟩ := bind_eq_ok.mp hread
    obtain ⟨_, rfl⟩ := ok_pair_inj.mp hread
    exact skipValue_null hfront hword
  · -- what is read stands behind the space
    rw [Codec.readOptional_of_head hhead] at hread
    obtain ⟨⟨a, _⟩, hvalue, hread⟩ := bind_eq_ok.mp hread
    obtain ⟨_, rfl⟩ := ok_pair_inj.mp hread
    exact skipValue_of_skipSpace (h hvalue)

theorem skips_readList {reader : Reader α} (h : ∀ depth, Step.Skips (reader depth)) :
    Step.Skips (readList reader depth) := by
  intro cs as rest hread
  unfold readList at hread
  split at hread
  · exact absurd hread nofun
  · rename_i hfront
    cases depth with
    | zero => exact absurd hread nofun
    | succ depth => exact skipValue_list hfront ((h depth).skippedItems hread)
  · exact absurd hread nofun

/-- A value is passed over if the values in it are, which have one level less. -/
theorem skips_readValue_of_inner
    (hinner : ∀ inner, depth = inner + 1 → Step.Skips (Value.read inner)) :
    Step.Skips (Value.read depth) := by
  intro cs v rest h
  rw [Value.read.eq_def] at h
  dsimp only at h
  split at h
  · exact absurd h nofun
  · rename_i hfront
    obtain ⟨_, hword, h⟩ := bind_eq_ok.mp h
    obtain ⟨_, rfl⟩ := ok_pair_inj.mp h
    exact skipValue_null hfront hword
  · rename_i hfront
    obtain ⟨_, hword, h⟩ := bind_eq_ok.mp h
    obtain ⟨_, rfl⟩ := ok_pair_inj.mp h
    exact skipValue_true hfront hword
  · rename_i hfront
    obtain ⟨_, hword, h⟩ := bind_eq_ok.mp h
    obtain ⟨_, rfl⟩ := ok_pair_inj.mp h
    exact skipValue_false hfront hword
  · rename_i hfront
    obtain ⟨_, hscan, h⟩ := bind_eq_ok.mp h
    obtain ⟨_, rfl⟩ := ok_pair_inj.mp h
    exact skipValue_minus hfront hscan
  · rename_i hfront
    obtain ⟨_, hscan, h⟩ := bind_eq_ok.mp h
    obtain ⟨_, rfl⟩ := ok_pair_inj.mp h
    exact skipValue_string hfront hscan
  · rename_i hfront
    cases depth with
    | zero => exact absurd h nofun
    | succ inner =>
      obtain ⟨_, hitems, h⟩ := bind_eq_ok.mp h
      obtain ⟨_, rfl⟩ := ok_pair_inj.mp h
      exact skipValue_list hfront ((hinner inner rfl).skippedItems hitems)
  · rename_i hfront
    cases depth with
    | zero => exact absurd h nofun
    | succ inner =>
      obtain ⟨_, hmembers, h⟩ := bind_eq_ok.mp h
      obtain ⟨_, rfl⟩ := ok_pair_inj.mp h
      obtain ⟨members, hpassed⟩ := (hinner inner rfl).skippedMembers hmembers
      exact skipValue_object hfront hpassed
  · rename_i hfront
    split at h
    · rename_i hc
      obtain ⟨_, hscan, h⟩ := bind_eq_ok.mp h
      obtain ⟨_, rfl⟩ := ok_pair_inj.mp h
      exact skipValue_digit hfront hc hscan
    · exact absurd h nofun

theorem skips_readValue (depth : Nat) : Step.Skips (Value.read depth) := by
  induction depth with
  | zero => exact skips_readValue_of_inner nofun
  | succ depth ih =>
    apply skips_readValue_of_inner
    intro inner hinner
    obtain rfl := Nat.succ.inj hinner
    exact ih

theorem skips_readNamed {named : List (String × α)} : Step.Skips (readNamed named depth) := by
  intro cs a rest h
  unfold readNamed at h
  split at h
  · cases h
  · rename_i hfront
    obtain ⟨⟨s, _⟩, hscan, h⟩ := bind_eq_ok.mp h
    obtain ⟨_, _, h⟩ := bind_eq_ok.mp h
    obtain ⟨_, rfl⟩ := ok_pair_inj.mp h
    exact skipValue_string hfront hscan
  · -- the name is the key of an object that has nothing else but a `null` behind it
    rename_i hfront
    split at h
    · cases h
    · obtain ⟨⟨key, front⟩, hnext, h⟩ := bind_eq_ok.mp h
      cases key with
      | none => cases h
      | some key =>
        obtain ⟨_, _, h⟩ := bind_eq_ok.mp h
        obtain ⟨value, hcolon, h⟩ := bind_eq_ok.mp h
        obtain ⟨⟨_, behind⟩, hunit, h⟩ := bind_eq_ok.mp h
        dsimp only at h
        split at h
        · cases h
        · rename_i tail hclosed
          obtain ⟨_, rfl⟩ := ok_pair_inj.mp h
          have hend : nextKey false behind = .ok (none, tail) := by
            simp only [nextKey, hclosed]
          exact skipValue_object hfront (.member hnext hcolon (skips_readUnit hunit) (.done hend))
        · cases h
  · cases h

end Readers

/-! ## Codecs -/

/-- Whatever the codec reads is passed over, to the same rest. -/
def Codec.Skips {α : Type} (codec : Codec α) : Prop := ∀ depth, Step.Skips (codec.read depth)

namespace Codec

variable {α : Type}

@[simp]
theorem skips_string : Codec.string.Skips := fun depth => skips_readString depth "a string"

@[simp]
theorem skips_boolean : Codec.boolean.Skips := skips_readBoolean

@[simp]
theorem skips_integer : Codec.integer.Skips := by
  intro depth cs i rest h
  obtain ⟨⟨n, _⟩, hread, h⟩ := bind_eq_ok.mp h
  cases n with
  | integer value =>
    dsimp only at h
    split at h
    · obtain ⟨_, rfl⟩ := ok_pair_inj.mp h
      exact skips_readNumber "i64" hread
    · exact absurd h nofun
  | double value => exact absurd h nofun

@[simp]
theorem skips_double : Codec.double.Skips := by
  intro depth cs d rest h
  obtain ⟨⟨n, _⟩, hread, h⟩ := bind_eq_ok.mp h
  -- an integer is taken as a double as well
  cases n with
  | integer value =>
    obtain ⟨_, rfl⟩ := ok_pair_inj.mp h
    exact skips_readNumber "f64" hread
  | double value =>
    obtain ⟨_, rfl⟩ := ok_pair_inj.mp h
    exact skips_readNumber "f64" hread

@[simp]
theorem skips_date : Codec.date.Skips := by
  intro depth cs d rest h
  obtain ⟨⟨s, _⟩, hread, h⟩ := bind_eq_ok.mp h
  dsimp only at h
  split at h
  · obtain ⟨_, rfl⟩ := ok_pair_inj.mp h
    exact skips_readString depth _ hread
  · exact absurd h nofun

@[simp]
theorem skips_any : Codec.any.Skips := by
  intro depth cs v rest h
  obtain ⟨⟨w, _⟩, hread, h⟩ := bind_eq_ok.mp h
  obtain ⟨_, rfl⟩ := ok_pair_inj.mp h
  exact skips_readValue depth hread

@[simp]
theorem skips_named {values : List α} {name : α → String} : (named values name).Skips :=
  fun _ => skips_readNamed

@[simp]
theorem skips_alternatives {type : String} {ofValue? : Value → Option α} {write : α → Value} :
    (alternatives type ofValue? write).Skips := by
  intro depth cs a rest h
  obtain ⟨⟨v, _⟩, hread, h⟩ := bind_eq_ok.mp h
  dsimp only at h
  split at h
  · obtain ⟨_, rfl⟩ := ok_pair_inj.mp h
    exact skips_readValue depth hread
  · exact absurd h nofun

variable {codec : Codec α}

theorem Skips.optional (h : codec.Skips) : codec.optional.Skips :=
  fun depth => skips_readOptional (h depth)

@[simp]
theorem Skips.list (h : codec.Skips) : codec.list.Skips := fun _ => skips_readList h

theorem Skips.listOrNull (h : codec.Skips) : codec.listOrNull.Skips := by
  intro depth cs as rest hread
  obtain ⟨⟨o, _⟩, hoptional, hread⟩ := bind_eq_ok.mp hread
  obtain ⟨_, rfl⟩ := ok_pair_inj.mp hread
  exact skips_readOptional (skips_readList h) hoptional

end Codec

/-! ## Records -/

section Records

variable {ρ β : Type}

namespace Member

/-- Whatever is read as a value of the member is passed over. -/
def Skips (m : Member ρ) : Prop := m.codec.Skips

variable {name : String} {codec : Codec β}

@[simp]
theorem skips_required {get : ρ → β} {set : ρ → β → ρ} (h : codec.Skips) :
    (required name codec get set).Skips := h

@[simp]
theorem skips_withDefault {value : β} {get : ρ → β} {set : ρ → β → ρ} (h : codec.Skips) :
    (withDefault name codec value get set).Skips := h

@[simp]
theorem skips_optional {get : ρ → Option β} {set : ρ → Option β → ρ} (h : codec.Skips) :
    (optional name codec get set).Skips := h.optional

@[simp]
theorem skips_optionalOmitted {get : ρ → Option β} {set : ρ → Option β → ρ} (h : codec.Skips) :
    (optionalOmitted name codec get set).Skips := h.optional

@[simp]
theorem skips_criterion {get : ρ → Option β} {set : ρ → Option β → ρ} (h : codec.Skips) :
    (criterion name codec get set).Skips := h.optional

@[simp]
theorem skips_listOrNull {get : ρ → List β} {set : ρ → List β → ρ} (h : codec.Skips) :
    (listOrNull name codec get set).Skips := h.listOrNull

@[simp]
theorem skips_list {get : ρ → List β} {set : ρ → List β → ρ} (h : codec.Skips) :
    (list name codec get set).Skips := h.list

@[simp]
theorem skips_listOmitted {get : ρ → List β} {set : ρ → List β → ρ} (h : codec.Skips) :
    (listOmitted name codec get set).Skips := h.list

theorem Skips.readUpdate {m : Member ρ} (h : m.Skips) {depth : Nat} {cs rest : List Char}
    {update : ρ → ρ} (hread : m.readUpdate depth cs = .ok (update, rest)) :
    skipValue cs = .ok rest := by
  obtain ⟨⟨b, _⟩, hvalue, hread⟩ := bind_eq_ok.mp hread
  obtain ⟨_, rfl⟩ := ok_pair_inj.mp hread
  exact h depth hvalue

end Member

namespace Record

variable {r : Record ρ} {depth : Nat} {cs rest : List Char}

theorem nextElement_of_endOfList (first : Bool) (h : endOfList cs = .ok rest) :
    nextElement first cs = .ok (false, rest) := by
  unfold endOfList at h
  split at h
  · cases h
  · rename_i hclosed
    obtain rfl := Except.ok.inj h
    simp only [nextElement, hclosed]
  · split at h <;> cases h
  · cases h

theorem skippedItems_of_readElements {ms : List (Member ρ)} (hms : ∀ m ∈ ms, m.Skips) {index : Nat}
    {a b : ρ} (h : r.readElements depth index ms a cs = .ok (b, rest)) :
    SkippedItems (index == 0) cs rest := by
  induction ms generalizing index a cs with
  | nil =>
    obtain ⟨_, hend, h⟩ := bind_eq_ok.mp h
    obtain ⟨_, rfl⟩ := ok_pair_inj.mp h
    exact .done (nextElement_of_endOfList _ hend)
  | cons m ms ih =>
    obtain ⟨⟨more, front⟩, hnext, h⟩ := bind_eq_ok.mp h
    cases more with
    | false =>
      -- the members that are missing have values of their own
      obtain ⟨_, _, h⟩ := bind_eq_ok.mp h
      obtain ⟨_, rfl⟩ := ok_pair_inj.mp h
      exact .done hnext
    | true =>
      obtain ⟨⟨update, behind⟩, hupdate, h⟩ := bind_eq_ok.mp h
      have hm := hms m (List.mem_cons_self ..)
      have hothers := ih (fun n hn => hms n (List.mem_cons_of_mem _ hn)) h
      exact .item hnext (hm.readUpdate hupdate) hothers

/-- A member that is gathered is passed over, whether or not it is known. -/
theorem Gathers.skipValue (hr : ∀ m ∈ r.members, m.Skips) {key : String} {sofar g : Gathered ρ}
    {value : List Char} (h : r.Gathers depth sofar key value g rest) :
    skipValue value = .ok rest := by
  cases h with
  | known found fresh read => exact (hr _ (mem_of_find? found).1).readUpdate read
  | kept unknown keeps read => exact skips_readValue depth read
  | dropped unknown drops skipped => exact skipped

/-- What the members of an object are gathered as. -/
inductive Collects (r : Record ρ) (depth : Nat) :
    List (String × List Char) → Gathered ρ → Prop where
  | nil : Collects r depth [] ⟨[], []⟩
  | known {m : Member ρ} {key : String} {text rest : List Char} {b : m.β}
      {members : List (String × List Char)} {g : Gathered ρ}
      (found : r.members.find? (·.name == key) = some m)
      (read : m.codec.read depth text = .ok (b, rest)) (others : Collects r depth members g) :
      Collects r depth ((key, text) :: members) { g with known := (key, (m.set · b)) :: g.known }
  | kept {key : String} {text rest : List Char} {v : Value}
      {members : List (String × List Char)} {g : Gathered ρ} (unknown : r.knows key = false)
      (keeps : r.remainder.isSome = true) (read : Value.read depth text = .ok (v, rest))
      (others : Collects r depth members g) :
      Collects r depth ((key, text) :: members) { g with unknown := (key, v) :: g.unknown }
  | dropped {key : String} {text : List Char} {members : List (String × List Char)}
      {g : Gathered ρ} (unknown : r.knows key = false) (drops : r.remainder = none)
      (others : Collects r depth members g) : Collects r depth ((key, text) :: members) g

/-- What was gathered before, with what is gathered behind it. -/
def Gathered.append (sofar g : Gathered ρ) : Gathered ρ :=
  ⟨sofar.known ++ g.known, sofar.unknown ++ g.unknown⟩

theorem Gathered.append_known (sofar g : Gathered ρ) (entry : String × (ρ → ρ)) :
    Gathered.append { sofar with known := sofar.known ++ [entry] } g =
      sofar.append { g with known := entry :: g.known } := by
  rw [append, append, ← List.append_cons]

theorem Gathered.append_unknown (sofar g : Gathered ρ) (entry : String × Value) :
    Gathered.append { sofar with unknown := sofar.unknown ++ [entry] } g =
      sofar.append { g with unknown := entry :: g.unknown } := by
  rw [append, append, ← List.append_cons]

theorem collects_of_gatherAll (hr : ∀ m ∈ r.members, m.Skips) {fuel : Nat} {first : Bool}
    {sofar g : Gathered ρ} {cs rest : List Char} (hsofar : (sofar.known.map (·.1)).Nodup)
    (h : r.gatherAll depth fuel first sofar cs = .ok (g, rest)) :
    ∃ members found, SkippedMembers members first cs rest ∧ r.Collects depth members found ∧
      g = sofar.append found ∧ (g.known.map (·.1)).Nodup := by
  induction fuel generalizing first sofar cs with
  | zero => cases h
  | succ fuel ih =>
    obtain ⟨⟨key, front⟩, hnext, h⟩ := bind_eq_ok.mp h
    cases key with
    | none =>
      obtain ⟨rfl, rfl⟩ := ok_pair_inj.mp h
      refine ⟨[], ⟨[], []⟩, .done hnext, .nil, ?_, hsofar⟩
      rw [Gathered.append, List.append_nil, List.append_nil]
    | some key =>
      obtain ⟨⟨next, behind⟩, hgather, h⟩ := bind_eq_ok.mp h
      obtain ⟨value, hcolon, hgathers⟩ := gathers_of_gather hgather
      have hskip := hgathers.skipValue hr
      cases hgathers with
      | @known m update _ hfind hfresh hread =>
        obtain ⟨⟨b, _⟩, hvalue, hupdate⟩ := bind_eq_ok.mp hread
        obtain ⟨rfl, rfl⟩ := ok_pair_inj.mp hupdate
        -- a name that is gathered was not gathered before
        have hnew : key ∉ sofar.known.map (·.1) := by
          intro hmem
          obtain ⟨entry, hentry, rfl⟩ := List.mem_map.mp hmem
          simpa using List.any_eq_false.mp hfresh entry hentry
        have hkeys : ((sofar.known ++ [(key, (m.set · b))]).map (·.1)).Nodup := by
          rw [List.map_append, List.map_singleton, ← List.concat_eq_append]
          exact hsofar.concat hnew
        obtain ⟨members, found, hskipped, hcollects, rfl, hnodup⟩ := ih hkeys h
        exact ⟨_, _, .member hnext hcolon hskip hskipped, .known hfind hvalue hcollects,
          sofar.append_known found _, hnodup⟩
      | @kept v _ hunknown hkeeps hread =>
        let next : Gathered ρ := { sofar with unknown := sofar.unknown ++ [(key, v)] }
        have hkeys : (next.known.map (·.1)).Nodup := hsofar
        obtain ⟨members, found, hskipped, hcollects, rfl, hnodup⟩ := ih hkeys h
        exact ⟨_, _, .member hnext hcolon hskip hskipped, .kept hunknown hkeeps hread hcollects,
          sofar.append_unknown found _, hnodup⟩
      | dropped hunknown hdrops _ =>
        obtain ⟨members, found, hskipped, hcollects, rfl, hnodup⟩ := ih hsofar h
        exact ⟨_, _, .member hnext hcolon hskip hskipped, .dropped hunknown hdrops hcollects, rfl,
          hnodup⟩

/-- What is gathered from nothing on is what the members of the object are gathered as. -/
theorem collects_of_gatherAll_nil (hr : ∀ m ∈ r.members, m.Skips) {fuel : Nat} {g : Gathered ρ}
    (h : r.gatherAll depth fuel true ⟨[], []⟩ cs = .ok (g, rest)) :
    ∃ members, SkippedMembers members true cs rest ∧ r.Collects depth members g ∧
      (g.known.map (·.1)).Nodup := by
  have hnone : ((⟨[], []⟩ : Gathered ρ).known.map (·.1)).Nodup := List.nodup_nil
  obtain ⟨members, _, hskipped, hcollects, rfl, hnodup⟩ := collects_of_gatherAll hr hnone h
  exact ⟨members, hskipped, hcollects, hnodup⟩

theorem skips (hr : ∀ m ∈ r.members, m.Skips) : r.codec.Skips := by
  intro depth cs a rest h
  replace h : r.read depth cs = .ok (a, rest) := h
  unfold read at h
  split at h
  · exact absurd h nofun
  · rename_i hfront
    cases depth with
    | zero => exact absurd h nofun
    | succ depth =>
      obtain ⟨⟨g, behind⟩, hgather, h⟩ := bind_eq_ok.mp h
      obtain ⟨_, _, h⟩ := bind_eq_ok.mp h
      obtain ⟨_, rfl⟩ := ok_pair_inj.mp h
      obtain ⟨members, hmembers, -⟩ := collects_of_gatherAll_nil hr hgather
      exact skipValue_object hfront hmembers
  · -- a record without a place for unknown members may be a list
    rename_i hfront
    split at h
    · exact absurd h nofun
    · cases depth with
      | zero => exact absurd h nofun
      | succ depth => exact skipValue_list hfront (skippedItems_of_readElements hr h)
  · exact absurd h nofun

end Record

end Records

end RecipeClient.Json
