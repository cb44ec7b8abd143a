import RecipeClient.Proofs.Json.Lookup
import RecipeClient.Proofs.Json.RecordRestoring
import RecipeClient.Proofs.Json.SkippedReading

/-!
# Reading a text and taking a value

A codec reads from a text, or takes what it wants from a value that was read before. Where both can
be done they come to the same: what is read from the front of a text is what is taken from the value
that stands there, in canonical form.

- `Codec.Agrees`: reading and taking come to the same
- one lemma for each way of building a codec
- `Record.agrees`: so they do for the codec of a record
-/

namespace RecipeClient.Json

/-- What the step reads is what is taken from the value that stands there, and both end in the same
place. -/
def Step.Agrees {α : Type} (step : Step α) (depth : Nat) (take : Value → Option α) : Prop :=
  ∀ ⦃cs a rest v behind⦄, step cs = .ok (a, rest) → Value.read depth cs = .ok (v, behind) →
    rest = behind ∧ take v.canonical = some a

/-- What the codec reads is what it takes from the value that stands there. -/
def Codec.Agrees {α : Type} (codec : Codec α) : Prop :=
  ∀ depth, Step.Agrees (codec.read depth) depth codec.ofValue?

theorem Value.read_skipSpace (depth : Nat) (cs : List Char) :
    Value.read depth (skipSpace cs) = Value.read depth cs := by
  rw [Value.read.eq_def, Value.read.eq_def depth cs]
  simp only [skipSpace_skipSpace]

/-- A value is read from its first character on. -/
theorem Value.read_of_skipSpace {depth : Nat} {cs front : List Char} (h : skipSpace cs = front) :
    Value.read depth cs = Value.read depth front := by
  rw [← Value.read_skipSpace, h]

theorem Value.read_of_null (depth : Nat) (cs : List Char) :
    Value.read depth ('n' :: cs) = word "ull".toList cs >>= fun rest => .ok (.null, rest) := by
  cases depth <;> rfl

/-! ## Readers -/

section Readers

variable {α : Type} {depth : Nat}

theorem agrees_readString (expected : String) :
    Step.Agrees (readString expected depth) depth Value.asString? := by
  intro cs s rest v behind h hv
  unfold readString at h
  split at h
  · exact absurd h nofun
  · rename_i front hfront
    rw [Value.read_of_skipSpace hfront, Value.read_quote, h, ok_bind] at hv
    obtain ⟨rfl, rfl⟩ := ok_pair_inj.mp hv
    exact ⟨rfl, rfl⟩
  · exact absurd h nofun

theorem agrees_readNumber {expected : String} {cs rest behind : List Char} {n : Number} {v : Value}
    (h : readNumber expected depth cs = .ok (n, rest))
    (hv : Value.read depth cs = .ok (v, behind)) : rest = behind ∧ v = .number n := by
  unfold readNumber at h
  split at h
  · exact absurd h nofun
  · rename_i front hfront
    rw [Value.read_of_skipSpace hfront, Value.read_minus, h, ok_bind] at hv
    obtain ⟨rfl, rfl⟩ := ok_pair_inj.mp hv
    exact ⟨rfl, rfl⟩
  · rename_i c front _ hfront
    split at h
    · rename_i hc
      rw [Value.read_of_skipSpace hfront, Value.read_digit _ _ hc, h, ok_bind] at hv
      obtain ⟨rfl, rfl⟩ := ok_pair_inj.mp hv
      exact ⟨rfl, rfl⟩
    · exact absurd h nofun

theorem agrees_elements {step : Step α} {take : Value → Option α} (hstep : step.Agrees depth take)
    {fuel : Nat} {first : Bool} {cs rest behind : List Char} {as : List α} {vs : List Value}
    (h : elements step fuel first cs = .ok (as, rest))
    (hvs : elements (Value.read depth) fuel first cs = .ok (vs, behind)) :
    rest = behind ∧ (vs.map Value.canonical).mapM take = some as := by
  induction fuel generalizing first cs as vs with
  | zero => exact absurd h nofun
  | succ fuel ih =>
    obtain ⟨⟨more, front⟩, hnext, h⟩ := bind_eq_ok.mp h
    rw [elements, hnext, ok_bind] at hvs
    cases more with
    | false =>
      obtain ⟨rfl, rfl⟩ := ok_pair_inj.mp h
      obtain ⟨rfl, rfl⟩ := ok_pair_inj.mp hvs
      exact ⟨rfl, rfl⟩
    | true =>
      obtain ⟨⟨a, later⟩, hread, h⟩ := bind_eq_ok.mp h
      obtain ⟨⟨others, _⟩, hothers, h⟩ := bind_eq_ok.mp h
      obtain ⟨rfl, rfl⟩ := ok_pair_inj.mp h
      obtain ⟨⟨v, _⟩, hv, hvs⟩ := bind_eq_ok.mp hvs
      obtain ⟨⟨values, _⟩, hvalues, hvs⟩ := bind_eq_ok.mp hvs
      obtain ⟨rfl, rfl⟩ := ok_pair_inj.mp hvs
      -- both go on behind the same element
      obtain ⟨rfl, htake⟩ := hstep hread hv
      obtain ⟨rfl, htakes⟩ := ih hothers hvalues
      exact ⟨rfl, by simp [htake, htakes]⟩

end Readers

/-! ## Codecs -/

namespace Codec

variable {α : Type} {codec : Codec α}

@[simp]
theorem agrees_string : Codec.string.Agrees := fun _ => agrees_readString "a string"

@[simp]
theorem agrees_double : Codec.double.Agrees := by
  intro depth cs d rest v behind h hv
  obtain ⟨⟨n, _⟩, hread, h⟩ := bind_eq_ok.mp h
  -- an integer is taken as a double as well
  cases n with
  | integer i =>
    obtain ⟨rfl, rfl⟩ := ok_pair_inj.mp h
    obtain ⟨rfl, rfl⟩ := agrees_readNumber hread hv
    exact ⟨rfl, rfl⟩
  | double d =>
    obtain ⟨rfl, rfl⟩ := ok_pair_inj.mp h
    obtain ⟨rfl, rfl⟩ := agrees_readNumber hread hv
    exact ⟨rfl, rfl⟩

@[simp]
theorem agrees_any : Codec.any.Agrees := by
  intro depth cs w rest v behind h hv
  obtain ⟨⟨v', _⟩, hread, h⟩ := bind_eq_ok.mp h
  obtain ⟨rfl, rfl⟩ := ok_pair_inj.mp h
  obtain ⟨rfl, rfl⟩ := ok_pair_inj.mp (hread.symm.trans hv)
  exact ⟨rfl, congrArg some v'.canonical_canonical⟩

theorem ofValue?_optional {v : Value} (h : v ≠ .null) :
    codec.optional.ofValue? v = (codec.ofValue? v).map some := by
  cases v with
  | null => exact absurd rfl h
  | boolean _ | number _ | string _ | array _ | object _ => rfl

theorem Agrees.optional (h : codec.Agrees) : codec.optional.Agrees := by
  intro depth cs o rest v behind hread hv
  by_cases hhead : (skipSpace cs).head? = some 'n'
  · obtain ⟨front, hfront⟩ := List.head?_eq_some_iff.mp hhead
    replace hread : readOptional codec.read depth cs = .ok (o, rest) := hread
    rw [readOptional_of_null hfront] at hread
    obtain ⟨_, hword, hread⟩ := bind_eq_ok.mp hread
    obtain ⟨rfl, rfl⟩ := ok_pair_inj.mp hread
    rw [Value.read_of_skipSpace hfront, Value.read_of_null, hword, ok_bind] at hv
    obtain ⟨rfl, rfl⟩ := ok_pair_inj.mp hv
    exact ⟨rfl, rfl⟩
  · replace hread : readOptional codec.read depth cs = .ok (o, rest) := hread
    rw [readOptional_of_head hhead] at hread
    obtain ⟨⟨a, _⟩, hvalue, hread⟩ := bind_eq_ok.mp hread
    obtain ⟨rfl, rfl⟩ := ok_pair_inj.mp hread
    have hnull : v ≠ .null := by
      rintro rfl
      -- a value that does not begin like `null` is not `null`
      exact hhead (Value.origin_of_read hv)
    rw [← Value.read_skipSpace] at hv
    obtain ⟨rfl, htake⟩ := h depth hvalue hv
    have hcanonical : v.canonical ≠ .null := Value.laidOut_ne_null hnull true
    refine ⟨rfl, ?_⟩
    rw [ofValue?_optional hcanonical, htake]
    rfl

theorem Agrees.list (h : codec.Agrees) : codec.list.Agrees := by
  intro depth cs as rest v behind hread hv
  replace hread : readList codec.read depth cs = .ok (as, rest) := hread
  unfold readList at hread
  split at hread
  · cases hread
  · rename_i front hfront
    cases depth with
    | zero => cases hread
    | succ depth =>
      rw [Value.read_of_skipSpace hfront, Value.read_bracket] at hv
      obtain ⟨⟨vs, _⟩, hvs, hv⟩ := bind_eq_ok.mp hv
      obtain ⟨rfl, rfl⟩ := ok_pair_inj.mp hv
      obtain ⟨rfl, htakes⟩ := agrees_elements (h depth) hread hvs
      refine ⟨rfl, ?_⟩
      rw [Value.canonical, Value.canonicalItems_eq_map]
      exact htakes
  · cases hread

theorem Agrees.listOrNull (h : codec.Agrees) : codec.listOrNull.Agrees := by
  intro depth cs as rest v behind hread hv
  obtain ⟨⟨o, _⟩, hoptional, hread⟩ := bind_eq_ok.mp hread
  obtain ⟨rfl, rfl⟩ := ok_pair_inj.mp hread
  obtain ⟨rfl, htake⟩ := h.list.optional depth hoptional hv
  refine ⟨rfl, ?_⟩
  show (codec.list.optional.ofValue? v.canonical).map _ = _
  rw [htake]
  rfl

/-- What is read from a whole text is taken from the value in the text. -/
theorem Agrees.ofText (h : codec.Agrees) {text : String} {a : α} {v : Value}
    (hread : codec.ofText text = .ok a) (hv : Value.ofText text = .ok v) :
    codec.ofValue? v = some a := by
  obtain ⟨rest, hread⟩ := ofText_eq_ok hread
  obtain ⟨raw, hraw, rfl⟩ := map_eq_ok.mp hv
  obtain ⟨⟨_, _⟩, hvalue, hraw⟩ := bind_eq_ok.mp hraw
  obtain ⟨_, _, hraw⟩ := bind_eq_ok.mp hraw
  obtain rfl := pure_eq_ok.mp hraw
  exact (h nestingLimit hread hvalue).2

end Codec

/-! ## Records -/

namespace Member

variable {ρ β : Type} {name : String} {codec : Codec β}

/-- Reading and taking come to the same for the values of the member. -/
def Agrees (m : Member ρ) : Prop := m.codec.Agrees

@[simp]
theorem agrees_required {get : ρ → β} {set : ρ → β → ρ} (h : codec.Agrees) :
    (required name codec get set).Agrees := h

@[simp]
theorem agrees_withDefault {value : β} {get : ρ → β} {set : ρ → β → ρ} (h : codec.Agrees) :
    (withDefault name codec value get set).Agrees := h

@[simp]
theorem agrees_optional {get : ρ → Option β} {set : ρ → Option β → ρ} (h : codec.Agrees) :
    (optional name codec get set).Agrees := h.optional

@[simp]
theorem agrees_listOrNull {get : ρ → List β} {set : ρ → List β → ρ} (h : codec.Agrees) :
    (listOrNull name codec get set).Agrees := h.listOrNull

@[simp]
theorem agrees_listOmitted {get : ρ → List β} {set : ρ → List β → ρ} (h : codec.Agrees) :
    (listOmitted name codec get set).Agrees := h.list

theorem Agrees.takeUpdate? {m : Member ρ} (h : m.Agrees) {depth : Nat} {cs rest behind : List Char}
    {update : ρ → ρ} {v : Value} (hread : m.readUpdate depth cs = .ok (update, rest))
    (hv : Value.read depth cs = .ok (v, behind)) :
    rest = behind ∧ m.takeUpdate? v.canonical = some update := by
  obtain ⟨⟨b, _⟩, hvalue, hread⟩ := bind_eq_ok.mp hread
  obtain ⟨rfl, rfl⟩ := ok_pair_inj.mp hread
  obtain ⟨rfl, htake⟩ := h depth hvalue hv
  exact ⟨rfl, by rw [Member.takeUpdate?, htake, Option.map_some]⟩

end Member

namespace Record

variable {ρ : Type} {r : Record ρ} {depth : Nat} {cs rest behind : List Char}

/-! ### Objects -/

/-- What has been gathered stands for members that were read as values. -/
structure StandsFor (r : Record ρ) (g : Gathered ρ) (read : Entries) : Prop where
  missing : ∀ m ∈ r.members, read.get? m.name = none → g.known.lookup m.name = none
  taken : ∀ m ∈ r.members, ∀ v, read.get? m.name = some v →
    ∃ update, g.known.lookup m.name = some update ∧ m.takeUpdate? v.canonical = some update
  unknown : r.remainder.isSome = true → g.unknown = read.filter fun entry => !r.knows entry.1

private theorem lookup_of_fresh {known : List (String × (ρ → ρ))} {key : String}
    (h : known.any (·.1 == key) = false) : known.lookup key = none := by
  apply List.lookup_eq_none_iff.mpr
  intro entry hentry
  have hne : ¬ entry.1 = key := by simpa using List.any_eq_false.mp h entry hentry
  simpa using Ne.symm hne

/-- A member that the record does not know changes nothing for the others. -/
theorem StandsFor.concat_unknown {sofar g : Gathered ρ} {read : Entries} (h : r.StandsFor sofar read)
    {key : String} (hkey : r.knows key = false) (hknown : g.known = sofar.known) (v : Value)
    (hunknown : r.remainder.isSome = true → g.unknown = sofar.unknown ++ [(key, v)]) :
    r.StandsFor g (read ++ [(key, v)]) := by
  have hne : ∀ m ∈ r.members, key ≠ m.name := by
    rintro m hm rfl
    exact absurd ((knows_name hm).symm.trans hkey) (by simp)
  constructor
  · intro m hm hmissing
    rw [Entries.get?_concat, if_neg (hne m hm)] at hmissing
    exact hknown ▸ h.missing m hm hmissing
  · intro m hm w hw
    rw [Entries.get?_concat, if_neg (hne m hm)] at hw
    exact hknown ▸ h.taken m hm w hw
  · intro hkeeps
    rw [hunknown hkeeps, h.unknown hkeeps, List.filter_append]
    simp [hkey]

/-- A member that the record knows and that was not gathered before is found from then on. -/
theorem StandsFor.concat_known (hnames : (r.members.map (·.name)).Nodup) {sofar : Gathered ρ}
    {read : Entries} (h : r.StandsFor sofar read) {m : Member ρ} (hm : m ∈ r.members)
    (fresh : sofar.known.any (·.1 == m.name) = false) {update : ρ → ρ} {v : Value}
    (htake : m.takeUpdate? v.canonical = some update) :
    r.StandsFor { sofar with known := sofar.known ++ [(m.name, update)] }
      (read ++ [(m.name, v)]) := by
  have hlookup : ∀ name, (sofar.known ++ [(m.name, update)]).lookup name =
      (sofar.known.lookup name).or (if name = m.name then some update else none) := by
    intro name
    rw [List.lookup_append]
    by_cases hname : name = m.name
    · simp [hname]
    · simp [List.lookup_cons, hname, beq_eq_false_iff_ne.mpr hname]
  constructor
  · intro n hn hmissing
    rw [Entries.get?_concat] at hmissing
    split at hmissing
    · exact absurd hmissing (by simp)
    · rename_i hne
      rw [hlookup, h.missing n hn hmissing, if_neg (Ne.symm hne)]
      rfl
  · intro n hn w hw
    rw [Entries.get?_concat] at hw
    split at hw
    · rename_i hname
      -- only one member has the name, and nothing was gathered for it before
      obtain rfl := List.inj_on_of_nodup_map hnames hm hn hname
      obtain rfl := Option.some.inj hw
      exact ⟨update, by rw [hlookup, lookup_of_fresh fresh, if_pos rfl]; rfl, htake⟩
    · obtain ⟨other, hother, htaken⟩ := h.taken n hn w hw
      exact ⟨other, by rw [hlookup, hother]; rfl, htaken⟩
  · intro hkeeps
    rw [List.filter_append]
    simpa [knows_name hm] using h.unknown hkeeps

theorem StandsFor.gathers (hnames : (r.members.map (·.name)).Nodup) (hr : ∀ m ∈ r.members, m.Agrees)
    {sofar g : Gathered ρ} {read : Entries} (h : r.StandsFor sofar read) {key : String}
    {value : List Char} (hgathers : r.Gathers depth sofar key value g rest) {v : Value}
    (hv : Value.read depth value = .ok (v, behind)) :
    rest = behind ∧ r.StandsFor g (read ++ [(key, v)]) := by
  cases hgathers with
  | @known m update _ found fresh hread =>
    obtain ⟨hm, rfl⟩ := mem_of_find? found
    obtain ⟨rfl, htake⟩ := (hr m hm).takeUpdate? hread hv
    exact ⟨rfl, h.concat_known hnames hm fresh htake⟩
  | kept unknown keeps hread =>
    obtain ⟨rfl, rfl⟩ := ok_pair_inj.mp (hread.symm.trans hv)
    refine ⟨rfl, ?_⟩
    apply h.concat_unknown unknown
    · rfl
    · exact fun _ => rfl
  | dropped unknown drops skipped =>
    obtain rfl := Except.ok.inj (skipped.symm.trans (skips_readValue depth hv))
    refine ⟨rfl, ?_⟩
    apply h.concat_unknown unknown
    · rfl
    · intro hkeeps
      rw [drops] at hkeeps
      exact absurd hkeeps (by simp)

theorem standsFor_of_gatherAll (hnames : (r.members.map (·.name)).Nodup)
    (hr : ∀ m ∈ r.members, m.Agrees) {fuel : Nat} {first : Bool} {sofar g : Gathered ρ}
    {read members : Entries} (hsofar : r.StandsFor sofar read)
    (h : r.gatherAll depth fuel first sofar cs = .ok (g, rest))
    (hv : membersOf (Value.read depth) fuel first cs = .ok (members, behind)) :
    rest = behind ∧ r.StandsFor g (read ++ members) := by
  induction fuel generalizing first sofar cs read members with
  | zero => exact absurd h nofun
  | succ fuel ih =>
    obtain ⟨⟨key, front⟩, hnext, h⟩ := bind_eq_ok.mp h
    rw [membersOf, hnext, ok_bind] at hv
    cases key with
    | none =>
      obtain ⟨rfl, rfl⟩ := ok_pair_inj.mp h
      obtain ⟨rfl, rfl⟩ := ok_pair_inj.mp hv
      exact ⟨rfl, by rwa [List.append_nil]⟩
    | some key =>
      obtain ⟨⟨next, later⟩, hgather, h⟩ := bind_eq_ok.mp h
      obtain ⟨value, hcolon, hgathers⟩ := gathers_of_gather hgather
      obtain ⟨_, hcolon', hv⟩ := bind_eq_ok.mp hv
      obtain rfl := Except.ok.inj (hcolon.symm.trans hcolon')
      obtain ⟨⟨v, _⟩, hvalue, hv⟩ := bind_eq_ok.mp hv
      obtain ⟨⟨others, _⟩, hothers, hv⟩ := bind_eq_ok.mp hv
      obtain ⟨rfl, rfl⟩ := ok_pair_inj.mp hv
      -- both go on behind the same member
      obtain ⟨rfl, hstands⟩ := hsofar.gathers hnames hr hgathers hvalue
      obtain ⟨rfl, hall⟩ := ih hstands h hothers
      exact ⟨rfl, by rwa [List.append_cons]⟩

/-- What is put together from the members that were gathered is put together from their values. -/
theorem StandsFor.takeMembers {g : Gathered ρ} {read : Entries} (h : r.StandsFor g read)
    {ms : List (Member ρ)} (hms : ∀ m ∈ ms, m ∈ r.members) {a b : ρ}
    (hmade : assemble g.known ms a = .ok b) :
    Record.takeMembers (Entries.sorted (Value.canonicalMembers read)) ms a = some b := by
  induction ms generalizing a with
  | nil => exact congrArg some (Except.ok.inj hmade)
  | cons m ms ih =>
    have hm := hms m (List.mem_cons_self ..)
    have hlater := fun n hn => hms n (List.mem_cons_of_mem _ hn)
    rw [assemble] at hmade
    rw [Record.takeMembers, Entries.get?_canonical]
    cases hread : read.get? m.name with
    | none =>
      rw [h.missing m hm hread] at hmade
      cases hupdate : m.updateInObject? with
      | none =>
        rw [hupdate] at hmade
        exact absurd hmade (by simp)
      | some update =>
        rw [hupdate] at hmade
        exact ih hlater hmade
    | some v =>
      obtain ⟨update, hlookup, htake⟩ := h.taken m hm v hread
      rw [hlookup] at hmade
      rw [Option.map_some]
      dsimp only
      rw [htake]
      exact ih hlater hmade

/-- The unknown members are the same, whether they are told apart before or after sorting. -/
theorem sorted_unknown (read : Entries) :
    Entries.sorted (Value.canonicalMembers (read.filter fun entry => !r.knows entry.1)) =
      Entries.sorted (Value.canonicalMembers
        ((Entries.sorted (Value.canonicalMembers read)).filter fun entry => !r.knows entry.1)) := by
  apply (Entries.ascending_sorted _).eq_of_get? (Entries.ascending_sorted _)
  intro key
  rw [Entries.get?_canonical, Entries.get?_canonical]
  cases hkey : r.knows key with
  | true =>
    have hnone : ∀ entries : Entries,
        Entries.get? (entries.filter fun entry => !r.knows entry.1) key = none := by
      intro entries
      apply Entries.get?_eq_none.mpr
      intro hmem
      obtain ⟨entry, hentry, rfl⟩ := List.mem_map.mp hmem
      simp [hkey] at hentry
    rw [hnone, hnone, Option.map_none]
  | false =>
    have hkept : (!r.knows key) = true := by simp [hkey]
    rw [Entries.get?_filter (fun key => !r.knows key) hkept,
      Entries.get?_filter (fun key => !r.knows key) hkept, Entries.get?_canonical, Option.map_map]
    congr 1
    exact funext fun v => v.canonical_canonical.symm

theorem StandsFor.ofEntries? {g : Gathered ρ} {read : Entries} (h : r.StandsFor g read) {a : ρ}
    (hmade : r.ofGathered g = .ok a) :
    r.ofEntries? (Entries.sorted (Value.canonicalMembers read)) = some a := by
  obtain ⟨b, hb, hmade⟩ := bind_eq_ok.mp hmade
  rw [Record.ofEntries?, h.takeMembers (fun m hm => hm) hb]
  cases hplace : r.remainder with
  | none =>
    rw [hplace] at hmade
    exact congrArg some (pure_eq_ok.mp hmade)
  | some place =>
    rw [hplace] at hmade
    obtain rfl := pure_eq_ok.mp hmade
    rw [h.unknown (by simp [hplace]), sorted_unknown]
    rfl

/-! ### Lists -/

theorem takeElements_of_withoutRest {index : Nat} {ms : List (Member ρ)} {a b : ρ}
    (h : r.withoutRest index ms a = .ok b) : takeElements ms [] a = some b := by
  induction ms generalizing index a with
  | nil => exact congrArg some (Except.ok.inj h)
  | cons m ms ih =>
    rw [withoutRest] at h
    rw [takeElements]
    cases hupdate : m.updateInList? with
    | none =>
      rw [hupdate] at h
      exact absurd h (by simp)
    | some update =>
      rw [hupdate] at h
      exact ih h

theorem takeElements_of_readElements {ms : List (Member ρ)} (hms : ∀ m ∈ ms, m.Agrees)
    {index fuel : Nat} {a b : ρ} {vs : List Value}
    (h : r.readElements depth index ms a cs = .ok (b, rest))
    (hv : elements (Value.read depth) fuel (index == 0) cs = .ok (vs, behind)) :
    rest = behind ∧ takeElements ms (vs.map Value.canonical) a = some b := by
  induction ms generalizing index fuel a cs vs with
  | nil =>
    obtain ⟨_, hend, h⟩ := bind_eq_ok.mp h
    obtain ⟨rfl, rfl⟩ := ok_pair_inj.mp h
    cases fuel with
    | zero => exact absurd hv nofun
    | succ fuel =>
      rw [elements, nextElement_of_endOfList _ hend, ok_bind] at hv
      obtain ⟨rfl, rfl⟩ := ok_pair_inj.mp hv
      exact ⟨rfl, rfl⟩
  | cons m ms ih =>
    obtain ⟨⟨more, front⟩, hnext, h⟩ := bind_eq_ok.mp h
    cases fuel with
    | zero => exact absurd hv nofun
    | succ fuel =>
      rw [elements, hnext, ok_bind] at hv
      cases more with
      | false =>
        obtain ⟨c, hc, h⟩ := bind_eq_ok.mp h
        obtain ⟨rfl, rfl⟩ := ok_pair_inj.mp h
        obtain ⟨rfl, rfl⟩ := ok_pair_inj.mp hv
        exact ⟨rfl, takeElements_of_withoutRest hc⟩
      | true =>
        obtain ⟨⟨update, later⟩, hupdate, h⟩ := bind_eq_ok.mp h
        obtain ⟨⟨v, _⟩, hvalue, hv⟩ := bind_eq_ok.mp hv
        obtain ⟨⟨others, _⟩, hothers, hv⟩ := bind_eq_ok.mp hv
        obtain ⟨rfl, rfl⟩ := ok_pair_inj.mp hv
        obtain ⟨rfl, htake⟩ := (hms m (List.mem_cons_self ..)).takeUpdate? hupdate hvalue
        obtain ⟨rfl, htakes⟩ := ih (fun n hn => hms n (List.mem_cons_of_mem _ hn)) h hothers
        exact ⟨rfl, by rw [List.map_cons, takeElements, htake, Option.bind_some, htakes]⟩

/-- Records are read from objects, and closed ones from lists, as they are taken from them. -/
theorem agrees (hnames : (r.members.map (·.name)).Nodup) (hr : ∀ m ∈ r.members, m.Agrees) :
    r.codec.Agrees := by
  intro depth cs a rest v behind h hv
  replace h : r.read depth cs = .ok (a, rest) := h
  unfold read at h
  split at h
  · cases h
  · rename_i front hfront
    cases depth with
    | zero => cases h
    | succ depth =>
      obtain ⟨⟨g, _⟩, hgather, h⟩ := bind_eq_ok.mp h
      obtain ⟨_, hmade, h⟩ := bind_eq_ok.mp h
      obtain ⟨rfl, rfl⟩ := ok_pair_inj.mp h
      rw [Value.read_of_skipSpace hfront, Value.read_brace] at hv
      obtain ⟨⟨members, _⟩, hmembers, hv⟩ := bind_eq_ok.mp hv
      obtain ⟨rfl, rfl⟩ := ok_pair_inj.mp hv
      -- nothing has been gathered yet
      have hempty : r.StandsFor ⟨[], []⟩ [] :=
        ⟨fun _ _ _ => rfl, fun _ _ _ hv => absurd hv (by simp [Entries.get?]), fun _ => rfl⟩
      obtain ⟨rfl, hstands⟩ := standsFor_of_gatherAll hnames hr hempty hgather hmembers
      rw [List.nil_append] at hstands
      exact ⟨rfl, hstands.ofEntries? hmade⟩
  · rename_i front hfront
    split at h
    · cases h
    · rename_i hclosed
      cases depth with
      | zero => cases h
      | succ depth =>
        rw [Value.read_of_skipSpace hfront, Value.read_bracket] at hv
        obtain ⟨⟨vs, _⟩, hvs, hv⟩ := bind_eq_ok.mp hv
        obtain ⟨rfl, rfl⟩ := ok_pair_inj.mp hv
        obtain ⟨rfl, htake⟩ := takeElements_of_readElements hr h hvs
        refine ⟨rfl, ?_⟩
        rw [Value.canonical, Value.canonicalItems_eq_map]
        show (if r.remainder.isSome then none else _) = _
        rw [if_neg hclosed, htake]
  · cases h

end Record

end RecipeClient.Json
