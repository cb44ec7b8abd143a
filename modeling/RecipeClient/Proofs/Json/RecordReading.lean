import Mathlib.Data.List.Nodup
import RecipeClient.Json.Record
import RecipeClient.Proofs.Json.Restoring

/-!
# What is read of a record

A record that was read is made of one value for each member and of the members that it does not
know. Each value was read by the codec of its member or stands for one that was left out, and the
unknown members are sorted, canonical and not named like a known one.

- `Record.Lawful`: what the description of a record has to satisfy
- `Record.origin_of_read`: where the values of a record that was read come from
- `Record.sound_of_read`: what was read can be written
-/

namespace RecipeClient.Json

variable {ρ : Type}

/-! ## Values of members -/

namespace Member

/-- One value for each member. -/
def Values : List (Member ρ) → Type
  | [] => Unit
  | m :: ms => m.β × Values ms

/-- The values that members have in a record. -/
def collect : (ms : List (Member ρ)) → ρ → Values ms
  | [], _ => ()
  | m :: ms, a => (m.get a, collect ms a)

/-- A record with other values of members. -/
def fill : (ms : List (Member ρ)) → Values ms → ρ → ρ
  | [], _, a => a
  | m :: ms, bs, a => fill ms bs.2 (m.set a bs.1)

/-- Something holds of each member and its value. -/
def All (P : (m : Member ρ) → m.β → Prop) : (ms : List (Member ρ)) → Values ms → Prop
  | [], _ => True
  | m :: ms, bs => P m bs.1 ∧ All P ms bs.2

theorem all_collect {P : (m : Member ρ) → m.β → Prop} {ms : List (Member ρ)} {a : ρ}
    (h : All P ms (collect ms a)) : ∀ m ∈ ms, P m (m.get a) := by
  induction ms with
  | nil => exact fun m hm => absurd hm List.not_mem_nil
  | cons m ms ih =>
    intro n hn
    rcases List.mem_cons.mp hn with rfl | hn
    · exact h.1
    · exact ih h.2 n hn

/-- A value of the member that can be written: it is left out, or it is restored. -/
def Sound (depth : Nat) (m : Member ρ) (b : m.β) : Prop :=
  m.omits b = true ∨ m.codec.Restores depth b

/-- Where a value of the member comes from: it was read, or it stands for one that was left out. -/
def Origin (depth : Nat) (m : Member ρ) (b : m.β) : Prop :=
  (∃ cs rest, m.codec.read depth cs = .ok (b, rest)) ∨ m.absence.inObject? = some b

/-- The member's codec is lawful, what is left out when a record is written is what stands for it
when it is read, and every value that stands for one that is left out can be written. -/
structure Lawful (m : Member ρ) (height : Nat) : Prop where
  codec : m.codec.Lawful height
  inObject? : ∀ b, m.omits b = true → m.absence.inObject? = some b
  sound : ∀ b depth, height ≤ depth → m.absence.inObject? = some b → m.Sound depth b

theorem sound_of_origin {m : Member ρ} {height depth : Nat} (hm : m.Lawful height)
    (hdepth : height ≤ depth) {b : m.β} (h : m.Origin depth b) : m.Sound depth b := by
  rcases h with ⟨cs, rest, hread⟩ | habsent
  · exact Or.inr (hm.codec.restores hdepth hread)
  · exact hm.sound b depth hdepth habsent

theorem inObject?_of_inList? {β : Type} {absence : Absence β} {b : β}
    (h : absence.inList? = some b) : absence.inObject? = some b := by
  cases absence with
  | refused => exact absurd h (by simp [Absence.inList?])
  | implied c => exact absurd h (by simp [Absence.inList?])
  | assumed c => exact h

end Member

/-! ## Lawful records -/

namespace Record

open Member (Values collect fill All)

/-- The record with the given values of its members and the given unknown members. -/
def make (r : Record ρ) (bs : Values r.members) (unknown : Entries) : ρ :=
  match r.remainder with
  | some place => place.set (fill r.members bs r.blank) unknown
  | none => fill r.members bs r.blank

/-- The unknown members of a record. -/
def rest (r : Record ρ) (a : ρ) : Entries :=
  match r.remainder with
  | some place => place.get a
  | none => []

/-- Members have different names and are lawful, and a record is the same as the values of its
members with its unknown members. -/
structure Lawful (r : Record ρ) (height : Nat) : Prop where
  names : (r.members.map (·.name)).Nodup
  members : ∀ m ∈ r.members, m.Lawful height
  collect_make : ∀ bs unknown, collect r.members (r.make bs unknown) = bs
  rest_make : r.remainder.isSome = true → ∀ bs unknown, r.rest (r.make bs unknown) = unknown
  make_collect : ∀ a, r.make (collect r.members a) (r.rest a) = a

/-- The unknown members are sorted, canonical and not named like a known one. -/
structure Tidy (r : Record ρ) (a : ρ) : Prop where
  ascending : (r.rest a).Ascending
  canonical : ∀ entry ∈ r.rest a, entry.2.canonical = entry.2
  unknown : ∀ entry ∈ r.rest a, r.knows entry.1 = false

/-- Something holds of the members and their values, and the unknown members are tidy and fit. -/
structure Holds (r : Record ρ) (P : (m : Member ρ) → m.β → Prop) (depth : Nat) (a : ρ) : Prop
    extends r.Tidy a where
  members : ∀ m ∈ r.members, P m (m.get a)
  fits : ∀ entry ∈ r.rest a, entry.2.Fits depth

/-- A record that can be written at a depth. -/
abbrev Sound (r : Record ρ) (depth : Nat) (a : ρ) : Prop := r.Holds (Member.Sound depth) depth a

/-- A record as it is read at a depth. -/
abbrev Origin (r : Record ρ) (depth : Nat) (a : ρ) : Prop := r.Holds (Member.Origin depth) depth a

variable {r : Record ρ} {depth height : Nat}

theorem sound_of_origin (hr : r.Lawful height) (hdepth : height ≤ depth) {a : ρ}
    (h : r.Origin depth a) : r.Sound depth a :=
  { h with members := fun m hm => Member.sound_of_origin (hr.members m hm) hdepth (h.members m hm) }

theorem rest_eq_nil (h : r.remainder = none) (a : ρ) : r.rest a = [] := by
  rw [rest, h]

theorem find?_eq_none {key : String} :
    r.members.find? (·.name == key) = none ↔ r.knows key = false := by
  rw [List.find?_eq_none, knows, List.any_eq_false]

theorem mem_of_find? {key : String} {m : Member ρ}
    (h : r.members.find? (·.name == key) = some m) : m ∈ r.members ∧ m.name = key :=
  ⟨List.mem_of_find?_eq_some h, by simpa using List.find?_some h⟩

/-! ## Reading objects -/

/-- All that gathering the member under a key can do, from the text of its value on. -/
inductive Gathers (r : Record ρ) (depth : Nat) (sofar : Gathered ρ) (key : String)
    (value : List Char) : Gathered ρ → List Char → Prop where
  | known {m : Member ρ} {update : ρ → ρ} {rest : List Char}
      (found : r.members.find? (·.name == key) = some m)
      (fresh : sofar.known.any (·.1 == key) = false)
      (read : m.readUpdate depth value = .ok (update, rest)) :
      Gathers r depth sofar key value
        { sofar with known := sofar.known ++ [(key, update)] } rest
  | kept {v : Value} {rest : List Char} (unknown : r.knows key = false)
      (keeps : r.remainder.isSome = true) (read : Value.read depth value = .ok (v, rest)) :
      Gathers r depth sofar key value
        { sofar with unknown := sofar.unknown ++ [(key, v)] } rest
  | dropped {rest : List Char} (unknown : r.knows key = false) (drops : r.remainder = none)
      (skipped : skipValue value = .ok rest) : Gathers r depth sofar key value sofar rest

theorem gathers_of_gather {key : String} {sofar g : Gathered ρ}
    {cs rest : List Char} (h : r.gather depth key sofar cs = .ok (g, rest)) :
    ∃ value, colon cs = .ok value ∧ r.Gathers depth sofar key value g rest := by
  unfold gather at h
  split at h
  · rename_i m hfind
    dsimp only at h
    split at h
    · exact absurd h nofun
    · rename_i hfresh
      obtain ⟨value, hcolon, h⟩ := bind_eq_ok.mp h
      obtain ⟨⟨update, _⟩, hupdate, h⟩ := bind_eq_ok.mp h
      obtain ⟨rfl, rfl⟩ := ok_pair_inj.mp h
      exact ⟨value, hcolon, .known hfind (Bool.eq_false_iff.mpr hfresh) hupdate⟩
  · rename_i hfind
    obtain ⟨value, hcolon, h⟩ := bind_eq_ok.mp h
    have hunknown := find?_eq_none.mp hfind
    dsimp only at h
    split at h
    · rename_i place hplace
      obtain ⟨⟨v, _⟩, hread, h⟩ := bind_eq_ok.mp h
      obtain ⟨rfl, rfl⟩ := ok_pair_inj.mp h
      exact ⟨value, hcolon, .kept hunknown (hplace ▸ rfl) hread⟩
    · rename_i hplace
      obtain ⟨_, hskip, h⟩ := bind_eq_ok.mp h
      obtain ⟨rfl, rfl⟩ := ok_pair_inj.mp h
      exact ⟨value, hcolon, .dropped hunknown hplace hskip⟩

/-- What has been gathered was read at a depth. -/
structure Gathered.Origin (r : Record ρ) (depth : Nat) (g : Gathered ρ) : Prop where
  known : ∀ entry ∈ g.known, ∃ m ∈ r.members, m.name = entry.1 ∧
    ∃ b, entry.2 = (m.set · b) ∧ m.Origin depth b
  unknown : ∀ entry ∈ g.unknown, r.knows entry.1 = false ∧ entry.2.Fits depth

theorem origin_of_readUpdate {m : Member ρ} {cs rest : List Char} {update : ρ → ρ}
    (h : m.readUpdate depth cs = .ok (update, rest)) :
    ∃ b, update = (m.set · b) ∧ m.Origin depth b := by
  obtain ⟨⟨b, _⟩, hread, h⟩ := bind_eq_ok.mp h
  obtain ⟨rfl, rfl⟩ := ok_pair_inj.mp h
  exact ⟨b, rfl, Or.inl ⟨_, _, hread⟩⟩

theorem origin_of_gather {key : String} {sofar g : Gathered ρ} {cs rest : List Char}
    (hsofar : sofar.Origin r depth) (h : r.gather depth key sofar cs = .ok (g, rest)) :
    g.Origin r depth := by
  obtain ⟨value, _, hgathers⟩ := gathers_of_gather h
  cases hgathers with
  | @known m update _ found fresh read =>
    obtain ⟨hmem, hname⟩ := mem_of_find? found
    refine ⟨?_, hsofar.unknown⟩
    intro entry hentry
    -- known members are gathered at the end
    rcases List.mem_append.mp hentry with hentry | hentry
    · exact hsofar.known entry hentry
    · obtain rfl := List.mem_singleton.mp hentry
      exact ⟨m, hmem, hname, origin_of_readUpdate read⟩
  | kept unknown keeps read =>
    refine ⟨hsofar.known, ?_⟩
    intro entry hentry
    rcases List.mem_append.mp hentry with hentry | hentry
    · exact hsofar.unknown entry hentry
    · obtain rfl := List.mem_singleton.mp hentry
      exact ⟨unknown, Value.fits_of_read read⟩
  | dropped unknown drops skipped => exact hsofar

theorem origin_of_gatherAll {fuel : Nat} {first : Bool} {sofar g : Gathered ρ}
    {cs rest : List Char} (hsofar : sofar.Origin r depth)
    (h : r.gatherAll depth fuel first sofar cs = .ok (g, rest)) : g.Origin r depth := by
  induction fuel generalizing first sofar cs with
  | zero => exact absurd h (by simp [gatherAll])
  | succ fuel ih =>
    obtain ⟨⟨key, front⟩, _, h⟩ := bind_eq_ok.mp h
    cases key with
    | none =>
      obtain ⟨rfl, rfl⟩ := ok_pair_inj.mp h
      exact hsofar
    | some key =>
      obtain ⟨⟨next, behind⟩, hgather, h⟩ := bind_eq_ok.mp h
      -- what has been gathered stays what was read from member to member
      exact ih (origin_of_gather hsofar hgather) h

theorem mem_of_lookup {known : List (String × (ρ → ρ))} {key : String} {update : ρ → ρ}
    (h : known.lookup key = some update) : (key, update) ∈ known := by
  obtain ⟨front, behind, rfl, _⟩ := List.lookup_eq_some_iff.mp h
  exact List.mem_append_right _ (List.mem_cons_self ..)

/-- The record that is put together has the values that were read, and those that stand for the
ones left out. -/
theorem origin_of_assemble (hr : r.Lawful height) {g : Gathered ρ} (hg : g.Origin r depth)
    {ms : List (Member ρ)} (hms : ∀ m ∈ ms, m ∈ r.members) {a b : ρ}
    (h : assemble g.known ms a = .ok b) :
    ∃ bs : Values ms, b = fill ms bs a ∧ All (Member.Origin depth) ms bs := by
  induction ms generalizing a with
  | nil => exact ⟨(), (Except.ok.inj h).symm, trivial⟩
  | cons m ms ih =>
    have hm := hms m (List.mem_cons_self ..)
    have hlater := fun n hn => hms n (List.mem_cons_of_mem _ hn)
    unfold assemble at h
    split at h
    · rename_i update hlookup
      obtain ⟨n, hn, hname, value, hupdate, hvalue⟩ := hg.known _ (mem_of_lookup hlookup)
      obtain rfl : update = (n.set · value) := hupdate
      -- only one member has the name, so the value is one of its own
      obtain rfl := List.inj_on_of_nodup_map hr.names hn hm hname
      obtain ⟨bs, rfl, hbs⟩ := ih hlater h
      exact ⟨(value, bs), rfl, hvalue, hbs⟩
    · split at h
      · rename_i update hupdate
        obtain ⟨value, hvalue, rfl⟩ := Option.map_eq_some_iff.mp hupdate
        obtain ⟨bs, rfl, hbs⟩ := ih hlater h
        exact ⟨(value, bs), rfl, Or.inr hvalue, hbs⟩
      · exact absurd h (by simp)

/-! ## Reading lists -/

theorem origin_of_withoutRest {index : Nat} {ms : List (Member ρ)} {a b : ρ}
    (h : r.withoutRest index ms a = .ok b) :
    ∃ bs : Values ms, b = fill ms bs a ∧ All (Member.Origin depth) ms bs := by
  induction ms generalizing index a with
  | nil => exact ⟨(), (Except.ok.inj h).symm, trivial⟩
  | cons m ms ih =>
    unfold withoutRest at h
    split at h
    · rename_i update hupdate
      obtain ⟨value, hvalue, rfl⟩ := Option.map_eq_some_iff.mp hupdate
      obtain ⟨bs, rfl, hbs⟩ := ih h
      exact ⟨(value, bs), rfl, Or.inr (Member.inObject?_of_inList? hvalue), hbs⟩
    · exact absurd h (by simp)

theorem origin_of_readElements {index : Nat} {ms : List (Member ρ)} {a b : ρ}
    {cs rest : List Char} (h : r.readElements depth index ms a cs = .ok (b, rest)) :
    ∃ bs : Values ms, b = fill ms bs a ∧ All (Member.Origin depth) ms bs := by
  induction ms generalizing index a cs with
  | nil =>
    obtain ⟨_, _, h⟩ := bind_eq_ok.mp h
    obtain ⟨rfl, rfl⟩ := ok_pair_inj.mp h
    exact ⟨(), rfl, trivial⟩
  | cons m ms ih =>
    obtain ⟨⟨more, front⟩, _, h⟩ := bind_eq_ok.mp h
    cases more with
    | false =>
      obtain ⟨c, hc, h⟩ := bind_eq_ok.mp h
      obtain ⟨rfl, rfl⟩ := ok_pair_inj.mp h
      -- the list ends early, and the members that are left take their defaults
      exact origin_of_withoutRest hc
    | true =>
      obtain ⟨⟨update, behind⟩, hupdate, h⟩ := bind_eq_ok.mp h
      obtain ⟨value, rfl, hvalue⟩ := origin_of_readUpdate hupdate
      obtain ⟨bs, rfl, hbs⟩ := ih h
      exact ⟨(value, bs), rfl, hvalue, hbs⟩

/-! ## Records -/

/-- What holds of values holds of a record made of them, with unknown members in canonical form. -/
theorem holds_make {P : (m : Member ρ) → m.β → Prop} (hr : r.Lawful height)
    {bs : Values r.members} (hbs : All P r.members bs) {unknown : Entries}
    (hunknown : ∀ entry ∈ unknown, r.knows entry.1 = false ∧ entry.2.Fits depth) :
    r.Holds P depth (r.make bs (Entries.sorted (Value.canonicalMembers unknown))) := by
  have hmembers : ∀ m ∈ r.members,
      P m (m.get (r.make bs (Entries.sorted (Value.canonicalMembers unknown)))) := by
    -- a record is the values of its members, so what holds of the values holds in it
    refine Member.all_collect ?_
    rw [hr.collect_make]
    exact hbs
  -- sorting keeps the keys and the values, and values are canonical from here on
  have hentries : ∀ entry ∈ Entries.sorted (Value.canonicalMembers unknown),
      r.knows entry.1 = false ∧ entry.2.Fits depth ∧ entry.2.canonical = entry.2 := by
    intro entry hentry
    obtain ⟨e, he, rfl⟩ := Value.exists_of_mem_canonical hentry
    obtain ⟨hknows, hfits⟩ := hunknown e he
    exact ⟨hknows, hfits.canonical, e.2.canonical_canonical⟩
  cases hremainder : r.remainder with
  | none =>
    refine ⟨⟨?_, ?_, ?_⟩, hmembers, ?_⟩ <;> rw [rest_eq_nil hremainder]
    · exact List.Pairwise.nil
    all_goals exact fun entry hentry => absurd hentry List.not_mem_nil
  | some place =>
    have hrest := hr.rest_make (by rw [hremainder]; rfl) bs
    refine ⟨⟨?_, ?_, ?_⟩, hmembers, ?_⟩ <;> rw [hrest]
    · exact Entries.ascending_sorted _
    · exact fun entry hentry => (hentries entry hentry).2.2
    · exact fun entry hentry => (hentries entry hentry).1
    · exact fun entry hentry => (hentries entry hentry).2.1

theorem origin_of_ofGathered (hr : r.Lawful height) {g : Gathered ρ} (hg : g.Origin r depth)
    {a : ρ} (h : r.ofGathered g = .ok a) : r.Origin depth a := by
  obtain ⟨b, hb, h⟩ := bind_eq_ok.mp h
  obtain ⟨bs, rfl, hbs⟩ := origin_of_assemble hr hg (fun m hm => hm) hb
  have horigin := holds_make hr hbs hg.unknown
  suffices ha : r.make bs (Entries.sorted (Value.canonicalMembers g.unknown)) = a from ha ▸ horigin
  unfold make
  cases hplace : r.remainder with
  | none =>
    rw [hplace] at h
    exact pure_eq_ok.mp h
  | some place =>
    rw [hplace] at h
    exact pure_eq_ok.mp h

/-- The members of a record that was read were read one container further in. -/
theorem origin_of_read (hr : r.Lawful height) {cs rest : List Char} {a : ρ}
    (h : r.read depth cs = .ok (a, rest)) : ∃ inner, depth = inner + 1 ∧ r.Origin inner a := by
  unfold read at h
  split at h
  · exact absurd h (by simp)
  · cases depth with
    | zero => exact absurd h (by simp)
    | succ depth =>
      obtain ⟨⟨g, behind⟩, hgather, h⟩ := bind_eq_ok.mp h
      obtain ⟨b, hb, h⟩ := bind_eq_ok.mp h
      obtain ⟨rfl, rfl⟩ := ok_pair_inj.mp h
      -- nothing has been gathered yet
      have hempty : Gathered.Origin r depth ⟨[], []⟩ :=
        ⟨fun entry hentry => absurd hentry List.not_mem_nil,
          fun entry hentry => absurd hentry List.not_mem_nil⟩
      exact ⟨depth, rfl, origin_of_ofGathered hr (origin_of_gatherAll hempty hgather) hb⟩
  · split at h
    · exact absurd h (by simp)
    · rename_i hremainder
      cases depth with
      | zero => exact absurd h (by simp)
      | succ depth =>
        obtain ⟨bs, rfl, hbs⟩ := origin_of_readElements h
        have hnone : r.remainder = none := by simpa using hremainder
        -- a record that can be given as a list has no unknown members
        have hmake : r.make bs [] = fill r.members bs r.blank := by rw [make, hnone]
        have horigin : r.Origin depth (r.make bs []) :=
          holds_make hr hbs fun entry hentry => absurd hentry List.not_mem_nil
        exact ⟨depth, rfl, hmake ▸ horigin⟩
  · exact absurd h (by simp)

/-- What was read of a record can be written, one container further in. -/
theorem sound_of_read (hr : r.Lawful height) (hdepth : height + 1 ≤ depth) {cs rest : List Char}
    {a : ρ} (h : r.read depth cs = .ok (a, rest)) :
    ∃ inner, depth = inner + 1 ∧ r.Sound inner a := by
  obtain ⟨inner, rfl, horigin⟩ := origin_of_read hr h
  exact ⟨inner, rfl, sound_of_origin hr (Nat.le_of_succ_le_succ hdepth) horigin⟩

end Record

end RecipeClient.Json
