import RecipeClient.Proofs.Json.UnknownMembers

/-!
# What an object is read as

A record that is read from an object holds, for each of its members, what the codec of the member
reads where the object has the name, and what stands for a missing value where it has not. No known
name may occur twice. The order of the members, and whatever a record without a place for unknown
members passes over, have no influence.

- `Record.Collects.lookup`: what is gathered for a member of the record
- `Record.MadeOf`: what the members of an object have to be for a record
- `Record.read_object_iff`: reading an object, told without the reader
-/

namespace RecipeClient.Json

/-- The text is one of an object, if it is one of a value. -/
def StartsObject (text : String) : Prop := (skipSpace text.toList).head? = some '\x7b'

instance (text : String) : Decidable (StartsObject text) := inferInstanceAs (Decidable (_ = _))

/-- Members that are read outside the known ones are read in one way. -/
theorem ReadOutside.unique {known : String → Bool} {depth : Nat}
    {members : List (String × List Char)} {read other : Entries}
    (h : ReadOutside known depth members read) (hother : ReadOutside known depth members other) :
    read = other := by
  induction h generalizing other with
  | nil => cases hother with
    | nil => rfl
  | known old others ih =>
    cases hother with
    | known _ others' => exact ih others'
    | unknown new _ _ => exact absurd (old.symm.trans new) (by simp)
  | unknown new value others ih =>
    cases hother with
    | known old _ => exact absurd (old.symm.trans new) (by simp)
    | unknown _ value' others' =>
      obtain ⟨rfl, -⟩ := ok_pair_inj.mp (value.symm.trans value')
      rw [ih others']

namespace Record

variable {ρ : Type} {r : Record ρ} {depth height : Nat} {members : List (String × List Char)}

/-! ## Gathering -/

/-- The keys that the record knows, in the order of the text. -/
def knownKeys (r : Record ρ) (members : List (String × List Char)) : List String :=
  (members.map (·.1)).filter r.knows

theorem knownKeys_cons_of_knows {key : String} (h : r.knows key = true) (text : List Char) :
    r.knownKeys ((key, text) :: members) = key :: r.knownKeys members := by
  simp [knownKeys, h]

theorem knownKeys_cons_of_unknown {key : String} (h : r.knows key = false) (text : List Char) :
    r.knownKeys ((key, text) :: members) = r.knownKeys members := by
  simp [knownKeys, h]

theorem mem_knownKeys {key : String} {text : List Char} (hkey : r.knows key = true)
    (h : (key, text) ∈ members) : key ∈ r.knownKeys members :=
  List.mem_filter.mpr ⟨List.mem_map_of_mem h, hkey⟩

theorem name_ne_of_unknown {m : Member ρ} (hm : m ∈ r.members) {key : String}
    (h : r.knows key = false) : m.name ≠ key := by
  rintro rfl
  exact absurd ((knows_name hm).symm.trans h) (by simp)

theorem mem_cons_of_ne {name key : String} (h : name ≠ key) {text other : List Char} :
    (name, other) ∈ (key, text) :: members ↔ (name, other) ∈ members := by
  simp [h]

theorem Collects.keys {g : Gathered ρ} (h : r.Collects depth members g) :
    g.known.map (·.1) = r.knownKeys members := by
  induction h with
  | nil => rfl
  | known found read others ih =>
    rw [knownKeys_cons_of_knows (knows_of_find? found), List.map_cons, ih]
  | kept unknown keeps read others ih => rw [knownKeys_cons_of_unknown unknown, ih]
  | dropped unknown drops others ih => rw [knownKeys_cons_of_unknown unknown, ih]

theorem gather_of_gathers {key : String} {sofar g : Gathered ρ} {cs value rest : List Char}
    (hcolon : colon cs = .ok value) (h : r.Gathers depth sofar key value g rest) :
    r.gather depth key sofar cs = .ok (g, rest) := by
  unfold gather
  cases h with
  | known found fresh read =>
    rw [found]
    simp only [fresh, Bool.false_eq_true, if_false, hcolon, read, ok_bind]
    rfl
  | kept unknown keeps read =>
    obtain ⟨place, hplace⟩ := Option.isSome_iff_exists.mp keeps
    rw [find?_eq_none.mpr unknown]
    simp only [hcolon, hplace, read, ok_bind]
    rfl
  | dropped unknown drops skipped =>
    rw [find?_eq_none.mpr unknown]
    simp only [hcolon, drops, skipped, ok_bind]
    rfl

theorem gatherAll_of_collects (hr : ∀ m ∈ r.members, m.Skips) {first : Bool}
    {cs rest : List Char} (hskipped : SkippedMembers members first cs rest) {sofar g : Gathered ρ}
    (h : r.Collects depth members g) (hkeys : ((sofar.append g).known.map (·.1)).Nodup) {fuel : Nat}
    (hfuel : cs.length < fuel) :
    r.gatherAll depth fuel first sofar cs = .ok (sofar.append g, rest) := by
  induction hskipped generalizing sofar g fuel with
  | done closed =>
    cases h
    cases fuel with
    | zero => exact absurd hfuel (Nat.not_lt_zero _)
    | succ fuel =>
      rw [gatherAll, closed, Gathered.append, List.append_nil, List.append_nil]
      rfl
  | @member members first key cs front value behind rest next separated skipped _ ih =>
    cases fuel with
    | zero => exact absurd hfuel (Nat.not_lt_zero _)
    | succ fuel =>
      have hvalue := length_lt_of_skipSpace (colon_eq_ok.mp separated)
      have hbehind := length_skipValue_lt skipped
      have hfront := length_nextKey_lt next
      -- the member is gathered, and the others behind it
      suffices hgathers : ∃ step others, r.Gathers depth sofar key value step behind ∧
          r.Collects depth members others ∧ step.append others = sofar.append g by
        obtain ⟨step, others, hgathers, hcollects, heq⟩ := hgathers
        have hothers := ih hcollects (heq ▸ hkeys) (show behind.length < fuel by omega)
        simp only [gatherAll, next, gather_of_gathers separated hgathers, ok_bind, hothers, heq]
      cases h with
      | @known m _ _ rest' b _ g found read others =>
        obtain ⟨hm, -⟩ := mem_of_find? found
        obtain rfl := Except.ok.inj ((hr m hm depth read).symm.trans skipped)
        have hfresh : sofar.known.any (·.1 == key) = false := by
          apply List.any_eq_false.mpr
          intro entry hentry
          have hnodup : (sofar.known.map (·.1) ++ key :: g.known.map (·.1)).Nodup := by
            simpa [Gathered.append] using hkeys
          have hne := (List.nodup_append.mp hnodup).2.2 entry.1 (List.mem_map_of_mem hentry) key
            (List.mem_cons_self ..)
          simpa using hne
        have hupdate : m.readUpdate depth value = .ok ((m.set · b), rest') := by
          rw [Member.readUpdate, read]
          rfl
        exact ⟨_, _, .known found hfresh hupdate, others, sofar.append_known g _⟩
      | @kept _ _ rest' v _ g unknown keeps read others =>
        obtain rfl := Except.ok.inj ((skips_readValue depth read).symm.trans skipped)
        exact ⟨_, _, .kept unknown keeps read, others, sofar.append_unknown g _⟩
      | dropped unknown drops others => exact ⟨_, _, .dropped unknown drops skipped, others, rfl⟩

/-! ## Records made of members -/

/-- The members of an object are those of a record: the names that it knows occur once, each value
is read from the text of its member or stands for one that is missing, and the other members are
kept if there is a place for them. -/
structure MadeOf (r : Record ρ) (depth : Nat) (members : List (String × List Char)) (a : ρ) :
    Prop where
  once : (r.knownKeys members).Nodup
  present : ∀ m ∈ r.members, ∀ text, (m.name, text) ∈ members →
    ∃ rest, m.codec.read depth text = .ok (m.get a, rest)
  missing : ∀ m ∈ r.members, (∀ text, (m.name, text) ∉ members) →
    m.absence.inObject? = some (m.get a)
  unknown : r.remainder.isSome = true → ∃ read, ReadOutside r.knows depth members read ∧
    r.rest a = Entries.sorted (Value.canonicalMembers read)

/-- What is gathered for a member, if its name is there, is read from the only text that it has. -/
theorem Collects.lookup (hnames : (r.members.map (·.name)).Nodup) {g : Gathered ρ}
    (h : r.Collects depth members g) (honce : (r.knownKeys members).Nodup) {m : Member ρ}
    (hm : m ∈ r.members) :
    (g.known.lookup m.name = none ∧ ∀ text, (m.name, text) ∉ members) ∨
      ∃ text rest b, (m.name, text) ∈ members ∧
        (∀ other, (m.name, other) ∈ members → other = text) ∧
        m.codec.read depth text = .ok (b, rest) ∧ g.known.lookup m.name = some (m.set · b) := by
  induction h with
  | nil => exact Or.inl ⟨rfl, fun _ => List.not_mem_nil⟩
  | @known n key text rest b members g found read others ih =>
    obtain ⟨hn, rfl⟩ := mem_of_find? found
    rw [knownKeys_cons_of_knows (knows_name hn)] at honce
    obtain ⟨hnew, honce⟩ := List.nodup_cons.mp honce
    by_cases hname : m.name = n.name
    · -- only one member of the record has the name, and no later one of the object
      obtain rfl := List.inj_on_of_nodup_map hnames hm hn hname
      refine Or.inr ⟨text, rest, b, List.mem_cons_self .., ?_, read, List.lookup_cons_self⟩
      intro other hother
      rcases List.mem_cons.mp hother with heq | hmem
      · exact (Prod.mk.inj heq).2
      · exact absurd (mem_knownKeys (knows_name hm) hmem) hnew
    · have hlookup : ((n.name, (n.set · b)) :: g.known).lookup m.name = g.known.lookup m.name := by
        rw [List.lookup_cons, beq_eq_false_iff_ne.mpr hname]
      simp only [mem_cons_of_ne hname, hlookup]
      exact ih honce
  | @kept key text rest v members g unknown keeps read others ih =>
    rw [knownKeys_cons_of_unknown unknown] at honce
    simp only [mem_cons_of_ne (name_ne_of_unknown hm unknown)]
    exact ih honce
  | dropped unknown drops others ih =>
    rw [knownKeys_cons_of_unknown unknown] at honce
    simp only [mem_cons_of_ne (name_ne_of_unknown hm unknown)]
    exact ih honce

/-! ## From what was gathered to the record -/

theorem values_of_assemble (hnames : (r.members.map (·.name)).Nodup) {g : Gathered ρ}
    (h : r.Collects depth members g) (honce : (r.knownKeys members).Nodup) {ms : List (Member ρ)}
    (hms : ∀ m ∈ ms, m ∈ r.members) {a b : ρ} (hmade : assemble g.known ms a = .ok b) :
    ∃ bs : Member.Values ms, b = Member.fill ms bs a ∧
      Member.All (fun m value =>
        (∀ text, (m.name, text) ∈ members → ∃ rest, m.codec.read depth text = .ok (value, rest)) ∧
        ((∀ text, (m.name, text) ∉ members) → m.absence.inObject? = some value)) ms bs := by
  induction ms generalizing a with
  | nil => exact ⟨(), (Except.ok.inj hmade).symm, trivial⟩
  | cons m ms ih =>
    have hlater := fun n hn => hms n (List.mem_cons_of_mem _ hn)
    rw [assemble] at hmade
    rcases h.lookup hnames honce (hms m (List.mem_cons_self ..)) with
      ⟨hlookup, hmissing⟩ | ⟨text, rest, value, hmem, honly, hread, hlookup⟩
    · rw [hlookup] at hmade
      dsimp only at hmade
      split at hmade
      · rename_i update hupdate
        obtain ⟨value, hvalue, rfl⟩ := Option.map_eq_some_iff.mp hupdate
        obtain ⟨bs, rfl, hbs⟩ := ih hlater hmade
        refine ⟨(value, bs), rfl, ⟨?_, fun _ => hvalue⟩, hbs⟩
        exact fun text hmem => absurd hmem (hmissing text)
      · cases hmade
    · rw [hlookup] at hmade
      obtain ⟨bs, rfl, hbs⟩ := ih hlater hmade
      refine ⟨(value, bs), rfl, ⟨?_, fun hmissing => absurd hmem (hmissing text)⟩, hbs⟩
      intro other hother
      exact ⟨rest, by rw [honly other hother, hread]⟩

theorem make_eq_ofGathered {g : Gathered ρ} {a : ρ} (h : r.ofGathered g = .ok a) :
    ∃ b, assemble g.known r.members r.blank = .ok b ∧ ∀ bs, b = Member.fill r.members bs r.blank →
      a = r.make bs (Entries.sorted (Value.canonicalMembers g.unknown)) := by
  obtain ⟨b, hb, h⟩ := bind_eq_ok.mp h
  refine ⟨b, hb, ?_⟩
  rintro bs rfl
  unfold make
  cases hplace : r.remainder with
  | none =>
    rw [hplace] at h
    exact (pure_eq_ok.mp h).symm
  | some place =>
    rw [hplace] at h
    exact (pure_eq_ok.mp h).symm

theorem madeOf_of_ofGathered (hr : r.Lawful height) {g : Gathered ρ}
    (h : r.Collects depth members g) (honce : (r.knownKeys members).Nodup) {a : ρ}
    (hmade : r.ofGathered g = .ok a) : r.MadeOf depth members a := by
  obtain ⟨b, hb, hmake⟩ := make_eq_ofGathered hmade
  obtain ⟨bs, hbs, hvalues⟩ := values_of_assemble hr.names h honce (fun m hm => hm) hb
  obtain rfl := hmake bs hbs
  rw [← hr.collect_make bs] at hvalues
  have hall := Member.all_collect hvalues
  refine ⟨honce, fun m hm => (hall m hm).1, fun m hm => (hall m hm).2, ?_⟩
  intro hkeeps
  exact ⟨g.unknown, h.readOutside hkeeps, hr.rest_make hkeeps bs _⟩

/-! ## From the record to what is gathered -/

theorem exists_collects
    (hpresent : ∀ m ∈ r.members, ∀ text, (m.name, text) ∈ members →
      ∃ b rest, m.codec.read depth text = .ok (b, rest))
    (hunknown : r.remainder.isSome = true → ∃ read, ReadOutside r.knows depth members read) :
    ∃ g, r.Collects depth members g := by
  induction members with
  | nil => exact ⟨_, .nil⟩
  | cons head members ih =>
    obtain ⟨key, text⟩ := head
    have hothers : ∃ g, r.Collects depth members g := by
      apply ih fun m hm text hmem => hpresent m hm text (List.mem_cons_of_mem _ hmem)
      intro hkeeps
      obtain ⟨read, hread⟩ := hunknown hkeeps
      cases hread with
      | known _ others => exact ⟨_, others⟩
      | unknown _ _ others => exact ⟨_, others⟩
    obtain ⟨g, hg⟩ := hothers
    cases hfind : r.members.find? (·.name == key) with
    | some m =>
      obtain ⟨hm, rfl⟩ := mem_of_find? hfind
      obtain ⟨b, rest, hread⟩ := hpresent m hm text (List.mem_cons_self ..)
      exact ⟨_, .known hfind hread hg⟩
    | none =>
      have hnew := find?_eq_none.mp hfind
      cases hplace : r.remainder with
      | none => exact ⟨_, .dropped hnew hplace hg⟩
      | some place =>
        have hkeeps : r.remainder.isSome = true := by rw [hplace, Option.isSome_some]
        obtain ⟨read, hread⟩ := hunknown hkeeps
        cases hread with
        | known old _ => exact absurd (hnew.symm.trans old) (by simp)
        | unknown _ value _ => exact ⟨_, .kept hnew hkeeps value hg⟩

theorem MadeOf.assemble (hnames : (r.members.map (·.name)).Nodup) {a : ρ}
    (h : r.MadeOf depth members a) {g : Gathered ρ} (hg : r.Collects depth members g)
    {ms : List (Member ρ)} (hms : ∀ m ∈ ms, m ∈ r.members) (b : ρ) :
    Record.assemble g.known ms b = .ok (Member.fill ms (Member.collect ms a) b) := by
  induction ms generalizing b with
  | nil => rfl
  | cons m ms ih =>
    have hm := hms m (List.mem_cons_self ..)
    have hlater := fun n hn => hms n (List.mem_cons_of_mem _ hn)
    rw [Record.assemble]
    rcases hg.lookup hnames h.once hm with
      ⟨hlookup, hmissing⟩ | ⟨text, rest, value, hmem, -, hread, hlookup⟩
    · have hupdate : m.updateInObject? = some (m.set · (m.get a)) := by
        rw [Member.updateInObject?, h.missing m hm hmissing]
        rfl
      rw [hlookup, hupdate]
      exact ih hlater _
    · -- what was read for the member is its value in the record
      obtain ⟨rest', hvalue⟩ := h.present m hm text hmem
      obtain ⟨rfl, -⟩ := ok_pair_inj.mp (hread.symm.trans hvalue)
      rw [hlookup]
      exact ih hlater _

theorem MadeOf.ofGathered (hr : r.Lawful height) {a : ρ} (h : r.MadeOf depth members a)
    {g : Gathered ρ} (hg : r.Collects depth members g) : r.ofGathered g = .ok a := by
  have hmake := hr.make_collect a
  rw [make] at hmake
  rw [Record.ofGathered, h.assemble hr.names hg (fun m hm => hm), ok_bind]
  cases hplace : r.remainder with
  | none =>
    rw [hplace] at hmake
    exact congrArg Except.ok hmake
  | some place =>
    have hkeeps : r.remainder.isSome = true := by rw [hplace, Option.isSome_some]
    -- the unknown members were read in one way
    obtain ⟨read, hread, hrest⟩ := h.unknown hkeeps
    rw [hplace, hrest, hread.unique (hg.readOutside hkeeps)] at hmake
    exact congrArg Except.ok hmake

/-! ## Reading objects -/

/-- An object is read as a record if its members are passed over and make the record. -/
theorem read_object_iff (hr : r.Lawful height) (hskips : ∀ m ∈ r.members, m.Skips)
    {cs front rest : List Char} {a : ρ} (hfront : skipSpace cs = '\x7b' :: front) :
    r.read (depth + 1) cs = .ok (a, rest) ↔
      ∃ members, SkippedMembers members true front rest ∧ r.MadeOf depth members a := by
  have hread : r.read (depth + 1) cs =
      (r.gatherAll depth (front.length + 1) true ⟨[], []⟩ front >>= fun gathered =>
        r.ofGathered gathered.1 >>= fun a => .ok (a, gathered.2)) := by
    rw [read, hfront]
    rfl
  rw [hread]
  constructor
  · intro h
    obtain ⟨⟨g, _⟩, hgather, h⟩ := bind_eq_ok.mp h
    obtain ⟨_, hmade, h⟩ := bind_eq_ok.mp h
    obtain ⟨rfl, rfl⟩ := ok_pair_inj.mp h
    obtain ⟨members, hskipped, hcollects, hnodup⟩ := collects_of_gatherAll_nil hskips hgather
    have honce : (r.knownKeys members).Nodup := hcollects.keys ▸ hnodup
    exact ⟨members, hskipped, madeOf_of_ofGathered hr hcollects honce hmade⟩
  · rintro ⟨members, hskipped, hmade⟩
    have hpresent : ∀ m ∈ r.members, ∀ text, (m.name, text) ∈ members →
        ∃ b rest, m.codec.read depth text = .ok (b, rest) := by
      intro m hm text hmem
      exact ⟨_, hmade.present m hm text hmem⟩
    have hunknown : r.remainder.isSome = true → ∃ read, ReadOutside r.knows depth members read := by
      intro hkeeps
      obtain ⟨read, hread, -⟩ := hmade.unknown hkeeps
      exact ⟨read, hread⟩
    obtain ⟨g, hg⟩ := exists_collects hpresent hunknown
    have honce : (((⟨[], []⟩ : Gathered ρ).append g).known.map (·.1)).Nodup := by
      rw [Gathered.append, List.nil_append, hg.keys]
      exact hmade.once
    rw [gatherAll_of_collects hskips hskipped hg honce (Nat.lt_succ_self _), ok_bind]
    show (r.ofGathered g >>= fun a => .ok (a, rest)) = _
    rw [hmade.ofGathered hr hg, ok_bind]

/-! ## Whole texts -/

/-- The text of an object is read as a record if its members make the record. -/
theorem ofText_object_iff (hr : r.Lawful height) (hskips : ∀ m ∈ r.members, m.Skips)
    {text : String} (htext : StartsObject text) {a : ρ} :
    r.codec.ofText text = .ok a ↔ ∃ front rest members, skipSpace text.toList = '\x7b' :: front ∧
      SkippedMembers members true front rest ∧ finish rest = .ok () ∧
      r.MadeOf (nestingLimit - 1) members a := by
  obtain ⟨front, hfront⟩ := List.head?_eq_some_iff.mp htext
  have hread : ∀ {rest a}, r.read (nestingLimit - 1 + 1) text.toList = .ok (a, rest) ↔ _ :=
    read_object_iff hr hskips hfront
  constructor
  · intro h
    obtain ⟨⟨_, rest⟩, hvalue, h⟩ := bind_eq_ok.mp h
    obtain ⟨_, hend, h⟩ := bind_eq_ok.mp h
    obtain rfl := pure_eq_ok.mp h
    obtain ⟨members, hskipped, hmade⟩ := hread.mp hvalue
    exact ⟨front, rest, members, hfront, hskipped, hend, hmade⟩
  · rintro ⟨front', rest, members, hfront', hskipped, hend, hmade⟩
    obtain ⟨-, rfl⟩ := List.cons.inj (hfront.symm.trans hfront')
    have hvalue : r.codec.read nestingLimit text.toList = .ok (a, rest) :=
      hread.mpr ⟨members, hskipped, hmade⟩
    rw [Codec.ofText, Reader.whole, hvalue, ok_bind]
    simp only [hend, ok_bind]
    rfl

/-- A record with a place for unknown members is read from objects only. -/
theorem startsObject_of_ofText (hkeeps : r.remainder.isSome = true) {text : String} {a : ρ}
    (h : r.codec.ofText text = .ok a) : StartsObject text := by
  obtain ⟨rest, hread⟩ := Codec.ofText_eq_ok h
  replace hread : r.read nestingLimit text.toList = .ok (a, rest) := hread
  unfold read at hread
  split at hread
  · cases hread
  · rename_i hfront
    rw [StartsObject, hfront]
    rfl
  · rw [if_pos hkeeps] at hread
    cases hread
  · cases hread

end Record

end RecipeClient.Json
