import RecipeClient.Proofs.Json.RecordReading

/-!
# Records are restored

A written record has an entry for each member that is not left out, and its unknown members. In
whatever order they stand, each entry is gathered once, and putting the record together from them
gives every member the value that it had.

- `Record.Lawful.codec`: the codec of a lawful record is lawful
-/

namespace RecipeClient.Json

variable {ρ : Type}

/-! ## Layouts of entries -/

namespace Entries

/-- The entries as they are written: as they stand, or sorted and in canonical form. -/
def laidOut (sorting : Bool) (entries : Entries) : Entries :=
  if sorting then sorted (Value.canonicalMembers entries) else entries

theorem laidOut_object (sorting : Bool) (entries : Entries) :
    Value.laidOut sorting (.object entries) = .object (entries.laidOut sorting) := by
  cases sorting <;> rfl

variable {entries : Entries}

theorem mem_laidOut {sorting : Bool} {entry : String × Value} (h : entry ∈ entries.laidOut sorting) :
    ∃ e ∈ entries, entry = (e.1, e.2.laidOut sorting) := by
  cases sorting with
  | false => exact ⟨entry, h, rfl⟩
  | true => exact Value.exists_of_mem_canonical h

theorem keys_laidOut_perm (sorting : Bool) (h : entries.keys.Nodup) :
    (entries.laidOut sorting).keys.Perm entries.keys := by
  cases sorting with
  | false => exact List.Perm.refl _
  | true =>
    have hkeys := Value.keys_canonicalMembers entries
    have hperm := (sorted_perm (hkeys ▸ h)).map Prod.fst
    exact hkeys ▸ hperm

/-- Entries picked out of a layout by their keys, when they are sorted and canonical already. -/
theorem filter_laidOut (sorting : Bool) {picked : Entries} (h : entries.keys.Nodup) (p : String → Bool)
    (hpicked : entries.filter (fun entry => p entry.1) = picked) (hascending : picked.Ascending)
    (hcanonical : ∀ entry ∈ picked, entry.2.canonical = entry.2) :
    (entries.laidOut sorting).filter (fun entry => p entry.1) = picked := by
  cases sorting with
  | false => exact hpicked
  | true =>
    have hkeys := Value.keys_canonicalMembers entries
    have hperm := (sorted_perm (hkeys ▸ h)).filter fun entry => p entry.1
    -- picking entries out before or after their values are made canonical is the same
    have hmap : (Value.canonicalMembers entries).filter (fun entry => p entry.1) = picked := by
      calc (Value.canonicalMembers entries).filter (fun entry => p entry.1)
          = Value.canonicalMembers (entries.filter fun entry => p entry.1) := by
            rw [Value.canonicalMembers_eq_map, Value.canonicalMembers_eq_map, List.filter_map]
            rfl
        _ = picked := by rw [hpicked, Value.canonicalMembers_of_canonical hcanonical]
    rw [hmap] at hperm
    -- both are ascending and have the same entries
    exact ((ascending_sorted _).filter _).eq_of_perm hascending hperm

end Entries

namespace Record

open Member (collect fill)

variable {r : Record ρ} {depth height : Nat} {a : ρ}

/-! ## What is written -/

theorem entries_eq (r : Record ρ) (a : ρ) :
    r.entries a = r.members.filterMap (·.written? a) ++ r.rest a := rfl

theorem mem_written {entry : String × Value} (h : entry ∈ r.members.filterMap (·.written? a)) :
    ∃ m ∈ r.members, m.omits (m.get a) = false ∧ entry = (m.name, m.codec.write (m.get a)) := by
  obtain ⟨m, hm, hwritten⟩ := List.mem_filterMap.mp h
  unfold Member.written? at hwritten
  split at hwritten
  · exact absurd hwritten (by simp)
  · rename_i homits
    exact ⟨m, hm, Bool.eq_false_iff.mpr homits, (Option.some.inj hwritten).symm⟩

theorem knows_name {m : Member ρ} (hm : m ∈ r.members) : r.knows m.name = true :=
  List.any_eq_true.mpr ⟨m, hm, beq_self_eq_true _⟩

/-- The unknown members of a written record are the ones that it keeps. -/
theorem filter_entries (ha : r.Tidy a) :
    (r.entries a).filter (fun entry => !r.knows entry.1) = r.rest a := by
  rw [entries_eq, List.filter_append]
  have hwritten : (r.members.filterMap (·.written? a)).filter (fun entry => !r.knows entry.1) = [] := by
    apply List.filter_eq_nil_iff.mpr
    intro entry hentry
    obtain ⟨m, hm, _, rfl⟩ := mem_written hentry
    simp [knows_name hm]
  have hrest : (r.rest a).filter (fun entry => !r.knows entry.1) = r.rest a :=
    List.filter_eq_self.mpr fun entry hentry => by simp [ha.unknown entry hentry]
  rw [hwritten, hrest, List.nil_append]

theorem keys_written_sublist (ms : List (Member ρ)) (a : ρ) :
    (Entries.keys (ms.filterMap (·.written? a))).Sublist (ms.map (·.name)) := by
  induction ms with
  | nil => exact List.Sublist.slnil
  | cons m ms ih =>
    unfold Entries.keys at ih ⊢
    -- a member that is left out has no key in the text
    by_cases homits : m.omits (m.get a) = true
    · rw [List.filterMap_cons_none (by rw [Member.written?, if_pos homits])]
      exact ih.cons _
    · rw [List.filterMap_cons_some (by rw [Member.written?, if_neg homits])]
      exact ih.cons_cons _

theorem nodup_keys_entries (hr : r.Lawful height) (ha : r.Tidy a) :
    (Entries.keys (r.entries a)).Nodup := by
  rw [entries_eq, Entries.keys, List.map_append]
  refine List.nodup_append.mpr ⟨hr.names.sublist (keys_written_sublist _ a), ha.ascending.nodup, ?_⟩
  intro key hwritten other hrest heq
  obtain ⟨entry, hentry, rfl⟩ := List.mem_map.mp hwritten
  obtain ⟨m, hm, _, rfl⟩ := mem_written hentry
  obtain ⟨e, he, rfl⟩ := List.mem_map.mp hrest
  -- an unknown member is not named like a known one
  have hname : m.name = e.1 := heq
  have hknown := knows_name hm
  rw [hname, ha.unknown e he] at hknown
  exact absurd hknown Bool.false_ne_true

/-! ## Gathering what is written -/

/-- The member with a key, as what its value in a record does. -/
def known? (r : Record ρ) (a : ρ) (key : String) : Option (String × (ρ → ρ)) :=
  (r.members.find? (·.name == key)).map fun m => (key, (m.set · (m.get a)))

/-- The entry's value is read as the value of its member, or as it is if no member has its key. -/
def Readable (r : Record ρ) (depth : Nat) (a : ρ) (entry : String × Value) : Prop :=
  match r.members.find? (·.name == entry.1) with
  | some m => ∀ tail, Ends tail → m.codec.read depth (entry.2.chars ++ tail) = .ok (m.get a, tail)
  | none => r.remainder.isSome = true ∧
      ∀ tail, Ends tail → Value.read depth (entry.2.chars ++ tail) = .ok (entry.2, tail)

/-- What gathering an entry adds to what has been gathered. -/
def gathered (r : Record ρ) (a : ρ) (sofar : Gathered ρ) (entries : Entries) : Gathered ρ where
  known := sofar.known ++ entries.keys.filterMap (r.known? a)
  unknown := sofar.unknown ++ entries.filter fun entry => !r.knows entry.1

theorem gather_readable {entry : String × Value} (h : r.Readable depth a entry)
    {sofar : Gathered ρ} (hnew : ∀ known ∈ sofar.known, known.1 ≠ entry.1) {tail : List Char}
    (ht : Ends tail) :
    r.gather depth entry.1 sofar (':' :: (entry.2.chars ++ tail)) =
      .ok (r.gathered a sofar [entry], tail) := by
  unfold Readable at h
  unfold gather
  cases hfind : r.members.find? (·.name == entry.1) with
  | some m =>
    rw [hfind] at h
    -- no member has been gathered under the key before
    have hknown : sofar.known.any (·.1 == entry.1) = false := by
      apply List.any_eq_false.mpr
      intro known hknown
      simpa using hnew known hknown
    have hknows : r.knows entry.1 = true := by
      obtain ⟨hm, hname⟩ := mem_of_find? hfind
      exact hname ▸ knows_name hm
    have hupdate : m.readUpdate depth (entry.2.chars ++ tail) = .ok ((m.set · (m.get a)), tail) := by
      rw [Member.readUpdate, h tail ht, ok_bind]
      rfl
    simp [hknown, colon_cons, hupdate, gathered, Entries.keys, known?, hfind, hknows]
  | none =>
    rw [hfind] at h
    obtain ⟨place, hplace⟩ := Option.isSome_iff_exists.mp h.1
    have hknows : r.knows entry.1 = false := find?_eq_none.mp hfind
    simp [colon_cons, hplace, h.2 tail ht, gathered, Entries.keys, known?, hfind, hknows]

/-- Written entries are gathered one by one. -/
theorem gatherAll_membersBehind {entries : Entries} (hkeys : entries.keys.Nodup)
    (h : ∀ entry ∈ entries, r.Readable depth a entry) (sofar : Gathered ρ)
    (hnew : ∀ known ∈ sofar.known, known.1 ∉ entries.keys) (first : Bool) {fuel : Nat}
    (hfuel : entries.length < fuel) (tail : List Char) :
    r.gatherAll depth fuel first sofar (membersBehind first entries tail) =
      .ok (r.gathered a sofar entries, tail) := by
  induction entries generalizing sofar first fuel with
  | nil =>
    cases fuel with
    | zero => exact absurd hfuel (Nat.not_lt_zero _)
    | succ fuel => simp [gatherAll, nextKey_membersBehind_nil, gathered, Entries.keys]
  | cons entry rest ih =>
    cases fuel with
    | zero => exact absurd hfuel (Nat.not_lt_zero _)
    | succ fuel =>
      obtain ⟨hkey, hrest⟩ := List.nodup_cons.mp hkeys
      -- the entry is new, because no key stands twice in the text
      have hgather := gather_readable (h entry (List.mem_cons_self ..))
        (fun known hknown heq => hnew known hknown (heq ▸ List.mem_cons_self ..))
        (ends_membersBehind rest tail)
      have hnext : ∀ known ∈ (r.gathered a sofar [entry]).known, known.1 ∉ Entries.keys rest := by
        intro known hknown hmem
        rcases List.mem_append.mp hknown with hknown | hknown
        · exact hnew known hknown (List.mem_cons_of_mem _ hmem)
        · obtain ⟨key, hkey', hsome⟩ := List.mem_filterMap.mp hknown
          obtain rfl := List.mem_singleton.mp hkey'
          obtain ⟨m, _, rfl⟩ := Option.map_eq_some_iff.mp hsome
          exact hkey hmem
      have hall := ih hrest (fun e he => h e (List.mem_cons_of_mem _ he)) _ hnext false
        (Nat.lt_of_succ_lt_succ hfuel)
      obtain ⟨key, v⟩ := entry
      rw [gatherAll, nextKey_membersBehind_cons, ok_bind]
      simp only [hgather, ok_bind, hall]
      simp only [gathered, Entries.keys, List.append_assoc, ← List.filterMap_append,
        ← List.filter_append, List.map_cons, List.map_nil, List.singleton_append]

/-! ## Putting the record together -/

theorem find?_name (hr : r.Lawful height) {m : Member ρ} (hm : m ∈ r.members) :
    r.members.find? (·.name == m.name) = some m := by
  cases hfind : r.members.find? (·.name == m.name) with
  | none =>
    have hknown := knows_name hm
    rw [find?_eq_none.mp hfind] at hknown
    exact absurd hknown Bool.false_ne_true
  | some n =>
    obtain ⟨hn, hname⟩ := mem_of_find? hfind
    rw [List.inj_on_of_nodup_map hr.names hn hm hname]

theorem lookup_known (hr : r.Lawful height) {m : Member ρ} (hm : m ∈ r.members) (a : ρ)
    (keys : List String) :
    (keys.filterMap (r.known? a)).lookup m.name =
      if m.name ∈ keys then some (m.set · (m.get a)) else none := by
  induction keys with
  | nil => rfl
  | cons key keys ih =>
    by_cases hkey : key = m.name
    · have hsome : r.known? a key = some (m.name, (m.set · (m.get a))) := by
        rw [known?, hkey, find?_name hr hm]
        rfl
      rw [List.filterMap_cons_some hsome, List.lookup_cons_self,
        if_pos (hkey ▸ List.mem_cons_self ..)]
    · have hmem : m.name ∈ key :: keys ↔ m.name ∈ keys :=
        ⟨fun h => (List.mem_cons.mp h).resolve_left (Ne.symm hkey), List.mem_cons_of_mem _⟩
      -- an entry of another key is passed over, whether or not a member has it
      have hskip : ((key :: keys).filterMap (r.known? a)).lookup m.name =
          (keys.filterMap (r.known? a)).lookup m.name := by
        cases hknown : r.known? a key with
        | none => rw [List.filterMap_cons_none hknown]
        | some known =>
          obtain ⟨n, _, rfl⟩ := Option.map_eq_some_iff.mp hknown
          rw [List.filterMap_cons_some hknown, List.lookup_cons,
            beq_eq_false_iff_ne.mpr (Ne.symm hkey)]
      rw [hskip, ih]
      simp only [hmem]

/-- Every member gets the value that it had: from its entry, or because it was left out. -/
theorem assemble_known (hr : r.Lawful height) {keys : List String}
    (hwritten : ∀ m ∈ r.members, m.omits (m.get a) = false → m.name ∈ keys)
    {ms : List (Member ρ)} (hms : ∀ m ∈ ms, m ∈ r.members) (b : ρ) :
    assemble (keys.filterMap (r.known? a)) ms b = .ok (fill ms (collect ms a) b) := by
  induction ms generalizing b with
  | nil => rfl
  | cons m ms ih =>
    have hm := hms m (List.mem_cons_self ..)
    have hrest := ih (fun n hn => hms n (List.mem_cons_of_mem _ hn)) (m.set b (m.get a))
    rw [assemble, lookup_known hr hm]
    by_cases hkey : m.name ∈ keys
    · rw [if_pos hkey]
      exact hrest
    · rw [if_neg hkey]
      -- a member without an entry was left out when the record was written
      have homits : m.omits (m.get a) = true := by
        cases homits : m.omits (m.get a) with
        | true => rfl
        | false => exact absurd (hwritten m hm homits) hkey
      have hupdate : m.updateInObject? = some (m.set · (m.get a)) := by
        rw [Member.updateInObject?, (hr.members m hm).inObject? _ homits]
        rfl
      simp only [hupdate]
      exact hrest

/-! ## Records are restored -/

theorem readable_of_mem_laidOut (hr : r.Lawful height) (ha : r.Sound depth a)
    (hfaithful : Value.Faithful (.object (r.entries a))) {sorting : Bool}
    {entry : String × Value} (h : entry ∈ (r.entries a).laidOut sorting) :
    r.Readable depth a entry := by
  obtain ⟨e, he, rfl⟩ := Entries.mem_laidOut h
  have hdoubles := hfaithful.member he
  unfold Readable
  rw [entries_eq] at he
  rcases List.mem_append.mp he with he | he
  · obtain ⟨m, hm, homits, rfl⟩ := mem_written he
    rw [find?_name hr hm]
    -- a member that is written is one that its codec restores
    have hrestores := (ha.members m hm).resolve_left (by rw [homits]; exact Bool.false_ne_true)
    exact hrestores hdoubles sorting
  · have hremainder : r.remainder.isSome = true := by
      cases hremainder : r.remainder with
      | some place => rfl
      | none =>
        rw [rest_eq_nil hremainder] at he
        exact absurd he List.not_mem_nil
    rw [find?_eq_none.mpr (ha.unknown e he)]
    refine ⟨hremainder, ?_⟩
    intro tail ht
    rw [Value.laidOut_of_canonical (ha.canonical e he)]
    exact Value.read_chars (ha.fits e he) hdoubles ht

theorem mem_entries {m : Member ρ} (hm : m ∈ r.members) (homits : m.omits (m.get a) = false) :
    (m.name, m.codec.write (m.get a)) ∈ r.entries a := by
  have hwritten : m.written? a = some (m.name, m.codec.write (m.get a)) := by
    rw [Member.written?, homits]
    rfl
  exact List.mem_append_left _ (List.mem_filterMap.mpr ⟨m, hm, hwritten⟩)

theorem name_mem_keys_entries {m : Member ρ} (hm : m ∈ r.members)
    (homits : m.omits (m.get a) = false) : m.name ∈ Entries.keys (r.entries a) :=
  List.mem_map_of_mem (mem_entries hm homits)

theorem ofGathered_written (hr : r.Lawful height) (ha : r.Sound depth a) (sorting : Bool) :
    r.ofGathered (r.gathered a ⟨[], []⟩ ((r.entries a).laidOut sorting)) = .ok a := by
  have hnodup := nodup_keys_entries hr ha.toTidy
  have hperm := Entries.keys_laidOut_perm sorting hnodup
  have hassemble := assemble_known hr
    (fun m hm homits => hperm.symm.subset (name_mem_keys_entries hm homits))
    (fun m hm => hm) r.blank
  have hunknown := Entries.filter_laidOut sorting hnodup (fun key => !r.knows key)
    (filter_entries ha.toTidy) ha.ascending ha.canonical
  have hmake := hr.make_collect a
  simp only [ofGathered, gathered, List.nil_append, hassemble, ok_bind, hunknown,
    Value.canonicalMembers_of_canonical ha.canonical, Entries.sorted_of_ascending ha.ascending]
  unfold make at hmake
  split
  · rename_i place hplace
    rw [hplace] at hmake
    exact congrArg Except.ok hmake
  · rename_i hplace
    rw [hplace] at hmake
    exact congrArg Except.ok hmake

theorem restores_of_sound (hr : r.Lawful height) (ha : r.Sound depth a) :
    r.codec.Restores (depth + 1) a := by
  intro hfaithful sorting tail _
  have hkeys := nodup_keys_entries hr ha.toTidy
  have hnodup := (Entries.keys_laidOut_perm sorting hkeys).nodup_iff.mpr hkeys
  simp only [Record.codec] at hfaithful ⊢
  rw [Entries.laidOut_object, Value.chars, List.cons_append, List.append_assoc,
    List.singleton_append, memberChars_append, read, skipSpace_cons (by decide)]
  -- all entries are readable and have different keys, so they are gathered one by one
  have hgather := gatherAll_membersBehind hnodup
    (fun entry hentry => readable_of_mem_laidOut hr ha hfaithful hentry) ⟨[], []⟩
    (fun known hknown => absurd hknown List.not_mem_nil) true
    (Nat.lt_succ_of_lt (length_lt_membersBehind true _ tail)) tail
  simp only [hgather, ok_bind, ofGathered_written hr ha sorting]
  rfl

/-- The codec of a lawful record is lawful, one container further out. -/
theorem Lawful.codec (hr : r.Lawful height) : r.codec.Lawful (height + 1) where
  restores hdepth hread := by
    obtain ⟨inner, rfl, ha⟩ := sound_of_read hr hdepth hread
    exact restores_of_sound hr ha
  ne_null _ _ := Value.noConfusion

section Closed

variable (hremainder : r.remainder = none) (names : (r.members.map (·.name)).Nodup)
  (members : ∀ m ∈ r.members, m.Lawful height)
  (collect_fill : ∀ bs, collect r.members (fill r.members bs r.blank) = bs)
  (fill_collect : ∀ a, fill r.members (collect r.members a) r.blank = a)
include hremainder names members collect_fill fill_collect

/-- A record that does not keep unknown members is lawful if it is the values of its members. -/
theorem Lawful.of_closed : r.Lawful height := by
  refine ⟨names, members, fun bs unknown => ?_, fun h => ?_, fun a => ?_⟩
  · rw [make, hremainder]
    exact collect_fill bs
  · rw [hremainder] at h
    exact absurd h Bool.false_ne_true
  · rw [make, hremainder]
    exact fill_collect a

theorem lawful_closed : r.codec.Lawful (height + 1) :=
  (Lawful.of_closed hremainder names members collect_fill fill_collect).codec

end Closed

section Open

variable {place : Remainder ρ} (hremainder : r.remainder = some place)
  (names : (r.members.map (·.name)).Nodup) (members : ∀ m ∈ r.members, m.Lawful height)
  (collect_fill : ∀ bs unknown,
    collect r.members (place.set (fill r.members bs r.blank) unknown) = bs)
  (get_set : ∀ bs unknown, place.get (place.set (fill r.members bs r.blank) unknown) = unknown)
  (fill_collect : ∀ a,
    place.set (fill r.members (collect r.members a) r.blank) (place.get a) = a)
include hremainder names members collect_fill get_set fill_collect

/-- A record that keeps unknown members is lawful if it is the values of its members with them. -/
theorem Lawful.of_open : r.Lawful height := by
  refine ⟨names, members, fun bs unknown => ?_, fun _ bs unknown => ?_, fun a => ?_⟩
  · rw [make, hremainder]
    exact collect_fill bs unknown
  · rw [make, rest, hremainder]
    exact get_set bs unknown
  · rw [make, rest, hremainder]
    exact fill_collect a

theorem lawful_open : r.codec.Lawful (height + 1) :=
  (Lawful.of_open hremainder names members collect_fill get_set fill_collect).codec

end Open

end Record

/-! ## Lawful members -/

namespace Member

variable {β : Type} {name : String} {codec : Codec β} {height : Nat}

@[simp]
theorem lawful_required {get : ρ → β} {set : ρ → β → ρ} (h : codec.Lawful height) :
    (required name codec get set).Lawful height where
  codec := h
  inObject? _ homits := absurd homits Bool.false_ne_true
  sound _ _ _ habsent := nomatch habsent

@[simp]
theorem lawful_withDefault {value : β} {get : ρ → β} {set : ρ → β → ρ}
    (h : codec.Lawful height) (hvalue : ∀ depth, codec.Restores depth value) :
    (withDefault name codec value get set).Lawful height where
  codec := h
  inObject? _ homits := absurd homits Bool.false_ne_true
  sound _ depth _ habsent := Or.inr (Option.some.inj habsent ▸ hvalue depth)

section Optional

variable {get : ρ → Option β} {set : ρ → Option β → ρ}

@[simp]
theorem lawful_optional (h : codec.Lawful height) :
    (optional name codec get set).Lawful height where
  codec := h.optional
  inObject? _ homits := absurd homits Bool.false_ne_true
  sound _ _ _ habsent := Or.inr (Option.some.inj habsent ▸ Codec.restores_none)

@[simp]
theorem lawful_optionalOmitted (h : codec.Lawful height) :
    (optionalOmitted name codec get set).Lawful height where
  codec := h.optional
  inObject? _ homits := congrArg some (Option.isNone_iff_eq_none.mp homits).symm
  sound _ _ _ habsent := Or.inl (Option.some.inj habsent ▸ rfl)

@[simp]
theorem lawful_criterion (h : codec.Lawful height) :
    (criterion name codec get set).Lawful height where
  codec := h.optional
  inObject? _ homits := congrArg some (Option.isNone_iff_eq_none.mp homits).symm
  sound _ _ _ habsent := Or.inl (Option.some.inj habsent ▸ rfl)

end Optional

section Lists

variable {get : ρ → List β} {set : ρ → List β → ρ}

/-- The empty list needs room for its brackets. -/
theorem restores_nil {depth : Nat} (h : height + 1 ≤ depth) : codec.list.Restores depth [] := by
  cases depth with
  | zero => exact absurd h (Nat.not_succ_le_zero _)
  | succ depth => exact Codec.restores_list fun a ha => absurd ha List.not_mem_nil

@[simp]
theorem lawful_listOrNull (h : codec.Lawful height) :
    (listOrNull name codec get set).Lawful (height + 1) where
  codec := h.listOrNull
  inObject? _ homits := absurd homits Bool.false_ne_true
  sound _ _ hdepth habsent :=
    Or.inr (Option.some.inj habsent ▸ Codec.restores_listOrNull (restores_nil hdepth))

@[simp]
theorem lawful_list (h : codec.Lawful height) :
    (list name codec get set).Lawful (height + 1) where
  codec := h.list
  inObject? _ homits := absurd homits Bool.false_ne_true
  sound _ _ hdepth habsent := Or.inr (Option.some.inj habsent ▸ restores_nil hdepth)

@[simp]
theorem lawful_listOmitted (h : codec.Lawful height) :
    (listOmitted name codec get set).Lawful (height + 1) where
  codec := h.list
  inObject? _ homits := congrArg some (List.isEmpty_iff.mp homits).symm
  sound _ _ _ habsent := Or.inl (Option.some.inj habsent ▸ rfl)

end Lists

end Member

end RecipeClient.Json
